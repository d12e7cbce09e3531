import Mathlib.Data.List.Perm.Basic
import Mathlib.Data.List.Nodup
import Mathlib.Tactic
import UtkKernel.Structures.KernelError

/-! # Futex wait and wake at one address (`core/src/futex.c`)

The bodies of both system calls run with interrupts disabled, so each is one atomic step on the word
and on the queue of threads waiting on it. The futex table is a finite map from addresses to queues:
at one address it holds a queue or nothing. `kqueue_remove` does not count the size of a queue down,
so the queue of an address stays in the table once it is there. -/

namespace UtkKernel.Sync
set_option autoImplicit false

variable {T : Type}

/-- `futex_data_t`: a waiting thread and the value it waits for a change of. -/
structure FutexData (T : Type) where
  waitingThread : T
  wait : BitVec 32
  deriving DecidableEq, Repr

/-- The entry of the futex table at one address, its queue from the head on. -/
abbrev WaitQueue (T : Type) := Option (List (FutexData T))

/-! ## Waiting -/

inductive WaitResult
  | returned (err : OsReturnE)
  | blocked
  deriving DecidableEq, Repr

/-- `futex_wait` on a word that holds `value`. A fault is an error on the way to the blocking of the
thread (no memory, say): `futex_recover` then takes back what was done and hands the error out. -/
def futexWait (value val : BitVec 32) (t : T) (fault : Option OsReturnE) (queue : WaitQueue T) :
    WaitResult × WaitQueue T :=
  if value ≠ val then (.returned .osNoErr, queue)
  else
    match fault with
    | some err => (.returned err, queue)
    | none => (.blocked, some (⟨t, val⟩ :: queue.getD []))

/-! ## Waking -/

/-- The loop of `futex_wake`: at most `n` threads are woken, from the head on, and only those that
wait for a change from another value than the word holds. -/
def wakeLoop (value : BitVec 32) : ℕ → List (FutexData T) → List T × List (FutexData T)
  | 0, ws => ([], ws)
  | _ + 1, [] => ([], [])
  | n + 1, w :: ws =>
    if w.wait ≠ value then
      let r := wakeLoop value n ws
      (w.waitingThread :: r.1, r.2)
    else
      let r := wakeLoop value (n + 1) ws
      (r.1, w :: r.2)

/-- `futex_wake`: the error code, the threads put back in the scheduler, the queue left. -/
def futexWake (value : BitVec 32) (val : ℕ) (queue : WaitQueue T) :
    OsReturnE × List T × WaitQueue T :=
  match queue with
  | none => (.osErrNoSuchId, [], none)
  | some ws => (.osNoErr, (wakeLoop value val ws).1, some (wakeLoop value val ws).2)

/-- The threads of the queue. -/
def waiting (queue : WaitQueue T) : List T := (queue.getD []).map FutexData.waitingThread

@[simp] theorem waiting_none : waiting (none : WaitQueue T) = [] := rfl

@[simp] theorem waiting_some (ws : List (FutexData T)) :
    waiting (some ws) = ws.map FutexData.waitingThread := rfl

/-- A wake splits the queue: each waiting thread is woken or still waits. -/
theorem wakeLoop_perm (value : BitVec 32) (n : ℕ) (ws : List (FutexData T)) :
    ((wakeLoop value n ws).1 ++ (wakeLoop value n ws).2.map FutexData.waitingThread).Perm
      (ws.map FutexData.waitingThread) := by
  induction ws generalizing n with
  | nil => cases n <;> simp [wakeLoop]
  | cons w ws ih =>
    cases n with
    | zero => simp [wakeLoop]
    | succ n =>
      by_cases hw : w.wait ≠ value
      · simpa [wakeLoop, hw] using ih n
      · simp only [wakeLoop, hw, if_false, List.map_cons]
        exact List.perm_middle.trans ((ih (n + 1)).cons _)

theorem wakeLoop_subset {value : BitVec 32} {n : ℕ} {ws : List (FutexData T)} {w : FutexData T}
    (h : w ∈ (wakeLoop value n ws).2) : w ∈ ws := by
  induction ws generalizing n with
  | nil => cases n <;> simp [wakeLoop] at h
  | cons v ws ih =>
    cases n with
    | zero => simpa [wakeLoop] using h
    | succ n =>
      by_cases hv : v.wait ≠ value
      · simp only [wakeLoop, hv, ne_eq, not_false_eq_true, if_true] at h
        exact List.mem_cons_of_mem v (ih h)
      · simp only [wakeLoop, hv, if_false, List.mem_cons] at h
        exact List.mem_cons.mpr (h.imp_right ih)

/-- A wake finds a candidate whenever some thread waits for a change that has happened. -/
theorem wakeLoop_ne_nil {value : BitVec 32} {n : ℕ} {ws : List (FutexData T)} (hn : 0 < n)
    {w : FutexData T} (hw : w ∈ ws) (hv : w.wait ≠ value) : (wakeLoop value n ws).1 ≠ [] := by
  induction ws with
  | nil => simp at hw
  | cons u ws ih =>
    obtain ⟨n, rfl⟩ := Nat.exists_eq_succ_of_ne_zero hn.ne'
    by_cases hu : u.wait ≠ value
    · simp [wakeLoop, hu]
    · have hne : w ≠ u := fun he => hu (he ▸ hv)
      simpa [wakeLoop, hu] using ih (List.mem_of_ne_of_mem hne hw)

theorem futexWake_perm (value : BitVec 32) (n : ℕ) (queue : WaitQueue T) :
    ((futexWake value n queue).2.1 ++ waiting (futexWake value n queue).2.2).Perm
      (waiting queue) := by
  cases queue with
  | none => exact List.Perm.refl _
  | some ws => exact wakeLoop_perm value n ws

theorem futexWake_subset {value : BitVec 32} {n : ℕ} {queue : WaitQueue T} {w : FutexData T}
    (h : w ∈ (futexWake value n queue).2.2.getD []) : w ∈ queue.getD [] := by
  cases queue with
  | none => exact h
  | some ws => exact wakeLoop_subset h

theorem futexWake_ne_nil {value : BitVec 32} {n : ℕ} {queue : WaitQueue T} (hn : 0 < n)
    {w : FutexData T} (hw : w ∈ queue.getD []) (hv : w.wait ≠ value) :
    (futexWake value n queue).2.1 ≠ [] := by
  cases queue with
  | none => simp at hw
  | some ws => exact wakeLoop_ne_nil hn hw hv

/-- A wake has no error where the table holds a queue. -/
theorem futexWake_some {value : BitVec 32} {n : ℕ} {queue : WaitQueue T}
    (h : queue ≠ none) : (futexWake value n queue).1 = .osNoErr := by
  cases queue with
  | none => exact absurd rfl h
  | some ws => rfl

end UtkKernel.Sync
