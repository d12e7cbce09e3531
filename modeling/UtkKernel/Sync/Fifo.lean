import UtkKernel.Foundations.Service
import UtkKernel.Sync.MutexSafety
import UtkKernel.Sync.SemaphoreConservation

/-! # The order in which waiters are served

`kqueue_push` puts a thread at the head of the queue of a futex and `futex_wake` looks for one to wake
from the head on, so the last thread that blocked is woken first. With one thread in the queue the order
is right for want of another. -/

namespace UtkKernel.Sync
open Foundations
set_option autoImplicit false

/-! ## Clients of a futex -/

section
variable {T : Type}

/-- One thread at most waits, or the word still holds what every thread waits with. -/
def Lone (value : BitVec 32) (queue : WaitQueue T) : Prop :=
  (waiting queue).length ≤ 1 ∨ ∀ w ∈ queue.getD [], w.wait = value

instance (value : BitVec 32) (queue : WaitQueue T) : Decidable (Lone value queue) :=
  inferInstanceAs (Decidable (_ ∨ _))

/-- What a step does with the queue of a futex and the threads `blocked` on it. A step that meets the
guard wakes a thread only if it is alone. -/
inductive FutexMove (guard : Prop) (queue queue' : WaitQueue T) (blocked blocked' : T → Prop) : Prop
  | quiet (hqueue : queue' = queue) (hblocked : ∀ u, blocked' u ↔ blocked u)
  | wait (t : T) (val : BitVec 32) (ht : ¬ blocked t)
      (hqueue : queue' = some (⟨t, val⟩ :: queue.getD []))
      (hblocked : ∀ u, blocked' u ↔ u = t ∨ blocked u)
  | wake (value : BitVec 32) (hlone : guard → Lone value queue)
      (hqueue : queue' = (futexWake value 1 queue).2.2)
      (hblocked : ∀ u, blocked' u ↔ blocked u ∧ u ∉ (futexWake value 1 queue).2.1)

variable {guard : Prop} {queue queue' : WaitQueue T} {blocked blocked' : T → Prop}

theorem FutexMove.lists (h : FutexMove guard queue queue' blocked blocked')
    (hl : Lists (waiting queue) blocked) : Lists (waiting queue') blocked' := by
  cases h with
  | quiet hqueue hblocked =>
    rw [hqueue]
    exact hl.congr fun u => (hblocked u).symm
  | wait t val ht hqueue hblocked =>
    have hcons : waiting queue' = t :: waiting queue := by rw [hqueue]; rfl
    rw [hcons]
    refine ⟨List.nodup_cons.mpr ⟨fun hmem => ht ((hl.2 t).mp hmem), hl.1⟩, fun u => ?_⟩
    rw [hblocked, List.mem_cons, hl.2]
  | wake value _ hqueue hblocked =>
    have hperm := futexWake_perm value 1 queue
    obtain ⟨-, hrest, hdisjoint⟩ := List.nodup_append.mp (hperm.nodup_iff.mpr hl.1)
    rw [hqueue]
    refine ⟨hrest, fun u => ?_⟩
    rw [hblocked, ← hl.2, ← hperm.mem_iff, List.mem_append]
    constructor
    · intro hu
      exact ⟨.inr hu, fun hu' => hdisjoint u hu' u hu rfl⟩
    · rintro ⟨hu, hu'⟩
      exact hu.resolve_left hu'

theorem wakeLoop_of_all {value : BitVec 32} {n : ℕ} {ws : List (FutexData T)}
    (h : ∀ w ∈ ws, w.wait = value) : wakeLoop value n ws = ([], ws) := by
  induction ws with
  | nil => cases n <;> rfl
  | cons w ws ih =>
    obtain ⟨hw, hws⟩ := List.forall_mem_cons.mp h
    cases n with
    | zero => rfl
    | succ n => rw [wakeLoop, if_neg (not_not.mpr hw), ih hws]

/-- A wake that finds at most one thread takes it, or nobody. -/
theorem waiting_futexWake {value : BitVec 32} (h : Lone value queue) :
    Served.Moves (waiting queue) (waiting (futexWake value 1 queue).2.2) := by
  cases queue with
  | none => exact .stay []
  | some ws =>
    rcases h with hlen | hall
    · match ws, hlen with
      | [], _ => exact .stay []
      | [w], _ =>
        by_cases hw : w.wait = value
        · have hstay : futexWake value 1 (some [w]) = (.osNoErr, [], some [w]) := by
            simp [futexWake, wakeLoop, hw]
          rw [hstay]
          exact .stay _
        · have hleave : futexWake value 1 (some [w]) = (.osNoErr, [w.waitingThread], some []) := by
            simp [futexWake, wakeLoop, hw]
          rw [hleave]
          exact .leave _
    · have hloop : wakeLoop value 1 ws = ([], ws) := wakeLoop_of_all hall
      have hstay : futexWake value 1 (some ws) = (.osNoErr, [], some ws) := by
        simp [futexWake, hloop]
      rw [hstay]
      exact .stay _

theorem FutexMove.moves (h : FutexMove guard queue queue' blocked blocked') (hguard : guard) :
    Served.Moves (waiting queue) (waiting queue') := by
  cases h with
  | quiet hqueue =>
    rw [hqueue]
    exact .stay _
  | wait t val _ hqueue =>
    rw [hqueue]
    exact .arrive t _
  | wake value hlone hqueue =>
    rw [hqueue]
    exact waiting_futexWake (hlone hguard)

end

/-! ## The mutex -/

namespace MutexSystem
open MutexPc

/-- The mutex was just initialised, with any flags, and no thread has called on it. -/
structure StartedAs (flags : BitVec 32) (priority : BitVec 16) (s : MutexSystem) : Prop where
  mutex : mutexInit flags priority = .ok s.mutex
  waitQueue : s.waitQueue = none
  pc : ∀ t, s.pc t = .ret .osNoErr none
  holds : ∀ t, s.holds t = false

def Blocked (s : MutexSystem) (t : Tid) : Prop := (s.pc t).isBlocked = true

/-- A step that is a wake finds at most one thread to wake. -/
def WakesLone (s : MutexSystem) (a : Tid × MutexAct) : Prop :=
  ∀ inner, s.pc a.1 = .unlockWake inner → Lone s.mutex.state s.waitQueue

instance (s : MutexSystem) (a : Tid × MutexAct) : Decidable (s.WakesLone a) :=
  inferInstanceAs (Decidable (∀ _, _ → _))

variable {s s' : MutexSystem} {t : Tid} {guard : Prop}

/-- A step of `t` between two points at which it is not blocked. -/
theorem quiet_of_goto {pc : MutexPc} (hqueue : s'.waitQueue = s.waitQueue)
    (hpc : s'.pc = Function.update s.pc t pc) (hfrom : (s.pc t).isBlocked = false)
    (hto : pc.isBlocked = false) :
    FutexMove guard s.waitQueue s'.waitQueue s.Blocked s'.Blocked := by
  refine .quiet hqueue fun u => ?_
  unfold Blocked
  rw [hpc]
  by_cases hu : u = t
  · rw [hu, Function.update_self, hfrom, hto]
  · rw [Function.update_of_ne hu]

theorem schedSetParams_waitQueue (s : MutexSystem) (t : Tid) (priority : BitVec 32) :
    (s.schedSetParams t priority).2.waitQueue = s.waitQueue ∧
      (s.schedSetParams t priority).2.pc = s.pc := by
  unfold schedSetParams
  split_ifs <;> exact ⟨rfl, rfl⟩

/-- Where an unlock returns to. -/
theorem finishUnlock_goto (s : MutexSystem) (t : Tid) (inner : Option Bool) (err : OsReturnE) :
    (s.finishUnlock t inner err).waitQueue = s.waitQueue ∧ ∃ pc : MutexPc, pc.isBlocked = false ∧
      (s.finishUnlock t inner err).pc = Function.update s.pc t pc := by
  unfold finishUnlock
  cases inner with
  | none => exact ⟨rfl, _, rfl, rfl⟩
  | some tryOnly =>
    dsimp only
    split_ifs <;> exact ⟨rfl, _, rfl, rfl⟩

theorem quiet_unlockRestore {inner : Option Bool} (hpc : s.pc t = .unlockRestore inner) :
    FutexMove guard s.waitQueue (s.runUnlockRestore t inner).waitQueue s.Blocked
      (s.runUnlockRestore t inner).Blocked := by
  have hfrom : (s.pc t).isBlocked = false := by rw [hpc]; rfl
  obtain ⟨hqueue, hpcs⟩ := schedSetParams_waitQueue s t s.mutex.acquiredThreadPriority
  unfold runUnlockRestore
  split_ifs
  · split
    · next s1 hset =>
      rw [hset] at hqueue hpcs
      exact quiet_of_goto hqueue (congrArg (Function.update · t _) hpcs) hfrom rfl
    · next err s1 _ hset =>
      rw [hset] at hqueue hpcs
      obtain ⟨hq, pc, hto, hgoto⟩ := finishUnlock_goto s1 t inner err
      exact quiet_of_goto (hq.trans hqueue) (hgoto.trans (by rw [hpcs])) hfrom hto
  · exact quiet_of_goto rfl rfl hfrom rfl

theorem quiet_acquired {tryOnly : Bool} {params : Option (BitVec 32)}
    (hpc : s.pc t = .acquired tryOnly params) :
    FutexMove guard s.waitQueue (s.runAcquired t tryOnly params).waitQueue s.Blocked
      (s.runAcquired t tryOnly params).Blocked := by
  have hfrom : (s.pc t).isBlocked = false := by rw [hpc]; rfl
  have hset1 : ∀ s1 : MutexSystem, s1.waitQueue = s.waitQueue → s1.pc = s.pc → ∀ p,
      (s1.schedSetParams t p).2.waitQueue = s.waitQueue ∧ (s1.schedSetParams t p).2.pc = s.pc :=
    fun s1 hq hp p => by
      obtain ⟨hq1, hp1⟩ := schedSetParams_waitQueue s1 t p
      exact ⟨hq1.trans hq, hp1.trans hp⟩
  have h1 : (if s.mutex.recursive ≠ 0 then { s with mutex := { s.mutex with lockerTid := t } }
      else s).waitQueue = s.waitQueue ∧ (if s.mutex.recursive ≠ 0 then
        { s with mutex := { s.mutex with lockerTid := t } } else s).pc = s.pc := by
    split_ifs <;> exact ⟨rfl, rfl⟩
  unfold runAcquired
  dsimp only
  generalize (if s.mutex.recursive ≠ 0 then { s with mutex := { s.mutex with lockerTid := t } }
    else s) = s1 at h1
  generalize (if tryOnly = true then some mutexStateUnlocked else none) = value
  obtain ⟨hq1, hp1⟩ := h1
  split_ifs
  · have hset := hset1 { s1 with mutex := { s1.mutex with acquiredThreadPriority := params.getD 0 } }
      hq1 hp1 (s.mutex.prio >>> 8)
    split
    · next s3 he =>
      rw [he] at hset
      exact quiet_of_goto hset.1 (congrArg (Function.update · t _) hset.2) hfrom rfl
    · next s3 _ he =>
      rw [he] at hset
      exact quiet_of_goto hset.1 (congrArg (Function.update · t _) hset.2) hfrom rfl
  · exact quiet_of_goto hq1 (congrArg (Function.update · t _) hp1) hfrom rfl

theorem move_wait {params : Option (BitVec 32)} (hpc : s.pc t = .wait params)
    (fault : Option OsReturnE) :
    FutexMove guard s.waitQueue (s.runWait t params fault).waitQueue s.Blocked
      (s.runWait t params fault).Blocked := by
  have hfrom : (s.pc t).isBlocked = false := by rw [hpc]; rfl
  unfold runWait futexWait
  split_ifs with hvalue
  · exact quiet_of_goto rfl rfl hfrom rfl
  · cases fault with
    | some err =>
      dsimp only
      split_ifs <;> exact quiet_of_goto rfl rfl hfrom rfl
    | none =>
      refine .wait t mutexStateLockedWait (by simp [Blocked, hfrom]) rfl fun u => ?_
      by_cases hu : u = t
      · simp [Blocked, goto, hu, isBlocked]
      · simp [Blocked, goto, hu]

theorem move_unlockWake {inner : Option Bool} (hpc : s.pc t = .unlockWake inner)
    (hlone : guard → Lone s.mutex.state s.waitQueue) :
    FutexMove guard s.waitQueue (s.runUnlockWake t inner).waitQueue s.Blocked
      (s.runUnlockWake t inner).Blocked := by
  have hfrom : (s.pc t).isBlocked = false := by rw [hpc]; rfl
  unfold runUnlockWake
  generalize hr : futexWake s.mutex.state 1 s.waitQueue = r
  obtain ⟨err, woken, queue⟩ := r
  obtain ⟨hq, pc, hto, hgoto⟩ := finishUnlock_goto
    { s with waitQueue := queue, pc := fun u => if u ∈ woken then resume (s.pc u) else s.pc u } t
    inner err
  refine .wake s.mutex.state hlone (by rw [hr]; exact hq) fun u => ?_
  unfold Blocked
  rw [hgoto, hr]
  by_cases hu : u = t
  · simp [hu, hto, hfrom]
  · rw [Function.update_of_ne hu]
    by_cases hmem : u ∈ woken
    · simp only [hmem, if_true, not_true, and_false, iff_false]
      exact isBlocked_of_resume
    · simp [hmem]

theorem Step.futexMove {a : Tid × MutexAct} (hs : s.Step a s') :
    FutexMove (s.WakesLone a) s.waitQueue s'.waitQueue s.Blocked s'.Blocked := by
  obtain ⟨t, act⟩ := a
  simp only [Step] at hs
  cases act with
  | lock =>
    cases hpc : s.pc t <;> simp only [exec, hpc, Option.some.injEq, reduceCtorEq] at hs
    rw [← hs]
    exact quiet_of_goto rfl rfl (by rw [hpc]; rfl) rfl
  | trylock =>
    cases hpc : s.pc t <;> simp only [exec, hpc, Option.some.injEq, reduceCtorEq] at hs
    rw [← hs]
    exact quiet_of_goto rfl rfl (by rw [hpc]; rfl) rfl
  | unlock =>
    cases hpc : s.pc t <;> simp only [exec, hpc, reduceCtorEq] at hs
    split_ifs at hs
    rw [Option.some.injEq] at hs
    rw [← hs]
    exact quiet_of_goto rfl rfl (by rw [hpc]; rfl) rfl
  | run fault =>
    cases hpc : s.pc t <;> simp only [exec, hpc, Option.some.injEq, reduceCtorEq] at hs <;>
      rw [← hs]
    case wait => exact move_wait hpc fault
    case unlockWake => exact move_unlockWake hpc fun hlone => hlone _ hpc
    case acquired => exact quiet_acquired hpc
    case unlockRestore => exact quiet_unlockRestore hpc
    case unlockCheck inner =>
      unfold runUnlockCheck
      split_ifs
      · obtain ⟨hq, pc, hto, hgoto⟩ := finishUnlock_goto s t inner .osErrNotInitialized
        exact quiet_of_goto hq hgoto (by rw [hpc]; rfl) hto
      · exact quiet_of_goto rfl rfl (by rw [hpc]; rfl) rfl
    case unlockAdd inner =>
      unfold runUnlockAdd
      dsimp only
      split_ifs
      · exact quiet_of_goto rfl rfl (by rw [hpc]; rfl) rfl
      · obtain ⟨hq, pc, hto, hgoto⟩ :=
          finishUnlock_goto ((s.setState (s.mutex.state - 1)).setHolds t false) t inner .osNoErr
        exact quiet_of_goto hq hgoto (by rw [hpc]; rfl) hto
    case unlockStore => exact quiet_of_goto rfl rfl (by rw [hpc]; rfl) rfl
    case check =>
      unfold runCheck
      split_ifs <;> exact quiet_of_goto rfl rfl (by rw [hpc]; rfl) rfl
    case getParams =>
      unfold runGetParams
      split_ifs <;> exact quiet_of_goto rfl rfl (by rw [hpc]; rfl) rfl
    case fast =>
      unfold runFast
      dsimp only
      split_ifs <;> exact quiet_of_goto rfl rfl (by rw [hpc]; rfl) rfl
    case loop =>
      unfold runLoop
      dsimp only
      split_ifs <;> exact quiet_of_goto rfl rfl (by rw [hpc]; rfl) rfl
    case retry =>
      unfold runRetry
      dsimp only
      split_ifs <;> exact quiet_of_goto rfl rfl (by rw [hpc]; rfl) rfl

theorem lists_blocked {flags : BitVec 32} {priority : BitVec 16}
    (h : Reachable (StartedAs flags priority) Step s) : Lists (waiting s.waitQueue) s.Blocked := by
  refine h.invariant (fun s => Lists (waiting s.waitQueue) s.Blocked) (fun s hs => ?_)
    fun s a s' hl _ hs => hs.futexMove.lists hl
  rw [hs.waitQueue]
  refine lists_nil fun t ht => ?_
  rw [Blocked, hs.pc] at ht
  cases ht

end MutexSystem

/-! ## The semaphore -/

namespace SemSystem
variable {T : Type} [DecidableEq T]

def Blocked (s : SemSystem T) (t : T) : Prop := s.pc t = .blocked

/-- A step that is a wake finds at most one thread to wake. -/
def WakesLone (s : SemSystem T) (a : T × SemAct) : Prop :=
  s.pc a.1 = .postWake → Lone s.sem.level s.waitQueue

instance (s : SemSystem T) (a : T × SemAct) : Decidable (s.WakesLone a) :=
  inferInstanceAs (Decidable (_ → _))

variable {s s' : SemSystem T} {t : T} {guard : Prop}

@[simp] theorem goto_pc_self (s : SemSystem T) (t : T) (pc : SemPc) : (s.goto t pc).pc t = pc :=
  Function.update_self ..

/-- A step of `t` between two points at which it is not blocked. -/
theorem quiet_of_goto {pc : SemPc} (hqueue : s'.waitQueue = s.waitQueue)
    (hpc : s'.pc = Function.update s.pc t pc) (hfrom : s.pc t ≠ .blocked) (hto : pc ≠ .blocked) :
    FutexMove guard s.waitQueue s'.waitQueue s.Blocked s'.Blocked := by
  refine .quiet hqueue fun u => ?_
  unfold Blocked
  rw [hpc]
  by_cases hu : u = t
  · rw [hu, Function.update_self]
    exact iff_of_false hto hfrom
  · rw [Function.update_of_ne hu]

/-- A call moves its thread from a return to the first point of a function. -/
theorem call_goto {op : SemOp} (hs : s.Step (t, .call op) s') : (∃ err value, s.pc t = .ret err value) ∧
    s'.pc = Function.update s.pc t (.checkInit op) ∧ s'.sem = s.sem := by
  simp only [Step, exec] at hs
  split at hs
  · next err value hpc =>
    cases hs
    exact ⟨⟨err, value, hpc⟩, rfl, rfl⟩
  · cases hs

theorem spinlockLock_goto {pc : SemPc} (hs : s.spinlockLock t pc = some s') :
    s'.waitQueue = s.waitQueue ∧ s'.pc = Function.update s.pc t pc := by
  unfold spinlockLock at hs
  split_ifs at hs
  cases hs
  exact ⟨rfl, rfl⟩

theorem move_wait {val : BitVec 32} (hpc : s.pc t = .pendWait val) (fault : Option OsReturnE) :
    FutexMove guard s.waitQueue (s.runWait t val fault).waitQueue s.Blocked
      (s.runWait t val fault).Blocked := by
  have hfrom : s.pc t ≠ .blocked := by rw [hpc]; nofun
  unfold runWait futexWait
  split_ifs with hvalue
  · exact quiet_of_goto rfl rfl hfrom nofun
  · cases fault with
    | some err => exact quiet_of_goto rfl rfl hfrom nofun
    | none =>
      refine .wait t val hfrom rfl fun u => ?_
      by_cases hu : u = t
      · simp [Blocked, goto, hu]
      · simp [Blocked, goto, hu]

theorem resume_ne_blocked (pc : SemPc) : resume pc ≠ .blocked := by
  cases pc <;> nofun

theorem blocked_runWake (hpc : s.pc t = .postWake) (u : T) :
    (s.runWake t).Blocked u ↔ s.Blocked u ∧ u ∉ (futexWake s.sem.level 1 s.waitQueue).2.1 := by
  have hfrom : s.pc t ≠ .blocked := by rw [hpc]; nofun
  obtain ⟨err, he⟩ := runWake_eq s t
  rw [he]
  unfold Blocked
  by_cases hu : u = t
  · simp [hu, hfrom]
  · dsimp only
    rw [Function.update_of_ne hu]
    split_ifs with hmem
    · exact iff_of_false (resume_ne_blocked _) fun h => h.2 hmem
    · exact (and_iff_left hmem).symm

theorem move_wake (hpc : s.pc t = .postWake) (hlone : guard → Lone s.sem.level s.waitQueue) :
    FutexMove guard s.waitQueue (s.runWake t).waitQueue s.Blocked (s.runWake t).Blocked := by
  have hqueue : (s.runWake t).waitQueue = (futexWake s.sem.level 1 s.waitQueue).2.2 := by
    obtain ⟨err, he⟩ := runWake_eq s t
    rw [he]
  exact .wake s.sem.level hlone hqueue (blocked_runWake hpc)

theorem Step.futexMove {a : T × SemAct} (hs : s.Step a s') :
    FutexMove (s.WakesLone a) s.waitQueue s'.waitQueue s.Blocked s'.Blocked := by
  obtain ⟨t, act⟩ := a
  cases act with
  | call op =>
    simp only [Step, exec] at hs
    split at hs
    · next hpc =>
      cases hs
      exact quiet_of_goto rfl rfl (by rw [hpc]; simp) (by simp)
    · cases hs
  | run fault =>
    simp only [Step, exec] at hs
    unfold run at hs
    cases hpc : s.pc t <;> simp only [hpc, Option.some.injEq, reduceCtorEq] at hs
    case pendWait val =>
      rw [← hs]
      exact move_wait hpc fault
    case postWake =>
      rw [← hs]
      exact move_wake hpc fun hlone => hlone hpc
    case spin op =>
      obtain ⟨hqueue, hgoto⟩ := spinlockLock_goto hs
      exact quiet_of_goto hqueue hgoto (by rw [hpc]; simp) (by cases op <;> rintro ⟨⟩)
    case respin err =>
      obtain ⟨hqueue, hgoto⟩ := spinlockLock_goto hs
      exact quiet_of_goto hqueue hgoto (by rw [hpc]; simp) (by simp)
    case unlock op err value =>
      rw [← hs]
      unfold runUnlock
      dsimp only
      split_ifs <;> exact quiet_of_goto rfl rfl (by rw [hpc]; simp) (by simp)
    case unwaitersStore err waiters =>
      rw [← hs]
      split_ifs <;> exact quiet_of_goto rfl rfl (by rw [hpc]; simp) (by simp)
    case takeStore op level =>
      rw [← hs]
      split_ifs <;> exact quiet_of_goto rfl rfl (by rw [hpc]; simp) (by simp)
    case tryTest value =>
      cases value <;> split_ifs at hs <;> cases hs <;>
        exact quiet_of_goto rfl rfl (by rw [hpc]; simp) (by simp)
    case checkInit =>
      split_ifs at hs <;> cases hs <;> exact quiet_of_goto rfl rfl (by rw [hpc]; simp) (by simp)
    case pendTest =>
      split_ifs at hs <;> cases hs <;> exact quiet_of_goto rfl rfl (by rw [hpc]; simp) (by simp)
    case pendCheckInit =>
      split_ifs at hs <;> cases hs <;> exact quiet_of_goto rfl rfl (by rw [hpc]; simp) (by simp)
    case postTestLevel =>
      split_ifs at hs <;> cases hs <;> exact quiet_of_goto rfl rfl (by rw [hpc]; simp) (by simp)
    case postTestWaiters =>
      split_ifs at hs <;> cases hs <;> exact quiet_of_goto rfl rfl (by rw [hpc]; simp) (by simp)
    all_goals
      rw [← hs]
      exact quiet_of_goto rfl rfl (by rw [hpc]; simp) (by simp)

theorem lists_blocked {initLevel : BitVec 32} (h : Reachable (Started initLevel) Step s) :
    Lists (waiting s.waitQueue) s.Blocked := by
  refine h.invariant (fun s => Lists (waiting s.waitQueue) s.Blocked) (fun s hs => ?_)
    fun s a s' hl _ hs => hs.futexMove.lists hl
  rw [hs.waitQueue]
  refine lists_nil fun t ht => ?_
  rw [Blocked, hs.pc] at ht
  cases ht

end SemSystem

/-! ## Runs -/

theorem mutex_inOrder {flags : BitVec 32} {priority : BitVec 16} {x : Served MutexSystem Tid}
    (h : Guarded (Served.Init (MutexSystem.StartedAs flags priority))
      (Served.Step MutexSystem.Step MutexSystem.Blocked) (fun x a => x.state.WakesLone a) x) :
    x.InOrder := by
  refine Served.inOrder_of_moves MutexSystem.WakesLone (fun s => waiting s.waitQueue) (fun s hs => ?_)
    (fun s hs => MutexSystem.lists_blocked hs)
    (fun s a s' hlone hs _ => hs.futexMove.moves hlone) h
  rw [hs.waitQueue]
  rfl

theorem sem_inOrder {T : Type} [DecidableEq T] {initLevel : BitVec 32} {x : Served (SemSystem T) T}
    (h : Guarded (Served.Init (SemSystem.Started initLevel))
      (Served.Step SemSystem.Step SemSystem.Blocked) (fun x a => x.state.WakesLone a) x) :
    x.InOrder := by
  refine Served.inOrder_of_moves SemSystem.WakesLone (fun s => waiting s.waitQueue) (fun s hs => ?_)
    (fun s hs => SemSystem.lists_blocked hs)
    (fun s a s' hlone hs _ => hs.futexMove.moves hlone) h
  rw [hs.waitQueue]
  rfl

/-- The waiters of a mutex, and of a semaphore, are woken in the order in which they blocked in every
run each of whose wakes finds at most one thread to wake. -/
theorem waiters_served_in_order {T : Type} [DecidableEq T] (flags : BitVec 32) (priority : BitVec 16)
    (initLevel : BitVec 32) (x : Served MutexSystem Tid) (y : Served (SemSystem T) T) :
    (Guarded (Served.Init (MutexSystem.StartedAs flags priority))
      (Served.Step MutexSystem.Step MutexSystem.Blocked) (fun x a => x.state.WakesLone a) x →
        x.InOrder) ∧
      (Guarded (Served.Init (SemSystem.Started initLevel))
        (Served.Step SemSystem.Step SemSystem.Blocked) (fun y a => y.state.WakesLone a) y →
          y.InOrder) :=
  ⟨mutex_inOrder, sem_inOrder⟩

/-! ### Runs on fixed threads -/

/-- Thread `t` finds the mutex locked and blocks. -/
def lockAndBlock (t : Tid) : List (Tid × MutexSystem.MutexAct) :=
  (t, .lock) :: List.replicate 4 (t, .run none)

/-- Thread 0 locks, the others block one after another, then thread 0 unlocks. -/
def unlockAmong (ts : List Tid) : List (Tid × MutexSystem.MutexAct) :=
  (0, .lock) :: List.replicate 3 (0, .run none) ++ ts.flatMap lockAndBlock ++
    (0, .unlock) :: List.replicate 5 (0, .run none)

/-- Thread `t` finds the level at zero and blocks. -/
def pendAndBlock (t : ℕ) : List (ℕ × SemSystem.SemAct) :=
  (t, .call .pend) :: List.replicate 8 (t, .run none)

/-- The threads block one after another, then thread 0 posts. -/
def postAmong (ts : List ℕ) : List (ℕ × SemSystem.SemAct) :=
  ts.flatMap pendAndBlock ++ (0, .call .post) :: List.replicate 8 (0, .run none)

def emptySem : SemSystem ℕ :=
  ⟨semInit 0, none, fun _ => .ret .osNoErr none, 0, 0, 0, 0⟩

theorem freshMutex_startedAs : MutexSystem.freshMutex.StartedAs mutexFlagNone 0xFFFF#16 :=
  ⟨by rfl, rfl, fun _ => rfl, fun _ => rfl⟩

theorem emptySem_started : emptySem.Started 0 := ⟨rfl, rfl, fun _ => rfl, rfl, rfl, rfl, rfl⟩

/-- A step whose wake finds at most one thread to wake. -/
def loneMutexExec (s : MutexSystem) (a : Tid × MutexSystem.MutexAct) : Option MutexSystem :=
  if s.WakesLone a then s.exec a.1 a.2 else none

def loneSemExec (s : SemSystem ℕ) (a : ℕ × SemSystem.SemAct) : Option (SemSystem ℕ) :=
  if s.WakesLone a then s.exec a.1 a.2 else none

/-- The logs of a run of the mutex. -/
theorem mutex_logs (guard : MutexSystem → Tid × MutexSystem.MutexAct → Prop)
    (exec : MutexSystem → Tid × MutexSystem.MutexAct → Option MutexSystem)
    (acts : List (Tid × MutexSystem.MutexAct)) (logs : List Tid × List Tid)
    (hexec : ∀ s a s', exec s a = some s' → guard s a ∧ s.Step a s')
    (hrun : (runActs (Served.exec exec fun s => waiting s.waitQueue) ⟨MutexSystem.freshMutex, [], []⟩
      acts).map (fun x => (x.arrived, x.served)) = some logs) :
    ∃ x, Guarded (Served.Init (MutexSystem.StartedAs mutexFlagNone 0xFFFF#16))
      (Served.Step MutexSystem.Step MutexSystem.Blocked) (fun x a => guard x.state a) x ∧
        x.arrived = logs.1 ∧ x.served = logs.2 := by
  obtain ⟨x, hx, rfl⟩ := Option.map_eq_some_iff.mp hrun
  refine ⟨x, ?_, rfl, rfl⟩
  exact Served.runActs hexec (fun s hs => MutexSystem.lists_blocked hs)
    (.start ⟨freshMutex_startedAs, rfl, rfl⟩) (.start freshMutex_startedAs) hx

/-- The logs of a run of the semaphore. -/
theorem sem_logs (guard : SemSystem ℕ → ℕ × SemSystem.SemAct → Prop)
    (exec : SemSystem ℕ → ℕ × SemSystem.SemAct → Option (SemSystem ℕ))
    (acts : List (ℕ × SemSystem.SemAct)) (logs : List ℕ × List ℕ)
    (hexec : ∀ s a s', exec s a = some s' → guard s a ∧ s.Step a s')
    (hrun : (runActs (Served.exec exec fun s => waiting s.waitQueue) ⟨emptySem, [], []⟩
      acts).map (fun x => (x.arrived, x.served)) = some logs) :
    ∃ x, Guarded (Served.Init (SemSystem.Started 0))
      (Served.Step SemSystem.Step SemSystem.Blocked) (fun x a => guard x.state a) x ∧
        x.arrived = logs.1 ∧ x.served = logs.2 := by
  obtain ⟨x, hx, rfl⟩ := Option.map_eq_some_iff.mp hrun
  refine ⟨x, ?_, rfl, rfl⟩
  exact Served.runActs hexec (fun s hs => SemSystem.lists_blocked hs)
    (.start ⟨emptySem_started, rfl, rfl⟩) (.start emptySem_started) hx

/-- One thread blocks and is woken. -/
theorem waiters_served_in_order_one : ∃ (x : Served MutexSystem Tid) (y : Served (SemSystem ℕ) ℕ),
    (x.arrived = [1] ∧ x.served = [1] ∧ x.InOrder) ∧
      (y.arrived = [1] ∧ y.served = [1] ∧ y.InOrder) := by
  obtain ⟨x, hx, harrived, hserved⟩ := mutex_logs MutexSystem.WakesLone loneMutexExec
    (unlockAmong [1]) ([1], [1]) (fun s a s' h => by simpa [loneMutexExec, MutexSystem.Step] using h)
    (by decide +kernel)
  obtain ⟨y, hy, harrived', hserved'⟩ := sem_logs SemSystem.WakesLone loneSemExec
    (postAmong [1]) ([1], [1]) (fun s a s' h => by simpa [loneSemExec, SemSystem.Step] using h)
    (by decide +kernel)
  have h := waiters_served_in_order mutexFlagNone 0xFFFF#16 0 x y
  exact ⟨x, y, ⟨harrived, hserved, h.1 hx⟩, harrived', hserved', h.2 hy⟩

/-- Of two threads that blocked, the second is woken first. -/
theorem last_served_first :
    (¬ ∀ flags priority (x : Served MutexSystem Tid),
      Reachable (Served.Init (MutexSystem.StartedAs flags priority))
        (Served.Step MutexSystem.Step MutexSystem.Blocked) x → x.InOrder) ∧
      ¬ ∀ (initLevel : BitVec 32) (x : Served (SemSystem ℕ) ℕ),
        Reachable (Served.Init (SemSystem.Started initLevel))
          (Served.Step SemSystem.Step SemSystem.Blocked) x → x.InOrder := by
  constructor
  · intro hclaim
    obtain ⟨x, hx, harrived, hserved⟩ := mutex_logs (fun _ _ => True)
      (fun s a => s.exec a.1 a.2) (unlockAmong [1, 2]) ([1, 2], [2])
      (fun s a s' h => ⟨trivial, h⟩) (by decide +kernel)
    have horder := hclaim _ _ x hx
    rw [Served.InOrder, harrived, hserved] at horder
    exact absurd horder (by decide)
  · intro hclaim
    obtain ⟨x, hx, harrived, hserved⟩ := sem_logs (fun _ _ => True)
      (fun s a => s.exec a.1 a.2) (postAmong [1, 2]) ([1, 2], [2])
      (fun s a s' h => ⟨trivial, h⟩) (by decide +kernel)
    have horder := hclaim 0 x hx
    rw [Served.InOrder, harrived, hserved] at horder
    exact absurd horder (by decide)

end UtkKernel.Sync
