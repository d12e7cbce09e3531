import UtkKernel.Sync.Fifo
import UtkKernel.Sync.MutexFrame

/-! # The destruction of a mutex (`lib/libapi/src/mutex.c`)

Any thread may destroy the mutex that others lock, try and unlock, whether they hold it or not. An unlock
reads the state once and then subtracts from it, so an unlock that the destruction overtakes writes to a
destroyed mutex, and its store makes the mutex a free one again. -/

namespace UtkKernel.Sync
open Foundations
set_option autoImplicit false

abbrev mutexStateDestroyed : BitVec 32 := 4#32
abbrev mutexMaxLockedThread : ℕ := 0xFFFFFFFF

/-- Points of `mutex_destroy`, before the access that names the point. -/
inductive DestroyPc
  | check
  | store
  | wake
  deriving DecidableEq, Repr

/-- A mutex, the threads that destroy it, whether one has stored the destroyed state, and the threads
whose last lock or trylock began, or came to its first compare-and-swap, after that. -/
structure DestroySystem where
  base : MutexSystem
  destroying : Tid → Option DestroyPc
  destroyed : Bool
  late : Tid → Bool

namespace DestroySystem
open MutexSystem

inductive DestroyAct
  | lock
  | trylock
  | unlock
  | destroy
  | run (fault : Option OsReturnE)
  deriving DecidableEq, Repr

/-- The destroyer returns. -/
def finish (s : DestroySystem) (t : Tid) (err : OsReturnE) : DestroySystem :=
  { s with base := s.base.goto t (.ret err none), destroying := Function.update s.destroying t none }

def advance (s : DestroySystem) (t : Tid) (pc : DestroyPc) : DestroySystem :=
  { s with destroying := Function.update s.destroying t (some pc) }

/-- The step of a thread in `mutex_destroy`. -/
def runDestroy (s : DestroySystem) (t : Tid) : DestroyPc → DestroySystem
  | .check =>
    if !isMutexState s.base.mutex.state then s.finish t .osErrNotInitialized else s.advance t .store
  | .store =>
    { s with base := s.base.setState mutexStateDestroyed, destroyed := true }.advance t .wake
  | .wake =>
    match futexWake s.base.mutex.state mutexMaxLockedThread s.base.waitQueue with
    | (err, woken, queue) =>
      { s with base := { s.base with
                 waitQueue := queue
                 pc := fun u => if u ∈ woken then resume (s.base.pc u) else s.base.pc u } }.finish t err

/-- The thread is about to make the first compare-and-swap of a lock. -/
def isFast : MutexPc → Bool
  | .fast _ _ => true
  | _ => false

/-- A call of `t`, which is in no other one. -/
def call (s : DestroySystem) (t : Tid) (act : MutexAct) : Option DestroySystem :=
  if s.destroying t = none then
    (s.base.exec t act).map fun b => { s with base := b, late := Function.update s.late t s.destroyed }
  else none

/-- One atomic step of thread `t`; here a thread may unlock a mutex that it does not hold. -/
def exec (s : DestroySystem) (t : Tid) : DestroyAct → Option DestroySystem
  | .lock => s.call t .lock
  | .trylock => s.call t .trylock
  | .unlock =>
    match s.base.pc t, s.destroying t with
    | .ret _ _, none =>
      some { s with base := s.base.goto t (.unlockCheck none), late := Function.update s.late t false }
    | _, _ => none
  | .destroy =>
    match s.base.pc t, s.destroying t with
    | .ret _ _, none => some ({ s with late := Function.update s.late t false }.advance t .check)
    | _, _ => none
  | .run fault =>
    match s.destroying t with
    | some pc => some (s.runDestroy t pc)
    | none =>
      (s.base.exec t (.run fault)).map fun b => { s with
        base := b
        late := Function.update s.late t (s.late t || (s.destroyed && isFast (s.base.pc t))) }

def Step (s : DestroySystem) (a : Tid × DestroyAct) (s' : DestroySystem) : Prop :=
  s.exec a.1 a.2 = some s'

/-- The mutex was just initialised, with any flags, and no thread has called on it. -/
structure Started (flags : BitVec 32) (priority : BitVec 16) (s : DestroySystem) : Prop where
  base : s.base.StartedAs flags priority
  destroying : ∀ t, s.destroying t = none
  destroyed : s.destroyed = false
  late : ∀ t, s.late t = false

/-- Once the destroyed state is stored it stays, and no later lock or trylock returns without error. -/
structure Final (s : DestroySystem) : Prop where
  state : s.destroyed = true → s.base.mutex.state = mutexStateDestroyed
  late : ∀ t value, s.late t = true → s.base.pc t ≠ .ret .osNoErr value

/-- The step is not one by which an unlock writes to a destroyed mutex. -/
def NoLateUnlock (s : DestroySystem) (a : Tid × DestroyAct) : Prop :=
  s.destroyed = true → ∀ fault, a.2 = .run fault →
    ∀ inner, s.base.pc a.1 ≠ .unlockAdd inner ∧ s.base.pc a.1 ≠ .unlockStore inner

/-! ## After the destruction -/

/-- Points of a lock that did not and cannot take the destroyed mutex any more, and its return. -/
def barred : MutexPc → Bool
  | .ret err _ => err != .osNoErr
  | .check _ => true
  | .loop _ _ _ => true
  | .wait _ => true
  | .retry _ _ => true
  | _ => false

section
variable {s s' : MutexSystem} {t : Tid} {fault : Option OsReturnE}

theorem finishUnlock_mutex (s : MutexSystem) (t : Tid) (inner : Option Bool) (err : OsReturnE) :
    (s.finishUnlock t inner err).mutex = s.mutex := by
  unfold finishUnlock
  cases inner with
  | none => rfl
  | some tryOnly =>
    dsimp only
    split <;> rfl

theorem schedSetParams_mutex (s : MutexSystem) (t : Tid) (priority : BitVec 32) :
    (s.schedSetParams t priority).2.mutex = s.mutex := by
  unfold schedSetParams
  split_ifs <;> rfl

theorem runAcquired_state (s : MutexSystem) (t : Tid) (tryOnly : Bool) (params : Option (BitVec 32)) :
    (s.runAcquired t tryOnly params).mutex.state = s.mutex.state := by
  have h1 : (if s.mutex.recursive ≠ 0 then { s with mutex := { s.mutex with lockerTid := t } }
      else s).mutex.state = s.mutex.state := by
    split_ifs <;> rfl
  unfold runAcquired
  dsimp only
  generalize (if s.mutex.recursive ≠ 0 then { s with mutex := { s.mutex with lockerTid := t } }
    else s) = s1 at h1
  generalize (if tryOnly = true then some mutexStateUnlocked else none) = value
  split_ifs
  · have hset := schedSetParams_mutex
      { s1 with mutex := { s1.mutex with acquiredThreadPriority := params.getD 0 } } t
      (s.mutex.prio >>> 8)
    split
    · next s3 he =>
      rw [he] at hset
      exact (congrArg Mutex.state hset).trans h1
    · next s3 _ he =>
      rw [he] at hset
      exact (congrArg Mutex.state hset).trans h1
  · exact h1

theorem runUnlockRestore_state (s : MutexSystem) (t : Tid) (inner : Option Bool) :
    (s.runUnlockRestore t inner).mutex.state = s.mutex.state := by
  have hset := schedSetParams_mutex s t s.mutex.acquiredThreadPriority
  unfold runUnlockRestore
  split_ifs
  · split
    · next s1 he =>
      rw [he] at hset
      have hstate : s1.mutex.state = s.mutex.state := congrArg Mutex.state hset
      exact hstate
    · next err s1 _ he =>
      rw [he] at hset
      exact congrArg Mutex.state ((finishUnlock_mutex s1 t inner err).trans hset)
  · rfl

theorem cas_destroyed (hstate : s.mutex.state = mutexStateDestroyed) {oldVal : BitVec 32}
    (newVal : BitVec 32) (h : oldVal ≠ mutexStateDestroyed) :
    (s.atomicCas oldVal newVal).mutex.state = mutexStateDestroyed := by
  simp [atomicCas, setState, hstate, h.symm]

/-- Only the fetch-and-add and the store of an unlock write over the destroyed state. -/
theorem destroyed_kept (hstate : s.mutex.state = mutexStateDestroyed)
    (hunlock : ∀ inner, s.pc t ≠ .unlockAdd inner ∧ s.pc t ≠ .unlockStore inner)
    (hs : s.exec t (.run fault) = some s') : s'.mutex.state = mutexStateDestroyed := by
  cases hpc : s.pc t <;> simp only [MutexSystem.exec, hpc, Option.some.injEq, reduceCtorEq] at hs <;>
    rw [← hs]
  case check =>
    unfold runCheck
    split_ifs <;> exact hstate
  case getParams =>
    unfold runGetParams
    split_ifs <;> exact hstate
  case fast =>
    unfold runFast
    dsimp only
    split_ifs <;> exact cas_destroyed hstate _ (by decide)
  case loop =>
    unfold runLoop
    dsimp only
    split_ifs
    · exact hstate
    · exact cas_destroyed hstate _ (by decide)
    · exact cas_destroyed hstate _ (by decide)
  case wait =>
    unfold runWait
    split
    · exact hstate
    · split_ifs <;> exact hstate
  case retry =>
    unfold runRetry
    dsimp only
    split_ifs <;> exact cas_destroyed hstate _ (by decide)
  case acquired => exact (runAcquired_state s t _ _).trans hstate
  case unlockCheck =>
    unfold runUnlockCheck
    split_ifs
    · rw [finishUnlock_mutex]
      exact hstate
    · exact hstate
  case unlockRestore => exact (runUnlockRestore_state s t _).trans hstate
  case unlockAdd inner => exact absurd hpc (hunlock inner).1
  case unlockStore inner => exact absurd hpc (hunlock inner).2
  case unlockWake =>
    unfold runUnlockWake
    dsimp only
    rw [finishUnlock_mutex]
    exact hstate

/-- On a destroyed mutex the check fails, and so does every compare-and-swap. -/
theorem barred_run (hstate : s.mutex.state = mutexStateDestroyed)
    (hbarred : barred (s.pc t) = true ∨ isFast (s.pc t) = true)
    (hs : s.exec t (.run fault) = some s') : barred (s'.pc t) = true := by
  have hno : isMutexState s.mutex.state = false := by rw [hstate]; rfl
  have hunlocked : s.mutex.state ≠ mutexStateUnlocked := by rw [hstate]; decide
  have hwait : s.mutex.state ≠ mutexStateLockedWait := by rw [hstate]; decide
  cases hpc : s.pc t <;> simp only [MutexSystem.exec, hpc, Option.some.injEq, reduceCtorEq] at hs <;>
    rw [hpc] at hbarred <;> rw [← hs]
  case check =>
    rw [runCheck, hno, Bool.not_false, if_pos rfl, goto_pc_self]
    rfl
  case fast tryOnly params =>
    rw [runFast, if_neg hunlocked]
    split_ifs <;> rw [goto_pc_self] <;> rfl
  case loop =>
    unfold runLoop
    dsimp only
    split_ifs <;> rw [goto_pc_self] <;> rfl
  case wait =>
    have hfutex : futexWait s.mutex.state mutexStateLockedWait t fault s.waitQueue =
        (.returned .osNoErr, s.waitQueue) := if_pos hwait
    rw [runWait, hfutex]
    dsimp only
    rw [if_neg (not_not.mpr rfl), goto_pc_self]
    rfl
  case retry =>
    rw [runRetry, hno, Bool.not_false, if_pos rfl, goto_pc_self]
    rfl
  all_goals simp [barred, isFast] at hbarred

end

/-! ## Runs -/

variable {s s' : DestroySystem} {t u : Tid}

structure Inv (s : DestroySystem) : Prop where
  state : s.destroyed = true → s.base.mutex.state = mutexStateDestroyed
  late : ∀ t, s.late t = true → s.destroyed = true ∧ barred (s.base.pc t) = true
  idle : ∀ t pc, s.destroying t = some pc →
    s.late t = false ∧ ∃ err value, s.base.pc t = .ret err value

theorem Inv.final (h : s.Inv) : s.Final := by
  refine ⟨h.state, fun t value ht hpc => ?_⟩
  have hb := (h.late t ht).2
  rw [hpc] at hb
  cases hb

theorem barred_resume {pc : MutexPc} (h : barred pc = true) : barred (resume pc) = true := by
  cases pc <;> first | exact h | cases h

/-- A thread that is between two calls, or late, is so after the step of another thread. -/
theorem Inv.others (h : s.Inv) {b : MutexSystem} (hframe : Frame s.base b t) (hu : u ≠ t) :
    (s.late u = true → barred (b.pc u) = true) ∧
      ∀ pc, s.destroying u = some pc → ∃ err value, b.pc u = .ret err value := by
  rcases hframe.pc u hu with he | he
  · rw [he]
    exact ⟨fun hl => (h.late u hl).2, fun pc hpc => (h.idle u pc hpc).2⟩
  · rw [he]
    refine ⟨fun hl => barred_resume (h.late u hl).2, fun pc hpc => ?_⟩
    obtain ⟨-, err, value, hret⟩ := h.idle u pc hpc
    exact ⟨err, value, by rw [hret]; rfl⟩

/-- The invariant from what a step does to the thread that takes it. -/
theorem Inv.of_frame (h : s.Inv) (hframe : Frame s.base s'.base t)
    (hdestroyed : s.destroyed = true → s'.destroyed = true)
    (hlate : ∀ u, u ≠ t → s'.late u = s.late u)
    (hdestroying : ∀ u, u ≠ t → s'.destroying u = s.destroying u)
    (hstate : s'.destroyed = true → s'.base.mutex.state = mutexStateDestroyed)
    (hself : s'.late t = true → s'.destroyed = true ∧ barred (s'.base.pc t) = true)
    (hidle : ∀ pc, s'.destroying t = some pc →
      s'.late t = false ∧ ∃ err value, s'.base.pc t = .ret err value) : s'.Inv := by
  refine ⟨hstate, fun u hl => ?_, fun u pc hpc => ?_⟩
  · by_cases hu : u = t
    · rw [hu] at hl ⊢
      exact hself hl
    · rw [hlate u hu] at hl
      exact ⟨hdestroyed (h.late u hl).1, (h.others hframe hu).1 hl⟩
  · by_cases hu : u = t
    · rw [hu] at hpc ⊢
      exact hidle pc hpc
    · rw [hdestroying u hu] at hpc
      exact ⟨by rw [hlate u hu, (h.idle u pc hpc).1], (h.others hframe hu).2 pc hpc⟩

theorem Inv.call {act : MutexAct} (h : s.Inv) (hact : act = .lock ∨ act = .trylock)
    (hs : s.call t act = some s') : s'.Inv := by
  unfold DestroySystem.call at hs
  split_ifs at hs with hfree
  obtain ⟨b, hb, rfl⟩ := Option.map_eq_some_iff.mp hs
  have hframe : Frame s.base b t := MutexSystem.Step.frame (a := (t, act)) hb
  have hgoto : b.mutex = s.base.mutex ∧ ∃ tryOnly, b.pc t = .check tryOnly := by
    rcases hact with rfl | rfl <;> unfold MutexSystem.exec at hb <;> dsimp only at hb <;>
      split at hb <;> cases hb <;> exact ⟨rfl, _, goto_pc_self ..⟩
  obtain ⟨hmutex, tryOnly, hpc⟩ := hgoto
  refine h.of_frame hframe id (fun u hu => Function.update_of_ne hu _ _) (fun u _ => rfl) (fun hd => ?_)
    (fun hl => ?_) fun pc hd => ?_
  · rw [hmutex]
    exact h.state hd
  · have hd : s.destroyed = true := (Function.update_self t s.destroyed s.late).symm.trans hl
    exact ⟨hd, by rw [hpc]; rfl⟩
  · rw [hfree] at hd
    cases hd

theorem Inv.unlock (h : s.Inv) (hfree : s.destroying t = none) :
    Inv { s with base := s.base.goto t (.unlockCheck none), late := Function.update s.late t false } := by
  refine h.of_frame ((Frame.refl s.base t).goto _) id (fun u hu => Function.update_of_ne hu _ _)
    (fun u _ => rfl) h.state (fun hl => ?_) fun pc hd => ?_
  · dsimp only at hl
    rw [Function.update_self] at hl
    cases hl
  · rw [hfree] at hd
    cases hd

theorem Inv.destroy (h : s.Inv) {err : OsReturnE} {value : Option (BitVec 32)}
    (hpc : s.base.pc t = .ret err value) :
    Inv ({ s with late := Function.update s.late t false }.advance t .check) := by
  refine h.of_frame (Frame.refl s.base t) id (fun u hu => Function.update_of_ne hu _ _)
    (fun u hu => Function.update_of_ne hu _ _) h.state (fun hl => ?_) fun pc _ => ?_
  · dsimp only [advance] at hl
    rw [Function.update_self] at hl
    cases hl
  · exact ⟨Function.update_self .., err, value, hpc⟩

theorem Inv.finish {b : MutexSystem} (h : s.Inv) (hframe : Frame s.base b t)
    (hmutex : b.mutex = s.base.mutex) (hlate : s.late t = false) (err : OsReturnE) :
    Inv ({ s with base := b }.finish t err) := by
  refine h.of_frame (hframe.goto _) id (fun _ _ => rfl) (fun u hu => Function.update_of_ne hu _ _)
    (fun hd => ?_) (fun hl => ?_) fun pc hd => ?_
  · change b.mutex.state = _
    rw [hmutex]
    exact h.state hd
  · change s.late t = true at hl
    rw [hlate] at hl
    cases hl
  · dsimp only [DestroySystem.finish] at hd
    rw [Function.update_self] at hd
    cases hd

theorem Inv.runDestroy {pc : DestroyPc} (h : s.Inv) (hpc : s.destroying t = some pc) :
    (s.runDestroy t pc).Inv := by
  obtain ⟨hlate, err, value, hret⟩ := h.idle t pc hpc
  have hnot : s.late t ≠ true := by simp [hlate]
  cases pc with
  | check =>
    simp only [DestroySystem.runDestroy]
    split_ifs
    · exact h.finish (Frame.refl s.base t) rfl hlate _
    · exact h.of_frame (Frame.refl s.base t) id (fun _ _ => rfl) (fun u hu => Function.update_of_ne hu _ _)
        h.state (fun hl => absurd hl hnot) fun _ _ => ⟨hlate, err, value, hret⟩
  | store =>
    exact h.of_frame ((Frame.refl s.base t).setState _) (fun _ => rfl) (fun _ _ => rfl)
      (fun u hu => Function.update_of_ne hu _ _) (fun _ => rfl) (fun hl => absurd hl hnot)
      fun _ _ => ⟨hlate, err, value, hret⟩
  | wake => exact h.finish (frame_wake s.base t _ _) rfl hlate _

theorem Inv.run {fault : Option OsReturnE} {b : MutexSystem} (h : s.Inv)
    (hguard : s.NoLateUnlock (t, .run fault)) (hfree : s.destroying t = none)
    (hs : s.base.exec t (.run fault) = some b) : Inv { s with
      base := b
      late := Function.update s.late t (s.late t || (s.destroyed && isFast (s.base.pc t))) } := by
  refine h.of_frame (MutexSystem.Step.frame (a := (t, .run fault)) hs) id
    (fun u hu => Function.update_of_ne hu _ _) (fun _ _ => rfl) (fun hd => ?_) (fun hl => ?_)
    fun pc hd => ?_
  · exact destroyed_kept (h.state hd) (hguard hd fault rfl) hs
  · dsimp only at hl ⊢
    rw [Function.update_self, Bool.or_eq_true, Bool.and_eq_true] at hl
    rcases hl with hl | ⟨hd, hfast⟩
    · obtain ⟨hd, hb⟩ := h.late t hl
      exact ⟨hd, barred_run (h.state hd) (.inl hb) hs⟩
    · exact ⟨hd, barred_run (h.state hd) (.inr hfast) hs⟩
  · rw [hfree] at hd
    cases hd

theorem Inv.step {a : Tid × DestroyAct} (h : s.Inv) (hguard : s.NoLateUnlock a) (hs : s.Step a s') :
    s'.Inv := by
  obtain ⟨t, act⟩ := a
  cases act with
  | lock => exact h.call (.inl rfl) hs
  | trylock => exact h.call (.inr rfl) hs
  | unlock =>
    simp only [Step, exec] at hs
    split at hs
    · next hfree =>
      cases hs
      exact h.unlock hfree
    · cases hs
  | destroy =>
    simp only [Step, exec] at hs
    split at hs
    · next hpc _ =>
      cases hs
      exact h.destroy hpc
    · cases hs
  | run fault =>
    simp only [Step, exec] at hs
    split at hs
    · next pc hpc =>
      cases hs
      exact h.runDestroy hpc
    · next hfree =>
      obtain ⟨b, hb, rfl⟩ := Option.map_eq_some_iff.mp hs
      exact h.run hguard hfree hb

/-- A step to a final state is no unlock's write to the destroyed mutex. -/
theorem noLateUnlock_of_final {a : Tid × DestroyAct} (h : s.Inv) (hs : s.Step a s') (hfinal : s'.Final) :
    s.NoLateUnlock a := by
  obtain ⟨t, act⟩ := a
  rintro hd fault rfl inner
  have hstate := h.state hd
  simp only [Step, exec] at hs
  split at hs
  · next pc hpc =>
    obtain ⟨-, err, value, hret⟩ := h.idle t pc hpc
    simp [hret]
  · obtain ⟨b, hb, rfl⟩ := Option.map_eq_some_iff.mp hs
    have hkept : b.mutex.state = mutexStateDestroyed := hfinal.state hd
    constructor
    · intro hpc
      simp only [MutexSystem.exec, hpc, Option.some.injEq] at hb
      rw [← hb, runUnlockAdd, hstate, if_pos (by decide)] at hkept
      have hword : mutexStateDestroyed - 1 = mutexStateDestroyed := hkept
      exact absurd hword (by decide)
    · intro hpc
      simp only [MutexSystem.exec, hpc, Option.some.injEq] at hb
      rw [← hb] at hkept
      have hword : mutexStateUnlocked = mutexStateDestroyed := hkept
      exact absurd hword (by decide)

theorem Started.inv {flags : BitVec 32} {priority : BitVec 16} (h : s.Started flags priority) :
    s.Inv := by
  refine ⟨fun hd => ?_, fun t hl => ?_, fun t pc hpc => ?_⟩
  · rw [h.destroyed] at hd
    cases hd
  · rw [h.late] at hl
    cases hl
  · rw [h.destroying] at hpc
    cases hpc

/-- Every state of a run is final exactly when no unlock writes to the mutex after its destruction. -/
theorem destruction_final {flags : BitVec 32} {priority : BitVec 16} {l : List ((Tid × DestroyAct) × DestroySystem)}
    (hstart : s.Started flags priority) (hrun : Trace Step s l) :
    (∀ x ∈ l, x.2.Final) ↔ GuardedTrace NoLateUnlock s l :=
  hrun.forall_iff_guarded Inv Final (fun _ hi => hi.final) (fun _ _ _ hi hs hg => hi.step hg hs)
    (fun _ _ _ hi hs hf => noLateUnlock_of_final hi hs hf) hstart.inv

/-! ### Runs on fixed threads -/

def fresh : DestroySystem := ⟨freshMutex, fun _ => none, false, fun _ => false⟩

theorem fresh_started : fresh.Started mutexFlagNone 0xFFFF#16 :=
  ⟨freshMutex_startedAs, fun _ => rfl, rfl, fun _ => rfl⟩

/-- Thread 0 locks, thread 1 destroys the mutex, and thread 2 finds it destroyed. -/
def destroyHeld : List (Tid × DestroyAct) :=
  (0, .lock) :: List.replicate 3 (0, .run none) ++ (1, .destroy) :: List.replicate 3 (1, .run none) ++
    [(2, .lock), (2, .run none)]

theorem destruction_final_held : ∃ l, l.getLast?.map (fun x => x.2.base.pc 2) =
    some (.ret .osErrNotInitialized none) ∧
      ((∀ x ∈ l, x.2.Final) ↔ GuardedTrace NoLateUnlock fresh l) := by
  have hval : (traceActs (fun s a => exec s a.1 a.2) fresh destroyHeld).map
      (fun l => l.getLast?.map fun x => x.2.base.pc 2) =
        some (some (.ret .osErrNotInitialized none)) := by decide +kernel
  obtain ⟨l, hl, he⟩ := Option.map_eq_some_iff.mp hval
  exact ⟨l, he, destruction_final fresh_started (trace_of_traceActs (fun _ _ _ h => h) hl)⟩

/-- Thread 0 unlocks and has passed the check of the state when thread 1 destroys the mutex; the unlock
then stores the unlocked state, and thread 2 locks the mutex. -/
def destroyDuringUnlock : List (Tid × DestroyAct) :=
  (0, .lock) :: List.replicate 3 (0, .run none) ++ (0, .unlock) :: List.replicate 2 (0, .run none) ++
    (1, .destroy) :: List.replicate 3 (1, .run none) ++ List.replicate 2 (0, .run none) ++
      (2, .lock) :: List.replicate 3 (2, .run none)

theorem unlock_revives : ¬ ∀ flags priority (s : DestroySystem),
    Reachable (Started flags priority) Step s → s.Final := by
  intro hclaim
  have hval : (runActs (fun s a => exec s a.1 a.2) fresh destroyDuringUnlock).map
      (fun s => (s.destroyed, s.base.mutex.state, s.late 2, s.base.pc 2)) =
        some (true, mutexStateLocked, true, .ret .osNoErr none) := by decide +kernel
  obtain ⟨s, hs, he⟩ := Option.map_eq_some_iff.mp hval
  simp only [Prod.mk.injEq] at he
  have hreach : Reachable (Started mutexFlagNone 0xFFFF#16) Step s :=
    Guarded.runActs (fun _ _ _ h => ⟨trivial, h⟩) (.start fresh_started) hs
  have hfinal := hclaim _ _ s hreach
  exact hfinal.late 2 none he.2.2.1 he.2.2.2

end DestroySystem

end UtkKernel.Sync
