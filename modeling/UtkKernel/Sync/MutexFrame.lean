import UtkKernel.Sync.MutexSafety

/-! # What a step on a mutex leaves alone

Whatever the flags and whoever unlocks, a step of a thread moves no other thread but those it wakes,
and it changes neither the flags nor what the other threads hold. -/

namespace UtkKernel.Sync.MutexSystem
set_option autoImplicit false

variable {s s' : MutexSystem} {t u : Tid}

@[simp] theorem goto_pc_self (s : MutexSystem) (t : Tid) (pc : MutexPc) : (s.goto t pc).pc t = pc :=
  Function.update_self ..

/-- What a step of `t` leaves of the mutex and of the other threads. -/
structure Frame (s s' : MutexSystem) (t : Tid) : Prop where
  flags : s'.mutex.flags = s.mutex.flags
  pc : ∀ u, u ≠ t → s'.pc u = s.pc u ∨ s'.pc u = resume (s.pc u)
  holds : ∀ u, u ≠ t → s'.holds u = s.holds u
  priority : ∀ u, u ≠ t → s'.priority u = s.priority u

theorem Frame.refl (s : MutexSystem) (t : Tid) : Frame s s t :=
  ⟨rfl, fun _ _ => .inl rfl, fun _ _ => rfl, fun _ _ => rfl⟩

theorem Frame.goto (h : Frame s s' t) (pc : MutexPc) : Frame s (s'.goto t pc) t :=
  ⟨h.flags, fun u hu => by
    have hpc : (s'.goto t pc).pc u = s'.pc u := Function.update_of_ne hu _ _
    rw [hpc]
    exact h.pc u hu, h.holds, h.priority⟩

theorem Frame.setState (h : Frame s s' t) (state : BitVec 32) : Frame s (s'.setState state) t :=
  ⟨h.flags, h.pc, h.holds, h.priority⟩

theorem Frame.setHolds (h : Frame s s' t) (b : Bool) : Frame s (s'.setHolds t b) t :=
  ⟨h.flags, h.pc, fun u hu => (Function.update_of_ne hu _ _).trans (h.holds u hu), h.priority⟩

theorem Frame.schedSetParams (h : Frame s s' t) (priority : BitVec 32) :
    Frame s (s'.schedSetParams t priority).2 t := by
  unfold MutexSystem.schedSetParams
  split_ifs
  · exact ⟨h.flags, h.pc, h.holds, fun u hu => (Function.update_of_ne hu _ _).trans (h.priority u hu)⟩
  · exact h

/-- A change of the fields that only the owner uses. -/
theorem Frame.fields (h : Frame s s' t) (prio : BitVec 32) (lockerTid : Tid) :
    Frame s { s' with mutex := { s'.mutex with acquiredThreadPriority := prio, lockerTid := lockerTid } }
      t :=
  ⟨h.flags, h.pc, h.holds, h.priority⟩

theorem Frame.queue (h : Frame s s' t) (queue : WaitQueue Tid) :
    Frame s { s' with waitQueue := queue } t :=
  ⟨h.flags, h.pc, h.holds, h.priority⟩

theorem frame_wake (s : MutexSystem) (t : Tid) (woken : List Tid) (queue : WaitQueue Tid) :
    Frame s { s with waitQueue := queue,
                     pc := fun u => if u ∈ woken then resume (s.pc u) else s.pc u } t := by
  refine ⟨rfl, fun u _ => ?_, fun _ _ => rfl, fun _ _ => rfl⟩
  dsimp only
  split_ifs
  · exact .inr rfl
  · exact .inl rfl

theorem Frame.finishUnlock (h : Frame s s' t) (inner : Option Bool) (err : OsReturnE) :
    Frame s (s'.finishUnlock t inner err) t := by
  unfold MutexSystem.finishUnlock
  cases inner with
  | none => exact h.goto _
  | some tryOnly =>
    dsimp only
    by_cases herr : err ≠ OsReturnE.osNoErr
    · rw [if_pos herr]
      exact h.goto _
    · rw [if_neg herr]
      exact (h.goto _).setHolds true

theorem frame_acquired (s : MutexSystem) (t : Tid) (tryOnly : Bool) (params : Option (BitVec 32)) :
    Frame s (s.runAcquired t tryOnly params) t := by
  have h1 : Frame s (if s.mutex.recursive ≠ 0 then { s with mutex := { s.mutex with lockerTid := t } }
      else s) t := by
    split_ifs
    · exact (Frame.refl s t).fields s.mutex.acquiredThreadPriority t
    · exact Frame.refl s t
  unfold runAcquired
  dsimp only
  generalize (if s.mutex.recursive ≠ 0 then { s with mutex := { s.mutex with lockerTid := t } }
    else s) = s1 at h1
  generalize (if tryOnly = true then some mutexStateUnlocked else none) = value
  split_ifs
  · have h3 := (h1.fields (params.getD 0) s1.mutex.lockerTid).schedSetParams (s.mutex.prio >>> 8)
    split
    · next s3 he =>
      rw [he] at h3
      exact (h3.goto _).setHolds true
    · next s3 _ he =>
      rw [he] at h3
      exact h3.goto _
  · exact (h1.goto _).setHolds true

theorem frame_unlockRestore (s : MutexSystem) (t : Tid) (inner : Option Bool) :
    Frame s (s.runUnlockRestore t inner) t := by
  have h1 := (Frame.refl s t).schedSetParams s.mutex.acquiredThreadPriority
  unfold runUnlockRestore
  split_ifs
  · split
    · next s1 he =>
      rw [he] at h1
      exact (h1.fields s1.mutex.acquiredThreadPriority (-1)).goto _
    · next err s1 _ he =>
      rw [he] at h1
      exact h1.finishUnlock inner err
  · exact ((Frame.refl s t).fields s.mutex.acquiredThreadPriority (-1)).goto _

theorem Step.frame {a : Tid × MutexAct} (hs : s.Step a s') : Frame s s' a.1 := by
  obtain ⟨t, act⟩ := a
  have h := Frame.refl s t
  simp only [Step] at hs
  cases act with
  | lock =>
    cases hpc : s.pc t <;> simp only [exec, hpc, Option.some.injEq, reduceCtorEq] at hs
    exact hs ▸ h.goto _
  | trylock =>
    cases hpc : s.pc t <;> simp only [exec, hpc, Option.some.injEq, reduceCtorEq] at hs
    exact hs ▸ h.goto _
  | unlock =>
    cases hpc : s.pc t <;> simp only [exec, hpc, reduceCtorEq] at hs
    split_ifs at hs
    cases hs
    exact h.goto _
  | run fault =>
    cases hpc : s.pc t <;> simp only [exec, hpc, Option.some.injEq, reduceCtorEq] at hs <;>
      rw [← hs]
    case check =>
      unfold runCheck
      split_ifs <;> exact h.goto _
    case getParams =>
      unfold runGetParams
      split_ifs
      · exact (h.goto _).setHolds true
      · exact h.goto _
    case fast =>
      unfold runFast
      dsimp only
      split_ifs <;> exact (h.setState _).goto _
    case loop =>
      unfold runLoop
      dsimp only
      split_ifs
      · exact h.goto _
      · exact (h.setState _).goto _
      · exact (h.setState _).goto _
    case wait =>
      unfold runWait
      split
      · exact (h.queue _).goto _
      · split_ifs <;> exact (h.queue _).goto _
    case retry =>
      unfold runRetry
      dsimp only
      split_ifs <;> exact (h.setState _).goto _
    case acquired => exact frame_acquired s t _ _
    case unlockCheck =>
      unfold runUnlockCheck
      split_ifs
      · exact h.finishUnlock _ _
      · exact h.goto _
    case unlockRestore => exact frame_unlockRestore s t _
    case unlockAdd =>
      unfold runUnlockAdd
      dsimp only
      split_ifs
      · exact ((h.setState _).setHolds false).goto _
      · exact ((h.setState _).setHolds false).finishUnlock _ _
    case unlockStore => exact (h.setState _).goto _
    case unlockWake =>
      unfold runUnlockWake
      dsimp only
      exact (frame_wake s t _ _).finishUnlock _ _

end UtkKernel.Sync.MutexSystem
