import UtkKernel.Sync.Mutex

/-! # Mutual exclusion and no lost wake-up

The lock word is nonzero exactly while some thread owns it, and only one does: the owner is the thread
between the compare-and-swap that took the word and the atomic operation that sets it back to zero.
A blocked thread is in the futex queue and waits for a change from the contended value; as long as one
is blocked, the word is contended, or an unlock in progress has its wake to come, or a woken thread
has yet to contend again. -/

namespace UtkKernel.Sync
open Foundations
set_option autoImplicit false

/-! ## Program points -/

namespace MutexPc

/-- Points at which a thread owns the word although its call has not returned. -/
def owning : MutexPc → Bool
  | .acquired _ _ => true
  | .unlockStore _ => true
  | _ => false

/-- Points of an unlock before its fetch-and-add. -/
def unlocking : MutexPc → Bool
  | .unlockCheck _ => true
  | .unlockRestore _ => true
  | .unlockAdd _ => true
  | _ => false

/-- Points of the unlock a lock makes when it cannot set its priority. -/
def nested : MutexPc → Bool
  | .unlockCheck i => i.isSome
  | .unlockRestore i => i.isSome
  | .unlockAdd i => i.isSome
  | .unlockStore i => i.isSome
  | .unlockWake i => i.isSome
  | _ => false

def isBlocked : MutexPc → Bool
  | .blocked _ => true
  | _ => false

/-- Points of an unlock that has released the word and has yet to issue its wake. -/
def releasing : MutexPc → Bool
  | .unlockStore _ => true
  | .unlockWake _ => true
  | _ => false

/-- Points of a woken thread that has yet to contend again: since it was woken it has neither written
the contended value to the word nor seen it there. -/
def recontending : MutexPc → Bool
  | .loop mutexState _ woken => woken && mutexState != mutexStateLockedWait
  | .retry _ woken => woken
  | _ => false

end MutexPc

namespace MutexSystem
open MutexPc

@[simp] theorem locked_ne_unlocked : mutexStateLocked ≠ mutexStateUnlocked := by decide
@[simp] theorem locked_ne_lockedWait : mutexStateLocked ≠ mutexStateLockedWait := by decide
@[simp] theorem lockedWait_ne_unlocked : mutexStateLockedWait ≠ mutexStateUnlocked := by decide
@[simp] theorem lockedWait_ne_locked : mutexStateLockedWait ≠ mutexStateLocked := by decide
@[simp] theorem locked_sub_one : mutexStateLocked - 1#32 = mutexStateUnlocked := by decide
@[simp] theorem lockedWait_sub_one : mutexStateLockedWait - 1#32 = mutexStateLocked := by decide

@[simp] theorem resume_owning (pc : MutexPc) : (resume pc).owning = pc.owning := by
  cases pc <;> rfl

@[simp] theorem resume_unlocking (pc : MutexPc) : (resume pc).unlocking = pc.unlocking := by
  cases pc <;> rfl

@[simp] theorem resume_inner (pc : MutexPc) : (resume pc).nested = pc.nested := by
  cases pc <;> rfl

@[simp] theorem resume_releasing (pc : MutexPc) : (resume pc).releasing = pc.releasing := by
  cases pc <;> rfl

theorem resume_of_blocked {pc : MutexPc} (h : pc.isBlocked = true) :
    (resume pc).recontending = true ∧ (resume pc).isBlocked = false := by
  cases pc <;> simp_all [resume, recontending, isBlocked]

theorem isBlocked_of_resume {pc : MutexPc} (h : (resume pc).isBlocked = true) : False := by
  cases pc <;> simp [resume, isBlocked] at h

/-! ## The owner of the word -/

def Owns (s : MutexSystem) (t : Tid) : Prop :=
  s.holds t = true ∨ (s.pc t).owning = true

/-- What the exclusion rests on. -/
structure Inv (s : MutexSystem) : Prop where
  recursive : s.mutex.recursive = 0
  prio : s.mutex.prio ≠ mutexPriorityElevationNone →
    s.mutex.prio >>> 8 ≤ kernelLowestPriority
  state : isMutexState s.mutex.state = true
  outer : ∀ t, (s.pc t).nested = false
  unlocking : ∀ t, (s.pc t).unlocking = true → s.holds t = true
  released : ∀ t, (s.pc t).releasing = true → s.holds t = false
  unique : ∀ t u, s.Owns t → s.Owns u → t = u
  owned : s.mutex.state ≠ mutexStateUnlocked ↔ ∃ t, s.Owns t

/-- The part of it that a recursive mutex has too. -/
structure Excl (s : MutexSystem) : Prop where
  prio : s.mutex.prio ≠ mutexPriorityElevationNone →
    s.mutex.prio >>> 8 ≤ kernelLowestPriority
  state : isMutexState s.mutex.state = true
  outer : ∀ t, (s.pc t).nested = false
  unlocking : ∀ t, (s.pc t).unlocking = true → s.holds t = true
  released : ∀ t, (s.pc t).releasing = true → s.holds t = false
  unique : ∀ t u, s.Owns t → s.Owns u → t = u
  owned : s.mutex.state ≠ mutexStateUnlocked ↔ ∃ t, s.Owns t

theorem Inv.excl {s : MutexSystem} (h : s.Inv) : s.Excl :=
  ⟨h.prio, h.state, h.outer, h.unlocking, h.released, h.unique, h.owned⟩

theorem Excl.inv {s : MutexSystem} (h : s.Excl) (hrec : s.mutex.recursive = 0) : s.Inv :=
  ⟨hrec, h.prio, h.state, h.outer, h.unlocking, h.released, h.unique, h.owned⟩

/-- What one atomic step of `t` does to the word and to the ownership of it: nothing, or `t` takes the
free word, or `t` gives the word back. -/
structure Effect (s s' : MutexSystem) (t : Tid) : Prop where
  flags : s'.mutex.flags = s.mutex.flags
  state : isMutexState s'.mutex.state = true
  others : ∀ u, u ≠ t → (s'.pc u = s.pc u ∨ s'.pc u = resume (s.pc u)) ∧ s'.holds u = s.holds u
  outer : (s'.pc t).nested = false
  unlocking : (s'.pc t).unlocking = true → s'.holds t = true
  released : (s'.pc t).releasing = true → s'.holds t = false
  transfer :
    ((s'.mutex.state = mutexStateUnlocked ↔ s.mutex.state = mutexStateUnlocked) ∧
      (s'.Owns t ↔ s.Owns t)) ∨
    (s.mutex.state = mutexStateUnlocked ∧ s'.mutex.state ≠ mutexStateUnlocked ∧ s'.Owns t) ∨
    (s.Owns t ∧ s'.mutex.state = mutexStateUnlocked ∧ ¬ s'.Owns t)

theorem Effect.owns_iff {s s' : MutexSystem} {t u : Tid} (h : Effect s s' t) (hu : u ≠ t) :
    s'.Owns u ↔ s.Owns u := by
  obtain ⟨hpc, hholds⟩ := h.others u hu
  unfold Owns
  rw [hholds]
  rcases hpc with hpc | hpc <;> simp [hpc]

/-- Every step with such an effect keeps the exclusion. -/
theorem Effect.excl {s s' : MutexSystem} {t : Tid} (h : Effect s s' t) (hi : s.Excl) : s'.Excl := by
  have hprio : s'.mutex.prio = s.mutex.prio := by simp [Mutex.prio, h.flags]
  refine ⟨by rw [hprio]; exact hi.prio, h.state, ?_, ?_, ?_, ?_, ?_⟩
  · intro u
    by_cases hu : u = t
    · rw [hu]
      exact h.outer
    · rcases (h.others u hu).1 with hpc | hpc <;> simp [hpc, hi.outer u]
  · intro u hun
    by_cases hu : u = t
    · rw [hu] at hun ⊢
      exact h.unlocking hun
    · obtain ⟨hpc, hholds⟩ := h.others u hu
      rw [hholds]
      apply hi.unlocking u
      rcases hpc with hpc | hpc <;> simpa [hpc] using hun
  · intro u hre
    by_cases hu : u = t
    · rw [hu] at hre ⊢
      exact h.released hre
    · obtain ⟨hpc, hholds⟩ := h.others u hu
      rw [hholds]
      apply hi.released u
      rcases hpc with hpc | hpc <;> simpa [hpc] using hre
  -- an owner other than `t` was one before, and then `t` can neither take the word nor hold it
  · have hother : ∀ u, u ≠ t → s'.Owns u → ¬ s'.Owns t := by
      intro u hu hou hot
      have hou' := (h.owns_iff hu).mp hou
      rcases h.transfer with ⟨-, hiff⟩ | ⟨hzero, -, -⟩ | ⟨-, -, hno⟩
      · exact hu (hi.unique u t hou' (hiff.mp hot))
      · exact hi.owned.mpr ⟨u, hou'⟩ hzero
      · exact hno hot
    intro u v hu hv
    by_cases hut : u = t
    · by_cases hvt : v = t
      · rw [hut, hvt]
      · rw [hut] at hu
        exact absurd hu (hother v hvt hv)
    · by_cases hvt : v = t
      · rw [hvt] at hv
        exact absurd hv (hother u hut hu)
      · exact hi.unique u v ((h.owns_iff hut).mp hu) ((h.owns_iff hvt).mp hv)
  · rcases h.transfer with ⟨hzero, hiff⟩ | ⟨-, hne, hown⟩ | ⟨hown, hzero, hno⟩
    · rw [ne_eq, hzero, ← ne_eq, hi.owned]
      refine exists_congr fun u => ?_
      by_cases hu : u = t
      · rw [hu, hiff]
      · rw [h.owns_iff hu]
    · exact ⟨fun _ => ⟨t, hown⟩, fun _ => hne⟩
    · refine ⟨fun hne => absurd hzero hne, ?_⟩
      rintro ⟨u, hu⟩
      by_cases hut : u = t
      · rw [hut] at hu
        exact absurd hu hno
      · exact absurd (hi.unique u t ((h.owns_iff hut).mp hu) hown) hut

theorem Effect.inv {s s' : MutexSystem} {t : Tid} (h : Effect s s' t) (hi : s.Inv) : s'.Inv := by
  have hrec : s'.mutex.recursive = s.mutex.recursive := by simp [Mutex.recursive, h.flags]
  exact (h.excl hi.excl).inv (by rw [hrec, hi.recursive])

/-! ## The effect of each step -/

/-- A step that moves `t` to another point, changes nothing of its ownership and leaves the word zero
or nonzero as it was. -/
theorem effect_quiet {s s' : MutexSystem} {t : Tid} {pc : MutexPc}
    (hflags : s'.mutex.flags = s.mutex.flags) (hstate : isMutexState s'.mutex.state = true)
    (hzero : s'.mutex.state = mutexStateUnlocked ↔ s.mutex.state = mutexStateUnlocked) (hpc : s'.pc = Function.update s.pc t pc)
    (hholds : s'.holds = s.holds) (houter : pc.nested = false)
    (hun : pc.unlocking = true → s.holds t = true)
    (hre : pc.releasing = true → s.holds t = false) (howning : pc.owning = (s.pc t).owning) :
    Effect s s' t := by
  refine ⟨hflags, hstate, fun u hu => ⟨Or.inl ?_, by rw [hholds]⟩, by simpa [hpc] using houter,
    by simpa [hpc, hholds] using hun, by simpa [hpc, hholds] using hre, Or.inl ⟨hzero, ?_⟩⟩
  · rw [hpc, Function.update_of_ne hu]
  · simp [Owns, hpc, hholds, howning]

theorem isMutexState_cases {w : BitVec 32} (h : isMutexState w = true) :
    w = mutexStateUnlocked ∨ w = mutexStateLocked ∨ w = mutexStateLockedWait := by
  simpa [isMutexState, or_assoc] using h

section
variable {s : MutexSystem} {t : Tid}

theorem effect_check (hi : s.Excl) {tryOnly : Bool} (hpc : s.pc t = .check tryOnly) :
    Effect s (s.runCheck t tryOnly) t := by
  simp only [runCheck, hi.state, Bool.not_true, Bool.false_eq_true, if_false]
  split_ifs
  · exact effect_quiet rfl hi.state Iff.rfl rfl rfl rfl (by simp [unlocking])
      (by simp [releasing]) (by simp [hpc, owning])
  · exact effect_quiet rfl hi.state Iff.rfl rfl rfl rfl (by simp [unlocking])
      (by simp [releasing]) (by simp [hpc, owning])

/-- A thread that enters the mutex again holds it already. -/
theorem effect_getParams (hi : s.Excl) {tryOnly : Bool} (hpc : s.pc t = .getParams tryOnly)
    (hlocker : s.mutex.recursive ≠ 0 → t = s.mutex.lockerTid → s.holds t = true) :
    Effect s (s.runGetParams t tryOnly) t := by
  simp only [runGetParams]
  split_ifs with hrec
  · have hholds := hlocker hrec.1 hrec.2
    have hsame : Function.update s.holds t true = s.holds := by
      rw [← hholds, Function.update_eq_self]
    exact effect_quiet rfl hi.state Iff.rfl rfl hsame rfl (by simp [unlocking])
        (by simp [releasing]) (by simp [hpc, owning])
  · exact effect_quiet rfl hi.state Iff.rfl rfl rfl rfl (by simp [unlocking])
        (by simp [releasing]) (by simp [hpc, owning])

theorem effect_fast (hi : s.Excl) {tryOnly : Bool} {params : Option (BitVec 32)}
    (hpc : s.pc t = .fast tryOnly params) : Effect s (s.runFast t tryOnly params) t := by
  by_cases hz : s.mutex.state = mutexStateUnlocked
  · refine ⟨?_, ?_, fun u hu => ⟨Or.inl ?_, ?_⟩, ?_, ?_, ?_, Or.inr (Or.inl ⟨hz, ?_, Or.inr ?_⟩)⟩ <;>
      simp [runFast, atomicCas, setState, goto, nested, unlocking, releasing, owning, isMutexState,
        Function.update_of_ne, *]
  · simp only [runFast, atomicCas, if_neg hz]
    split_ifs
    · exact effect_quiet rfl hi.state Iff.rfl rfl rfl rfl (by simp [unlocking])
        (by simp [releasing]) (by simp [hpc, owning])
    · exact effect_quiet rfl hi.state Iff.rfl rfl rfl rfl (by simp [unlocking])
        (by simp [releasing]) (by simp [hpc, owning])

theorem effect_loop (hi : s.Excl) {w : BitVec 32} {params : Option (BitVec 32)} {woken : Bool}
    (hpc : s.pc t = .loop w params woken) : Effect s (s.runLoop t w params woken) t := by
  have hstate : isMutexState (if s.mutex.state = mutexStateLocked then mutexStateLockedWait
      else s.mutex.state) = true := by
    split_ifs
    · rfl
    · exact hi.state
  have hzero : (if s.mutex.state = mutexStateLocked then mutexStateLockedWait else s.mutex.state) =
      mutexStateUnlocked ↔ s.mutex.state = mutexStateUnlocked := by
    split_ifs with h1
    · simp [h1]
    · rfl
  simp only [runLoop]
  split_ifs
  · exact effect_quiet rfl hi.state Iff.rfl rfl rfl rfl (by simp [unlocking])
      (by simp [releasing]) (by simp [hpc, owning])
  · exact effect_quiet rfl hstate hzero rfl rfl rfl (by simp [unlocking])
      (by simp [releasing]) (by simp [hpc, owning])
  · exact effect_quiet rfl hstate hzero rfl rfl rfl (by simp [unlocking])
      (by simp [releasing]) (by simp [hpc, owning])

theorem effect_wait (hi : s.Excl) {params : Option (BitVec 32)} (hpc : s.pc t = .wait params)
    (fault : Option OsReturnE) : Effect s (s.runWait t params fault) t := by
  simp only [runWait]
  split
  · exact effect_quiet rfl hi.state Iff.rfl rfl rfl rfl (by simp [unlocking])
      (by simp [releasing]) (by simp [hpc, owning])
  · split_ifs
    · exact effect_quiet rfl hi.state Iff.rfl rfl rfl rfl (by simp [unlocking])
        (by simp [releasing]) (by simp [hpc, owning])
    · exact effect_quiet rfl hi.state Iff.rfl rfl rfl rfl (by simp [unlocking])
        (by simp [releasing]) (by simp [hpc, owning])

theorem effect_retry (hi : s.Excl) {params : Option (BitVec 32)} {woken : Bool}
    (hpc : s.pc t = .retry params woken) : Effect s (s.runRetry t params woken) t := by
  by_cases hz : s.mutex.state = mutexStateUnlocked
  · refine ⟨?_, ?_, fun u hu => ⟨Or.inl ?_, ?_⟩, ?_, ?_, ?_, Or.inr (Or.inl ⟨hz, ?_, Or.inr ?_⟩)⟩ <;>
      simp [runRetry, atomicCas, setState, goto, nested, unlocking, releasing, owning, isMutexState,
        Function.update_of_ne, *]
  · simp only [runRetry, atomicCas, hz, if_false, hi.state, Bool.not_true, Bool.false_eq_true]
    exact effect_quiet rfl hi.state Iff.rfl rfl rfl rfl (by simp [unlocking])
      (by simp [releasing]) (by simp [hpc, owning])

/-- The priority that a lock sets is the high byte of a legal one, so setting it has no error. -/
theorem runAcquired_eq (hi : s.Excl) (tryOnly : Bool) (params : Option (BitVec 32)) :
    ∃ prio p locker, s.runAcquired t tryOnly params = { s with
      mutex := { s.mutex with acquiredThreadPriority := prio, lockerTid := locker }
      priority := p
      pc := Function.update s.pc t
        (.ret .osNoErr (if tryOnly then some mutexStateUnlocked else none))
      holds := Function.update s.holds t true } := by
  by_cases hp : s.mutex.prio = mutexPriorityElevationNone
  · refine ⟨s.mutex.acquiredThreadPriority, s.priority,
      if s.mutex.recursive ≠ 0 then t else s.mutex.lockerTid, ?_⟩
    simp only [runAcquired, hp, ne_eq, not_true_eq_false, if_false]
    split_ifs <;> rfl
  · have hle := hi.prio hp
    refine ⟨params.getD 0, Function.update s.priority t (s.mutex.prio >>> 8),
      if s.mutex.recursive ≠ 0 then t else s.mutex.lockerTid, ?_⟩
    simp only [runAcquired, hp, ne_eq, not_false_eq_true, if_true, schedSetParams, hle]
    split_ifs <;> rfl

theorem effect_acquired (hi : s.Excl) {tryOnly : Bool} {params : Option (BitVec 32)}
    (hpc : s.pc t = .acquired tryOnly params) : Effect s (s.runAcquired t tryOnly params) t := by
  obtain ⟨prio, p, locker, he⟩ := runAcquired_eq (t := t) hi tryOnly params
  have hown : s.Owns t := Or.inr (by simp [hpc, owning])
  rw [he]
  refine ⟨rfl, hi.state, fun u hu => ⟨Or.inl ?_, ?_⟩, ?_, ?_, ?_, Or.inl ⟨Iff.rfl, ?_⟩⟩
  · simp [Function.update_of_ne hu]
  · simp [Function.update_of_ne hu]
  · simp [nested]
  · simp [unlocking]
  · simp [releasing]
  · simp [Owns] at hown ⊢
    exact hown

theorem effect_unlockCheck (hi : s.Excl) {i : Option Bool} (hpc : s.pc t = .unlockCheck i) :
    Effect s (s.runUnlockCheck t i) t := by
  have hholds := hi.unlocking t (by simp [hpc, unlocking])
  have hi' : i.isSome = false := by simpa [hpc, nested] using hi.outer t
  simp only [runUnlockCheck, hi.state, Bool.not_true, Bool.false_eq_true, if_false]
  exact effect_quiet rfl hi.state Iff.rfl rfl rfl hi' (fun _ => hholds)
      (by simp [releasing]) (by simp [hpc, owning])

theorem effect_unlockRestore (hi : s.Excl) {i : Option Bool} (hpc : s.pc t = .unlockRestore i) :
    Effect s (s.runUnlockRestore t i) t := by
  have hholds := hi.unlocking t (by simp [hpc, unlocking])
  have hi' : i.isSome = false := by simpa [hpc, nested] using hi.outer t
  obtain rfl : i = none := by simpa using hi'
  simp only [runUnlockRestore, schedSetParams]
  split_ifs
  · exact effect_quiet rfl hi.state Iff.rfl rfl rfl rfl (fun _ => hholds)
      (by simp [releasing]) (by simp [hpc, owning])
  · exact effect_quiet rfl hi.state Iff.rfl rfl rfl rfl (by simp [unlocking])
      (by simp [releasing]) (by simp [hpc, owning])
  · exact effect_quiet rfl hi.state Iff.rfl rfl rfl rfl (fun _ => hholds)
      (by simp [releasing]) (by simp [hpc, owning])

theorem effect_unlockAdd (hi : s.Excl) {i : Option Bool} (hpc : s.pc t = .unlockAdd i) :
    Effect s (s.runUnlockAdd t i) t := by
  have hholds := hi.unlocking t (by simp [hpc, unlocking])
  have hi' : i.isSome = false := by simpa [hpc, nested] using hi.outer t
  obtain rfl : i = none := by simpa using hi'
  have hown : s.Owns t := Or.inl hholds
  have hne := hi.owned.mpr ⟨t, hown⟩
  rcases isMutexState_cases hi.state with hz | h1 | h2
  · exact absurd hz hne
  -- the word was not contended: it is free now
  · refine ⟨?_, ?_, fun u hu => ⟨Or.inl ?_, ?_⟩, ?_, ?_, ?_, Or.inr (Or.inr ⟨hown, ?_, ?_⟩)⟩ <;>
      simp [runUnlockAdd, setState, setHolds, goto, finishUnlock, nested, unlocking, releasing, owning,
        isMutexState, Owns, Function.update_of_ne, *]
  -- the word was contended: it stays nonzero until the store
  · refine ⟨?_, ?_, fun u hu => ⟨Or.inl ?_, ?_⟩, ?_, ?_, ?_, Or.inl ⟨?_, ?_⟩⟩ <;>
      simp [runUnlockAdd, setState, setHolds, goto, nested, unlocking, releasing, owning,
        isMutexState, Owns, Function.update_of_ne, *]

theorem effect_unlockStore (hi : s.Excl) {i : Option Bool} (hpc : s.pc t = .unlockStore i) :
    Effect s (s.runUnlockStore t i) t := by
  have hnot := hi.released t (by simp [hpc, releasing])
  have hi' : i.isSome = false := by simpa [hpc, nested] using hi.outer t
  have hown : s.Owns t := Or.inr (by simp [hpc, owning])
  refine ⟨?_, ?_, fun u hu => ⟨Or.inl ?_, ?_⟩, ?_, ?_, ?_, Or.inr (Or.inr ⟨hown, ?_, ?_⟩)⟩ <;>
    simp [runUnlockStore, setState, goto, nested, unlocking, releasing, owning, isMutexState, Owns,
      Function.update_of_ne, *]

/-- The wake moves the woken threads out of their futex wait and `t` out of its unlock. -/
theorem runUnlockWake_eq : ∃ err, s.runUnlockWake t none = { s with
    waitQueue := (futexWake s.mutex.state 1 s.waitQueue).2.2
    pc := Function.update (fun u => if u ∈ (futexWake s.mutex.state 1 s.waitQueue).2.1 then
      resume (s.pc u) else s.pc u) t (.ret err none) } :=
  ⟨_, rfl⟩

theorem effect_unlockWake (hi : s.Excl) {i : Option Bool} (hpc : s.pc t = .unlockWake i) :
    Effect s (s.runUnlockWake t i) t := by
  have hnot := hi.released t (by simp [hpc, releasing])
  have hi' : i.isSome = false := by simpa [hpc, nested] using hi.outer t
  obtain rfl : i = none := by simpa using hi'
  obtain ⟨err, he⟩ := runUnlockWake_eq (s := s) (t := t)
  rw [he]
  refine ⟨rfl, hi.state, fun u hu => ⟨?_, rfl⟩, ?_, ?_, ?_, Or.inl ⟨Iff.rfl, ?_⟩⟩
  · simp only [Function.update_of_ne hu]
    split_ifs
    · exact Or.inr rfl
    · exact Or.inl rfl
  · simp [nested]
  · simp [unlocking]
  · simp [releasing]
  · simp [Owns, hpc, hnot, owning]

end

theorem Step.effect {s s' : MutexSystem} {a : Tid × MutexAct} (hi : s.Excl)
    (hlocker : (∃ tryOnly, s.pc a.1 = .getParams tryOnly) → s.mutex.recursive ≠ 0 →
      a.1 = s.mutex.lockerTid → s.holds a.1 = true) (hs : s.Step a s') : Effect s s' a.1 := by
  obtain ⟨t, act⟩ := a
  simp only [Step] at hs
  have hcall : ∀ err value tryOnly, s.pc t = .ret err value →
      Effect s (s.goto t (.check tryOnly)) t := by
    intro err value tryOnly hpc
    exact effect_quiet rfl hi.state Iff.rfl rfl rfl rfl (by simp [unlocking]) (by simp [releasing])
      (by simp [hpc, owning])
  cases act with
  | lock =>
    cases hpc : s.pc t <;> simp only [exec, hpc, Option.some.injEq, reduceCtorEq] at hs
    exact hs ▸ hcall _ _ _ hpc
  | trylock =>
    cases hpc : s.pc t <;> simp only [exec, hpc, Option.some.injEq, reduceCtorEq] at hs
    exact hs ▸ hcall _ _ _ hpc
  | unlock =>
    cases hpc : s.pc t <;> simp only [exec, hpc, reduceCtorEq] at hs
    split_ifs at hs with hholds
    rw [Option.some.injEq] at hs
    rw [← hs]
    exact effect_quiet rfl hi.state Iff.rfl rfl rfl rfl (fun _ => hholds) (by simp [releasing])
      (by simp [hpc, owning])
  | run fault =>
    cases hpc : s.pc t <;> simp only [exec, hpc, Option.some.injEq, reduceCtorEq] at hs <;>
      rw [← hs]
    case check => exact effect_check hi hpc
    case getParams => exact effect_getParams hi hpc (hlocker ⟨_, hpc⟩)
    case fast => exact effect_fast hi hpc
    case loop => exact effect_loop hi hpc
    case wait => exact effect_wait hi hpc fault
    case retry => exact effect_retry hi hpc
    case acquired => exact effect_acquired hi hpc
    case unlockCheck => exact effect_unlockCheck hi hpc
    case unlockRestore => exact effect_unlockRestore hi hpc
    case unlockAdd => exact effect_unlockAdd hi hpc
    case unlockStore => exact effect_unlockStore hi hpc
    case unlockWake => exact effect_unlockWake hi hpc

theorem Step.inv {s s' : MutexSystem} {a : Tid × MutexAct} (hi : s.Inv) (hs : s.Step a s') : s'.Inv :=
  (hs.effect hi.excl fun _ hrec => absurd hi.recursive hrec).inv hi

/-! ## Mutual exclusion -/

theorem prio_of_flags {flags : BitVec 32} (hflags : flags >>> 8 = 0#32) (p : BitVec 16) :
    (flags ||| (p.setWidth 32 <<< 8)) >>> 8 &&& mutexPriorityElevationNone = p.setWidth 32 := by
  have hp := p.isLt
  rw [BitVec.ushiftRight_or_distrib, hflags, BitVec.zero_or]
  apply BitVec.eq_of_toNat_eq
  have hmod := Nat.and_two_pow_sub_one_eq_mod (p.toNat * 256 % 4294967296 / 256) 16
  simp [Nat.shiftLeft_eq, Nat.shiftRight_eq_div_pow] at hmod ⊢
  rw [hmod]
  omega

theorem recursive_of_flags (p : BitVec 16) :
    (mutexFlagNone ||| (p.setWidth 32 <<< 8)) &&& mutexFlagRecursive = 0 := by
  apply BitVec.eq_of_toNat_eq
  simp [Nat.shiftLeft_eq]
  omega

theorem prio_shift_le {p : BitVec 32} (h : p ≤ kernelLowestPriority) :
    p >>> 8 ≤ kernelLowestPriority := by
  rw [BitVec.le_def] at h ⊢
  simp [Nat.shiftRight_eq_div_pow] at h ⊢
  omega

theorem mutexInit_prio {flags : BitVec 32} {priority : BitVec 16} {m : Mutex}
    (hflags : flags >>> 8 = 0#32) (h : mutexInit flags priority = .ok m) :
    m.prio = priority.setWidth 32 ∧ m.state = mutexStateUnlocked ∧
      (m.prio ≠ mutexPriorityElevationNone → m.prio ≤ kernelLowestPriority) := by
  unfold mutexInit at h
  split_ifs at h with hp
  rw [Except.ok.injEq] at h
  have hprio : m.prio = priority.setWidth 32 := by
    rw [← h]
    exact prio_of_flags hflags priority
  refine ⟨hprio, by rw [← h], ?_⟩
  rw [hprio]
  intro hne
  by_contra hle
  exact hp ⟨by simpa using hle, hne⟩

theorem mutexInit_recursive {priority : BitVec 16} {m : Mutex}
    (h : mutexInit mutexFlagNone priority = .ok m) : m.recursive = 0 := by
  unfold mutexInit at h
  split_ifs at h
  cases h
  exact recursive_of_flags priority

theorem excl_of_init {flags : BitVec 32} {priority : BitVec 16} {s : MutexSystem}
    (hflags : flags >>> 8 = 0#32) (hmutex : mutexInit flags priority = .ok s.mutex)
    (hpc : ∀ t, s.pc t = .ret .osNoErr none) (hholds : ∀ t, s.holds t = false) : s.Excl := by
  obtain ⟨-, hstate, hprio⟩ := mutexInit_prio hflags hmutex
  have hnone : ∀ t, ¬ s.Owns t := by simp [Owns, hpc, hholds, owning]
  refine ⟨fun hne => prio_shift_le (hprio hne), by simp [hstate, isMutexState], ?_, ?_, ?_, ?_, ?_⟩
  · simp [hpc, nested]
  · simp [hpc, unlocking]
  · simp [hpc, releasing]
  · exact fun t u ht => absurd ht (hnone t)
  · simp [hstate, hnone]

theorem Started.inv {priority : BitVec 16} {s : MutexSystem} (h : s.Started priority) : s.Inv :=
  (excl_of_init (by rfl) h.mutex h.pc h.holds).inv (mutexInit_recursive h.mutex)

theorem inv_of_reachable {priority : BitVec 16} {s : MutexSystem}
    (h : Reachable (Started priority) Step s) : s.Inv :=
  h.invariant Inv (fun _ => Started.inv) (fun _ _ _ hi _ hs => hs.inv hi)

/-- At most one thread is between a successful `mutex_lock` or `mutex_trylock` and its
`mutex_unlock`, whatever the interleaving of atomic steps. -/
theorem mutual_exclusion {priority : BitVec 16} {s : MutexSystem}
    (h : Reachable (Started priority) Step s) {t u : Tid} (ht : s.holds t = true)
    (hu : s.holds u = true) : t = u :=
  (inv_of_reachable h).unique t u (Or.inl ht) (Or.inl hu)

/-! ### A contended run -/

def freshMutex : MutexSystem :=
  ⟨⟨mutexStateUnlocked, 0xFFFF00#32, 0, 0⟩, none, fun _ => 0, fun _ => .ret .osNoErr none,
    fun _ => false⟩

/-- Thread 0 locks, then thread 1 tries to and blocks. -/
def contendedActs : List (Tid × MutexAct) :=
  [(0, .lock), (0, .run none), (0, .run none), (0, .run none),
   (1, .lock), (1, .run none), (1, .run none), (1, .run none), (1, .run none)]

theorem contended_run : ∃ s : MutexSystem, Reachable (Started 0xFFFF#16) Step s ∧
    s.holds 0 = true ∧ (s.pc 1).isBlocked = true ∧ s.mutex.state = mutexStateLockedWait := by
  have hval : (runActs (fun s a => exec s a.1 a.2) freshMutex contendedActs).map
      (fun s => (s.holds 0, (s.pc 1).isBlocked, s.mutex.state)) =
        some (true, true, mutexStateLockedWait) := by decide
  obtain ⟨s, hs, he⟩ := Option.map_eq_some_iff.mp hval
  simp only [Prod.mk.injEq] at he
  have hstart : Reachable (Started 0xFFFF#16) Step freshMutex :=
    .start ⟨by rfl, rfl, fun _ => rfl, fun _ => rfl⟩
  exact ⟨s, hstart.runActs (fun _ _ _ h => ⟨trivial, h⟩) hs, he⟩

theorem mutual_exclusion_contended : ∃ s : MutexSystem, s.holds 0 = true ∧
    ∀ u, s.holds u = true → u = 0 := by
  obtain ⟨s, hs, h0, -⟩ := contended_run
  exact ⟨s, h0, fun u hu => mutual_exclusion hs hu h0⟩

/-! ## No lost wake-up -/

/-- The blocked threads are those of the queue, each once, and wait for the contended value to
change. -/
structure Queued (s : MutexSystem) : Prop where
  mem : ∀ t, (s.pc t).isBlocked = true → t ∈ waiting s.waitQueue
  blocked : ∀ w ∈ s.waitQueue.getD [], w.wait = mutexStateLockedWait ∧
    (s.pc w.waitingThread).isBlocked = true
  nodup : (waiting s.waitQueue).Nodup

/-- Somebody is going to wake or to set up the wake of the blocked threads. -/
def Promised (s : MutexSystem) : Prop :=
  s.mutex.state = mutexStateLockedWait ∨ (∃ u, (s.pc u).releasing = true) ∨
    ∃ u, (s.pc u).recontending = true

theorem Queued.of_frame {s s' : MutexSystem} {t : Tid} {pc : MutexPc} (h : s.Queued)
    (hqueue : s'.waitQueue = s.waitQueue) (hpc : s'.pc = Function.update s.pc t pc)
    (hfrom : (s.pc t).isBlocked = false) (hto : pc.isBlocked = false) : s'.Queued := by
  refine ⟨fun u hu => ?_, fun w hw => ?_, by rw [hqueue]; exact h.nodup⟩
  · rw [hqueue]
    apply h.mem
    by_cases hut : u = t
    · simp [hut, hpc, hto] at hu
    · simpa [hpc, Function.update_of_ne hut] using hu
  · rw [hqueue] at hw
    obtain ⟨hwait, hb⟩ := h.blocked w hw
    have hne : w.waitingThread ≠ t := by
      intro he
      rw [he, hfrom] at hb
      cases hb
    exact ⟨hwait, by simpa [hpc, Function.update_of_ne hne] using hb⟩

/-- A step of `t` that blocks nobody keeps the promise, if `t` gives up its own part of it only by
leaving the word contended or by releasing it. -/
theorem Promised.of_frame {s s' : MutexSystem} {t : Tid} {pc : MutexPc} (h : s.Promised)
    (hpc : s'.pc = Function.update s.pc t pc)
    (hstate : s.mutex.state = mutexStateLockedWait →
      s'.mutex.state = mutexStateLockedWait ∨ pc.releasing = true)
    (hre : (s.pc t).releasing = true → pc.releasing = true)
    (hrec : (s.pc t).recontending = true →
      s'.mutex.state = mutexStateLockedWait ∨ pc.recontending = true) : s'.Promised := by
  have hself : s'.pc t = pc := by rw [hpc, Function.update_self]
  have hother : ∀ u, u ≠ t → s'.pc u = s.pc u := fun u hu => by rw [hpc, Function.update_of_ne hu]
  rcases h with h2 | ⟨u, hu⟩ | ⟨u, hu⟩
  · exact (hstate h2).imp_right fun hr => Or.inl ⟨t, by rw [hself, hr]⟩
  · by_cases hut : u = t
    · rw [hut] at hu
      exact Or.inr (Or.inl ⟨t, by rw [hself, hre hu]⟩)
    · exact Or.inr (Or.inl ⟨u, by rw [hother u hut, hu]⟩)
  · by_cases hut : u = t
    · rw [hut] at hu
      exact (hrec hu).imp_right fun hr => Or.inr ⟨t, by rw [hself, hr]⟩
    · exact Or.inr (Or.inr ⟨u, by rw [hother u hut, hu]⟩)

/-- The queue, and the promise to the threads in it. -/
structure WakeInv (s : MutexSystem) : Prop where
  queued : s.Queued
  promised : (∃ t, (s.pc t).isBlocked = true) → s.Promised

theorem WakeInv.of_frame {s s' : MutexSystem} {t : Tid} {pc : MutexPc} (h : s.WakeInv)
    (hqueue : s'.waitQueue = s.waitQueue) (hpc : s'.pc = Function.update s.pc t pc)
    (hfrom : (s.pc t).isBlocked = false) (hto : pc.isBlocked = false)
    (hstate : s.mutex.state = mutexStateLockedWait →
      s'.mutex.state = mutexStateLockedWait ∨ pc.releasing = true)
    (hre : (s.pc t).releasing = true → pc.releasing = true)
    (hrec : (s.pc t).recontending = true →
      s'.mutex.state = mutexStateLockedWait ∨ pc.recontending = true) : s'.WakeInv := by
  refine ⟨h.queued.of_frame hqueue hpc hfrom hto, ?_⟩
  rintro ⟨u, hu⟩
  refine (h.promised ⟨u, ?_⟩).of_frame hpc hstate hre hrec
  by_cases hut : u = t
  · simp [hut, hpc, hto] at hu
  · simpa [hpc, Function.update_of_ne hut] using hu

/-- A step that leaves the word as it is and moves `t` between two points with no part in the
promise. -/
theorem WakeInv.of_move {s s' : MutexSystem} {t : Tid} {pc : MutexPc} (h : s.WakeInv)
    (hqueue : s'.waitQueue = s.waitQueue) (hpc : s'.pc = Function.update s.pc t pc)
    (hstate : s'.mutex.state = s.mutex.state) (hfrom : (s.pc t).isBlocked = false)
    (hto : pc.isBlocked = false) (hre : (s.pc t).releasing = false)
    (hrec : (s.pc t).recontending = false) : s'.WakeInv :=
  h.of_frame hqueue hpc hfrom hto (fun h2 => Or.inl (by rw [hstate, h2])) (by simp [hre])
    (by simp [hrec])

theorem atomicCas_keeps_lockedWait (s : MutexSystem) (oldVal newVal : BitVec 32)
    (hne : oldVal ≠ mutexStateLockedWait) (h : s.mutex.state = mutexStateLockedWait) :
    (s.atomicCas oldVal newVal).mutex.state = mutexStateLockedWait := by
  have : ¬ mutexStateLockedWait = oldVal := fun he => hne he.symm
  simp [atomicCas, setState, h, this]

section
variable {s : MutexSystem} {t : Tid}

theorem wake_check (h : s.WakeInv) {tryOnly : Bool} (hpc : s.pc t = .check tryOnly) :
    (s.runCheck t tryOnly).WakeInv := by
  unfold runCheck
  split_ifs <;>
    exact h.of_move rfl rfl rfl (by simp [hpc, isBlocked]) rfl (by simp [hpc, releasing])
      (by simp [hpc, recontending])

theorem wake_getParams (h : s.WakeInv) {tryOnly : Bool} (hpc : s.pc t = .getParams tryOnly) :
    (s.runGetParams t tryOnly).WakeInv := by
  unfold runGetParams
  split_ifs <;>
    exact h.of_move rfl rfl rfl (by simp [hpc, isBlocked]) rfl (by simp [hpc, releasing])
      (by simp [hpc, recontending])

theorem wake_fast (h : s.WakeInv) {tryOnly : Bool} {params : Option (BitVec 32)}
    (hpc : s.pc t = .fast tryOnly params) : (s.runFast t tryOnly params).WakeInv := by
  unfold runFast
  have hkeep := atomicCas_keeps_lockedWait s mutexStateUnlocked mutexStateLocked (by decide)
  simp only
  split_ifs <;>
    exact h.of_frame rfl rfl (by simp [hpc, isBlocked]) rfl (fun h2 => Or.inl (hkeep h2))
      (by simp [hpc, releasing]) (by simp [hpc, recontending])

theorem wake_loop (hi : s.Inv) (h : s.WakeInv) {w : BitVec 32} {params : Option (BitVec 32)}
    {woken : Bool} (hpc : s.pc t = .loop w params woken) :
    (s.runLoop t w params woken).WakeInv := by
  unfold runLoop
  have hkeep := atomicCas_keeps_lockedWait s mutexStateLocked mutexStateLockedWait (by decide)
  split_ifs with h2 hz
  -- the value seen was the contended one: the thread has contended already
  · exact h.of_move rfl rfl rfl (by simp [hpc, isBlocked]) rfl (by simp [hpc, releasing])
      (by simp [hpc, recontending, h2])
  · have hto : (s.atomicCas mutexStateLocked mutexStateLockedWait).mutex.state =
        mutexStateLockedWait := by
      rcases isMutexState_cases hi.state with h0 | h1 | h2
      · exact absurd h0 hz
      · simp [atomicCas, setState, h1]
      · exact hkeep h2
    exact h.of_frame rfl rfl (by simp [hpc, isBlocked]) rfl (fun _ => Or.inl hto)
      (by simp [hpc, releasing]) (fun _ => Or.inl hto)
  · exact h.of_frame rfl rfl (by simp [hpc, isBlocked]) rfl (fun h2 => Or.inl (hkeep h2))
      (by simp [hpc, releasing])
      (fun hr => Or.inr (by simp [hpc, recontending] at hr; simp [recontending, hr.1]))

theorem wake_wait (h : s.WakeInv) {params : Option (BitVec 32)} (hpc : s.pc t = .wait params)
    (fault : Option OsReturnE) : (s.runWait t params fault).WakeInv := by
  have hfrom : (s.pc t).isBlocked = false := by simp [hpc, isBlocked]
  have hmove : ∀ pc : MutexPc, pc.isBlocked = false → (s.goto t pc).WakeInv := fun pc hto =>
    h.of_move rfl rfl rfl hfrom hto (by simp [hpc, releasing]) (by simp [hpc, recontending])
  unfold runWait futexWait
  by_cases hv : s.mutex.state = mutexStateLockedWait
  · cases fault with
    | some err =>
      simp only [hv, ne_eq, not_true_eq_false, if_false]
      split_ifs
      · exact hmove _ rfl
      · exact hmove _ rfl
    | none =>
      -- the thread blocks on the contended value
      simp only [hv, ne_eq, not_true_eq_false, if_false]
      have hnot : t ∉ waiting s.waitQueue := by
        intro hmem
        obtain ⟨w, hw, rfl⟩ := List.mem_map.mp hmem
        have := (h.queued.blocked w hw).2
        rw [hfrom] at this
        cases this
      refine ⟨⟨fun u hu => ?_, fun w hw => ?_, ?_⟩, fun _ => Or.inl hv⟩
      · by_cases hut : u = t
        · simp [hut, goto]
        · have := h.queued.mem u (by simpa [goto, Function.update_of_ne hut] using hu)
          simpa [goto, waiting, hut] using this
      · simp only [goto, Option.getD_some, List.mem_cons] at hw
        rcases hw with rfl | hw
        · simp [goto, isBlocked]
        · obtain ⟨hwait, hb⟩ := h.queued.blocked w hw
          have hne : w.waitingThread ≠ t := by
            intro he
            rw [he, hfrom] at hb
            cases hb
          exact ⟨hwait, by simpa [goto, Function.update_of_ne hne] using hb⟩
      · simp only [goto, waiting_some, List.map_cons, List.nodup_cons]
        exact ⟨hnot, h.queued.nodup⟩
  · simp only [hv, ne_eq, not_false_eq_true, if_true, not_true_eq_false, if_false]
    exact hmove _ rfl

theorem wake_retry (hi : s.Inv) (h : s.WakeInv) {params : Option (BitVec 32)} {woken : Bool}
    (hpc : s.pc t = .retry params woken) : (s.runRetry t params woken).WakeInv := by
  have hfrom : (s.pc t).isBlocked = false := by simp [hpc, isBlocked]
  have hkeep := atomicCas_keeps_lockedWait s mutexStateUnlocked mutexStateLockedWait (by decide)
  simp only [runRetry, hi.state, Bool.not_true, Bool.false_eq_true, if_false]
  rcases isMutexState_cases hi.state with h0 | h1 | h2
  · have hto : (s.atomicCas mutexStateUnlocked mutexStateLockedWait).mutex.state =
        mutexStateLockedWait := by simp [atomicCas, setState, h0]
    rw [if_pos h0]
    exact h.of_frame rfl rfl hfrom rfl (fun _ => Or.inl hto) (by simp [hpc, releasing])
      (fun _ => Or.inl hto)
  · rw [if_neg (by simp [h1])]
    exact h.of_frame rfl rfl hfrom rfl (fun h2 => Or.inl (hkeep h2)) (by simp [hpc, releasing])
      (fun hr => Or.inr (by simpa [hpc, recontending, h1] using hr))
  · rw [if_neg (by simp [h2])]
    exact h.of_frame rfl rfl hfrom rfl (fun _ => Or.inl (hkeep h2)) (by simp [hpc, releasing])
      (fun _ => Or.inl (hkeep h2))

theorem wake_acquired (hi : s.Inv) (h : s.WakeInv) {tryOnly : Bool} {params : Option (BitVec 32)}
    (hpc : s.pc t = .acquired tryOnly params) : (s.runAcquired t tryOnly params).WakeInv := by
  obtain ⟨prio, p, locker, he⟩ := runAcquired_eq (t := t) hi.excl tryOnly params
  rw [he]
  exact h.of_move rfl rfl rfl (by simp [hpc, isBlocked]) rfl (by simp [hpc, releasing])
    (by simp [hpc, recontending])

theorem wake_unlockCheck (hi : s.Inv) (h : s.WakeInv) {i : Option Bool}
    (hpc : s.pc t = .unlockCheck i) : (s.runUnlockCheck t i).WakeInv := by
  simp only [runUnlockCheck, hi.state, Bool.not_true, Bool.false_eq_true, if_false]
  exact h.of_move rfl rfl rfl (by simp [hpc, isBlocked]) rfl (by simp [hpc, releasing])
    (by simp [hpc, recontending])

theorem wake_unlockRestore (h : s.WakeInv) (hpc : s.pc t = .unlockRestore none) :
    (s.runUnlockRestore t none).WakeInv := by
  simp only [runUnlockRestore, schedSetParams]
  split_ifs <;>
    exact h.of_move rfl rfl rfl (by simp [hpc, isBlocked]) rfl (by simp [hpc, releasing])
      (by simp [hpc, recontending])

theorem wake_unlockAdd (h : s.WakeInv) (hpc : s.pc t = .unlockAdd none) :
    (s.runUnlockAdd t none).WakeInv := by
  have hfrom : (s.pc t).isBlocked = false := by simp [hpc, isBlocked]
  simp only [runUnlockAdd]
  split_ifs with h1
  · exact h.of_frame rfl rfl hfrom rfl (fun _ => Or.inr rfl) (fun _ => rfl)
      (by simp [hpc, recontending])
  · have h1' : s.mutex.state = mutexStateLocked := by simpa using h1
    exact h.of_frame rfl rfl hfrom rfl (by simp [h1']) (by simp [hpc, releasing])
      (by simp [hpc, recontending])

theorem wake_unlockStore (h : s.WakeInv) {i : Option Bool} (hpc : s.pc t = .unlockStore i) :
    (s.runUnlockStore t i).WakeInv :=
  h.of_frame rfl rfl (by simp [hpc, isBlocked]) rfl (fun _ => Or.inr rfl) (fun _ => rfl)
    (by simp [hpc, recontending])

/-- The wake of an unlock: if the word is not contended, the first blocked thread is woken. -/
theorem wake_unlockWake (h : s.WakeInv) (hpc : s.pc t = .unlockWake none) :
    (s.runUnlockWake t none).WakeInv := by
  obtain ⟨err, he⟩ := runUnlockWake_eq (s := s) (t := t)
  rw [he]
  have hperm := futexWake_perm s.mutex.state 1 s.waitQueue
  have hnodup := hperm.nodup_iff.mpr h.queued.nodup
  set woken := (futexWake s.mutex.state 1 s.waitQueue).2.1 with hwoken
  have hnew : ∀ u, u ≠ t → Function.update (fun u => if u ∈ woken then resume (s.pc u) else s.pc u)
      t (.ret err none) u = if u ∈ woken then resume (s.pc u) else s.pc u := fun u hu => by
    rw [Function.update_of_ne hu]
  -- a thread that is blocked after the wake was blocked before it and was not woken
  have hstill : ∀ u, (Function.update (fun u => if u ∈ woken then resume (s.pc u) else s.pc u)
      t (.ret err none) u).isBlocked = true → u ∉ woken ∧ (s.pc u).isBlocked = true := by
    intro u hu
    by_cases hut : u = t
    · simp [hut, isBlocked] at hu
    · rw [hnew u hut] at hu
      by_cases hmem : u ∈ woken
      · exact absurd (by simpa [hmem] using hu) isBlocked_of_resume
      · exact ⟨hmem, by simpa [hmem] using hu⟩
  have hne : ∀ u, (s.pc u).isBlocked = true → u ≠ t := by
    rintro u hu rfl
    simp [hpc, isBlocked] at hu
  refine ⟨⟨fun u hu => ?_, fun w hw => ?_, (List.nodup_append.mp hnodup).2.1⟩, ?_⟩
  · obtain ⟨hmem, hb⟩ := hstill u hu
    exact (List.mem_append.mp (hperm.mem_iff.mpr (h.queued.mem u hb))).resolve_left hmem
  · obtain ⟨hwait, hb⟩ := h.queued.blocked w (futexWake_subset hw)
    have hmem : w.waitingThread ∉ woken := fun hm =>
      (List.nodup_append.mp hnodup).2.2 _ hm _ (List.mem_map_of_mem hw) rfl
    refine ⟨hwait, ?_⟩
    simp only
    rw [hnew _ (hne _ hb), if_neg hmem]
    exact hb
  · rintro ⟨u, hu⟩
    obtain ⟨-, hb⟩ := hstill u hu
    obtain ⟨w, hw, -⟩ := List.mem_map.mp (h.queued.mem u hb)
    by_cases hv : s.mutex.state = mutexStateLockedWait
    · exact Or.inl hv
    · have hsome : woken ≠ [] := by
        refine futexWake_ne_nil Nat.one_pos hw ?_
        rw [(h.queued.blocked w hw).1]
        exact fun he => hv he.symm
      obtain ⟨v, hvm⟩ := List.exists_mem_of_ne_nil woken hsome
      obtain ⟨x, hx, rfl⟩ := List.mem_map.mp (hperm.mem_iff.mp (List.mem_append_left _ hvm))
      have hxb := (h.queued.blocked x hx).2
      refine Or.inr (Or.inr ⟨x.waitingThread, ?_⟩)
      simp only
      rw [hnew _ (hne _ hxb), if_pos hvm]
      exact (resume_of_blocked hxb).1

end

theorem Step.wakeInv {s s' : MutexSystem} {a : Tid × MutexAct} (hi : s.Inv) (h : s.WakeInv)
    (hs : s.Step a s') : s'.WakeInv := by
  obtain ⟨t, act⟩ := a
  simp only [Step] at hs
  cases act with
  | lock =>
    cases hpc : s.pc t <;> simp only [exec, hpc, Option.some.injEq, reduceCtorEq] at hs
    rw [← hs]
    exact h.of_move rfl rfl rfl (by simp [hpc, isBlocked]) rfl (by simp [hpc, releasing])
      (by simp [hpc, recontending])
  | trylock =>
    cases hpc : s.pc t <;> simp only [exec, hpc, Option.some.injEq, reduceCtorEq] at hs
    rw [← hs]
    exact h.of_move rfl rfl rfl (by simp [hpc, isBlocked]) rfl (by simp [hpc, releasing])
      (by simp [hpc, recontending])
  | unlock =>
    cases hpc : s.pc t <;> simp only [exec, hpc, reduceCtorEq] at hs
    split_ifs at hs
    rw [Option.some.injEq] at hs
    rw [← hs]
    exact h.of_move rfl rfl rfl (by simp [hpc, isBlocked]) rfl (by simp [hpc, releasing])
      (by simp [hpc, recontending])
  | run fault =>
    have houter := hi.outer t
    cases hpc : s.pc t <;> simp only [exec, hpc, Option.some.injEq, reduceCtorEq] at hs <;>
      rw [← hs]
    case check => exact wake_check h hpc
    case getParams => exact wake_getParams h hpc
    case fast => exact wake_fast h hpc
    case loop => exact wake_loop hi h hpc
    case wait => exact wake_wait h hpc fault
    case retry => exact wake_retry hi h hpc
    case acquired => exact wake_acquired hi h hpc
    case unlockCheck => exact wake_unlockCheck hi h hpc
    case unlockRestore i =>
      obtain rfl : i = none := by simpa [hpc, nested] using houter
      exact wake_unlockRestore h hpc
    case unlockAdd i =>
      obtain rfl : i = none := by simpa [hpc, nested] using houter
      exact wake_unlockAdd h hpc
    case unlockStore => exact wake_unlockStore h hpc
    case unlockWake i =>
      obtain rfl : i = none := by simpa [hpc, nested] using houter
      exact wake_unlockWake h hpc

theorem Started.wakeInv {priority : BitVec 16} {s : MutexSystem} (h : s.Started priority) :
    s.WakeInv := by
  refine ⟨⟨?_, ?_, ?_⟩, ?_⟩ <;> simp [h.pc, h.waitQueue, isBlocked]

theorem wakeInv_of_reachable {priority : BitVec 16} {s : MutexSystem}
    (h : Reachable (Started priority) Step s) : s.WakeInv := by
  have hboth : s.Inv ∧ s.WakeInv :=
    h.invariant (fun s => s.Inv ∧ s.WakeInv) (fun _ hs => ⟨hs.inv, hs.wakeInv⟩)
      (fun _ _ _ hi _ hs => ⟨hs.inv hi.1, hs.wakeInv hi.1 hi.2⟩)
  exact hboth.2

/-- While a thread is blocked on the futex of the mutex, the word is contended and owned by some
thread, whose unlock will issue a wake, or an unlock that released the word has yet to issue its
wake, or a woken thread has yet to contend again. -/
theorem no_lost_wakeup {priority : BitVec 16} {s : MutexSystem}
    (h : Reachable (Started priority) Step s) {t : Tid} (ht : (s.pc t).isBlocked = true) :
    (s.mutex.state = mutexStateLockedWait ∧ ∃ u, s.Owns u) ∨
      (∃ u, (s.pc u).releasing = true) ∨ ∃ u, (s.pc u).recontending = true := by
  refine ((wakeInv_of_reachable h).promised ⟨t, ht⟩).imp_left fun h2 => ⟨h2, ?_⟩
  apply (inv_of_reachable h).owned.mp
  rw [h2]
  simp

theorem no_lost_wakeup_contended : ∃ s : MutexSystem, (s.pc 1).isBlocked = true ∧
    ((s.mutex.state = mutexStateLockedWait ∧ ∃ u, s.Owns u) ∨
      (∃ u, (s.pc u).releasing = true) ∨ ∃ u, (s.pc u).recontending = true) := by
  obtain ⟨s, hs, -, h1, -⟩ := contended_run
  exact ⟨s, h1, no_lost_wakeup hs h1⟩

end MutexSystem

end UtkKernel.Sync
