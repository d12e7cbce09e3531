import UtkKernel.Sync.Fifo
import UtkKernel.Sync.MutexFrame

/-! # The priority elevation of mutexes (`lib/libapi/src/mutex.c`)

Threads call on any number of mutexes, each created with an elevation priority. A thread that acquires one
records its priority in the mutex and gets a new one, and it gets the recorded priority back when it
unlocks. The priority is packed into the flags shifted by 8; the acquisition shifts what it unpacked once
more, so the new priority is 0 whatever the mutex was created with. -/

namespace UtkKernel.Sync
open Foundations
set_option autoImplicit false

/-- The mutexes, the priorities of the threads, and for each thread the mutex it is in a call on, those it
holds, the latest acquired first, and the priority it had before it acquired the first of them. -/
structure ElevationSystem where
  mutexes : ℕ → MutexSystem
  priority : Tid → BitVec 32
  current : Tid → Option ℕ
  held : Tid → List ℕ
  before : Tid → BitVec 32

namespace ElevationSystem
open MutexSystem MutexPc

def isRet : MutexPc → Bool
  | .ret _ _ => true
  | _ => false

theorem ret_of_isRet {pc : MutexPc} (h : isRet pc = true) : ∃ err value, pc = .ret err value := by
  cases pc with
  | ret err value => exact ⟨err, value, rfl⟩
  | _ => cases h

/-- The mutexes that `t` holds after a step on `i` that leads to `b`. -/
def heldAfter (s : ElevationSystem) (t : Tid) (i : ℕ) (b : MutexSystem) : List ℕ :=
  match (s.mutexes i).holds t, b.holds t with
  | false, true => i :: s.held t
  | true, false => (s.held t).erase i
  | _, _ => s.held t

/-- The first acquisition of `t` is the one it makes while it holds nothing. -/
def beforeAfter (s : ElevationSystem) (t : Tid) (i : ℕ) (b : MutexSystem) : BitVec 32 :=
  if (s.mutexes i).holds t = false ∧ b.holds t = true ∧ s.held t = [] then s.priority t else s.before t

/-- The mutex `i` and the priorities after a step of `t` are those of `b`. -/
def settle (s : ElevationSystem) (t : Tid) (i : ℕ) (b : MutexSystem) : ElevationSystem :=
  ⟨Function.update s.mutexes i b, b.priority,
    Function.update s.current t (if isRet (b.pc t) then none else some i),
    Function.update s.held t (s.heldAfter t i b), Function.update s.before t (s.beforeAfter t i b)⟩

/-- One atomic step of thread `t` on mutex `i`; a thread is in a call on one mutex at a time. -/
def exec (s : ElevationSystem) (t : Tid) (i : ℕ) (act : MutexAct) : Option ElevationSystem :=
  if s.current t = none ∨ s.current t = some i then
    ({ s.mutexes i with priority := s.priority }.exec t act).map (s.settle t i)
  else none

def Step (s : ElevationSystem) (a : Tid × ℕ × MutexAct) (s' : ElevationSystem) : Prop :=
  s.exec a.1 a.2.1 a.2.2 = some s'

/-- Each mutex was just created with its flags and an elevation priority, and no thread has called on
one. -/
structure Started (flags : ℕ → BitVec 32) (p : ℕ → BitVec 16) (s : ElevationSystem) : Prop where
  mutexes : ∀ i, (s.mutexes i).StartedAs (flags i) (p i)
  flags : ∀ i, flags i >>> 8 = 0#32
  elevation : ∀ i, (p i).setWidth 32 ≠ mutexPriorityElevationNone
  current : ∀ t, s.current t = none
  held : ∀ t, s.held t = []
  before : s.before = s.priority

/-- The thread has set its priority back and has yet to release the word. -/
def restored : MutexPc → Bool
  | .unlockAdd _ => true
  | _ => false

/-- Outside the release of a mutex, a thread has the priority of the mutex that it acquired last among
those it holds, and without any the priority it had before. -/
structure Elevated (p : ℕ → BitVec 16) (s : ElevationSystem) : Prop where
  holding : ∀ t, (∀ i, s.current t = some i → restored ((s.mutexes i).pc t) = false) →
    ∀ i l, s.held t = i :: l → s.priority t = (p i).setWidth 32
  free : ∀ t, (∀ i, s.current t = some i → restored ((s.mutexes i).pc t) = false) → s.held t = [] →
    s.priority t = s.before t

/-- The step is no acquisition of a mutex with a priority other than 0, no unlock that sets another
priority than 0 while the thread holds further mutexes, and no entry of a recursive mutex by a thread that
does not hold it. -/
structure Restorable (s : ElevationSystem) (a : Tid × ℕ × MutexAct) : Prop where
  zero : ∀ tryOnly params, (s.mutexes a.2.1).pc a.1 = .acquired tryOnly params →
    (s.mutexes a.2.1).mutex.prio = 0
  last : a.2.2 = .unlock → s.held a.1 = [a.2.1] ∨
    (s.mutexes a.2.1).mutex.acquiredThreadPriority = 0
  entry : ∀ tryOnly, (s.mutexes a.2.1).pc a.1 = .getParams tryOnly →
    (s.mutexes a.2.1).mutex.recursive ≠ 0 → a.1 = (s.mutexes a.2.1).mutex.lockerTid →
    (s.mutexes a.2.1).holds a.1 = true

end ElevationSystem

/-! ## What a step on one mutex does to the priorities -/

namespace MutexSystem
open MutexPc ElevationSystem

/-- The priority that a lock has read, where it has read one, is `v`. -/
def readIs (v : BitVec 32) : MutexPc → Prop
  | .fast _ params => params = some v
  | .loop _ params _ => params = some v
  | .wait params => params = some v
  | .blocked params => params = some v
  | .retry params _ => params = some v
  | .acquired _ params => params = some v
  | _ => True

/-- The points of an unlock before it sets the priority back. -/
def restoring : MutexPc → Bool
  | .unlockCheck _ => true
  | .unlockRestore _ => true
  | _ => false

/-- The thread has the word and has yet to fill the fields of the owner. -/
def acquiring : MutexPc → Bool
  | .acquired _ _ => true
  | _ => false

/-- A step of `t`: it calls the unlock, acquires the mutex, sets its priority back, releases the mutex, or
does none of these. -/
inductive PrioMove (act : MutexAct) (s b : MutexSystem) (t : Tid) : Prop
  | quiet (hpriority : b.priority = s.priority)
      (hsaved : b.mutex.acquiredThreadPriority = s.mutex.acquiredThreadPriority)
      (hholds : b.holds t = s.holds t)
      (hread : readIs (s.priority t) (s.pc t) → readIs (s.priority t) (b.pc t))
      (hrestoring : restoring (b.pc t) = true → restoring (s.pc t) = true)
      (htake : acquiring (b.pc t) = true → s.holds t = false)
      (hfrom : restored (s.pc t) = false) (hto : restored (b.pc t) = false)
  | enter (hact : act = .unlock) (hpc : isRet (s.pc t) = true) (hto : b.pc t = .unlockCheck none)
      (hpriority : b.priority = s.priority)
      (hsaved : b.mutex.acquiredThreadPriority = s.mutex.acquiredThreadPriority)
      (hholds : b.holds t = s.holds t) (hheld : s.holds t = true)
  | acquire (tryOnly : Bool) (params : Option (BitVec 32)) (value : Option (BitVec 32))
      (hpc : s.pc t = .acquired tryOnly params) (hret : b.pc t = .ret .osNoErr value)
      (hpriority : b.priority = Function.update s.priority t 0)
      (hsaved : b.mutex.acquiredThreadPriority = params.getD 0) (hholds : b.holds t = true)
  | restore (hpc : s.pc t = .unlockRestore none) (hto : b.pc t = .unlockAdd none)
      (hpriority : b.priority = Function.update s.priority t s.mutex.acquiredThreadPriority)
      (hsaved : b.mutex.acquiredThreadPriority = s.mutex.acquiredThreadPriority)
      (hholds : b.holds t = s.holds t)
  | release (hpc : s.pc t = .unlockAdd none)
      (hto : b.pc t = .unlockStore none ∨ b.pc t = .ret .osNoErr none)
      (hpriority : b.priority = s.priority)
      (hsaved : b.mutex.acquiredThreadPriority = s.mutex.acquiredThreadPriority)
      (hholds : b.holds t = false)

theorem Excl.holds_free {s : MutexSystem} {t : Tid} (hi : s.Excl)
    (h : s.mutex.state = mutexStateUnlocked) : s.holds t = false := by
  by_contra hne
  exact hi.owned.mpr ⟨t, .inl (by simpa using hne)⟩ h

section
variable {s b : MutexSystem} {t : Tid} {act : MutexAct}

/-- A step that only moves `t`, apart from the word and the queue. -/
theorem prioMove_goto {pc : MutexPc} (hpriority : b.priority = s.priority)
    (hsaved : b.mutex.acquiredThreadPriority = s.mutex.acquiredThreadPriority)
    (hholds : b.holds t = s.holds t) (hpc : b.pc t = pc)
    (hread : readIs (s.priority t) (s.pc t) → readIs (s.priority t) pc)
    (hrestoring : restoring pc = true → restoring (s.pc t) = true)
    (htake : acquiring pc = true → s.holds t = false)
    (hfrom : restored (s.pc t) = false) (hto : restored pc = false) : PrioMove act s b t := by
  rw [← hpc] at hread hrestoring htake hto
  exact .quiet hpriority hsaved hholds hread hrestoring htake hfrom hto

/-- The same to a place where nothing is restored or taken. -/
theorem prioMove_pass {pc : MutexPc} (hpriority : b.priority = s.priority)
    (hsaved : b.mutex.acquiredThreadPriority = s.mutex.acquiredThreadPriority)
    (hholds : b.holds t = s.holds t) (hpc : b.pc t = pc)
    (hread : readIs (s.priority t) (s.pc t) → readIs (s.priority t) pc)
    (hrestoring : restoring pc = false) (htake : acquiring pc = false)
    (hfrom : restored (s.pc t) = false) (hto : restored pc = false) : PrioMove act s b t := by
  refine prioMove_goto hpriority hsaved hholds hpc hread (fun h => ?_) (fun h => ?_) hfrom hto
  · rw [hrestoring] at h
    cases h
  · rw [htake] at h
    cases h

theorem prioMove_getParams {tryOnly : Bool} (hpc : s.pc t = .getParams tryOnly)
    (hentry : s.mutex.recursive ≠ 0 → t = s.mutex.lockerTid → s.holds t = true) :
    PrioMove act s (s.runGetParams t tryOnly) t := by
  unfold runGetParams
  split_ifs with hrec
  · refine prioMove_pass rfl rfl ?_ (Function.update_self ..) (fun _ => trivial) rfl rfl
      (by rw [hpc]; rfl) rfl
    exact (Function.update_self ..).trans (hentry hrec.1 hrec.2).symm
  · exact prioMove_pass rfl rfl rfl (Function.update_self ..) (fun _ => rfl) rfl rfl
      (by rw [hpc]; rfl) rfl

theorem prioMove_acquired {tryOnly : Bool} {params : Option (BitVec 32)}
    (hprio : s.mutex.prio ≤ kernelLowestPriority) (hpc : s.pc t = .acquired tryOnly params) :
    PrioMove act s (s.runAcquired t tryOnly params) t := by
  have hne : s.mutex.prio ≠ mutexPriorityElevationNone := by
    intro h
    rw [h] at hprio
    exact absurd hprio (by decide)
  have hzero : s.mutex.prio >>> 8 = 0#32 := by
    rw [BitVec.le_def] at hprio
    apply BitVec.eq_of_toNat_eq
    simp [Nat.shiftRight_eq_div_pow] at hprio ⊢
    omega
  simp only [runAcquired, hne, ne_eq, not_false_eq_true, if_true, hzero, schedSetParams,
    if_pos (show 0#32 ≤ kernelLowestPriority by decide)]
  refine .acquire tryOnly params _ hpc (Function.update_self ..) ?_ ?_ (Function.update_self ..)
  · split_ifs <;> rfl
  · split_ifs <;> rfl

theorem prioMove_unlockRestore (hprio : s.mutex.prio ≤ kernelLowestPriority)
    (hpc : s.pc t = .unlockRestore none) : PrioMove act s (s.runUnlockRestore t none) t := by
  have hne : s.mutex.prio ≠ mutexPriorityElevationNone := by
    intro h
    rw [h] at hprio
    exact absurd hprio (by decide)
  simp only [runUnlockRestore, hne, ne_eq, not_false_eq_true, if_true, schedSetParams]
  split_ifs
  · exact .restore hpc (Function.update_self ..) rfl rfl rfl
  · exact prioMove_pass rfl rfl rfl (Function.update_self ..) (fun _ => trivial) rfl rfl
      (by rw [hpc]; rfl) rfl

theorem prioMove_run {fault : Option OsReturnE} (hi : s.Excl)
    (hprio : s.mutex.prio ≤ kernelLowestPriority)
    (hentry : ∀ tryOnly, s.pc t = .getParams tryOnly → s.mutex.recursive ≠ 0 →
      t = s.mutex.lockerTid → s.holds t = true)
    (hs : s.exec t (.run fault) = some b) : PrioMove act s b t := by
  have houter := hi.outer t
  cases hpc : s.pc t <;> simp only [MutexSystem.exec, hpc, Option.some.injEq, reduceCtorEq] at hs <;>
    rw [← hs]
  case check tryOnly =>
    have hne : s.mutex.prio ≠ mutexPriorityElevationNone := by
      intro h
      rw [h] at hprio
      exact absurd hprio (by decide)
    simp only [runCheck, hi.state, Bool.not_true, Bool.false_eq_true, if_false, hne, ne_eq,
      not_false_eq_true, true_or, if_true]
    exact prioMove_pass rfl rfl rfl (Function.update_self ..) (fun _ => trivial) rfl rfl
      (by rw [hpc]; rfl) rfl
  case getParams tryOnly => exact prioMove_getParams hpc (hentry tryOnly hpc)
  case fast tryOnly params =>
    unfold runFast
    dsimp only
    split_ifs with hfree
    · exact prioMove_goto rfl rfl rfl (Function.update_self ..) (by rw [hpc]; exact id)
        (by simp [restoring]) (fun _ => hi.holds_free hfree) (by rw [hpc]; rfl) rfl
    · exact prioMove_pass rfl rfl rfl (Function.update_self ..) (fun _ => trivial)
        rfl rfl (by rw [hpc]; rfl) rfl
    · exact prioMove_pass rfl rfl rfl (Function.update_self ..) (by rw [hpc]; exact id)
        rfl rfl (by rw [hpc]; rfl) rfl
  case loop w params woken =>
    unfold runLoop
    dsimp only
    split_ifs <;> exact prioMove_pass rfl rfl rfl (Function.update_self ..) (by rw [hpc]; exact id)
      rfl rfl (by rw [hpc]; rfl) rfl
  case wait params =>
    unfold runWait
    split
    · exact prioMove_pass rfl rfl rfl (Function.update_self ..) (by rw [hpc]; exact id)
        rfl rfl (by rw [hpc]; rfl) rfl
    · split_ifs
      · exact prioMove_pass rfl rfl rfl (Function.update_self ..) (fun _ => trivial)
          rfl rfl (by rw [hpc]; rfl) rfl
      · exact prioMove_pass rfl rfl rfl (Function.update_self ..) (by rw [hpc]; exact id)
          rfl rfl (by rw [hpc]; rfl) rfl
  case retry params woken =>
    simp only [runRetry, hi.state, Bool.not_true, Bool.false_eq_true, if_false]
    split_ifs with hfree
    · exact prioMove_goto rfl rfl rfl (Function.update_self ..) (by rw [hpc]; exact id)
        (by simp [restoring]) (fun _ => hi.holds_free hfree) (by rw [hpc]; rfl) rfl
    · exact prioMove_pass rfl rfl rfl (Function.update_self ..) (by rw [hpc]; exact id)
        rfl rfl (by rw [hpc]; rfl) rfl
  case acquired tryOnly params => exact prioMove_acquired hprio hpc
  case unlockCheck i =>
    obtain rfl : i = none := by simpa [hpc, nested] using houter
    simp only [runUnlockCheck, hi.state, Bool.not_true, Bool.false_eq_true, if_false]
    exact prioMove_goto rfl rfl rfl (Function.update_self ..) (fun _ => trivial)
      (by rw [hpc]; exact id) (by simp [acquiring]) (by rw [hpc]; rfl) rfl
  case unlockRestore i =>
    obtain rfl : i = none := by simpa [hpc, nested] using houter
    exact prioMove_unlockRestore hprio hpc
  case unlockAdd i =>
    obtain rfl : i = none := by simpa [hpc, nested] using houter
    unfold runUnlockAdd
    dsimp only
    split_ifs
    · exact .release hpc (.inl (Function.update_self ..)) rfl rfl (Function.update_self ..)
    · exact .release hpc (.inr (Function.update_self ..)) rfl rfl (Function.update_self ..)
  case unlockStore i =>
    exact prioMove_pass rfl rfl rfl (Function.update_self ..) (fun _ => trivial)
      rfl rfl (by rw [hpc]; rfl) rfl
  case unlockWake i =>
    obtain rfl : i = none := by simpa [hpc, nested] using houter
    obtain ⟨err, he⟩ := runUnlockWake_eq (s := s) (t := t)
    have hret : (s.runUnlockWake t none).pc t = .ret err none := by
      rw [he]
      dsimp only
      rw [Function.update_self]
    exact prioMove_pass rfl rfl rfl hret (fun _ => trivial) rfl rfl (by rw [hpc]; rfl) rfl

theorem prioMove_exec (hi : s.Excl) (hprio : s.mutex.prio ≤ kernelLowestPriority)
    (hentry : ∀ tryOnly, s.pc t = .getParams tryOnly → s.mutex.recursive ≠ 0 →
      t = s.mutex.lockerTid → s.holds t = true)
    (hs : s.exec t act = some b) : PrioMove act s b t := by
  cases act with
  | lock =>
    cases hpc : s.pc t <;> simp only [MutexSystem.exec, hpc, Option.some.injEq, reduceCtorEq] at hs
    rw [← hs]
    exact prioMove_pass rfl rfl rfl (Function.update_self ..) (fun _ => trivial) rfl rfl
      (by rw [hpc]; rfl) rfl
  | trylock =>
    cases hpc : s.pc t <;> simp only [MutexSystem.exec, hpc, Option.some.injEq, reduceCtorEq] at hs
    rw [← hs]
    exact prioMove_pass rfl rfl rfl (Function.update_self ..) (fun _ => trivial) rfl rfl
      (by rw [hpc]; rfl) rfl
  | unlock =>
    cases hpc : s.pc t <;> simp only [MutexSystem.exec, hpc, reduceCtorEq] at hs
    split_ifs at hs with hheld
    cases hs
    exact .enter rfl (by rw [hpc]; rfl) (Function.update_self ..) rfl rfl rfl hheld
  | run fault => exact prioMove_run hi hprio hentry hs

/-- Only an acquisition changes the recorded priority. -/
theorem PrioMove.saved (h : PrioMove act s b t) : b.mutex.acquiredThreadPriority =
    s.mutex.acquiredThreadPriority ∨ ∃ tryOnly params, s.pc t = .acquired tryOnly params := by
  cases h with
  | quiet _ hsaved => exact .inl hsaved
  | enter _ _ _ _ hsaved => exact .inl hsaved
  | acquire tryOnly params _ hpc => exact .inr ⟨tryOnly, params, hpc⟩
  | restore _ _ _ hsaved => exact .inl hsaved
  | release _ _ _ hsaved => exact .inl hsaved

end

end MutexSystem

/-! ## The invariant of restorable runs -/

namespace ElevationSystem
open MutexSystem MutexPc

abbrev saved (s : ElevationSystem) (i : ℕ) : BitVec 32 := (s.mutexes i).mutex.acquiredThreadPriority

/-- What a restorable run keeps for a thread. One of the mutexes it holds has the priority from before
the first acquisition recorded, and the others have that one or 0. -/
structure ThreadInv (p : ℕ → BitVec 16) (s : ElevationSystem) (t : Tid) : Prop where
  idle : ∀ i, s.current t ≠ some i → isRet ((s.mutexes i).pc t) = true
  read : ∀ i, readIs (s.priority t) ((s.mutexes i).pc t)
  taking : ∀ i, acquiring ((s.mutexes i).pc t) = true → (s.mutexes i).holds t = false
  held : ∀ i, i ∈ s.held t ↔ (s.mutexes i).holds t = true
  nodup : (s.held t).Nodup
  zero : ∀ i ∈ s.held t, (p i).setWidth 32 = 0#32
  saved : ∀ i ∈ s.held t, s.saved i = 0 ∨ s.saved i = s.before t
  first : s.held t ≠ [] → ∃ i ∈ s.held t, s.saved i = s.before t
  leaving : ∀ i, (restoring ((s.mutexes i).pc t) || restored ((s.mutexes i).pc t)) = true →
    i ∈ s.held t ∧ (s.held t = [i] ∨ s.saved i = 0)
  back : ∀ i, restored ((s.mutexes i).pc t) = true → s.priority t = s.saved i
  elevated : (∀ i, restored ((s.mutexes i).pc t) = false) →
    s.priority t = if s.held t = [] then s.before t else 0

structure Inv (p : ℕ → BitVec 16) (s : ElevationSystem) : Prop where
  excl : ∀ i, (s.mutexes i).Excl
  prio : ∀ i, (s.mutexes i).mutex.prio = (p i).setWidth 32
  lowest : ∀ i, (p i).setWidth 32 ≤ kernelLowestPriority
  thread : ∀ t, s.ThreadInv p t

theorem Inv.elevated {p : ℕ → BitVec 16} {s : ElevationSystem} (h : s.Inv p) : s.Elevated p := by
  have hall : ∀ t, (∀ i, s.current t = some i → restored ((s.mutexes i).pc t) = false) →
      ∀ i, restored ((s.mutexes i).pc t) = false := by
    intro t hno i
    by_cases hi : s.current t = some i
    · exact hno i hi
    · obtain ⟨err, value, hpc⟩ := ret_of_isRet ((h.thread t).idle i hi)
      rw [hpc]
      rfl
  refine ⟨fun t hno i l hheld => ?_, fun t hno hheld => ?_⟩
  · rw [(h.thread t).elevated (hall t hno), hheld, if_neg (List.cons_ne_nil i l)]
    exact ((h.thread t).zero i (by simp [hheld])).symm
  · rw [(h.thread t).elevated (hall t hno), if_pos hheld]

section
variable {p : ℕ → BitVec 16} {s s' : ElevationSystem} {t u : Tid}

/-- A step of another thread, which wakes `u` at most and changes no mutex that `u` holds. -/
theorem ThreadInv.of_other (h : s.ThreadInv p u)
    (hpc : ∀ i, (s'.mutexes i).pc u = (s.mutexes i).pc u ∨
      (s'.mutexes i).pc u = resume ((s.mutexes i).pc u))
    (hholds : ∀ i, (s'.mutexes i).holds u = (s.mutexes i).holds u)
    (hsaved : ∀ i, (s.mutexes i).holds u = true → s'.saved i = s.saved i)
    (hpriority : s'.priority u = s.priority u) (hcurrent : s'.current u = s.current u)
    (hheld : s'.held u = s.held u) (hbefore : s'.before u = s.before u) : s'.ThreadInv p u := by
  have hview : ∀ i, isRet ((s'.mutexes i).pc u) = isRet ((s.mutexes i).pc u) ∧
      (readIs (s.priority u) ((s'.mutexes i).pc u) ↔ readIs (s.priority u) ((s.mutexes i).pc u)) ∧
      acquiring ((s'.mutexes i).pc u) = acquiring ((s.mutexes i).pc u) ∧
      restoring ((s'.mutexes i).pc u) = restoring ((s.mutexes i).pc u) ∧
      restored ((s'.mutexes i).pc u) = restored ((s.mutexes i).pc u) := by
    intro i
    rcases hpc i with he | he <;> rw [he]
    · exact ⟨rfl, Iff.rfl, rfl, rfl, rfl⟩
    · cases (s.mutexes i).pc u <;> exact ⟨rfl, Iff.rfl, rfl, rfl, rfl⟩
  have hsaved' : ∀ i ∈ s.held u, s'.saved i = s.saved i := fun i hi => hsaved i ((h.held i).mp hi)
  refine ⟨fun i hi => ?_, fun i => ?_, fun i hi => ?_, fun i => ?_, ?_, ?_, fun i hi => ?_, fun hne => ?_,
    fun i hi => ?_, fun i hi => ?_, fun hno => ?_⟩
  · rw [(hview i).1]
    exact h.idle i (hcurrent ▸ hi)
  · rw [hpriority]
    exact (hview i).2.1.mpr (h.read i)
  · rw [(hview i).2.2.1] at hi
    rw [hholds]
    exact h.taking i hi
  · rw [hheld, hholds]
    exact h.held i
  · rw [hheld]
    exact h.nodup
  · rw [hheld]
    exact h.zero
  · rw [hheld] at hi
    rw [hsaved' i hi, hbefore]
    exact h.saved i hi
  · rw [hheld] at hne ⊢
    obtain ⟨i, hi, he⟩ := h.first hne
    exact ⟨i, hi, by rw [hsaved' i hi, hbefore, he]⟩
  · rw [(hview i).2.2.2.1, (hview i).2.2.2.2] at hi
    obtain ⟨hmem, hlast⟩ := h.leaving i hi
    rw [hheld, hsaved' i hmem]
    exact ⟨hmem, hlast⟩
  · rw [(hview i).2.2.2.2] at hi
    obtain ⟨hmem, -⟩ := h.leaving i (by rw [hi, Bool.or_true])
    rw [hpriority, hsaved' i hmem]
    exact h.back i hi
  · rw [hpriority, hheld, hbefore]
    exact h.elevated fun i => (hview i).2.2.2.2 ▸ hno i

variable {i : ℕ} {b : MutexSystem} {act : MutexAct}

theorem mem_heldAfter (h : s.ThreadInv p t) (j : ℕ) :
    j ∈ s.heldAfter t i b ↔ ((s.settle t i b).mutexes j).holds t = true := by
  have hi := h.held i
  by_cases hj : j = i
  · subst hj
    rw [show (s.settle t j b).mutexes j = b from Function.update_self ..]
    unfold heldAfter
    split
    · next hb => simp [hb]
    · next hb => simp [hb, h.nodup.mem_erase_iff]
    · next hno1 hno2 =>
      rw [hi]
      cases h1 : (s.mutexes j).holds t <;> cases h2 : b.holds t
      · rfl
      · exact absurd h2 (hno1 h1)
      · exact absurd h2 (hno2 h1)
      · rfl
  · rw [show (s.settle t i b).mutexes j = s.mutexes j from Function.update_of_ne hj _ _, ← h.held j]
    unfold heldAfter
    split
    · simp [hj]
    · exact List.mem_erase_of_ne hj
    · rfl

theorem nodup_heldAfter (h : s.ThreadInv p t) : (s.heldAfter t i b).Nodup := by
  unfold heldAfter
  split
  · next hi _ =>
    refine List.nodup_cons.mpr ⟨fun hmem => ?_, h.nodup⟩
    rw [h.held i, hi] at hmem
    cases hmem
  · exact h.nodup.erase i
  · exact h.nodup

/-- The invariant after a step of `t` itself, from what it says about the mutex of the step and about
the priorities. -/
theorem ThreadInv.of_own (h : s.ThreadInv p t) (hcurrent : s.current t = none ∨ s.current t = some i)
    (hread : readIs (b.priority t) (b.pc t))
    (htaking : acquiring (b.pc t) = true → b.holds t = false)
    (hzero : ∀ j ∈ s.heldAfter t i b, (p j).setWidth 32 = 0#32)
    (hsaved : ∀ j ∈ s.heldAfter t i b, (s.settle t i b).saved j = 0 ∨
      (s.settle t i b).saved j = s.beforeAfter t i b)
    (hfirst : s.heldAfter t i b ≠ [] →
      ∃ j ∈ s.heldAfter t i b, (s.settle t i b).saved j = s.beforeAfter t i b)
    (hleaving : (restoring (b.pc t) || restored (b.pc t)) = true → i ∈ s.heldAfter t i b ∧
      (s.heldAfter t i b = [i] ∨ b.mutex.acquiredThreadPriority = 0))
    (hback : restored (b.pc t) = true → b.priority t = b.mutex.acquiredThreadPriority)
    (helevated : restored (b.pc t) = false →
      b.priority t = if s.heldAfter t i b = [] then s.beforeAfter t i b else 0) :
    (s.settle t i b).ThreadInv p t := by
  have hself : (s.settle t i b).mutexes i = b := Function.update_self ..
  have hother : ∀ j, j ≠ i → (s.settle t i b).mutexes j = s.mutexes j :=
    fun j hj => Function.update_of_ne hj _ _
  have hheld : (s.settle t i b).held t = s.heldAfter t i b := Function.update_self ..
  have hbefore : (s.settle t i b).before t = s.beforeAfter t i b := Function.update_self ..
  -- `t` is in no call on another mutex
  have hret : ∀ j, j ≠ i → ∃ err value, (s.mutexes j).pc t = .ret err value := by
    intro j hj
    exact ret_of_isRet (h.idle j (by rcases hcurrent with hc | hc <;> simp [hc, Ne.symm hj]))
  refine ⟨fun j hj => ?_, fun j => ?_, fun j hj => ?_, fun j => ?_, ?_, ?_, ?_, ?_, fun j hj => ?_,
    fun j hj => ?_, fun hno => ?_⟩
  · by_cases he : j = i
    · rw [he] at hj ⊢
      rw [hself]
      by_contra hne
      apply hj
      change Function.update s.current t (if isRet (b.pc t) then none else some i) t = some i
      rw [Function.update_self, if_neg hne]
    · obtain ⟨err, value, hpc⟩ := hret j he
      rw [hother j he, hpc]
      rfl
  · by_cases he : j = i
    · rw [he, hself]
      exact hread
    · obtain ⟨err, value, hpc⟩ := hret j he
      rw [hother j he, hpc]
      exact trivial
  · by_cases he : j = i
    · rw [he, hself] at hj ⊢
      exact htaking hj
    · obtain ⟨err, value, hpc⟩ := hret j he
      rw [hother j he, hpc] at hj
      cases hj
  · rw [hheld]
    exact mem_heldAfter h j
  · rw [hheld]
    exact nodup_heldAfter h
  · rw [hheld]
    exact hzero
  · rw [hheld, hbefore]
    exact hsaved
  · rw [hheld, hbefore]
    exact hfirst
  · rw [hheld]
    by_cases he : j = i
    · rw [he, hself] at hj
      rw [he, ElevationSystem.saved, hself]
      exact hleaving hj
    · obtain ⟨err, value, hpc⟩ := hret j he
      rw [hother j he, hpc] at hj
      cases hj
  · by_cases he : j = i
    · rw [he, hself] at hj
      rw [he, ElevationSystem.saved, hself]
      exact hback hj
    · obtain ⟨err, value, hpc⟩ := hret j he
      rw [hother j he, hpc] at hj
      cases hj
  · rw [hheld, hbefore]
    have hi := hno i
    rw [hself] at hi
    exact helevated hi

theorem heldAfter_same (hholds : b.holds t = (s.mutexes i).holds t) :
    s.heldAfter t i b = s.held t := by
  unfold heldAfter
  rw [hholds]
  cases (s.mutexes i).holds t <;> rfl

theorem beforeAfter_same (hholds : b.holds t = (s.mutexes i).holds t) :
    s.beforeAfter t i b = s.before t := by
  unfold beforeAfter
  rw [hholds]
  exact if_neg fun hc => Bool.noConfusion (hc.1.symm.trans hc.2.1)

theorem saved_settle (hsaved : b.mutex.acquiredThreadPriority = s.saved i) :
    (s.settle t i b).saved = s.saved := by
  funext j
  by_cases hj : j = i
  · subst hj
    exact (congrArg (·.mutex.acquiredThreadPriority) (Function.update_self j b s.mutexes)).trans hsaved
  · exact congrArg (·.mutex.acquiredThreadPriority) (Function.update_of_ne hj b s.mutexes)

/-- A step that changes neither what `t` holds nor a recorded priority. -/
theorem ThreadInv.of_same (h : s.ThreadInv p t) (hcurrent : s.current t = none ∨ s.current t = some i)
    (hsaved : b.mutex.acquiredThreadPriority = s.saved i)
    (hholds : b.holds t = (s.mutexes i).holds t)
    (hread : readIs (b.priority t) (b.pc t))
    (htaking : acquiring (b.pc t) = true → b.holds t = false)
    (hleaving : (restoring (b.pc t) || restored (b.pc t)) = true →
      i ∈ s.held t ∧ (s.held t = [i] ∨ s.saved i = 0))
    (hback : restored (b.pc t) = true → b.priority t = s.saved i)
    (helevated : restored (b.pc t) = false → b.priority t = if s.held t = [] then s.before t else 0) :
    (s.settle t i b).ThreadInv p t := by
  have hheld := heldAfter_same hholds
  have hbefore := beforeAfter_same hholds
  have hsame := saved_settle (t := t) hsaved
  refine h.of_own hcurrent hread htaking ?_ ?_ ?_ ?_ ?_ ?_
  · rw [hheld]
    exact h.zero
  · rw [hheld, hbefore, hsame]
    exact h.saved
  · rw [hheld, hbefore, hsame]
    exact h.first
  · rw [hheld, hsaved]
    exact hleaving
  · rw [hsaved]
    exact hback
  · rw [hheld, hbefore]
    exact helevated

/-- The mutex `i` as a step of a thread sees it, with the priorities of all threads. -/
abbrev view (s : ElevationSystem) (i : ℕ) : MutexSystem := { s.mutexes i with priority := s.priority }

/-- Where the thread is in mutex `i`, it is in no release of another one. -/
theorem ThreadInv.restored_of_ne (h : s.ThreadInv p t)
    (hcurrent : s.current t = none ∨ s.current t = some i)
    (hi : restored ((s.mutexes i).pc t) = false) : ∀ j, restored ((s.mutexes j).pc t) = false := by
  intro j
  by_cases hj : j = i
  · rw [hj, hi]
  · obtain ⟨err, value, hpc⟩ := ret_of_isRet (h.idle j
      (by rcases hcurrent with hc | hc <;> simp [hc, Ne.symm hj]))
    rw [hpc]
    rfl

theorem ThreadInv.acquire {tryOnly : Bool} {params value : Option (BitVec 32)} (h : s.ThreadInv p t)
    (hcurrent : s.current t = none ∨ s.current t = some i)
    (hp : (p i).setWidth 32 = 0#32) (hpc : (s.mutexes i).pc t = .acquired tryOnly params)
    (hret : b.pc t = .ret .osNoErr value) (hpriority : b.priority t = 0)
    (hsaved : b.mutex.acquiredThreadPriority = params.getD 0) (hholds : b.holds t = true) :
    (s.settle t i b).ThreadInv p t := by
  have hfree : (s.mutexes i).holds t = false := h.taking i (by rw [hpc]; rfl)
  have hnot : i ∉ s.held t := by
    rw [h.held i, hfree]
    simp
  have hheld : s.heldAfter t i b = i :: s.held t := by
    rw [heldAfter, hfree, hholds]
  have hread : params = some (s.priority t) := by
    have hr := h.read i
    rw [hpc] at hr
    exact hr
  have hpriority0 := h.elevated (h.restored_of_ne hcurrent (by rw [hpc]; rfl))
  have hsavedi : (s.settle t i b).saved i = s.priority t := by
    change (Function.update s.mutexes i b i).mutex.acquiredThreadPriority = _
    rw [Function.update_self, hsaved, hread]
    rfl
  have hsavedj : ∀ j ∈ s.held t, (s.settle t i b).saved j = s.saved j := by
    intro j hj
    have hne : j ≠ i := fun he => hnot (he ▸ hj)
    exact congrArg (·.mutex.acquiredThreadPriority) (Function.update_of_ne hne b s.mutexes)
  refine h.of_own hcurrent (by rw [hret]; trivial) (by rw [hret]; nofun) ?_ ?_ ?_ (by rw [hret]; nofun)
    (by rw [hret]; nofun) ?_
  · rw [hheld]
    exact List.forall_mem_cons.mpr ⟨hp, h.zero⟩
  · rw [hheld, List.forall_mem_cons, hsavedi]
    by_cases hnil : s.held t = []
    · have hb : s.beforeAfter t i b = s.priority t := if_pos ⟨hfree, hholds, hnil⟩
      rw [hb, hnil]
      exact ⟨.inr rfl, by simp⟩
    · have hb : s.beforeAfter t i b = s.before t := if_neg fun hc => hnil hc.2.2
      rw [hb]
      refine ⟨.inl (by rw [hpriority0, if_neg hnil]), fun j hj => ?_⟩
      rw [hsavedj j hj]
      exact h.saved j hj
  · rw [hheld]
    intro _
    by_cases hnil : s.held t = []
    · have hb : s.beforeAfter t i b = s.priority t := if_pos ⟨hfree, hholds, hnil⟩
      exact ⟨i, by simp, by rw [hb, hsavedi]⟩
    · have hb : s.beforeAfter t i b = s.before t := if_neg fun hc => hnil hc.2.2
      obtain ⟨j, hj, he⟩ := h.first hnil
      exact ⟨j, List.mem_cons_of_mem i hj, by rw [hsavedj j hj, he, hb]⟩
  · intro _
    rw [hheld, if_neg (List.cons_ne_nil i _), hpriority]

theorem ThreadInv.release (h : s.ThreadInv p t)
    (hcurrent : s.current t = none ∨ s.current t = some i)
    (hpc : (s.mutexes i).pc t = .unlockAdd none)
    (hto : b.pc t = .unlockStore none ∨ b.pc t = .ret .osNoErr none)
    (hpriority : b.priority t = s.priority t)
    (hsaved : b.mutex.acquiredThreadPriority = s.saved i) (hholds : b.holds t = false) :
    (s.settle t i b).ThreadInv p t := by
  obtain ⟨hmem, hlast⟩ := h.leaving i (by rw [hpc]; rfl)
  have hback := h.back i (by rw [hpc]; rfl)
  have hheld : s.heldAfter t i b = (s.held t).erase i := by
    rw [heldAfter, (h.held i).mp hmem, hholds]
  have hbefore : s.beforeAfter t i b = s.before t := by
    refine if_neg fun hc => ?_
    rw [hholds] at hc
    exact Bool.noConfusion hc.2.1
  have hsame := saved_settle (t := t) hsaved
  obtain ⟨first, hfmem, hfirst⟩ := h.first (List.ne_nil_of_mem hmem)
  have hout : restoring (b.pc t) = false ∧ restored (b.pc t) = false ∧ acquiring (b.pc t) = false ∧
      readIs (b.priority t) (b.pc t) := by
    rcases hto with he | he <;> rw [he] <;> exact ⟨rfl, rfl, rfl, trivial⟩
  refine h.of_own hcurrent hout.2.2.2 (by rw [hout.2.2.1]; nofun) ?_ ?_ ?_
    (by rw [hout.1, hout.2.1]; nofun) (by rw [hout.2.1]; nofun) ?_
  · rw [hheld]
    exact fun j hj => h.zero j (List.mem_of_mem_erase hj)
  · rw [hheld, hbefore, hsame]
    exact fun j hj => h.saved j (List.mem_of_mem_erase hj)
  -- if the mutex released recorded the priority from before, that is 0 and so any other will do
  · rw [hheld, hbefore, hsame]
    intro hne
    by_cases hf : first = i
    · obtain ⟨j, hj⟩ := List.exists_mem_of_ne_nil _ hne
      have hzero : s.saved i = 0 := by
        rcases hlast with hone | hzero
        · rw [hone] at hne
          simp at hne
        · exact hzero
      refine ⟨j, hj, ?_⟩
      rw [hf, hzero] at hfirst
      rcases h.saved j (List.mem_of_mem_erase hj) with hj | hj
      · rw [hj, hfirst]
      · exact hj
    · exact ⟨first, (List.mem_erase_of_ne hf).mpr hfmem, hfirst⟩
  · intro _
    rw [hheld, hbefore, hpriority, hback]
    by_cases hone : s.held t = [i]
    · rw [hone] at hfmem ⊢
      rw [List.mem_singleton.mp hfmem] at hfirst
      simpa using hfirst
    · have hzero := hlast.resolve_left hone
      rw [hzero, if_neg]
      intro hnil
      apply hone
      have hlen := List.length_erase_of_mem hmem
      rw [hnil, List.length_nil] at hlen
      obtain ⟨x, hx⟩ := List.length_eq_one_iff.mp
        (show (s.held t).length = 1 by have := List.length_pos_of_mem hmem; omega)
      rw [hx] at hmem ⊢
      rw [List.mem_singleton.mp hmem]

/-- The invariant of the thread that takes the step. -/
theorem ThreadInv.own (h : s.ThreadInv p t) (hprio : (s.mutexes i).mutex.prio = (p i).setWidth 32)
    (hguard : s.Restorable (t, i, act)) (hcurrent : s.current t = none ∨ s.current t = some i)
    (hmove : PrioMove act (s.view i) b t) : (s.settle t i b).ThreadInv p t := by
  cases hmove with
  | quiet hpriority hsaved hholds hread hrestoring htake hfrom hto =>
    have hpt : b.priority t = s.priority t := congrFun hpriority t
    refine h.of_same hcurrent hsaved hholds (hpt ▸ hread (h.read i)) (fun ht => hholds ▸ htake ht)
      (fun hl => ?_) (by rw [hto]; nofun) fun _ => ?_
    · rw [hto, Bool.or_false] at hl
      exact h.leaving i (by rw [hrestoring hl, Bool.true_or])
    · rw [hpt]
      exact h.elevated (h.restored_of_ne hcurrent hfrom)
  | enter hact hpc hto hpriority hsaved hholds hheld =>
    have hpt : b.priority t = s.priority t := congrFun hpriority t
    obtain ⟨err, value, hret⟩ := ret_of_isRet hpc
    have hfrom : restored ((s.mutexes i).pc t) = false := by
      rw [show (s.mutexes i).pc t = .ret err value from hret]
      rfl
    refine h.of_same hcurrent hsaved hholds (by rw [hto]; trivial) (by rw [hto]; nofun) (fun _ => ?_)
      (by rw [hto]; nofun) fun _ => ?_
    · exact ⟨(h.held i).mpr hheld, hguard.last hact⟩
    · rw [hpt]
      exact h.elevated (h.restored_of_ne hcurrent hfrom)
  | acquire tryOnly params value hpc hret hpriority hsaved hholds =>
    have hzero := hguard.zero tryOnly params hpc
    rw [hprio] at hzero
    exact h.acquire hcurrent hzero hpc hret (by rw [hpriority, Function.update_self]) hsaved hholds
  | restore hpc hto hpriority hsaved hholds =>
    refine h.of_same hcurrent hsaved hholds (by rw [hto]; trivial) (by rw [hto]; nofun) (fun _ => ?_)
      (fun _ => by rw [hpriority, Function.update_self]) (by rw [hto]; nofun)
    exact h.leaving i (by rw [show (s.mutexes i).pc t = .unlockRestore none from hpc]; rfl)
  | release hpc hto hpriority hsaved hholds =>
    exact h.release hcurrent hpc hto (congrFun hpriority t) hsaved hholds

/-- The invariant of another thread. -/
theorem ThreadInv.other (h : s.ThreadInv p u) (hu : u ≠ t) (hi : (s.mutexes i).Excl)
    (hframe : Frame (s.view i) b t) (hmove : PrioMove act (s.view i) b t) :
    (s.settle t i b).ThreadInv p u := by
  have hself : (s.settle t i b).mutexes i = b := Function.update_self ..
  have hother : ∀ j, j ≠ i → (s.settle t i b).mutexes j = s.mutexes j :=
    fun j hj => Function.update_of_ne hj _ _
  refine h.of_other (fun j => ?_) (fun j => ?_) (fun j hj => ?_) (hframe.priority u hu)
    (Function.update_of_ne hu _ _) (Function.update_of_ne hu _ _) (Function.update_of_ne hu _ _)
  · by_cases he : j = i
    · rw [he, hself]
      exact hframe.pc u hu
    · exact .inl (by rw [hother j he])
  · by_cases he : j = i
    · rw [he, hself]
      exact hframe.holds u hu
    · rw [hother j he]
  · by_cases he : j = i
    · subst he
      rw [ElevationSystem.saved, hself]
      -- an acquisition of `t` cannot meet a mutex that `u` holds
      rcases hmove.saved with hsaved | ⟨tryOnly, params, hpc⟩
      · exact hsaved
      · have hpc' : (s.mutexes j).pc t = .acquired tryOnly params := hpc
        exact absurd (hi.unique u t (.inl hj) (.inr (by rw [hpc']; rfl))) hu
    · rw [ElevationSystem.saved, hother j he]

theorem Inv.step {a : Tid × ℕ × MutexAct} (h : s.Inv p) (hguard : s.Restorable a) (hs : s.Step a s') :
    s'.Inv p := by
  obtain ⟨t, i, act⟩ := a
  simp only [Step, exec] at hs
  split_ifs at hs with hcurrent
  obtain ⟨b, hb, rfl⟩ := Option.map_eq_some_iff.mp hs
  have hi := h.excl i
  have hview : (s.view i).Excl :=
    ⟨hi.prio, hi.state, hi.outer, hi.unlocking, hi.released, hi.unique, hi.owned⟩
  have hlowest : (s.view i).mutex.prio ≤ kernelLowestPriority := by
    change (s.mutexes i).mutex.prio ≤ kernelLowestPriority
    rw [h.prio i]
    exact h.lowest i
  have hstep : (s.view i).Step (t, act) b := hb
  have heffect : Effect (s.view i) b t :=
    hstep.effect hview fun hpc hrec hl => hguard.entry hpc.choose hpc.choose_spec hrec hl
  have hmove : PrioMove act (s.view i) b t := prioMove_exec hview hlowest hguard.entry hb
  have hframe : Frame (s.view i) b t := hstep.frame
  refine ⟨fun j => ?_, fun j => ?_, h.lowest, fun u => ?_⟩
  · by_cases he : j = i
    · rw [he, show (s.settle t i b).mutexes i = b from Function.update_self ..]
      exact heffect.excl hview
    · rw [show (s.settle t i b).mutexes j = s.mutexes j from Function.update_of_ne he _ _]
      exact h.excl j
  · by_cases he : j = i
    · rw [he, show (s.settle t i b).mutexes i = b from Function.update_self .., Mutex.prio, heffect.flags]
      exact h.prio i
    · rw [show (s.settle t i b).mutexes j = s.mutexes j from Function.update_of_ne he _ _]
      exact h.prio j
  · by_cases hu : u = t
    · subst hu
      exact (h.thread u).own (h.prio i) hguard hcurrent hmove
    · exact (h.thread u).other hu hi hframe hmove

end

theorem Started.inv {flags : ℕ → BitVec 32} {p : ℕ → BitVec 16} {s : ElevationSystem}
    (h : s.Started flags p) : s.Inv p := by
  have hprio := fun i => mutexInit_prio (h.flags i) (h.mutexes i).mutex
  refine ⟨fun i => excl_of_init (h.flags i) (h.mutexes i).mutex (h.mutexes i).pc (h.mutexes i).holds,
    fun i => (hprio i).1, fun i => ?_, fun t => ?_⟩
  · have hle := (hprio i).2.2
    rw [(hprio i).1] at hle
    exact hle (h.elevation i)
  · have hpc : ∀ i, (s.mutexes i).pc t = .ret .osNoErr none := fun i => (h.mutexes i).pc t
    refine ⟨fun i _ => ?_, fun i => ?_, fun i hi => ?_, fun i => ?_, ?_, ?_, ?_, ?_, fun i hi => ?_,
      fun i hi => ?_, fun _ => ?_⟩
    · rw [hpc]
      rfl
    · rw [hpc]
      exact trivial
    · rw [hpc] at hi
      cases hi
    · rw [h.held, (h.mutexes i).holds]
      simp
    · rw [h.held]
      exact List.nodup_nil
    · simp [h.held]
    · simp [h.held]
    · simp [h.held]
    · rw [hpc] at hi
      cases hi
    · rw [hpc] at hi
      cases hi
    · rw [if_pos (h.held t), h.before]

/-! ## Priority elevation -/

/-- A run elevates the priorities as it should as long as only mutexes of elevation priority 0 are
acquired and each thread unlocks last the one that recorded its own priority. -/
theorem priority_elevated {flags : ℕ → BitVec 32} {p : ℕ → BitVec 16} {s : ElevationSystem}
    (h : Guarded (Started flags p) Step Restorable s) : s.Elevated p :=
  (h.invariant (Inv p) (fun _ => Started.inv) fun _ _ _ hi hg hs => hi.step hg hs).elevated

/-! ### Runs -/

/-- Mutexes of elevation priority `p` and threads of priority 10. -/
def freshElevated (p : BitVec 16) : ElevationSystem :=
  ⟨fun _ => ⟨⟨mutexStateUnlocked, p.setWidth 32 <<< 8, 0, 0⟩, none, fun _ => 10,
      fun _ => .ret .osNoErr none, fun _ => false⟩,
    fun _ => 10, fun _ => none, fun _ => [], fun _ => 10⟩

def lockRun (t : Tid) (i : ℕ) : List (Tid × ℕ × MutexAct) :=
  (t, i, .lock) :: List.replicate 4 (t, i, .run none)

def unlockRun (t : Tid) (i : ℕ) : List (Tid × ℕ × MutexAct) :=
  (t, i, .unlock) :: List.replicate 3 (t, i, .run none)

theorem freshElevated_zero : (freshElevated 0#16).Started (fun _ => mutexFlagNone) (fun _ => 0#16) :=
  ⟨fun _ => ⟨by rfl, rfl, fun _ => rfl, fun _ => rfl⟩, fun _ => by rfl, fun _ => by decide,
    fun _ => rfl, fun _ => rfl, rfl⟩

theorem priority_elevated_nested : ∃ s : ElevationSystem, s.held 1 = [] ∧ s.priority 1 = 10 ∧
    s.Elevated (fun _ => 0#16) := by
  have hval : (runActs (fun s (a : Tid × ℕ × MutexAct) =>
      if (s.mutexes a.2.1).mutex.prio = 0 ∧ (s.mutexes a.2.1).mutex.recursive = 0 ∧
        (s.held a.1 = [a.2.1] ∨ s.saved a.2.1 = 0) then exec s a.1 a.2.1 a.2.2 else none)
      (freshElevated 0#16) (lockRun 1 0 ++ lockRun 1 1 ++ unlockRun 1 1 ++ unlockRun 1 0)).map
      (fun s => (s.held 1, s.priority 1)) = some ([], 10) := by decide +kernel
  obtain ⟨s, hs, he⟩ := Option.map_eq_some_iff.mp hval
  simp only [Prod.mk.injEq] at he
  refine ⟨s, he.1, he.2, priority_elevated (Guarded.runActs (fun x a x' h => ?_)
    (.start freshElevated_zero) hs)⟩
  split_ifs at h with hg
  exact ⟨⟨fun _ _ _ => hg.1, fun _ => hg.2.2, fun _ _ hrec => absurd hg.2.1 hrec⟩, h⟩

/-- A thread that locks a mutex created with elevation priority 5 has priority 0. -/
theorem elevation_shifted : ¬ ∀ flags p (s : ElevationSystem),
    Reachable (Started flags p) Step s → s.Elevated p := by
  intro hclaim
  have hval : (runActs (fun s (a : Tid × ℕ × MutexAct) => exec s a.1 a.2.1 a.2.2)
      (freshElevated 5#16) (lockRun 1 0)).map (fun s => (s.held 1, s.current 1, s.priority 1)) =
        some ([0], none, 0) := by decide +kernel
  obtain ⟨s, hs, he⟩ := Option.map_eq_some_iff.mp hval
  simp only [Prod.mk.injEq] at he
  have hstart : (freshElevated 5#16).Started (fun _ => mutexFlagNone) (fun _ => 5#16) :=
    ⟨fun _ => ⟨by rfl, rfl, fun _ => rfl, fun _ => rfl⟩, fun _ => by rfl, fun _ => by decide,
      fun _ => rfl, fun _ => rfl, rfl⟩
  have hreach : Reachable (Started (fun _ => mutexFlagNone) (fun _ => 5#16)) Step s :=
    Guarded.runActs (fun _ _ _ h => ⟨trivial, h⟩) (.start hstart) hs
  have hel := (hclaim _ _ s hreach).holding 1 (fun i hi => ?_) 0 [] he.1
  · rw [he.2.2] at hel
    exact absurd hel (by decide)
  · rw [he.2.1] at hi
    cases hi

end ElevationSystem

end UtkKernel.Sync
