import UtkKernel.Foundations.Exclusion
import UtkKernel.Sync.SemaphoreConservation

/-! # What one step on a semaphore does

A thread inside the spinlock knows the level and the count of waiters, because nobody else changes them.
Outside it a thread remembers the level it waits for a change of. The counter of the semaphore is the
number of threads between its increment and its decrement, modulo the width of the counter. -/

namespace UtkKernel.Sync
open Foundations
set_option autoImplicit false

namespace SemPc

/-- Points between the store of the count of waiters counted up and its store counted down. -/
def counted : SemPc → Bool
  | .futexVal => true
  | .pendUnlock _ => true
  | .pendWait _ => true
  | .blocked => true
  | .respin _ => true
  | .unwaitersLoad _ => true
  | .unwaitersStore _ _ => true
  | _ => false

/-- What a thread at the point knows of the semaphore, and of the value it waits with. -/
def Knows (sem : Semaphore) : SemPc → Prop
  | .waitersLoad => sem.level.toInt ≤ 0
  | .waitersStore waiters => sem.level.toInt ≤ 0 ∧ waiters = sem.waiters
  | .futexVal => sem.level.toInt ≤ 0
  | .pendUnlock val => val.toInt ≤ 0
  | .pendWait val => val.toInt ≤ 0
  | .unwaitersStore _ waiters => waiters = sem.waiters
  | .takeLoad _ => 0 < sem.level.toInt
  | .takeStore _ level => level = sem.level ∧ 0 < sem.level.toInt
  | .postStore level => level = sem.level
  | .postTestWaiters => 0 < sem.level.toInt
  | .postWake => 0 < sem.level.toInt
  | _ => True

end SemPc

namespace SemSystem
open SemPc

variable {T : Type}

def Locked (s : SemSystem T) : Prop := s.sem.lock.getLsbD 0 = true

def Inside (s : SemSystem T) (t : T) : Prop := (s.pc t).critical = true

/-- A step changes the count of waiters as the thread comes among the counted ones or leaves them. -/
inductive Counts (waiters waiters' : BitVec 32) (counted counted' : Bool) : Prop
  | keep (hw : waiters' = waiters) (hc : counted' = counted)
  | join (hw : waiters' = waiters + 1) (hc : counted = false) (hc' : counted' = true)
  | leave (hw : waiters' = waiters - 1) (hc : counted = true) (hc' : counted' = false)

/-- What one step of `t` does. -/
structure Turn (s s' : SemSystem T) (t : T) : Prop where
  others : ∀ u, u ≠ t → s'.pc u = s.pc u ∨ (s.pc u = .blocked ∧ s'.pc u = .respin .osNoErr)
  init : s'.sem.init = s.sem.init
  lock : LockMove s.Locked s'.Locked (s.Inside t) (s'.Inside t)
  inside : s.Inside t ∨ (s'.sem.level = s.sem.level ∧ s'.sem.waiters = s.sem.waiters)
  knows : (s'.pc t).Knows s'.sem
  count : Counts s.sem.waiters s'.sem.waiters (s.pc t).counted (s'.pc t).counted
  waits : ∀ w ∈ s'.waitQueue.getD [], w ∈ s.waitQueue.getD [] ∨ w.wait.toInt ≤ 0

theorem Turn.critical {s s' : SemSystem T} {t u : T} (h : Turn s s' t) (hu : u ≠ t) :
    (s'.pc u).critical = (s.pc u).critical := by
  rcases h.others u hu with he | ⟨hb, hr⟩
  · rw [he]
  · rw [hb, hr]
    rfl

theorem Turn.counted {s s' : SemSystem T} {t u : T} (h : Turn s s' t) (hu : u ≠ t) :
    (s'.pc u).counted = (s.pc u).counted := by
  rcases h.others u hu with he | ⟨hb, hr⟩
  · rw [he]
  · rw [hb, hr]
    rfl

theorem knows_congr {sem sem' : Semaphore} {pc : SemPc} (h : pc.Knows sem)
    (hsem : pc.critical = true → sem'.level = sem.level ∧ sem'.waiters = sem.waiters) :
    pc.Knows sem' := by
  obtain ⟨level, waiters, lock, init⟩ := sem
  obtain ⟨level', waiters', lock', init'⟩ := sem'
  by_cases hc : pc.critical = true
  · obtain ⟨hl, hw⟩ := hsem hc
    dsimp only at hl hw
    subst hl hw
    cases pc <;> exact h
  · cases pc <;> trivial

/-! ## Tidy states -/

/-- Every thread knows what it should, the counter counts, and who waits does so for a level that is
not positive. -/
structure Tidy [Fintype T] (s : SemSystem T) : Prop where
  knows : ∀ t, (s.pc t).Knows s.sem
  waiters : s.sem.waiters = BitVec.ofNat 32 (population fun t => (s.pc t).counted)
  waits : ∀ w ∈ s.waitQueue.getD [], w.wait.toInt ≤ 0

theorem Counts.population [Fintype T] {s s' : SemSystem T} {t : T} (h : Turn s s' t)
    (hw : s.sem.waiters = BitVec.ofNat 32 (population fun t => (s.pc t).counted)) :
    s'.sem.waiters = BitVec.ofNat 32 (Foundations.population fun t => (s'.pc t).counted) := by
  have hothers : ∀ u, u ≠ t → (s'.pc u).counted = (s.pc u).counted := fun u hu => h.counted hu
  cases h.count with
  | keep hw' hc =>
    rw [hw', hw]
    congr 1
    apply population_congr
    intro u
    by_cases hu : u = t
    · rw [hu, hc]
    · rw [hothers u hu]
  | join hw' hc hc' =>
    rw [hw', hw, population_join (p := fun u => (s.pc u).counted) hc hc' hothers, BitVec.ofNat_add]
    rfl
  | leave hw' hc hc' =>
    rw [hw', hw, population_leave (p := fun u => (s.pc u).counted) hc hc' hothers, BitVec.ofNat_add]
    exact BitVec.add_sub_cancel _ _

/-- A step keeps the state tidy if nobody else is inside along with the thread that takes it. -/
theorem Turn.tidy [Fintype T] {s s' : SemSystem T} {t : T} (h : Turn s s' t)
    (halone : s.Inside t → ∀ u, u ≠ t → ¬ s.Inside u) (hi : s.Tidy) : s'.Tidy := by
  refine ⟨fun u => ?_, Counts.population h hi.waiters, fun w hw => ?_⟩
  · by_cases hu : u = t
    · rw [hu]
      exact h.knows
    · rcases h.others u hu with he | ⟨-, hr⟩
      · rw [he]
        refine knows_congr (hi.knows u) fun hc => ?_
        exact h.inside.resolve_left fun ht => halone ht u hu hc
      · rw [hr]
        trivial
  · exact (h.waits w hw).elim (hi.waits w) id

theorem Turn.exclusive {s s' : SemSystem T} {t : T} (h : Turn s s' t)
    (hx : Exclusive s.Locked s.Inside) : Exclusive s'.Locked s'.Inside :=
  h.lock.exclusive (fun _ hu => iff_of_eq (congrArg (· = true) (h.critical hu))) hx

/-- Every thread has a record of its own at an aligned address, as `kmalloc` hands it out. -/
theorem card_lt_of_records [Fintype T] (record : T → BitVec 32) (hrecord : Function.Injective record)
    (haligned : ∀ t, 4 ∣ (record t).toNat) : Fintype.card T < 2 ^ 31 := by
  have hinj : Function.Injective fun t => (⟨(record t).toNat / 4, by omega⟩ : Fin (2 ^ 30)) := by
    intro t u htu
    have hdiv : (record t).toNat / 4 = (record u).toNat / 4 := Fin.mk.inj htu
    have ht := haligned t
    have hu := haligned u
    exact hrecord (BitVec.eq_of_toNat_eq (by omega))
  have hle := Fintype.card_le_of_injective _ hinj
  rw [Fintype.card_fin] at hle
  omega

/-- While fewer threads exist than the counter can count, it is positive as soon as one is counted. -/
theorem Tidy.waiters_pos [Fintype T] {s : SemSystem T} (h : s.Tidy) (hcard : Fintype.card T < 2 ^ 31)
    {t : T} (ht : (s.pc t).counted = true) : 0 < s.sem.waiters.toInt := by
  have hpos := population_pos (p := fun t => (s.pc t).counted) ht
  have hle := population_le_card fun t => (s.pc t).counted
  rw [h.waiters, BitVec.toInt_ofNat', Int.bmod_eq_of_le] <;> omega

/-! ## Every step is such a turn -/

variable [DecidableEq T] {s s' : SemSystem T} {t : T}

/-- A step that leaves the queue as it is. -/
theorem turn_of_goto {pc : SemPc} (hpc : s'.pc = Function.update s.pc t pc)
    (hqueue : s'.waitQueue = s.waitQueue) (hinit : s'.sem.init = s.sem.init)
    (hlock : LockMove s.Locked s'.Locked (s.Inside t) (pc.critical = true))
    (hinside : s.Inside t ∨ (s'.sem.level = s.sem.level ∧ s'.sem.waiters = s.sem.waiters))
    (hknows : pc.Knows s'.sem)
    (hcount : Counts s.sem.waiters s'.sem.waiters (s.pc t).counted pc.counted) : Turn s s' t := by
  have hself : s'.pc t = pc := by rw [hpc, Function.update_self]
  refine ⟨fun u hu => .inl ?_, hinit, ?_, hinside, ?_, ?_, fun w hw => .inl ?_⟩
  · rw [hpc, Function.update_of_ne hu]
  · unfold Inside at hlock ⊢
    rw [hself]
    exact hlock
  · rw [hself]
    exact hknows
  · rw [hself]
    exact hcount
  · rw [← hqueue]
    exact hw

theorem spinlockLock_level {pc : SemPc} (hs : s.spinlockLock t pc = some s') :
    s'.sem.level = s.sem.level ∧ s'.pc = Function.update s.pc t pc := by
  unfold spinlockLock at hs
  split_ifs at hs
  cases hs
  exact ⟨rfl, rfl⟩

/-- A step that changes nothing of the semaphore but the queue, if anything. -/
theorem turn_goto {pc : SemPc} (hcritical : pc.critical = (s.pc t).critical)
    (hcounted : pc.counted = (s.pc t).counted) (hknows : pc.Knows s.sem) :
    Turn s (s.goto t pc) t := by
  refine turn_of_goto rfl rfl rfl (.keep Iff.rfl ?_) (.inr ⟨rfl, rfl⟩) hknows (.keep rfl hcounted)
  unfold Inside
  rw [hcritical]

theorem turn_lock {pc : SemPc} (hs : s.spinlockLock t pc = some s') (hcritical : pc.critical = true)
    (hcounted : pc.counted = (s.pc t).counted) (hknows : pc.Knows s.sem) : Turn s s' t := by
  unfold spinlockLock at hs
  split_ifs at hs with hlock
  cases hs
  refine turn_of_goto rfl rfl rfl (.take hlock ?_ hcritical) (.inr ⟨rfl, rfl⟩) ?_ (.keep rfl hcounted)
  · simp [Locked, goto]
  · exact knows_congr hknows fun _ => ⟨rfl, rfl⟩

theorem turn_unlock {pc : SemPc} (hinside : s.Inside t) (hcritical : pc.critical = false)
    (hcounted : pc.counted = (s.pc t).counted) (hknows : pc.Knows s.sem) :
    Turn s (s.spinlockUnlock t pc) t := by
  refine turn_of_goto rfl rfl rfl (.release hinside ?_ ?_) (.inr ⟨rfl, rfl⟩) ?_ (.keep rfl hcounted)
  · unfold Locked
    rw [spinlockUnlock_clears]
    exact Bool.false_ne_true
  · rw [hcritical]
    exact Bool.false_ne_true
  · exact knows_congr hknows fun _ => ⟨rfl, rfl⟩

/-- A store by the thread inside, which stays inside. -/
theorem turn_store {sem : Semaphore} {pc : SemPc} (hs : s'.sem = sem) (hq : s'.waitQueue = s.waitQueue)
    (hpc : s'.pc = Function.update s.pc t pc) (hinit : sem.init = s.sem.init)
    (hlock : sem.lock = s.sem.lock) (hinside : s.Inside t) (hcritical : pc.critical = true)
    (hknows : pc.Knows sem)
    (hcount : Counts s.sem.waiters sem.waiters (s.pc t).counted pc.counted) : Turn s s' t := by
  subst hs
  refine turn_of_goto hpc hq hinit (.keep ?_ (iff_of_true hcritical hinside)) (.inl hinside) hknows hcount
  unfold Locked
  rw [hlock]

theorem turn_wait {val : BitVec 32} (hpc : s.pc t = .pendWait val) (hknows : (s.pc t).Knows s.sem)
    (fault : Option OsReturnE) : Turn s (s.runWait t val fault) t := by
  have hcritical : (s.pc t).critical = false := by rw [hpc]; rfl
  have hcounted : (s.pc t).counted = true := by rw [hpc]; rfl
  rw [hpc] at hknows
  unfold runWait futexWait
  split_ifs with hvalue
  · exact turn_goto hcritical.symm hcounted.symm trivial
  · cases fault with
    | some err => exact turn_goto hcritical.symm hcounted.symm trivial
    | none =>
      refine ⟨fun u hu => .inl (Function.update_of_ne hu _ _), rfl, .keep Iff.rfl ?_, .inr ⟨rfl, rfl⟩,
        ?_, .keep rfl ?_, fun w hw => ?_⟩
      · simp only [Inside, goto, Function.update_self, hcritical]
        rfl
      · simp only [goto, Function.update_self]
        trivial
      · simp only [goto, Function.update_self, hcounted]
        rfl
      · rcases List.mem_cons.mp hw with rfl | hw
        · exact .inr hknows
        · exact .inl hw

theorem turn_wake (hpc : s.pc t = .postWake)
    (hblocked : ∀ u ∈ (futexWake s.sem.level 1 s.waitQueue).2.1, s.pc u = .blocked) :
    Turn s (s.runWake t) t := by
  have hcritical : (s.pc t).critical = true := by rw [hpc]; rfl
  have hcounted : (s.pc t).counted = false := by rw [hpc]; rfl
  obtain ⟨err, he⟩ := runWake_eq s t
  rw [he]
  refine ⟨fun u hu => ?_, rfl, .keep Iff.rfl ?_, .inl hcritical, ?_, .keep rfl ?_, fun w hw => ?_⟩
  · simp only [Function.update_of_ne hu]
    split_ifs with hmem
    · have hb := hblocked u hmem
      exact .inr ⟨hb, by rw [hb]; rfl⟩
    · exact .inl rfl
  · simp only [Inside, Function.update_self]
    exact iff_of_true rfl hcritical
  · simp only [Function.update_self]
    trivial
  · simp only [Function.update_self, hcounted]
    rfl
  · exact .inl (futexWake_subset hw)

/-- `hblocked`: a wake wakes blocked threads. -/
theorem turn_run {fault : Option OsReturnE} (hknows : (s.pc t).Knows s.sem)
    (hblocked : ∀ u ∈ (futexWake s.sem.level 1 s.waitQueue).2.1, s.pc u = .blocked)
    (hs : s.run t fault = some s') : Turn s s' t := by
  unfold run at hs
  cases hpc : s.pc t <;> simp only [hpc, Option.some.injEq, reduceCtorEq] at hs
  all_goals have hk := hknows
  all_goals rw [hpc] at hk
  all_goals
    first
    | have hinside : s.Inside t := by
        unfold Inside
        rw [hpc]
        rfl
    | skip
  case spin op => cases op <;> exact turn_lock hs rfl (by rw [hpc]; rfl) trivial
  case respin err => exact turn_lock hs rfl (by rw [hpc]; rfl) trivial
  case checkInit op =>
    split_ifs at hs <;> cases hs <;> exact turn_goto (by rw [hpc]; rfl) (by rw [hpc]; rfl) trivial
  case pendCheckInit =>
    split_ifs at hs <;> cases hs <;> exact turn_goto (by rw [hpc]; rfl) (by rw [hpc]; rfl) trivial
  case pendTest =>
    split_ifs at hs with hlevel <;> cases hs
    · exact turn_goto (by rw [hpc]; rfl) (by rw [hpc]; rfl) hlevel
    · exact turn_goto (by rw [hpc]; rfl) (by rw [hpc]; rfl) (not_le.mp hlevel)
  case tryTest value =>
    by_cases hlevel : s.sem.level.toInt ≤ 0
    · rw [if_pos hlevel] at hs
      cases hs
      cases value <;> exact turn_goto (by rw [hpc]; rfl) (by rw [hpc]; rfl) trivial
    · rw [if_neg hlevel] at hs
      cases hs
      exact turn_goto (by rw [hpc]; rfl) (by rw [hpc]; rfl) (not_le.mp hlevel)
  case postTestLevel =>
    split_ifs at hs with hlevel <;> cases hs
    · exact turn_goto (by rw [hpc]; rfl) (by rw [hpc]; rfl) hlevel
    · exact turn_goto (by rw [hpc]; rfl) (by rw [hpc]; rfl) trivial
  case postTestWaiters =>
    split_ifs at hs <;> cases hs
    · exact turn_goto (by rw [hpc]; rfl) (by rw [hpc]; rfl) hk
    · exact turn_goto (by rw [hpc]; rfl) (by rw [hpc]; rfl) trivial
  all_goals rw [← hs]
  case waitersStore waiters =>
    have hcount : Counts s.sem.waiters (waiters + 1) (s.pc t).counted true :=
      .join (by rw [hk.2]) (by rw [hpc]; rfl) rfl
    exact turn_store rfl rfl rfl rfl rfl hinside rfl hk.1 hcount
  case unwaitersStore err waiters =>
    have hcount : Counts s.sem.waiters (waiters - 1) (s.pc t).counted false :=
      .leave (by rw [hk]) (by rw [hpc]; rfl) rfl
    split_ifs
    · exact turn_store rfl rfl rfl rfl rfl hinside rfl trivial hcount
    · exact turn_store rfl rfl rfl rfl rfl hinside rfl trivial hcount
  case takeStore op level =>
    have hcount : Counts s.sem.waiters s.sem.waiters (s.pc t).counted false :=
      .keep rfl (by rw [hpc]; rfl)
    split_ifs
    · exact turn_store rfl rfl rfl rfl rfl hinside rfl trivial hcount
    · exact turn_store rfl rfl rfl rfl rfl hinside rfl trivial hcount
  case postStore level =>
    exact turn_store rfl rfl rfl rfl rfl hinside rfl trivial (.keep rfl (by rw [hpc]; rfl))
  case futexVal => exact turn_goto (by rw [hpc]; rfl) (by rw [hpc]; rfl) hk
  case pendUnlock val => exact turn_unlock hinside rfl (by rw [hpc]; rfl) hk
  case pendWait val => exact turn_wait hpc hknows fault
  case waitersLoad => exact turn_goto (by rw [hpc]; rfl) (by rw [hpc]; rfl) ⟨hk, rfl⟩
  case takeLoad op => exact turn_goto (by rw [hpc]; rfl) (by rw [hpc]; rfl) ⟨rfl, hk⟩
  case postWake => exact turn_wake hpc hblocked
  case unlock op err value =>
    unfold runUnlock
    dsimp only
    have hturn : Turn s (s.spinlockUnlock t (.ret err value)) t :=
      turn_unlock hinside rfl (by rw [hpc]; rfl) trivial
    split_ifs
    · exact ⟨hturn.others, hturn.init, hturn.lock, hturn.inside, hturn.knows, hturn.count, hturn.waits⟩
    · exact hturn
  case unwaitersLoad => exact turn_goto (by rw [hpc]; rfl) (by rw [hpc]; rfl) rfl
  case postLoad => exact turn_goto (by rw [hpc]; rfl) (by rw [hpc]; rfl) rfl
  case tryValue => exact turn_goto (by rw [hpc]; rfl) (by rw [hpc]; rfl) trivial
  case takeValue => exact turn_goto (by rw [hpc]; rfl) (by rw [hpc]; rfl) trivial

theorem Step.turn {a : T × SemAct} (hknows : (s.pc a.1).Knows s.sem)
    (hblocked : ∀ u ∈ (futexWake s.sem.level 1 s.waitQueue).2.1, s.pc u = .blocked)
    (hs : s.Step a s') : Turn s s' a.1 := by
  obtain ⟨t, act⟩ := a
  cases act with
  | run fault => exact turn_run hknows hblocked hs
  | call op =>
    simp only [Step, exec] at hs
    split at hs
    · next hpc =>
      cases hs
      refine turn_of_goto rfl rfl rfl (.keep Iff.rfl ?_) (.inr ⟨rfl, rfl⟩) trivial
        (.keep rfl (by rw [hpc]; rfl))
      unfold Inside
      rw [hpc]
      rfl
    · cases hs

end SemSystem

end UtkKernel.Sync
