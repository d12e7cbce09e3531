import Mathlib.Data.Finset.Card
import UtkKernel.Sync.Semaphore

/-! # The tokens of a semaphore

Only the thread inside the spinlock loads or stores the level, so the level is the initial one plus
the increments done minus the decrements done, it never goes below zero, and each successful return
of `sem_pend` or `sem_trypend` answers for one decrement. -/

namespace UtkKernel.Sync
open Foundations
set_option autoImplicit false

/-! ## Program points -/

namespace SemPc

/-- Points between `SPINLOCK_LOCK` and `SPINLOCK_UNLOCK`. -/
def critical : SemPc → Bool
  | .ret _ _ => false
  | .checkInit _ => false
  | .spin _ => false
  | .pendWait _ => false
  | .blocked => false
  | .respin _ => false
  | _ => true

/-- Points of `sem_post` before its increment. -/
def posting : SemPc → Bool
  | .checkInit op => op == .post
  | .spin op => op == .post
  | .postLoad => true
  | .postStore _ => true
  | _ => false

/-- Points between the test that found the level positive and the store of the level counted down. -/
def taking : SemPc → Bool
  | .takeLoad _ => true
  | .takeStore _ _ => true
  | _ => false

/-- The level a thread has loaded and is about to store counted up or down. -/
def loaded : SemPc → Option (BitVec 32)
  | .takeStore _ level => some level
  | .postStore level => some level
  | _ => none

/-- Points of a successful `sem_pend` or `sem_trypend` after its decrement. -/
def taken : SemPc → Bool
  | .takeValue _ => true
  | .unlock op err _ => err == .osNoErr && op != .post
  | _ => false

end SemPc

namespace SemSystem
open SemPc

variable {T : Type}

@[simp] theorem resume_critical (pc : SemPc) : (resume pc).critical = pc.critical := by
  cases pc <;> rfl

@[simp] theorem resume_posting (pc : SemPc) : (resume pc).posting = pc.posting := by
  cases pc <;> rfl

/-- What a thread inside the spinlock knows of the level and of the counts. -/
structure Local (s : SemSystem T) (pc : SemPc) : Prop where
  positive : pc.taking = true → 0 < s.sem.level.toInt
  loaded : ∀ level, pc.loaded = some level → level = s.sem.level
  taken : pc.taken = true → s.successes < s.decrements

theorem Local.of_idle (s : SemSystem T) {pc : SemPc} (h1 : pc.taking = false)
    (h2 : pc.loaded = none) (h3 : pc.taken = false) : s.Local pc :=
  ⟨by simp [h1], by simp [h2], by simp [h3]⟩

theorem local_of_not_critical (s : SemSystem T) {pc : SemPc} (h : pc.critical = false) :
    s.Local pc := by
  cases pc <;> first | cases h; done | exact .of_idle s rfl rfl rfl

theorem local_resume {s : SemSystem T} {pc : SemPc} (h : s.Local pc) : s.Local (resume pc) := by
  cases pc <;> first | exact h | exact .of_idle s rfl rfl rfl

/-- The tokens are accounted for. -/
structure Account (initLevel : BitVec 32) (s : SemSystem T) : Prop where
  level : s.sem.level.toInt = initLevel.toInt + s.increments - s.decrements
  nonneg : 0 ≤ s.sem.level.toInt
  successes : s.successes ≤ s.decrements

structure Inv (initLevel : BitVec 32) (s : SemSystem T) : Prop extends Account initLevel s where
  init : s.sem.init = true
  locked : s.sem.lock.getLsbD 0 = true ↔ ∃ t, (s.pc t).critical = true
  unique : ∀ t u, (s.pc t).critical = true → (s.pc u).critical = true → t = u
  loc : ∀ t, s.Local (s.pc t)
  posts : ∃ P : Finset T, (∀ t, t ∈ P ↔ (s.pc t).posting = true) ∧ s.increments + P.card = s.posts

/-- What one atomic step of `t` does: it keeps its side of the spinlock, or takes it, or releases it;
level and counts change only inside; and a post begins, goes on, or has its increment done. -/
structure Effect (initLevel : BitVec 32) (s s' : SemSystem T) (t : T) : Prop
    extends Account initLevel s' where
  others : ∀ u, u ≠ t → s'.pc u = s.pc u ∨ s'.pc u = resume (s.pc u)
  init : s'.sem.init = s.sem.init
  lock :
    (s'.sem.lock = s.sem.lock ∧ (s'.pc t).critical = (s.pc t).critical) ∨
    (s.sem.lock.getLsbD 0 = false ∧ s'.sem.lock.getLsbD 0 = true ∧ (s'.pc t).critical = true) ∨
    ((s.pc t).critical = true ∧ s'.sem.lock.getLsbD 0 = false ∧ (s'.pc t).critical = false)
  inside : (s.pc t).critical = true ∨ (s'.sem.level = s.sem.level ∧ s'.successes = s.successes ∧
    s'.decrements = s.decrements)
  loc : s'.Local (s'.pc t)
  post :
    (s'.posts = s.posts ∧ s'.increments = s.increments ∧
      (s'.pc t).posting = (s.pc t).posting) ∨
    (s'.posts = s.posts + 1 ∧ s'.increments = s.increments ∧ (s.pc t).posting = false ∧
      (s'.pc t).posting = true) ∨
    (s'.posts = s.posts ∧ s'.increments = s.increments + 1 ∧ (s.pc t).posting = true ∧
      (s'.pc t).posting = false)

theorem Local.congr {s s' : SemSystem T} (hl : s'.sem.level = s.sem.level)
    (hs : s'.successes = s.successes) (hd : s'.decrements = s.decrements) {pc : SemPc}
    (h : s.Local pc) : s'.Local pc := by
  refine ⟨fun ht => ?_, fun l hlo => ?_, fun ht => ?_⟩
  · rw [hl]
    exact h.positive ht
  · rw [hl]
    exact h.loaded l hlo
  · rw [hs, hd]
    exact h.taken ht

variable [DecidableEq T]

theorem Effect.inv {initLevel : BitVec 32} {s s' : SemSystem T} {t : T}
    (h : Effect initLevel s s' t) (hi : s.Inv initLevel) : s'.Inv initLevel := by
  have hcrit : ∀ u, u ≠ t → (s'.pc u).critical = (s.pc u).critical := by
    intro u hu
    rcases h.others u hu with he | he <;> simp [he]
  have hpost : ∀ u, u ≠ t → (s'.pc u).posting = (s.pc u).posting := by
    intro u hu
    rcases h.others u hu with he | he <;> simp [he]
  -- another thread inside means that `t` neither takes the lock nor is inside itself
  have hother : ∀ u, u ≠ t → (s'.pc u).critical = true → (s'.pc t).critical = false := by
    intro u hu hc
    rw [hcrit u hu] at hc
    rcases h.lock with ⟨-, he⟩ | ⟨hfree, -, -⟩ | ⟨-, -, hout⟩
    · rw [he]
      by_contra hne
      exact hu (hi.unique u t hc (by simpa using hne))
    · rw [hi.locked.mpr ⟨u, hc⟩] at hfree
      cases hfree
    · exact hout
  refine ⟨h.toAccount, by rw [h.init, hi.init], ?_, ?_, ?_, ?_⟩
  · rcases h.lock with ⟨hlock, he⟩ | ⟨-, hset, hin⟩ | ⟨hin, hclear, hout⟩
    · rw [hlock, hi.locked]
      refine exists_congr fun u => ?_
      by_cases hu : u = t
      · rw [hu, he]
      · rw [hcrit u hu]
    · exact ⟨fun _ => ⟨t, hin⟩, fun _ => hset⟩
    · rw [hclear]
      refine ⟨fun hf => absurd hf (by simp), ?_⟩
      rintro ⟨u, hu⟩
      by_cases hut : u = t
      · rw [hut, hout] at hu
        cases hu
      · rw [hcrit u hut] at hu
        exact absurd (hi.unique u t hu hin) hut
  · intro u v hu hv
    by_cases hut : u = t
    · by_cases hvt : v = t
      · rw [hut, hvt]
      · rw [hut, hother v hvt hv] at hu
        cases hu
    · by_cases hvt : v = t
      · rw [hvt, hother u hut hu] at hv
        cases hv
      · rw [hcrit u hut] at hu
        rw [hcrit v hvt] at hv
        exact hi.unique u v hu hv
  · intro u
    by_cases hu : u = t
    · rw [hu]
      exact h.loc
    · by_cases hc : (s'.pc u).critical = true
      · have hnot : ¬ (s.pc t).critical = true := by
          intro ht
          rw [hcrit u hu] at hc
          exact hu (hi.unique u t hc ht)
        obtain ⟨hl, hs, hd⟩ := h.inside.resolve_left hnot
        have hloc := (hi.loc u).congr hl hs hd
        rcases h.others u hu with he | he <;> rw [he]
        · exact hloc
        · exact local_resume hloc
      · exact local_of_not_critical s' (by simpa using hc)
  · obtain ⟨P, hP, hcard⟩ := hi.posts
    rcases h.post with ⟨hp, hinc, he⟩ | ⟨hp, hinc, hno, hyes⟩ | ⟨hp, hinc, hyes, hno⟩
    · refine ⟨P, fun u => ?_, by rw [hp, hinc, hcard]⟩
      by_cases hu : u = t
      · rw [hu, hP, he]
      · rw [hP, hpost u hu]
    · have hnot : t ∉ P := by simp [hP, hno]
      refine ⟨insert t P, fun u => ?_, by rw [Finset.card_insert_of_notMem hnot]; omega⟩
      by_cases hu : u = t
      · simp [hu, hyes]
      · simp [hu, hP, hpost u hu]
    · have hmem : t ∈ P := (hP t).mpr hyes
      have hpos := Finset.card_pos.mpr ⟨t, hmem⟩
      refine ⟨P.erase t, fun u => ?_, by rw [Finset.card_erase_of_mem hmem]; omega⟩
      by_cases hu : u = t
      · simp [hu, hno]
      · simp [hu, hP, hpost u hu]

/-! ## The effect of each step -/

theorem toInt_sub_one {l : BitVec 32} (h : 0 < l.toInt) : (l - 1).toInt = l.toInt - 1 := by
  have h1 : (1 : BitVec 32).toInt = 1 := by decide
  have hlt := BitVec.toInt_lt (x := l)
  rw [BitVec.toInt_sub, h1]
  apply Int.bmod_eq_of_le <;> omega

theorem toInt_add_one {l : BitVec 32} (h : l.toInt < 2 ^ 31 - 1) :
    (l + 1).toInt = l.toInt + 1 := by
  have h1 : (1 : BitVec 32).toInt = 1 := by decide
  have hle := BitVec.le_toInt (x := l)
  rw [BitVec.toInt_add, h1]
  apply Int.bmod_eq_of_le <;> omega

/-- A step that touches neither the level nor the counts. -/
theorem effect_plain {initLevel : BitVec 32} {s s' : SemSystem T} {t : T} {pc : SemPc}
    (hi : s.Inv initLevel) (hpc : s'.pc = Function.update s.pc t pc)
    (hinit : s'.sem.init = s.sem.init) (hlevel : s'.sem.level = s.sem.level)
    (hcounts : s'.posts = s.posts ∧ s'.increments = s.increments ∧ s'.decrements = s.decrements ∧
      s'.successes = s.successes)
    (hlock : (s'.sem.lock = s.sem.lock ∧ pc.critical = (s.pc t).critical) ∨
      (s.sem.lock.getLsbD 0 = false ∧ s'.sem.lock.getLsbD 0 = true ∧ pc.critical = true) ∨
      ((s.pc t).critical = true ∧ s'.sem.lock.getLsbD 0 = false ∧ pc.critical = false))
    (hloc : s.Local pc) (hpost : pc.posting = (s.pc t).posting) : Effect initLevel s s' t := by
  obtain ⟨hp, hinc, hdec, hsucc⟩ := hcounts
  have hself : s'.pc t = pc := by rw [hpc, Function.update_self]
  refine ⟨⟨by rw [hlevel, hinc, hdec, hi.level], by rw [hlevel]; exact hi.nonneg, by
    rw [hsucc, hdec]; exact hi.successes⟩, fun u hu => Or.inl (by
    rw [hpc, Function.update_of_ne hu]), hinit, by rw [hself]; exact hlock,
    Or.inr ⟨hlevel, hsucc, hdec⟩, ?_, Or.inl ⟨hp, hinc, by rw [hself, hpost]⟩⟩
  rw [hself]
  exact hloc.congr hlevel hsucc hdec

/-- A step that only moves `t`. -/
theorem effect_goto {initLevel : BitVec 32} {s : SemSystem T} {t : T} {pc : SemPc}
    (hi : s.Inv initLevel) (hcrit : pc.critical = (s.pc t).critical) (hloc : s.Local pc)
    (hpost : pc.posting = (s.pc t).posting) : Effect initLevel s (s.goto t pc) t :=
  effect_plain hi rfl rfl rfl ⟨rfl, rfl, rfl, rfl⟩ (Or.inl ⟨rfl, hcrit⟩) hloc hpost

theorem effect_lock {initLevel : BitVec 32} {s s' : SemSystem T} {t : T} {pc : SemPc}
    (hi : s.Inv initLevel) (hs : s.spinlockLock t pc = some s') (hcrit : pc.critical = true)
    (hloc : s.Local pc) (hpost : pc.posting = (s.pc t).posting) : Effect initLevel s s' t := by
  unfold spinlockLock at hs
  split_ifs at hs with hlock
  rw [Option.some.injEq] at hs
  rw [← hs]
  refine effect_plain hi rfl rfl rfl ⟨rfl, rfl, rfl, rfl⟩ (Or.inr (Or.inl ⟨?_, ?_, hcrit⟩)) hloc hpost
  · simpa using hlock
  · simp [goto]

theorem spinlockUnlock_clears (s : SemSystem T) (t : T) (pc : SemPc) :
    (s.spinlockUnlock t pc).sem.lock.getLsbD 0 = false := by
  simp [spinlockUnlock, goto]

theorem runWake_eq (s : SemSystem T) (t : T) : ∃ err, s.runWake t = { s with
    waitQueue := (futexWake s.sem.level 1 s.waitQueue).2.2
    pc := Function.update (fun u => if u ∈ (futexWake s.sem.level 1 s.waitQueue).2.1 then
      resume (s.pc u) else s.pc u) t (.unlock .post err none) } :=
  ⟨_, rfl⟩

theorem effect_wake {initLevel : BitVec 32} {s : SemSystem T} {t : T} (hi : s.Inv initLevel)
    (hpc : s.pc t = .postWake) : Effect initLevel s (s.runWake t) t := by
  obtain ⟨err, he⟩ := runWake_eq s t
  rw [he]
  refine ⟨⟨hi.level, hi.nonneg, hi.successes⟩, fun u hu => ?_, rfl, Or.inl ⟨rfl, ?_⟩, Or.inl ?_, ?_,
    Or.inl ⟨rfl, rfl, ?_⟩⟩
  · simp only [Function.update_of_ne hu]
    split_ifs
    · exact Or.inr rfl
    · exact Or.inl rfl
  · simp only [Function.update_self, hpc]
    rfl
  · rw [hpc]
    rfl
  · simp only [Function.update_self]
    exact .of_idle _ rfl rfl (by cases err <;> rfl)
  · simp only [Function.update_self, hpc]
    rfl

theorem effect_takeStore {initLevel : BitVec 32} {s : SemSystem T} {t : T} (hi : s.Inv initLevel)
    {op : SemOp} {level : BitVec 32} (hpc : s.pc t = .takeStore op level) {pc : SemPc}
    (hcrit : pc.critical = true) (hpost : pc.posting = false) (h1 : pc.taking = false)
    (h2 : pc.loaded = none) : Effect initLevel s ((s.storeDown level).goto t pc) t := by
  have hl := hi.loc t
  rw [hpc] at hl
  obtain rfl := hl.loaded level rfl
  have hpos := hl.positive rfl
  have hto := toInt_sub_one hpos
  have hlevel := hi.level
  have hsucc := hi.successes
  refine ⟨⟨?_, ?_, ?_⟩, fun u hu => Or.inl (Function.update_of_ne hu _ _), rfl,
    Or.inl ⟨rfl, ?_⟩, Or.inl ?_, ?_, Or.inl ⟨rfl, rfl, ?_⟩⟩
  · simp only [goto, storeDown]
    rw [hto, hlevel]
    push_cast
    omega
  · simp only [goto, storeDown]
    omega
  · simp only [goto, storeDown]
    omega
  · simp only [goto, Function.update_self, hcrit, hpc]
    rfl
  · rw [hpc]
    rfl
  · simp only [goto, Function.update_self]
    refine ⟨by simp [h1], by simp [h2], fun _ => ?_⟩
    simp only [storeDown]
    omega
  · simp only [goto, Function.update_self, hpost, hpc]
    rfl

theorem effect_postStore {initLevel : BitVec 32} {s : SemSystem T} {t : T} (hi : s.Inv initLevel)
    {level : BitVec 32} (hpc : s.pc t = .postStore level) (hmax : level.toInt < 2 ^ 31 - 1) :
    Effect initLevel s ((s.storeUp level).goto t .postTestLevel) t := by
  have hl := hi.loc t
  rw [hpc] at hl
  obtain rfl := hl.loaded level rfl
  have hto := toInt_add_one hmax
  have hlevel := hi.level
  have hnonneg := hi.nonneg
  refine ⟨⟨?_, ?_, hi.successes⟩, fun u hu => Or.inl (Function.update_of_ne hu _ _), rfl,
    Or.inl ⟨rfl, ?_⟩, Or.inl ?_, ?_, Or.inr (Or.inr ⟨rfl, rfl, ?_, ?_⟩)⟩
  · simp only [goto, storeUp]
    rw [hto, hlevel]
    push_cast
    omega
  · simp only [goto, storeUp]
    omega
  · simp only [goto, Function.update_self, hpc]
    rfl
  · rw [hpc]
    rfl
  · simp only [goto, Function.update_self]
    exact .of_idle _ rfl rfl rfl
  · rw [hpc]
    rfl
  · simp only [goto, Function.update_self]
    rfl

theorem effect_unlock {initLevel : BitVec 32} {s : SemSystem T} {t : T} (hi : s.Inv initLevel)
    {op : SemOp} {err : OsReturnE} {value : Option (BitVec 32)}
    (hpc : s.pc t = .unlock op err value) : Effect initLevel s (s.runUnlock t op err value) t := by
  have hl := hi.loc t
  rw [hpc] at hl
  have hin : (s.pc t).critical = true := by rw [hpc]; rfl
  have hposting : (s.pc t).posting = false := by rw [hpc]; rfl
  unfold runUnlock
  simp only
  split_ifs with htaken
  · have hlt := hl.taken (by simp [taken, htaken])
    refine ⟨⟨hi.level, hi.nonneg, hlt⟩, fun u hu => Or.inl (Function.update_of_ne hu _ _), rfl,
      Or.inr (Or.inr ⟨hin, spinlockUnlock_clears s t (.ret err value), ?_⟩), Or.inl hin, ?_, Or.inl ⟨rfl, rfl, ?_⟩⟩
    · simp only [spinlockUnlock, goto, Function.update_self]
      rfl
    · simp only [spinlockUnlock, goto, Function.update_self]
      exact .of_idle _ rfl rfl rfl
    · simp only [spinlockUnlock, goto, Function.update_self, hposting]
      rfl
  · exact effect_plain hi rfl rfl rfl ⟨rfl, rfl, rfl, rfl⟩
      (Or.inr (Or.inr ⟨hin, spinlockUnlock_clears s t (.ret err value), rfl⟩)) (.of_idle _ rfl rfl rfl)
      hposting.symm

theorem effect_run {initLevel : BitVec 32} {s s' : SemSystem T} {t : T} {fault : Option OsReturnE}
    (hi : s.Inv initLevel) (hmax : s.NoOverflow (t, .run fault)) (hs : s.run t fault = some s') :
    Effect initLevel s s' t := by
  have hl := hi.loc t
  unfold run at hs
  cases hpc : s.pc t <;> rw [hpc] at hl <;> simp only [hpc, Option.some.injEq, reduceCtorEq] at hs
  case checkInit op =>
    rw [hi.init] at hs
    simp only [Bool.true_eq_false, if_false, Option.some.injEq] at hs
    rw [← hs]
    exact effect_goto hi (by rw [hpc]; rfl) (.of_idle s rfl rfl rfl) (by rw [hpc]; rfl)
  case spin op =>
    refine effect_lock hi hs (by cases op <;> rfl) ?_ (by rw [hpc]; cases op <;> rfl)
    cases op <;> exact .of_idle s rfl rfl rfl
  case pendTest =>
    split_ifs at hs with hpos
    · rw [Option.some.injEq] at hs
      rw [← hs]
      exact effect_goto hi (by rw [hpc]; rfl) (.of_idle s rfl rfl rfl) (by rw [hpc]; rfl)
    · rw [Option.some.injEq] at hs
      rw [← hs]
      exact effect_goto hi (by rw [hpc]; rfl) ⟨fun _ => not_le.mp hpos, by simp [loaded], by
        simp [taken]⟩ (by rw [hpc]; rfl)
  case tryTest value =>
    by_cases hpos : s.sem.level.toInt ≤ 0
    · rw [if_pos hpos, Option.some.injEq] at hs
      rw [← hs]
      cases value <;>
        exact effect_goto hi (by rw [hpc]; rfl) (.of_idle s rfl rfl rfl) (by rw [hpc]; rfl)
    · rw [if_neg hpos, Option.some.injEq] at hs
      rw [← hs]
      exact effect_goto hi (by rw [hpc]; rfl) ⟨fun _ => not_le.mp hpos, by simp [loaded], by
        simp [taken]⟩ (by rw [hpc]; rfl)
  case pendUnlock val =>
    rw [← hs]
    exact effect_plain hi rfl rfl rfl ⟨rfl, rfl, rfl, rfl⟩
      (Or.inr (Or.inr ⟨by rw [hpc]; rfl, spinlockUnlock_clears s t _, rfl⟩)) (.of_idle s rfl rfl rfl) (by rw [hpc]; rfl)
  case pendWait val =>
    rw [← hs]
    unfold runWait
    split
    · exact effect_plain hi rfl rfl rfl ⟨rfl, rfl, rfl, rfl⟩ (Or.inl ⟨rfl, by rw [hpc]; rfl⟩)
        (.of_idle s rfl rfl rfl) (by rw [hpc]; rfl)
    · exact effect_plain hi rfl rfl rfl ⟨rfl, rfl, rfl, rfl⟩ (Or.inl ⟨rfl, by rw [hpc]; rfl⟩)
        (.of_idle s rfl rfl rfl) (by rw [hpc]; rfl)
  case respin err =>
    exact effect_lock hi hs rfl (.of_idle s rfl rfl rfl) (by rw [hpc]; rfl)
  case unwaitersStore err waiters =>
    rw [← hs]
    split_ifs with he
    · refine effect_plain hi rfl rfl rfl ⟨rfl, rfl, rfl, rfl⟩ (Or.inl ⟨rfl, by rw [hpc]; rfl⟩)
        (.of_idle s rfl rfl ?_) (by rw [hpc]; rfl)
      simp [taken, he]
    · exact effect_plain hi rfl rfl rfl ⟨rfl, rfl, rfl, rfl⟩ (Or.inl ⟨rfl, by rw [hpc]; rfl⟩)
        (.of_idle s rfl rfl rfl) (by rw [hpc]; rfl)
  case pendCheckInit =>
    rw [hi.init] at hs
    simp only [Bool.true_eq_false, if_false, Option.some.injEq] at hs
    rw [← hs]
    exact effect_goto hi (by rw [hpc]; rfl) (.of_idle s rfl rfl rfl) (by rw [hpc]; rfl)
  case takeLoad op =>
    rw [← hs]
    exact effect_goto hi (by rw [hpc]; rfl) ⟨fun _ => hl.positive rfl, by simp [loaded], by
      simp [taken]⟩ (by rw [hpc]; rfl)
  case takeStore op level =>
    rw [← hs]
    split_ifs
    · exact effect_takeStore hi hpc rfl rfl rfl rfl
    · exact effect_takeStore hi hpc rfl rfl rfl rfl
  case takeValue op =>
    rw [← hs]
    exact effect_goto hi (by rw [hpc]; rfl) ⟨by simp [taking], by simp [loaded], fun _ =>
      hl.taken rfl⟩ (by rw [hpc]; rfl)
  case postLoad =>
    rw [← hs]
    exact effect_goto hi (by rw [hpc]; rfl) ⟨by simp [taking], by simp [loaded], by
      simp [taken]⟩ (by rw [hpc]; rfl)
  case postStore level =>
    rw [← hs]
    exact effect_postStore hi hpc (hmax level hpc)
  case postTestLevel =>
    split_ifs at hs <;> rw [Option.some.injEq] at hs <;> rw [← hs] <;>
      exact effect_goto hi (by rw [hpc]; rfl) (.of_idle s rfl rfl rfl) (by rw [hpc]; rfl)
  case postTestWaiters =>
    split_ifs at hs <;> rw [Option.some.injEq] at hs <;> rw [← hs] <;>
      exact effect_goto hi (by rw [hpc]; rfl) (.of_idle s rfl rfl rfl) (by rw [hpc]; rfl)
  case postWake =>
    rw [← hs]
    exact effect_wake hi hpc
  case unlock op err value =>
    rw [← hs]
    exact effect_unlock hi hpc
  all_goals
    rw [← hs]
    exact effect_plain hi rfl rfl rfl ⟨rfl, rfl, rfl, rfl⟩ (Or.inl ⟨rfl, by rw [hpc]; rfl⟩)
      (.of_idle s rfl rfl rfl) (by rw [hpc]; rfl)

theorem Step.effect {initLevel : BitVec 32} {s s' : SemSystem T} {a : T × SemAct}
    (hi : s.Inv initLevel) (hmax : s.NoOverflow a) (hs : s.Step a s') :
    Effect initLevel s s' a.1 := by
  obtain ⟨t, act⟩ := a
  cases act with
  | run fault => exact effect_run hi hmax hs
  | call op =>
    simp only [Step, exec] at hs
    cases hpc : s.pc t <;> simp only [hpc, Option.some.injEq, reduceCtorEq] at hs
    rw [← hs]
    by_cases hop : op = .post
    · subst hop
      refine ⟨⟨hi.level, hi.nonneg, hi.successes⟩, fun u hu => Or.inl (Function.update_of_ne hu _ _),
        rfl, Or.inl ⟨rfl, ?_⟩, Or.inr ⟨rfl, rfl, rfl⟩, ?_, Or.inr (Or.inl ⟨rfl, rfl, ?_, ?_⟩)⟩
      · simp only [goto, Function.update_self, hpc]
        rfl
      · simp only [goto, Function.update_self]
        exact .of_idle _ rfl rfl rfl
      · rw [hpc]
        rfl
      · simp only [goto, Function.update_self]
        rfl
    · simp only [if_neg hop]
      refine effect_goto hi (by rw [hpc]; rfl) (.of_idle s rfl rfl rfl) ?_
      simp [hpc, posting, hop]

/-! ## Conservation -/

omit [DecidableEq T] in
theorem Started.inv {initLevel : BitVec 32} {s : SemSystem T} (h : s.Started initLevel)
    (hinit : 0 ≤ initLevel.toInt) : s.Inv initLevel := by
  obtain ⟨hp, hinc, hdec, hsucc⟩ := h.counts
  have hlevel : s.sem.level = initLevel := by rw [h.sem]; rfl
  have hnone : ∀ t, (s.pc t).critical = false := fun t => by rw [h.pc]; rfl
  refine ⟨⟨by rw [hlevel, hinc, hdec]; simp, by rw [hlevel]; exact hinit, by rw [hsucc, hdec]⟩,
    by rw [h.sem]; rfl, ?_, ?_, fun t => ?_, ∅, fun t => ?_, by rw [hinc, hp]; rfl⟩
  · simp [h.sem, semInit, hnone]
  · simp [hnone]
  · rw [h.pc]
    exact .of_idle s rfl rfl rfl
  · simp [h.pc, posting]

/-- In every run in which no increment overflows, the level is the initial one plus the increments
minus the decrements and never negative, and the successful `sem_pend` and `sem_trypend` are at most
the initial level plus the increments, hence plus the calls of `sem_post`. -/
theorem tokens_conserved {initLevel : BitVec 32} {s : SemSystem T} (hinit : 0 ≤ initLevel.toInt)
    (h : Guarded (Started initLevel) Step NoOverflow s) :
    s.sem.level.toInt = initLevel.toInt + s.increments - s.decrements ∧ 0 ≤ s.sem.level.toInt ∧
      (s.successes : ℤ) ≤ initLevel.toInt + s.increments ∧ s.increments ≤ s.posts := by
  have hi : s.Inv initLevel := h.invariant (Inv initLevel) (fun _ hs => hs.inv hinit)
    (fun _ _ _ hi hg hs => (hs.effect hi hg).inv hi)
  obtain ⟨P, -, hcard⟩ := hi.posts
  have hlevel := hi.level
  have hnonneg := hi.nonneg
  have hsucc := hi.successes
  refine ⟨hlevel, hnonneg, ?_, by omega⟩
  omega

/-- Thread 0 pends on a semaphore of level one, then posts it. -/
def pendPostActs : List (ℕ × SemAct) :=
  (0, .call .pend) :: List.replicate 6 (0, .run none) ++
    (0, .call .post) :: List.replicate 6 (0, .run none)

def freshSem : SemSystem ℕ :=
  ⟨semInit 1, none, fun _ => .ret .osNoErr none, 0, 0, 0, 0⟩

/-- A step of a thread that does not overflow the level. -/
def guardedExec (s : SemSystem ℕ) (a : ℕ × SemAct) : Option (SemSystem ℕ) :=
  match s.pc a.1 with
  | .postStore level => if level.toInt < 2 ^ 31 - 1 then s.exec a.1 a.2 else none
  | _ => s.exec a.1 a.2

theorem guardedExec_spec (s : SemSystem ℕ) (a : ℕ × SemAct) (s' : SemSystem ℕ)
    (h : s.guardedExec a = some s') : s.NoOverflow a ∧ s.Step a s' := by
  unfold guardedExec at h
  split at h
  · rename_i level hpc
    split_ifs at h with hmax
    refine ⟨fun l hl => ?_, h⟩
    rw [hpc] at hl
    cases hl
    exact hmax
  · rename_i hpc
    exact ⟨fun l hl => absurd hl (hpc l), h⟩

theorem tokens_conserved_pend_post : ∃ s : SemSystem ℕ, s.successes = 1 ∧ s.posts = 1 ∧
    s.sem.level = 1 ∧ s.sem.level.toInt = 1 + s.increments - s.decrements ∧
      0 ≤ s.sem.level.toInt ∧ (s.successes : ℤ) ≤ 1 + s.increments ∧ s.increments ≤ s.posts := by
  have hval : (runActs guardedExec freshSem pendPostActs).map
      (fun s => (s.successes, s.posts, s.sem.level)) = some (1, 1, 1) := by decide
  obtain ⟨s, hs, he⟩ := Option.map_eq_some_iff.mp hval
  simp only [Prod.mk.injEq] at he
  have hstart : Guarded (Started 1) Step NoOverflow freshSem :=
    .start ⟨rfl, rfl, fun _ => rfl, rfl, rfl, rfl, rfl⟩
  exact ⟨s, he.1, he.2.1, he.2.2,
    tokens_conserved (by decide) (hstart.runActs guardedExec_spec hs)⟩

end SemSystem

end UtkKernel.Sync
