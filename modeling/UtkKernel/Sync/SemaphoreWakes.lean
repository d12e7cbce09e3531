import UtkKernel.Sync.Fifo
import UtkKernel.Sync.SemaphoreTurns

/-! # No lost wake-up on a semaphore

A thread blocks on a level that is not positive. From then on every post that leaves the level positive
wakes one thread, so that as long as a thread is blocked the level is at most the number of those woken
that have yet to test it again, but for the thread inside the spinlock: it may be about to count the
level down, or to wake for the one it counted up. -/

namespace UtkKernel.Sync
open Foundations
set_option autoImplicit false

namespace SemPc

/-- Points of a thread that is about to count the level down, or that counted it up and has yet to wake
a thread for it. -/
def owing : SemPc → Bool
  | .takeLoad _ => true
  | .takeStore _ _ => true
  | .postTestLevel => true
  | .postTestWaiters => true
  | .postWake => true
  | _ => false

/-- Points from the return of a futex wait without error to the test of the level. -/
def awake : SemPc → Bool
  | .respin err => err == .osNoErr
  | .unwaitersLoad err => err == .osNoErr
  | .unwaitersStore err _ => err == .osNoErr
  | .pendCheckInit => true
  | .pendTest => true
  | _ => false

end SemPc

open SemPc

/-- A semaphore and who was woken on it and has yet to test the level again. -/
structure Watched (T : Type) where
  system : SemSystem T
  woken : T → Bool

namespace Watched
open SemSystem

variable {T : Type} [DecidableEq T]

/-- A thread is woken when it ceases to be blocked, until its next test of the level. -/
def watch (s : SemSystem T) (woken : T → Bool) (t : T) (s' : SemSystem T) : T → Bool := fun u =>
  (s.pc u == .blocked && s'.pc u != .blocked) || (woken u && !(u == t && s.pc u == .pendTest))

def exec (x : Watched T) (a : T × SemAct) : Option (Watched T) :=
  (x.system.exec a.1 a.2).map fun s' => ⟨s', watch x.system x.woken a.1 s'⟩

def Step (x : Watched T) (a : T × SemAct) (x' : Watched T) : Prop :=
  x.system.Step a x'.system ∧ x'.woken = watch x.system x.woken a.1 x'.system

def Init (initLevel : BitVec 32) (x : Watched T) : Prop :=
  x.system.Started initLevel ∧ x.woken = fun _ => false

theorem exec_step (x : Watched T) (a : T × SemAct) (x' : Watched T) (h : x.exec a = some x') :
    True ∧ x.Step a x' := by
  obtain ⟨s', hs, rfl⟩ := Option.map_eq_some_iff.mp h
  exact ⟨trivial, hs, rfl⟩

variable {s s' : SemSystem T} {woken : T → Bool} {t u : T}

theorem watch_eq_true : watch s woken t s' u = true ↔
    (s.Blocked u ∧ ¬ s'.Blocked u) ∨ (woken u = true ∧ ¬ (u = t ∧ s.pc u = .pendTest)) := by
  simp [watch, Blocked, imp_iff_not_or]

/-! ## The balance -/

/-- The level is covered by the woken threads, and by one more if some thread inside owes it. -/
def Covered [Fintype T] (s : SemSystem T) (woken : T → Bool) : Prop :=
  s.sem.level.toInt ≤ population woken ∨
    (∃ u, (s.pc u).owing = true) ∧ s.sem.level.toInt ≤ population woken + 1

structure Inv [Fintype T] (x : Watched T) : Prop where
  init : x.system.sem.init = true
  exclusive : Exclusive x.system.Locked x.system.Inside
  tidy : x.system.Tidy
  listed : Lists (waiting x.system.waitQueue) x.system.Blocked
  awake : ∀ u, x.woken u = true → (x.system.pc u).awake = true
  covered : (∃ u, x.system.Blocked u) → Covered x.system x.woken

omit [DecidableEq T] in
theorem covered_of_nonpos [Fintype T] (h : s.sem.level.toInt ≤ 0) : Covered s woken :=
  .inl (h.trans (Int.natCast_nonneg _))

omit [DecidableEq T] in
theorem Covered.le_add_one [Fintype T] (h : Covered s woken) :
    s.sem.level.toInt ≤ population woken + 1 := by
  rcases h with h | ⟨-, h⟩ <;> omega

omit [DecidableEq T] in
theorem inside_of_owing (h : (s.pc t).owing = true) : s.Inside t := by
  unfold Inside
  cases hpc : s.pc t <;> rw [hpc] at h <;> first | cases h; done | rfl

omit [DecidableEq T] in
/-- Nobody else owes the level while a thread is inside that does not. -/
theorem Covered.le [Fintype T] (h : Covered s woken) (hx : Exclusive s.Locked s.Inside)
    (ht : s.Inside t) (howing : (s.pc t).owing = false) : s.sem.level.toInt ≤ population woken := by
  rcases h with h | ⟨⟨u, hu⟩, -⟩
  · exact h
  · rw [hx.unique u t (inside_of_owing hu) ht, howing] at hu
    cases hu

/-- A step that changes neither the level nor who is blocked. -/
structure Aside (s s' : SemSystem T) (t : T) : Prop where
  level : s'.sem.level = s.sem.level
  blocked : ∀ u, s'.Blocked u ↔ s.Blocked u
  others : ∀ u, u ≠ t → s'.pc u = s.pc u
  owing : (s.pc t).owing = true → (s'.pc t).owing = true
  untested : s.pc t ≠ .pendTest

theorem watch_of_blocked (hblocked : ∀ u, s.Blocked u → s'.Blocked u) (htest : s.pc t ≠ .pendTest) :
    watch s woken t s' = woken := by
  funext u
  rw [Bool.eq_iff_iff, watch_eq_true]
  constructor
  · rintro (⟨hb, hb'⟩ | ⟨hw, -⟩)
    · exact absurd (hblocked u hb) hb'
    · exact hw
  · intro hw
    refine .inr ⟨hw, ?_⟩
    rintro ⟨rfl, hpc⟩
    exact htest hpc

theorem Aside.covered [Fintype T] (h : Aside s s' t) (hc : (∃ u, s.Blocked u) → Covered s woken)
    (hb : ∃ u, s'.Blocked u) : Covered s' (watch s woken t s') := by
  obtain ⟨u, hu⟩ := hb
  rw [watch_of_blocked (fun u => (h.blocked u).mpr) h.untested]
  rcases hc ⟨u, (h.blocked u).mp hu⟩ with hle | ⟨⟨v, hv⟩, hle⟩
  · exact .inl (by rw [h.level]; exact hle)
  · refine .inr ⟨⟨v, ?_⟩, by rw [h.level]; exact hle⟩
    by_cases hvt : v = t
    · rw [hvt] at hv ⊢
      exact h.owing hv
    · rw [h.others v hvt]
      exact hv

theorem aside_of_goto {pc : SemPc} (hpc : s'.pc = Function.update s.pc t pc)
    (hlevel : s'.sem.level = s.sem.level) (hfrom : s.pc t ≠ .blocked) (hto : pc ≠ .blocked)
    (howing : (s.pc t).owing = true → pc.owing = true) (htest : s.pc t ≠ .pendTest) :
    Aside s s' t := by
  refine ⟨hlevel, fun u => ?_, fun u hu => ?_, ?_, htest⟩
  · unfold Blocked
    rw [hpc]
    by_cases hu : u = t
    · rw [hu, Function.update_self]
      exact iff_of_false hto hfrom
    · rw [Function.update_of_ne hu]
  · rw [hpc, Function.update_of_ne hu]
  · rw [hpc, Function.update_self]
    exact howing

/-! ## The threads woken -/

theorem Aside.of_run {fault : Option OsReturnE} (hs : s.run t fault = some s')
    (hlevel : s'.sem.level = s.sem.level) {pc : SemPc} (hpc : s'.pc = Function.update s.pc t pc)
    (hto : pc ≠ .blocked) (howing : (s.pc t).owing = true → pc.owing = true)
    (htest : s.pc t ≠ .pendTest) : Aside s s' t := by
  refine aside_of_goto hpc hlevel (fun hfrom => ?_) hto howing htest
  rw [run, hfrom] at hs
  cases hs

theorem awake_run {fault : Option OsReturnE} (hinit : s.sem.init = true)
    (hawake : (s.pc t).awake = true) (htest : s.pc t ≠ .pendTest) (hs : s.run t fault = some s') :
    (s'.pc t).awake = true := by
  unfold run at hs
  cases hpc : s.pc t <;> simp only [hpc, Option.some.injEq, reduceCtorEq] at hs <;> rw [hpc] at hawake
  case respin err =>
    rw [(spinlockLock_goto hs).2, Function.update_self]
    exact hawake
  case unwaitersLoad err =>
    rw [← hs, goto_pc_self]
    exact hawake
  case unwaitersStore err waiters =>
    have herr : err = .osNoErr := eq_of_beq hawake
    rw [← hs, if_neg (not_not.mpr herr), goto_pc_self]
    rfl
  case pendCheckInit =>
    rw [if_neg (by simp [hinit])] at hs
    cases hs
    rw [goto_pc_self]
    rfl
  case pendTest => exact absurd hpc htest
  all_goals cases hawake

/-! ## The level -/

section
variable [Fintype T]

/-- A store of the level counted down, by a thread that owed it. -/
theorem covered_takeStore {op : SemOp} {level : BitVec 32} {pc : SemPc}
    (hpc : s.pc t = .takeStore op level) (hk : level = s.sem.level ∧ 0 < s.sem.level.toInt)
    (hto : pc ≠ .blocked) (hc : (∃ u, s.Blocked u) → Covered s woken)
    (hb : ∃ u, ((s.storeDown level).goto t pc).Blocked u) :
    Covered ((s.storeDown level).goto t pc) (watch s woken t ((s.storeDown level).goto t pc)) := by
  have hblocked : ∀ u, ((s.storeDown level).goto t pc).Blocked u ↔ s.Blocked u := by
    intro u
    unfold Blocked
    by_cases hu : u = t
    · rw [hu, goto_pc_self, hpc]
      exact iff_of_false hto nofun
    · exact iff_of_eq (congrArg (· = SemPc.blocked) (Function.update_of_ne hu _ _))
  obtain ⟨u, hu⟩ := hb
  rw [watch_of_blocked (fun u => (hblocked u).mpr) (by rw [hpc]; nofun)]
  have hle := (hc ⟨u, (hblocked u).mp hu⟩).le_add_one
  have hlevel : (level - 1).toInt = s.sem.level.toInt - 1 := by rw [hk.1, toInt_sub_one hk.2]
  refine .inl ?_
  change (level - 1).toInt ≤ _
  omega

theorem toInt_add_one_le (l : BitVec 32) : (l + 1).toInt ≤ l.toInt + 1 := by
  by_cases h : l.toInt < 2 ^ 31 - 1
  · exact (toInt_add_one h).le
  · have hlt := BitVec.toInt_lt (x := l + 1)
    omega

/-- The store of the level counted up, after which the thread owes it. -/
theorem covered_postStore {level : BitVec 32} (hpc : s.pc t = .postStore level)
    (hk : level = s.sem.level) (hx : Exclusive s.Locked s.Inside)
    (hc : (∃ u, s.Blocked u) → Covered s woken)
    (hb : ∃ u, ((s.storeUp level).goto t .postTestLevel).Blocked u) :
    Covered ((s.storeUp level).goto t .postTestLevel)
      (watch s woken t ((s.storeUp level).goto t .postTestLevel)) := by
  have hblocked : ∀ u, ((s.storeUp level).goto t .postTestLevel).Blocked u ↔ s.Blocked u := by
    intro u
    unfold Blocked
    by_cases hu : u = t
    · rw [hu, goto_pc_self, hpc]
      exact iff_of_false nofun nofun
    · exact iff_of_eq (congrArg (· = SemPc.blocked) (Function.update_of_ne hu _ _))
  obtain ⟨u, hu⟩ := hb
  rw [watch_of_blocked (fun u => (hblocked u).mpr) (by rw [hpc]; nofun)]
  have hinside : s.Inside t := by
    unfold Inside
    rw [hpc]
    rfl
  have hle := (hc ⟨u, (hblocked u).mp hu⟩).le hx hinside (by rw [hpc]; rfl)
  have hstep := toInt_add_one_le s.sem.level
  refine .inr ⟨⟨t, by rw [goto_pc_self]; rfl⟩, ?_⟩
  change (level + 1).toInt ≤ _
  rw [hk]
  omega

/-- The test that finds the level positive: a woken thread is not counted among the woken any more, and
owes the level. -/
theorem covered_pendTest (hpc : s.pc t = .pendTest) (hx : Exclusive s.Locked s.Inside)
    (hc : (∃ u, s.Blocked u) → Covered s woken) (hb : ∃ u, (s.goto t (.takeLoad .pend)).Blocked u) :
    Covered (s.goto t (.takeLoad .pend)) (watch s woken t (s.goto t (.takeLoad .pend))) := by
  obtain ⟨u, hu⟩ := hb
  have hinside : s.Inside t := by
    unfold Inside
    rw [hpc]
    rfl
  have hut : u ≠ t := by
    rintro rfl
    rw [Blocked, goto_pc_self] at hu
    cases hu
  have hblocked : s.Blocked u := (Function.update_of_ne hut _ _).symm.trans hu
  have hle := (hc ⟨u, hblocked⟩).le hx hinside (by rw [hpc]; rfl)
  have hpop : population woken ≤ population (watch s woken t (s.goto t (.takeLoad .pend))) + 1 := by
    refine population_le_add_one (t := t) fun v hv hw => watch_eq_true.mpr (.inr ⟨hw, fun h => hv h.1⟩)
  refine .inr ⟨⟨t, by rw [goto_pc_self]; rfl⟩, ?_⟩
  change s.sem.level.toInt ≤ _
  omega

/-- A wake that leaves a thread blocked has woken another one. -/
theorem covered_wake (hpc : s.pc t = .postWake) (hlevel : 0 < s.sem.level.toInt)
    (hwaits : ∀ w ∈ s.waitQueue.getD [], w.wait.toInt ≤ 0)
    (hlisted : Lists (waiting s.waitQueue) s.Blocked) (hwoken : ∀ u, woken u = true → ¬ s.Blocked u)
    (hc : (∃ u, s.Blocked u) → Covered s woken) (hb : ∃ u, (s.runWake t).Blocked u) :
    Covered (s.runWake t) (watch s woken t (s.runWake t)) := by
  have hmove := blocked_runWake hpc
  obtain ⟨u, hu⟩ := hb
  have hblocked := ((hmove u).mp hu).1
  -- the thread in the queue waits for a level that is not positive, so some thread is woken
  obtain ⟨w, hw, -⟩ := List.mem_map.mp ((hlisted.2 u).mpr hblocked)
  have hne : (futexWake s.sem.level 1 s.waitQueue).2.1 ≠ [] := by
    refine futexWake_ne_nil Nat.one_pos hw fun he => ?_
    have hle := hwaits w hw
    rw [he] at hle
    omega
  obtain ⟨v, hv⟩ := List.exists_mem_of_ne_nil _ hne
  have hvb : s.Blocked v := by
    rw [← hlisted.2, ← (futexWake_perm s.sem.level 1 s.waitQueue).mem_iff]
    exact List.mem_append_left _ hv
  have hpop : population woken + 1 ≤ population (watch s woken t (s.runWake t)) := by
    have hjoin := population_join (p := woken) (q := Function.update woken v true) (t := v)
      (by simpa using fun h => hwoken v h hvb) (Function.update_self ..)
      (fun x hx => Function.update_of_ne hx _ _)
    rw [← hjoin]
    refine population_mono fun x hx => watch_eq_true.mpr ?_
    by_cases hxv : x = v
    · rw [hxv]
      exact .inl ⟨hvb, fun h => ((hmove v).mp h).2 hv⟩
    · rw [Function.update_of_ne hxv] at hx
      refine .inr ⟨hx, ?_⟩
      rintro ⟨rfl, htest⟩
      rw [hpc] at htest
      cases htest
  have hle := (hc ⟨u, hblocked⟩).le_add_one
  obtain ⟨err, he⟩ := runWake_eq s t
  refine .inl ?_
  have hsame : (s.runWake t).sem.level = s.sem.level := by rw [he]
  rw [hsame]
  omega

theorem covered_wait {val : BitVec 32} {fault : Option OsReturnE} (hpc : s.pc t = .pendWait val)
    (hval : val.toInt ≤ 0) (hc : (∃ u, s.Blocked u) → Covered s woken)
    (hb : ∃ u, (s.runWait t val fault).Blocked u) :
    Covered (s.runWait t val fault) (watch s woken t (s.runWait t val fault)) := by
  have hfrom : s.pc t ≠ .blocked := by rw [hpc]; nofun
  have howing : (s.pc t).owing = false := by rw [hpc]; rfl
  have haside : ∀ err, Aside s (s.goto t (.respin err)) t := fun err =>
    aside_of_goto rfl rfl hfrom nofun (by simp [howing]) (by rw [hpc]; nofun)
  revert hb
  unfold runWait futexWait
  split_ifs with hvalue
  · exact (haside .osNoErr).covered hc
  · cases fault with
    | some err => exact (haside err).covered hc
    | none =>
      rintro -
      refine covered_of_nonpos ?_
      rw [not_not] at hvalue
      change s.sem.level.toInt ≤ 0
      rw [hvalue]
      exact hval

theorem covered_run (hcard : Fintype.card T < 2 ^ 31) {fault : Option OsReturnE} (htidy : s.Tidy)
    (hx : Exclusive s.Locked s.Inside) (hlisted : Lists (waiting s.waitQueue) s.Blocked)
    (hwoken : ∀ u, woken u = true → ¬ s.Blocked u)
    (hc : (∃ u, s.Blocked u) → Covered s woken) (hs : s.run t fault = some s')
    (hb : ∃ u, s'.Blocked u) : Covered s' (watch s woken t s') := by
  have hk := htidy.knows t
  have hrun := hs
  unfold run at hs
  cases hpc : s.pc t <;> rw [hpc] at hk <;> simp only [hpc, Option.some.injEq, reduceCtorEq] at hs
  case spin op =>
    obtain ⟨hlevel, hgoto⟩ := spinlockLock_level hs
    refine Aside.covered (.of_run hrun hlevel hgoto ?_ (by simp [hpc, owing]) (by rw [hpc]; simp)) hc hb
    cases op <;> rintro ⟨⟩
  case respin err =>
    obtain ⟨hlevel, hgoto⟩ := spinlockLock_level hs
    exact Aside.covered (.of_run hrun hlevel hgoto (by simp) (by simp [hpc, owing]) (by rw [hpc]; simp))
      hc hb
  case pendTest =>
    split_ifs at hs with hlevel <;> cases hs
    · exact covered_of_nonpos hlevel
    · exact covered_pendTest hpc hx hc hb
  case takeStore op level =>
    rw [← hs] at hb ⊢
    split_ifs at hb ⊢
    · exact covered_takeStore hpc hk (by simp) hc hb
    · exact covered_takeStore hpc hk (by simp) hc hb
  case postStore level =>
    rw [← hs] at hb ⊢
    exact covered_postStore hpc hk hx hc hb
  case postWake =>
    rw [← hs] at hb ⊢
    exact covered_wake hpc hk htidy.waits hlisted hwoken hc hb
  case pendWait val =>
    rw [← hs] at hb ⊢
    exact covered_wait hpc hk hc hb
  case postTestLevel =>
    split_ifs at hs with hlevel <;> cases hs
    · exact Aside.covered (.of_run hrun rfl rfl (by simp) (fun _ => rfl) (by rw [hpc]; simp)) hc hb
    · exact covered_of_nonpos (not_lt.mp hlevel)
  case postTestWaiters =>
    split_ifs at hs with hwaiters <;> cases hs
    · exact Aside.covered (.of_run hrun rfl rfl (by simp) (fun _ => rfl) (by rw [hpc]; simp)) hc hb
    -- nobody is counted, so nobody is blocked
    · obtain ⟨u, hu⟩ := hb
      have hut : u ≠ t := by
        rintro rfl
        rw [Blocked, goto_pc_self] at hu
        cases hu
      have hblocked : s.pc u = .blocked := (Function.update_of_ne hut _ _).symm.trans hu
      have hpos := htidy.waiters_pos hcard (t := u) (by rw [hblocked]; rfl)
      exact absurd hpos hwaiters
  case checkInit op =>
    split_ifs at hs <;> cases hs <;>
      exact Aside.covered (.of_run hrun rfl rfl (by simp) (by simp [hpc, owing]) (by rw [hpc]; simp)) hc hb
  case pendCheckInit =>
    split_ifs at hs <;> cases hs <;>
      exact Aside.covered (.of_run hrun rfl rfl (by simp) (by simp [hpc, owing]) (by rw [hpc]; simp)) hc hb
  case tryTest value =>
    cases value <;> split_ifs at hs <;> cases hs <;>
      exact Aside.covered (.of_run hrun rfl rfl (by simp) (by simp [hpc, owing]) (by rw [hpc]; simp)) hc hb
  case unwaitersStore err waiters =>
    rw [← hs] at hrun hb ⊢
    refine Aside.covered (.of_run hrun rfl rfl ?_ (by simp [hpc, owing]) (by rw [hpc]; simp)) hc hb
    split_ifs <;> rintro ⟨⟩
  case unlock op err value =>
    rw [← hs] at hrun hb ⊢
    have hpcs : (s.runUnlock t op err value).pc = Function.update s.pc t (.ret err value) ∧
        (s.runUnlock t op err value).sem.level = s.sem.level := by
      unfold runUnlock
      dsimp only
      split_ifs <;> exact ⟨rfl, rfl⟩
    exact Aside.covered (.of_run hrun hpcs.2 hpcs.1 (by simp) (by simp [hpc, owing]) (by rw [hpc]; simp))
      hc hb
  all_goals
    rw [← hs] at hrun hb ⊢
    exact Aside.covered (.of_run hrun rfl rfl (by simp) (by simp [hpc, owing]) (by rw [hpc]; simp)) hc hb

end

/-! ## Runs -/

/-- The thread that takes a step is not blocked: a call starts between two calls. -/
theorem not_blocked_of_step {a : T × SemAct} (hs : s.Step a s') : ¬ s.Blocked a.1 := by
  intro hb
  obtain ⟨t, act⟩ := a
  rw [Blocked] at hb
  cases act <;> simp [SemSystem.Step, SemSystem.exec, run, hb] at hs

theorem awake_step {a : T × SemAct} (hinit : s.sem.init = true) (hs : s.Step a s')
    (hawake : (s.pc a.1).awake = true) (htest : s.pc a.1 ≠ .pendTest) : (s'.pc a.1).awake = true := by
  obtain ⟨t, act⟩ := a
  cases act with
  | run fault => exact awake_run hinit hawake htest hs
  | call op =>
    obtain ⟨⟨err, value, hpc⟩, -, -⟩ := call_goto hs
    rw [hpc] at hawake
    cases hawake

theorem covered_step [Fintype T] (hcard : Fintype.card T < 2 ^ 31) {x : Watched T} {a : T × SemAct}
    (hi : x.Inv) (hwoken : ∀ u, x.woken u = true → ¬ x.system.Blocked u) (hs : x.system.Step a s')
    (hb : ∃ u, s'.Blocked u) : Covered s' (watch x.system x.woken a.1 s') := by
  obtain ⟨t, act⟩ := a
  cases act with
  | run fault => exact covered_run hcard hi.tidy hi.exclusive hi.listed hwoken hi.covered hs hb
  | call op =>
    obtain ⟨⟨err, value, hpc⟩, hgoto, hsem⟩ := call_goto hs
    have haside : Aside x.system s' t := aside_of_goto hgoto (by rw [hsem]) (by rw [hpc]; nofun) nofun
      (by simp [hpc, owing]) (by rw [hpc]; nofun)
    exact haside.covered hi.covered hb

theorem Inv.step [Fintype T] (hcard : Fintype.card T < 2 ^ 31) {x x' : Watched T} {a : T × SemAct}
    (hi : x.Inv) (hs : x.Step a x') : x'.Inv := by
  obtain ⟨hstep, hwatch⟩ := hs
  have hblocked : ∀ u ∈ (futexWake x.system.sem.level 1 x.system.waitQueue).2.1,
      x.system.pc u = .blocked := by
    intro u hu
    change x.system.Blocked u
    rw [← hi.listed.2, ← (futexWake_perm x.system.sem.level 1 x.system.waitQueue).mem_iff]
    exact List.mem_append_left _ hu
  have hturn := hstep.turn (hi.tidy.knows a.1) hblocked
  have hwoken : ∀ u, x.woken u = true → ¬ x.system.Blocked u := by
    intro u hu hb
    have hawake := hi.awake u hu
    rw [hb] at hawake
    cases hawake
  refine ⟨by rw [hturn.init, hi.init], hturn.exclusive hi.exclusive,
    hturn.tidy (fun ht u hu => hi.exclusive.alone ht hu) hi.tidy, hstep.futexMove.lists hi.listed,
    fun u hu => ?_, fun hb => ?_⟩
  · rw [hwatch, watch_eq_true] at hu
    by_cases hut : u = a.1
    · rcases hu with ⟨hb, -⟩ | ⟨hw, htest⟩
      · exact absurd (hut ▸ hb) (not_blocked_of_step hstep)
      · rw [hut] at hw htest ⊢
        exact awake_step hi.init hstep (hi.awake _ hw) fun h => htest ⟨rfl, h⟩
    · rcases hturn.others u hut with he | ⟨-, hr⟩
      · rcases hu with ⟨hb, hb'⟩ | ⟨hw, -⟩
        · exact absurd (he.trans hb) hb'
        · rw [he]
          exact hi.awake u hw
      · rw [hr]
        rfl
  · rw [hwatch]
    exact covered_step hcard hi hwoken hstep hb

omit [DecidableEq T] in
theorem Init.inv [Fintype T] {initLevel : BitVec 32} {x : Watched T} (h : Init initLevel x) : x.Inv := by
  obtain ⟨hstart, hwoken⟩ := h
  have hout : ∀ t, ¬ x.system.Inside t := by
    intro t
    rw [Inside, hstart.pc]
    exact Bool.false_ne_true
  have hnone : ∀ t, ¬ x.system.Blocked t := fun t => by simp [Blocked, hstart.pc]
  have hcount : population (fun t => (x.system.pc t).counted) = 0 := by
    apply population_eq_zero
    intro t
    rw [hstart.pc]
    rfl
  refine ⟨by rw [hstart.sem]; rfl, ⟨?_, fun t _ ht => absurd ht (hout t)⟩, ⟨fun t => ?_, ?_, ?_⟩, ?_,
    fun t ht => ?_, fun hb => ?_⟩
  · rw [Locked, hstart.sem]
    exact iff_of_false (by simp [semInit]) fun ht => ht.elim hout
  · rw [hstart.pc]
    trivial
  · rw [hcount, hstart.sem]
    rfl
  · simp [hstart.waitQueue]
  · rw [hstart.waitQueue]
    exact lists_nil hnone
  · simp [hwoken] at ht
  · exact absurd hb.choose_spec (hnone _)

/-- In every state reached in which a thread is blocked and nobody holds the spinlock, at least as many
threads as the level, if it is positive, have been woken and have yet to test it again. Every thread
has a record of its own at an aligned address, as `kmalloc` hands it out. -/
theorem woken_cover_level (record : T → BitVec 32) (hrecord : Function.Injective record)
    (haligned : ∀ t, 4 ∣ (record t).toNat) {initLevel : BitVec 32} {x : Watched T}
    (h : Reachable (Init initLevel) Step x) (hfree : x.system.sem.lock.getLsbD 0 = false)
    (hb : ∃ t, x.system.Blocked t) :
    ∃ W : Finset T, (∀ t ∈ W, x.woken t = true) ∧ x.system.sem.level.toInt ≤ W.card := by
  have : Fintype T := Fintype.ofInjective (fun t => (record t).toFin) fun t u htu =>
    hrecord (BitVec.eq_of_toFin_eq htu)
  have hcard := card_lt_of_records record hrecord haligned
  have hi : x.Inv := h.invariant Inv (fun _ hs => hs.inv) fun _ _ _ hi _ hs => hi.step hcard hs
  refine ⟨Finset.univ.filter fun t => x.woken t = true, fun t ht => (Finset.mem_filter.mp ht).2, ?_⟩
  rcases hi.covered hb with hle | ⟨⟨u, hu⟩, -⟩
  · exact hle
  · have hlocked : x.system.Locked := hi.exclusive.locked.mpr ⟨u, inside_of_owing hu⟩
    rw [Locked, hfree] at hlocked
    cases hlocked

/-! ### A run on three threads -/

/-- A semaphore of level zero. -/
def fresh : Watched (Fin 3) :=
  ⟨⟨semInit 0, none, fun _ => .ret .osNoErr none, 0, 0, 0, 0⟩, fun _ => false⟩

/-- Thread `t` finds the level at zero and blocks. -/
def pendBlocks (t : Fin 3) : List (Fin 3 × SemAct) :=
  (t, .call .pend) :: List.replicate 8 (t, .run none)

/-- Threads 1 and 2 block, then thread 0 posts. -/
def postToTwo : List (Fin 3 × SemAct) :=
  pendBlocks 1 ++ pendBlocks 2 ++ (0, .call .post) :: List.replicate 8 (0, .run none)

/-- Thread 2 is woken, thread 1 stays blocked, and the level is one. -/
theorem woken_cover_level_post : ∃ x : Watched (Fin 3), x.system.pc 1 = .blocked ∧
    x.system.sem.level = 1 ∧
      ∃ W : Finset (Fin 3), (∀ t ∈ W, x.woken t = true) ∧ x.system.sem.level.toInt ≤ W.card := by
  have hval : (runActs exec fresh postToTwo).map (fun x => (x.system.pc 1, x.system.sem.level,
      x.system.sem.lock.getLsbD 0)) = some (.blocked, 1, false) := by decide +kernel
  obtain ⟨x, hx, he⟩ := Option.map_eq_some_iff.mp hval
  simp only [Prod.mk.injEq] at he
  obtain ⟨hpc, hlevel, hfree⟩ := he
  have hstart : Reachable (Init 0) Step fresh :=
    .start ⟨⟨rfl, rfl, fun _ => rfl, rfl, rfl, rfl, rfl⟩, rfl⟩
  have hreach : Reachable (Init 0) Step x := hstart.runActs exec_step hx
  exact ⟨x, hpc, hlevel, woken_cover_level (fun t : Fin 3 => BitVec.ofNat 32 (4 * t.val)) (by decide)
    (by decide) hreach hfree ⟨1, hpc⟩⟩

end Watched

end UtkKernel.Sync
