import UtkKernel.Scheduler.JoinView

/-! # Join and exit

A thread that joins another one marks itself and then enters itself in the other, and a thread that exits
marks itself and then wakes the thread entered in it. Neither pair of statements is a critical section. As
long as no election comes between them where it matters, a thread that joins and is off the processor is
entered in the thread it joins, which has still to wake it. -/

namespace UtkKernel.Scheduler
open Structures Sync Foundations
set_option autoImplicit false

/-- The thread that a point of a join waits for. -/
def SchedPc.joins : SchedPc → Option ℕ
  | .joinSet thread | .joinYield thread | .joinClean thread => some thread
  | .waitYield _ thread | .waitJoined _ thread => some thread
  | _ => none

namespace Sched

/-! ## No lost wake-up -/

/-- A thread that joins and is off the processor is entered in the thread it joins. That thread runs, is
ready, sleeps or is blocked, or it is the active one and about to wake its joiner. -/
def JoinersAwaited (s : Sched) : Prop :=
  ∀ tid t, s.threads tid = some t → t.state = .joining → tid ≠ s.activeThread →
    ∃ u v, (s.pc tid).joins = some u ∧ s.threads u = some v ∧ v.joiningThread = some tid ∧
      (v.state ∈ [.running, .ready, .sleeping, .waiting, .joining] ∨
        (u = s.activeThread ∧ s.pc u = .exitJoiner))

/-- The thread that is entered in a thread and joins it. -/
def waitingJoiner (s : Sched) (tid : ℕ) : Option ℕ :=
  (s.threads tid).bind fun t =>
    t.joiningThread.bind fun joiner =>
      (s.threads joiner).bind fun j => if j.state = .joining then some joiner else none

/-- The threads are joined by one another only, but for those that are spared. -/
def JoinedWithin (s : Sched) (threads : List ℕ) (spared : ℕ → Bool) : Prop :=
  ∀ u ∈ threads, spared u = false → ∀ joiner ∈ s.waitingJoiner u, joiner ∈ threads

instance (s : Sched) (threads : List ℕ) (spared : ℕ → Bool) :
    Decidable (s.JoinedWithin threads spared) :=
  inferInstanceAs (Decidable (∀ _ ∈ _, _ → _))

/-- The timer does not elect between the two statements of a join, nor between those of an exit that has
a joiner to wake. When a join comes to its second statement, the thread it joins has not ended and no
other joiner is entered in it. A process that exits or is cleaned has no thread that a thread of another
process joins, but for the main thread of one that exits. -/
def JoinsInTime (s : Sched) : SchedAct → Prop
  | .tick _ =>
    match s.pc s.activeThread with
    | .joinSet _ => False
    | .exitJoiner => s.waitingJoiner s.activeThread = none
    | _ => True
  | .go _ =>
    match s.pc s.activeThread with
    | .joinSet target => (s.threads target).all (fun t => decide (t.state ≠ .zombie)) ∧
        s.waitingJoiner target = none
    | .waitClean child => ∀ p ∈ s.processes child, s.JoinedWithin p.threads fun _ => false
    | _ => True
  | .exitProcess =>
    ∀ t ∈ s.threads s.activeThread, ∀ p ∈ s.processes t.process,
      s.JoinedWithin p.threads fun u => decide (u = p.mainThread)
  | _ => True

instance (s : Sched) (act : SchedAct) : Decidable (s.JoinsInTime act) := by
  unfold JoinsInTime
  split
  · split <;> infer_instance
  · split <;> infer_instance
  · infer_instance
  · infer_instance

variable {s s' : Sched} {a tid u : ℕ} {t : KernelThread}

theorem phase_eq_joining {state : ThreadState} : state.phase = .joining ↔ state = .joining := by
  cases state <;> simp [ThreadState.phase]

theorem phase_eq_gone {state : ThreadState} : state.phase = .gone ↔ state = .zombie := by
  cases state <;> simp [ThreadState.phase]

theorem view_eq_some {ph : Phase} {r : Option ℕ} : s.view tid = some (ph, r) ↔
    ∃ t, s.threads tid = some t ∧ t.state.phase = ph ∧ t.joiningThread = r := by
  rw [view, Option.map_eq_some_iff]
  simp

theorem waitingJoiner_eq_some : s.waitingJoiner u = some tid ↔
    (∃ ph, s.view u = some (ph, some tid)) ∧ ∃ r, s.view tid = some (.joining, r) := by
  unfold waitingJoiner
  constructor
  · intro h
    obtain ⟨v, hv, h1⟩ := Option.bind_eq_some_iff.mp h
    obtain ⟨joiner, hjoiner, h2⟩ := Option.bind_eq_some_iff.mp h1
    obtain ⟨j, hj, h3⟩ := Option.bind_eq_some_iff.mp h2
    split_ifs at h3 with hstate
    cases h3
    exact ⟨⟨_, view_eq_some.mpr ⟨v, hv, rfl, hjoiner⟩⟩,
      _, view_eq_some.mpr ⟨j, hj, phase_eq_joining.mpr hstate, rfl⟩⟩
  · rintro ⟨⟨ph, hu⟩, r, ht⟩
    obtain ⟨v, hv, -, hjoiner⟩ := view_eq_some.mp hu
    obtain ⟨j, hj, hphase, -⟩ := view_eq_some.mp ht
    rw [hv, Option.bind_some, hjoiner, Option.bind_some, hj, Option.bind_some,
      if_pos (phase_eq_joining.mp hphase)]

/-! ## The invariant -/

/-- The thread is entered in the thread it joins, which has not ended or is about to wake it. -/
def Awaits (s : Sched) (tid : ℕ) : Prop :=
  ∃ u ph, (s.pc tid).joins = some u ∧ s.view u = some (ph, some tid) ∧
    (ph = .gone → u = s.activeThread ∧ s.pc u = .exitJoiner)

/-- What holds of joins between any two actions. Only the active thread is between the statements of a
join; a thread that went on after its join waits for one that has ended; a thread is entered in another
only if it joins that one, until it ends; and the main thread of a process is in its table. -/
structure JoinInv (s : Sched) : Prop where
  atSet : ∀ tid u, s.pc tid = .joinSet u → tid = s.activeThread ∧ ∃ r, s.view tid = some (.joining, r)
  awaited : ∀ tid r, s.view tid = some (.joining, r) → (∀ u, s.pc tid ≠ .joinSet u) → s.Awaits tid
  resumed : ∀ tid u r, s.view tid = some (.live, r) → (s.pc tid).joins = some u →
    u < s.lastGivenTid ∧ ∀ ph r', s.view u = some (ph, r') → ph = .gone
  recorded : ∀ u ph tid, s.view u = some (ph, some tid) → tid < s.lastGivenTid ∧
    ∀ ph' r, s.view tid = some (ph', r) → ph' ≠ .gone → (s.pc tid).joins = some u
  exiting : ∀ tid ph r, s.pc tid = .exitJoiner → s.view tid = some (ph, r) → ph = .gone
  copying : ∀ tid r, s.view tid ≠ some (.copying, r)
  given : ∀ tid, s.view tid ≠ none → tid < s.lastGivenTid
  main : ∀ pid p, s.processes pid = some p → p.mainThread < s.lastGivenTid ∧
    (s.view p.mainThread ≠ none → p.mainThread ∈ p.threads)

theorem JoinInv.mainKept (h : JoinInv s) (hp : ProcessesKept s s')
    (hgiven : s.lastGivenTid ≤ s'.lastGivenTid)
    (hview : ∀ tid, tid < s.lastGivenTid → s'.view tid ≠ none → s.view tid ≠ none) :
    ∀ pid p, s'.processes pid = some p → p.mainThread < s'.lastGivenTid ∧
      (s'.view p.mainThread ≠ none → p.mainThread ∈ p.threads) := by
  intro pid p' hp'
  obtain ⟨p, hpid, hmain, hthreads⟩ := hp pid p' hp'
  obtain ⟨hlt, hmem⟩ := h.main pid p hpid
  rw [hmain]
  exact ⟨hlt.trans_le hgiven, fun hv => hthreads _ (hmem (hview _ hlt hv)) hv⟩

theorem JoinInv.congr (h : JoinInv s) (hs : Unseen s s') (hactive : s'.activeThread = s.activeThread) :
    JoinInv s' := by
  obtain ⟨hview, hpc, hgiven, hprocesses⟩ := hs
  refine ⟨?_, ?_, fun tid u r htid hu => ?_, fun u ph tid hu => ?_, ?_, ?_, fun tid htid => ?_,
    h.mainKept hprocesses hgiven fun tid _ => by rw [hview]; exact id⟩
  · rw [hview, hpc, hactive]
    exact h.atSet
  · unfold Awaits
    rw [hview, hpc, hactive]
    exact h.awaited
  · rw [hview] at htid ⊢
    rw [hpc] at hu
    exact (h.resumed tid u r htid hu).imp_left fun hlt => hlt.trans_le hgiven
  · rw [hview] at hu ⊢
    rw [hpc]
    exact (h.recorded u ph tid hu).imp_left fun hlt => hlt.trans_le hgiven
  · rw [hview, hpc]
    exact h.exiting
  · rw [hview]
    exact h.copying
  · rw [hview] at htid
    exact (h.given tid htid).trans_le hgiven

/-- An election keeps the invariant unless it comes in a join or an exit. -/
theorem JoinInv.selectThread {currentTime : ℕ} (h : JoinInv s) (hinv : Inv s)
    (hset : ∀ u, s.pc s.activeThread ≠ .joinSet u)
    (hexit : s.pc s.activeThread = .exitJoiner → s.waitingJoiner s.activeThread = none)
    (hselect : s.selectThread currentTime = some s') :
    JoinInv s' ∧ ∃ r, s'.view s'.activeThread = some (.live, r) := by
  obtain ⟨hview, hpc, hgiven, hprocesses⟩ := unseen_selectThread hinv hselect
  obtain ⟨-, t, ht, hrun⟩ := hinv.selectThread hselect
  refine ⟨⟨fun tid u hu => ?_, fun tid r htid hne => ?_, fun tid u r htid hu => ?_,
    fun u ph tid hu => ?_, ?_, ?_, fun tid htid => ?_,
    h.mainKept hprocesses hgiven fun tid _ => by rw [hview]; exact id⟩, t.joiningThread, ?_⟩
  · rw [hpc] at hu
    obtain ⟨rfl, -⟩ := h.atSet tid u hu
    exact absurd hu (hset u)
  · rw [hview] at htid
    rw [hpc] at hne
    obtain ⟨u, ph, hjoins, hu, hgone⟩ := h.awaited tid r htid hne
    refine ⟨u, ph, by rw [hpc]; exact hjoins, by rw [hview]; exact hu, fun hph => ?_⟩
    obtain ⟨rfl, hpcu⟩ := hgone hph
    have hnone := hexit hpcu
    rw [waitingJoiner_eq_some.mpr ⟨⟨ph, hu⟩, r, htid⟩] at hnone
    cases hnone
  · rw [hview] at htid ⊢
    rw [hpc] at hu
    exact (h.resumed tid u r htid hu).imp_left fun hlt => hlt.trans_le hgiven
  · rw [hview] at hu ⊢
    rw [hpc]
    exact (h.recorded u ph tid hu).imp_left fun hlt => hlt.trans_le hgiven
  · rw [hview, hpc]
    exact h.exiting
  · rw [hview]
    exact h.copying
  · rw [hview] at htid
    exact (h.given tid htid).trans_le hgiven
  · rw [view_of_threads ht, hrun]
    rfl

/-! ## Moves of the active thread -/

/-- The thread leaves a point outside of any join and exit for another one, or goes on inside its join,
or is through with it: the thread it joined is freed. -/
theorem JoinInv.setPc (h : JoinInv s) {pc : SchedPc} (hset : ∀ u, s.pc s.activeThread ≠ .joinSet u)
    (hexit : s.pc s.activeThread ≠ .exitJoiner) (hset' : ∀ u, pc ≠ .joinSet u) (hexit' : pc ≠ .exitJoiner)
    (hjoins : pc.joins = (s.pc s.activeThread).joins ∨ pc.joins = none ∧
      (∃ r, s.view s.activeThread = some (.live, r)) ∧
        ∀ u, (s.pc s.activeThread).joins = some u → s.view u = none) : JoinInv (s.setPc pc) := by
  have hother : ∀ tid, tid ≠ s.activeThread → (s.setPc pc).pc tid = s.pc tid := fun tid htid =>
    Function.update_of_ne htid ..
  have hself : (s.setPc pc).pc s.activeThread = pc := Function.update_self ..
  -- a thread that is joined by the active one is freed if the active one is through with its join
  have hsame : ∀ tid u, (s.pc tid).joins = some u → s.view u ≠ none →
      ((s.setPc pc).pc tid).joins = some u := by
    intro tid u hu hview
    by_cases htid : tid = s.activeThread
    · subst htid
      rw [hself]
      rcases hjoins with hj | ⟨-, -, hfree⟩
      · exact hj.trans hu
      · exact absurd (hfree u hu) hview
    · rw [hother tid htid]
      exact hu
  have hback : ∀ tid u, ((s.setPc pc).pc tid).joins = some u → (s.pc tid).joins = some u := by
    intro tid u hu
    by_cases htid : tid = s.activeThread
    · subst htid
      rw [hself] at hu
      rcases hjoins with hj | ⟨hj, -⟩
      · exact hj ▸ hu
      · rw [hj] at hu
        cases hu
    · rwa [hother tid htid] at hu
  refine ⟨fun tid u hu => ?_, fun tid r htid hne => ?_, fun tid u r htid hu => ?_,
    fun u ph tid hu => ⟨(h.recorded u ph tid hu).1, fun ph' r htid hne => ?_⟩,
    fun tid ph r hpc htid => ?_, h.copying, h.given, h.main⟩
  · by_cases htid : tid = s.activeThread
    · rw [htid, hself] at hu
      exact absurd hu (hset' u)
    · rw [hother tid htid] at hu
      exact h.atSet tid u hu
  · have hne' : ∀ u, s.pc tid ≠ .joinSet u := by
      intro u hu
      obtain ⟨rfl, -⟩ := h.atSet tid u hu
      exact hset u hu
    obtain ⟨u, ph, hj, hu, hgone⟩ := h.awaited tid r htid hne'
    refine ⟨u, ph, hsame tid u hj fun hnone => ?_, hu, fun hph => ?_⟩
    · rw [hnone] at hu
      cases hu
    · obtain ⟨rfl, hpcu⟩ := hgone hph
      exact absurd hpcu hexit
  · exact h.resumed tid u r htid (hback tid u hu)
  · refine hsame tid u ((h.recorded u ph tid hu).2 ph' r htid hne) fun hnone => ?_
    change s.view u = _ at hu
    rw [hnone] at hu
    cases hu
  · by_cases hta : tid = s.activeThread
    · rw [hta, hself] at hpc
      exact absurd hpc hexit'
    · rw [hother tid hta] at hpc
      exact h.exiting tid ph r hpc htid

/-- Outside of a join and live, a thread is entered in no other one. -/
theorem JoinInv.not_recorded (h : JoinInv s) {r : Option ℕ} (htid : s.view tid = some (.live, r))
    (hjoins : (s.pc tid).joins = none) (u : ℕ) (ph : Phase) : s.view u ≠ some (ph, some tid) := by
  intro hu
  have hj := (h.recorded u ph tid hu).2 _ r htid nofun
  rw [hjoins] at hj
  cases hj

/-! ## Changes of phase -/

/-- The threads change their phases by `f` while the active one goes from a point outside of any join to
another one or to the store of a join. Who ends keeps nobody joining but the joiner it is about to wake,
and who stops joining has its thread ended. -/
theorem JoinInv.rephase (h : JoinInv s) (f : ℕ → Phase → Phase) (pc : SchedPc)
    (hview : ∀ u, s'.view u = (s.view u).map fun v => (f u v.1, v.2))
    (hpc : s'.pc = Function.update s.pc s.activeThread pc)
    (hactive : s'.activeThread = s.activeThread) (hgiven : s'.lastGivenTid = s.lastGivenTid)
    (hprocesses : ProcessesKept s s') (hfrom : (s.pc s.activeThread).joins = none)
    (hset : ∀ u, pc = .joinSet u → ∃ r, s'.view s.activeThread = some (.joining, r))
    (hto : pc.joins = none ∨ ∃ u, pc = .joinSet u)
    (hexit : pc = .exitJoiner → ∀ ph r, s'.view s.activeThread = some (ph, r) → ph = .gone)
    (hgone : ∀ u, f u .gone = .gone) (hcopying : ∀ u ph, f u ph = .copying → ph = .copying)
    (hjoining : ∀ u ph, f u ph = .joining → ph = .joining ∨ u = s.activeThread ∧ ∃ v, pc = .joinSet v)
    (hlive : ∀ u r, s.view u = some (.joining, r) → f u .joining = .live →
      ∃ v, s.waitingJoiner v = some u ∧ ∃ r', s'.view v = some (.gone, r'))
    (hends : ∀ u r, s'.view u = some (.gone, r) → ¬(u = s.activeThread ∧ pc = .exitJoiner) →
      ∀ tid, s.waitingJoiner u = some tid → f tid .joining ≠ .joining) : JoinInv s' := by
  have hself : s'.pc s.activeThread = pc := by rw [hpc, Function.update_self]
  have hother : ∀ tid, tid ≠ s.activeThread → s'.pc tid = s.pc tid := fun tid htid => by
    rw [hpc, Function.update_of_ne htid]
  have hback : ∀ {u ph r}, s'.view u = some (ph, r) → ∃ ph', s.view u = some (ph', r) ∧ f u ph' = ph := by
    intro u ph r hu
    rw [hview, Option.map_eq_some_iff] at hu
    obtain ⟨⟨ph', r'⟩, hu', he⟩ := hu
    rw [Prod.mk.injEq] at he
    exact ⟨ph', he.2 ▸ hu', he.1⟩
  -- the active thread waits for nobody before the step
  have hidle : ∀ r, s.view s.activeThread ≠ some (.joining, r) := by
    intro r hr
    obtain ⟨u, ph, hj, -⟩ := h.awaited _ r hr fun u hu => by
      rw [hu] at hfrom
      cases hfrom
    rw [hfrom] at hj
    cases hj
  refine ⟨fun tid u hu => ?_, fun tid r htid hne => ?_, fun tid u r htid hu => ?_,
    fun u ph tid hu => ?_, fun tid ph r hp htid => ?_, fun tid r htid => ?_, fun tid htid => ?_,
    h.mainKept hprocesses hgiven.ge fun tid _ htid => ?_⟩
  · rw [hactive]
    by_cases hta : tid = s.activeThread
    · subst hta
      rw [hself] at hu
      exact ⟨rfl, hset u hu⟩
    · rw [hother tid hta] at hu
      exact absurd (h.atSet tid u hu).1 hta
  · obtain ⟨ph, hv, hph⟩ := hback htid
    have hta : tid ≠ s.activeThread := by
      rintro rfl
      rcases hjoining _ ph hph with rfl | ⟨-, u, rfl⟩
      · exact hidle r hv
      · exact hne u hself
    obtain rfl : ph = .joining := (hjoining _ ph hph).resolve_right fun he => hta he.1
    rw [hother tid hta] at hne
    obtain ⟨u, phu, hj, hu, -⟩ := h.awaited tid r hv hne
    refine ⟨u, f u phu, by rw [hother tid hta]; exact hj, by rw [hview, hu]; rfl, fun hended => ?_⟩
    have hu' : s'.view u = some (.gone, some tid) := by
      rw [hview, hu, ← hended]
      rfl
    by_cases hlast : u = s.activeThread ∧ pc = .exitJoiner
    · rw [hactive, hlast.1, hself]
      exact ⟨rfl, hlast.2⟩
    · exact absurd hph (hends u _ hu' hlast tid (waitingJoiner_eq_some.mpr ⟨⟨phu, hu⟩, r, hv⟩))
  · obtain ⟨ph, hv, hph⟩ := hback htid
    rw [hgiven]
    have hta : tid ≠ s.activeThread := by
      rintro rfl
      rw [hself] at hu
      rcases hto with hnone | ⟨v, rfl⟩
      · rw [hnone] at hu
        cases hu
      · obtain ⟨r', hr'⟩ := hset v rfl
        rw [hr'] at htid
        cases htid
    rw [hother tid hta] at hu
    cases ph with
    | live =>
      obtain ⟨hlt, hend⟩ := h.resumed tid u r hv hu
      refine ⟨hlt, fun ph' r' hu' => ?_⟩
      obtain ⟨phu, hvu, hphu⟩ := hback hu'
      rw [hend phu r' hvu, hgone] at hphu
      exact hphu.symm
    | joining =>
      obtain ⟨v, hwait, r', hv'⟩ := hlive tid r hv hph
      obtain ⟨⟨phv, hrec⟩, -⟩ := waitingJoiner_eq_some.mp hwait
      have hj := (h.recorded v phv tid hrec).2 _ r hv nofun
      obtain rfl : v = u := Option.some.inj (hj.symm.trans hu)
      refine ⟨h.given v (by rw [hrec]; nofun), fun ph' r'' hu' => ?_⟩
      rw [hv'] at hu'
      cases hu'
      rfl
    | gone =>
      rw [hgone] at hph
      cases hph
    | copying => exact absurd hv (h.copying tid r)
  · obtain ⟨ph', hu', -⟩ := hback hu
    obtain ⟨hlt, hrec⟩ := h.recorded u ph' tid hu'
    refine ⟨hgiven ▸ hlt, fun ph'' r htid hne => ?_⟩
    obtain ⟨pht, hv, hph⟩ := hback htid
    have hj := hrec pht r hv fun he => hne (by rw [← hph, he, hgone])
    have hta : tid ≠ s.activeThread := by
      rintro rfl
      rw [hfrom] at hj
      cases hj
    rw [hother tid hta]
    exact hj
  · by_cases hta : tid = s.activeThread
    · subst hta
      rw [hself] at hp
      exact hexit hp ph r htid
    · rw [hother tid hta] at hp
      obtain ⟨ph', hv, hph⟩ := hback htid
      rw [h.exiting tid ph' r hp hv, hgone] at hph
      exact hph.symm
  · obtain ⟨ph, hv, hph⟩ := hback htid
    rw [hcopying tid ph hph] at hv
    exact h.copying tid r hv
  · rw [hgiven]
    refine h.given tid fun hnone => htid ?_
    rw [hview, hnone]
    rfl
  · intro hnone
    rw [hview, hnone] at htid
    exact htid rfl

/-! ## Other moves -/

/-- The active thread is entered in the thread it joins. -/
theorem JoinInv.enter (h : JoinInv s) {target : ℕ} {pc : SchedPc} {ph : Phase} {r : Option ℕ}
    (hset : s.pc s.activeThread = .joinSet target) (htarget : s.view target = some (ph, r))
    (hph : ph ≠ .gone) (hnone : s.waitingJoiner target = none)
    (hview : s'.view = Function.update s.view target (some (ph, some s.activeThread)))
    (hpc : s'.pc = Function.update s.pc s.activeThread pc) (hjoins : pc.joins = some target)
    (hset' : ∀ u, pc ≠ .joinSet u) (hexit' : pc ≠ .exitJoiner)
    (hgiven : s'.lastGivenTid = s.lastGivenTid) (hprocesses : s'.processes = s.processes) :
    JoinInv s' := by
  obtain ⟨-, ra, hjoining⟩ := h.atSet _ target hset
  have hfrom : (s.pc s.activeThread).joins = some target := by rw [hset]; rfl
  have hself : s'.pc s.activeThread = pc := by rw [hpc, Function.update_self]
  have hother : ∀ tid, tid ≠ s.activeThread → s'.pc tid = s.pc tid := fun tid htid => by
    rw [hpc, Function.update_of_ne htid]
  have hsame : ∀ tid, (s'.pc tid).joins = (s.pc tid).joins := by
    intro tid
    by_cases hta : tid = s.activeThread
    · rw [hta, hself, hjoins, hfrom]
    · rw [hother tid hta]
  have hvtarget : s'.view target = some (ph, some s.activeThread) := by rw [hview, Function.update_self]
  have hvother : ∀ u, u ≠ target → s'.view u = s.view u := fun u hu => by
    rw [hview, Function.update_of_ne hu]
  have hback : ∀ {tid ph' r'}, s'.view tid = some (ph', r') → ∃ r'', s.view tid = some (ph', r'') := by
    intro tid ph' r' htid
    by_cases hu : tid = target
    · subst hu
      rw [hvtarget] at htid
      cases htid
      exact ⟨r, htarget⟩
    · rw [hvother tid hu] at htid
      exact ⟨r', htid⟩
  refine ⟨fun tid u hu => ?_, fun tid r' htid hne => ?_, fun tid u r' htid hu => ?_,
    fun u ph' tid hu => ?_, fun tid ph' r' hp htid => ?_, fun tid r' htid => ?_, fun tid htid => ?_,
    h.mainKept (processesKept_of_eq hprocesses) hgiven.ge fun tid _ htid => ?_⟩
  · by_cases hta : tid = s.activeThread
    · rw [hta, hself] at hu
      exact absurd hu (hset' u)
    · rw [hother tid hta] at hu
      exact absurd (h.atSet tid u hu).1 hta
  · by_cases hta : tid = s.activeThread
    · subst hta
      exact ⟨target, ph, (hsame _).trans hfrom, hvtarget, fun he => absurd he hph⟩
    · obtain ⟨r'', hv⟩ := hback htid
      obtain ⟨u, phu, hj, hu, hgone⟩ := h.awaited tid r'' hv fun u hu => hta (h.atSet tid u hu).1
      have hut : u ≠ target := by
        rintro rfl
        rw [waitingJoiner_eq_some.mpr ⟨⟨phu, hu⟩, r'', hv⟩] at hnone
        cases hnone
      refine ⟨u, phu, (hsame tid).trans hj, by rw [hvother u hut]; exact hu, fun hended => ?_⟩
      obtain ⟨rfl, hpcu⟩ := hgone hended
      rw [hset] at hpcu
      cases hpcu
  · obtain ⟨r'', hv⟩ := hback htid
    rw [hsame] at hu
    obtain ⟨hlt, hend⟩ := h.resumed tid u r'' hv hu
    refine ⟨hgiven ▸ hlt, fun ph' ru hu' => ?_⟩
    obtain ⟨ru', hu''⟩ := hback hu'
    exact hend ph' ru' hu''
  · rw [hgiven]
    by_cases hut : u = target
    · subst hut
      rw [hvtarget] at hu
      cases hu
      exact ⟨h.given _ (by rw [hjoining]; nofun), fun _ _ _ _ => (hsame _).trans hfrom⟩
    · rw [hvother u hut] at hu
      obtain ⟨hlt, hrec⟩ := h.recorded u ph' tid hu
      refine ⟨hlt, fun ph'' r' htid hne => ?_⟩
      obtain ⟨r'', hv⟩ := hback htid
      exact (hsame tid).trans (hrec ph'' r'' hv hne)
  · by_cases hta : tid = s.activeThread
    · rw [hta, hself] at hp
      exact absurd hp hexit'
    · rw [hother tid hta] at hp
      obtain ⟨r'', hv⟩ := hback htid
      exact h.exiting tid ph' r'' hp hv
  · obtain ⟨r'', hv⟩ := hback htid
    exact h.copying tid r'' hv
  · rw [hgiven]
    obtain ⟨v, hv⟩ := Option.ne_none_iff_exists'.mp htid
    obtain ⟨r'', hv'⟩ := @hback tid v.1 v.2 hv
    exact h.given tid (by rw [hv']; nofun)
  · obtain ⟨v, hv⟩ := Option.ne_none_iff_exists'.mp htid
    obtain ⟨r'', hv'⟩ := @hback tid v.1 v.2 hv
    rw [hv']
    nofun

/-- Threads are freed, and with them the threads that join them. -/
theorem JoinInv.remove (h : JoinInv s) (freed : List ℕ)
    (hview : ∀ u, s'.view u = if u ∈ freed then none else s.view u) (hpc : s'.pc = s.pc)
    (hactive : s'.activeThread = s.activeThread) (hgiven : s'.lastGivenTid = s.lastGivenTid)
    (hprocesses : ProcessesKept s s') (hmem : s.activeThread ∉ freed)
    (hfree : ∀ u ∈ freed, ∀ joiner, s.waitingJoiner u = some joiner → joiner ∈ freed) : JoinInv s' := by
  have hback : ∀ {u v}, s'.view u = some v → u ∉ freed ∧ s.view u = some v := by
    intro u v hu
    rw [hview] at hu
    split_ifs at hu with hmem
    exact ⟨hmem, hu⟩
  refine ⟨fun tid u hu => ?_, fun tid r htid hne => ?_, fun tid u r htid hu => ?_,
    fun u ph tid hu => ?_, fun tid ph r hp htid => ?_, fun tid r htid => ?_, fun tid htid => ?_,
    h.mainKept hprocesses hgiven.ge fun tid _ htid => ?_⟩
  · rw [hpc] at hu
    obtain ⟨rfl, r, hr⟩ := h.atSet tid u hu
    exact ⟨hactive.symm, r, by rw [hview, if_neg hmem, hr]⟩
  · obtain ⟨hnot, hv⟩ := hback htid
    rw [hpc] at hne
    obtain ⟨u, ph, hj, hu, hgone⟩ := h.awaited tid r hv hne
    have hu' : u ∉ freed := fun hmem =>
      hnot (hfree u hmem tid (waitingJoiner_eq_some.mpr ⟨⟨ph, hu⟩, r, hv⟩))
    refine ⟨u, ph, by rw [hpc]; exact hj, by rw [hview, if_neg hu', hu], ?_⟩
    rw [hactive, hpc]
    exact hgone
  · rw [hpc] at hu
    obtain ⟨hlt, hend⟩ := h.resumed tid u r (hback htid).2 hu
    exact ⟨hgiven ▸ hlt, fun ph r' hu' => hend ph r' (hback hu').2⟩
  · obtain ⟨hlt, hrec⟩ := h.recorded u ph tid (hback hu).2
    rw [hpc]
    exact ⟨hgiven ▸ hlt, fun ph' r htid hne => hrec ph' r (hback htid).2 hne⟩
  · rw [hpc] at hp
    exact h.exiting tid ph r hp (hback htid).2
  · exact h.copying tid r (hback htid).2
  · obtain ⟨v, hv⟩ := Option.ne_none_iff_exists'.mp htid
    rw [hgiven]
    exact h.given tid (by rw [(hback hv).2]; nofun)
  · obtain ⟨v, hv⟩ := Option.ne_none_iff_exists'.mp htid
    rw [(hback hv).2]
    nofun

/-- A thread is created, in a process that is there or as the main thread of a new one. -/
theorem JoinInv.create (h : JoinInv s)
    (hview : s'.view = Function.update s.view s.lastGivenTid (some (.live, none)))
    (hpc : s'.pc = Function.update s.pc s.lastGivenTid .user)
    (hactive : s'.activeThread = s.activeThread)
    (hgiven : s'.lastGivenTid = s.lastGivenTid + 1)
    (hprocesses : ∀ pid p', s'.processes pid = some p' →
      (p'.mainThread = s.lastGivenTid ∧ s.lastGivenTid ∈ p'.threads) ∨
        ∃ p, s.processes pid = some p ∧ p'.mainThread = p.mainThread ∧ p.threads ⊆ p'.threads) :
    JoinInv s' := by
  have hnew : s.view s.lastGivenTid = none := by
    by_contra hne
    exact absurd (h.given _ hne) (lt_irrefl _)
  have hself : s'.view s.lastGivenTid = some (.live, none) := by rw [hview, Function.update_self]
  have hpself : s'.pc s.lastGivenTid = .user := by rw [hpc, Function.update_self]
  have hother : ∀ u, u ≠ s.lastGivenTid → s'.view u = s.view u ∧ s'.pc u = s.pc u := fun u hu => by
    rw [hview, hpc, Function.update_of_ne hu, Function.update_of_ne hu]
    exact ⟨rfl, rfl⟩
  have hold : ∀ {u}, u < s.lastGivenTid → s'.view u = s.view u ∧ s'.pc u = s.pc u := fun hu =>
    hother _ hu.ne
  have hlt : ∀ {u v}, s.view u = some v → u < s.lastGivenTid := fun hu => h.given _ (by rw [hu]; nofun)
  refine ⟨fun tid u hu => ?_, fun tid r htid hne => ?_, fun tid u r htid hu => ?_,
    fun u ph tid hu => ?_, fun tid ph r hp htid => ?_, fun tid r htid => ?_, fun tid htid => ?_,
    fun pid p' hp' => ?_⟩
  · by_cases htn : tid = s.lastGivenTid
    · rw [htn, hpself] at hu
      cases hu
    · rw [(hother tid htn).2] at hu
      rw [hactive, (hother tid htn).1]
      exact h.atSet tid u hu
  · by_cases htn : tid = s.lastGivenTid
    · rw [htn, hself] at htid
      cases htid
    · rw [(hother tid htn).1] at htid
      rw [(hother tid htn).2] at hne
      obtain ⟨u, ph, hj, hu, hgone⟩ := h.awaited tid r htid hne
      refine ⟨u, ph, by rw [(hother tid htn).2]; exact hj, by rw [(hold (hlt hu)).1]; exact hu, ?_⟩
      rw [hactive, (hold (hlt hu)).2]
      exact hgone
  · by_cases htn : tid = s.lastGivenTid
    · rw [htn, hpself] at hu
      cases hu
    · rw [(hother tid htn).1] at htid
      rw [(hother tid htn).2] at hu
      obtain ⟨hult, hend⟩ := h.resumed tid u r htid hu
      rw [(hold hult).1, hgiven]
      exact ⟨hult.trans (Nat.lt_succ_self _), hend⟩
  · by_cases hun : u = s.lastGivenTid
    · rw [hun, hself] at hu
      cases hu
    · rw [(hother u hun).1] at hu
      obtain ⟨htlt, hrec⟩ := h.recorded u ph tid hu
      rw [(hold htlt).1, (hold htlt).2, hgiven]
      exact ⟨htlt.trans (Nat.lt_succ_self _), hrec⟩
  · by_cases htn : tid = s.lastGivenTid
    · rw [htn, hpself] at hp
      cases hp
    · rw [(hother tid htn).1] at htid
      rw [(hother tid htn).2] at hp
      exact h.exiting tid ph r hp htid
  · by_cases htn : tid = s.lastGivenTid
    · rw [htn, hself] at htid
      cases htid
    · rw [(hother tid htn).1] at htid
      exact h.copying tid r htid
  · rw [hgiven]
    by_cases htn : tid = s.lastGivenTid
    · exact htn ▸ Nat.lt_succ_self _
    · rw [(hother tid htn).1] at htid
      exact (h.given tid htid).trans (Nat.lt_succ_self _)
  · rw [hgiven]
    rcases hprocesses pid p' hp' with ⟨hmain, hmem⟩ | ⟨p, hp, hmain, hsub⟩
    · rw [hmain]
      exact ⟨Nat.lt_succ_self _, fun _ => hmem⟩
    · obtain ⟨hmlt, hmem⟩ := h.main pid p hp
      rw [hmain, (hold hmlt).1]
      exact ⟨hmlt.trans (Nat.lt_succ_self _), fun hv => hsub (hmem hv)⟩

end Sched

end UtkKernel.Scheduler
