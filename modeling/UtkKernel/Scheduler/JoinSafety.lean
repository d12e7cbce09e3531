import UtkKernel.Scheduler.Joins

/-! # Joiners are woken

Every call keeps the invariant of joining, as long as the joins and exits are in time, and so does every
run. -/

namespace UtkKernel.Scheduler
open Structures Sync Foundations
set_option autoImplicit false

namespace Sched

variable {s s' : Sched} {a tid u : ℕ} {t : KernelThread}

/-! ## Cleaning -/

/-- Threads are freed, and nothing else that joining sees changes. -/
structure Cleaned (s s' : Sched) (freed : List ℕ) : Prop where
  view : ∀ u, s'.view u = if u ∈ freed then none else s.view u
  pc : s'.pc = s.pc
  active : s'.activeThread = s.activeThread
  given : s'.lastGivenTid = s.lastGivenTid
  processes : ProcessesKept s s'
  activeNotMem : s.activeThread ∉ freed

theorem Cleaned.trans {s1 : Sched} {l l' : List ℕ} (h : Cleaned s s1 l) (h' : Cleaned s1 s' l') :
    Cleaned s s' (l ++ l') := by
  refine ⟨fun u => ?_, h'.pc.trans h.pc, h'.active.trans h.active, h'.given.trans h.given,
    fun pid p' hp' => ?_, ?_⟩
  · rw [h'.view, h.view]
    by_cases hu : u ∈ l <;> by_cases hu' : u ∈ l' <;> simp [hu, hu']
  · obtain ⟨p1, hp1, hmain1, hthreads1⟩ := h'.processes pid p' hp'
    obtain ⟨p, hp, hmain, hthreads⟩ := h.processes pid p1 hp1
    refine ⟨p, hp, hmain1.trans hmain, fun u hu hview => hthreads1 u (hthreads u hu ?_) hview⟩
    rw [h'.view] at hview
    split_ifs at hview
    · exact absurd rfl hview
    · exact hview
  · rw [List.mem_append, not_or]
    refine ⟨h.activeNotMem, ?_⟩
    rw [← h.active]
    exact h'.activeNotMem

theorem schedCleanThread_cleaned (h : s.schedCleanThread tid = some s') : Cleaned s s' [tid] := by
  unfold schedCleanThread at h
  obtain ⟨t, ht, h1⟩ := Option.bind_eq_some_iff.mp h
  obtain ⟨b, -, h2⟩ := Option.bind_eq_some_iff.mp h1
  split_ifs at h2 with hcond
  obtain ⟨s1, hres, h3⟩ := Option.bind_eq_some_iff.mp h2
  obtain ⟨table, rfl⟩ := futexCleanup_foldlM_frame hres
  obtain ⟨p, hp, h4⟩ := Option.bind_eq_some_iff.mp h3
  split_ifs at h4
  cases h4
  have hview : ∀ u, Sched.view { s.setProcess t.process { p with threads := p.threads.erase tid } with
      activeThreadsTable := Function.update s.activeThreadsTable t.priority
        ((s.activeThreadsTable t.priority).erase tid)
      futexTable := table
      threads := Function.update s.threads tid none } u =
        if u ∈ [tid] then none else s.view u := by
    intro u
    rw [view_update rfl, Function.update_apply]
    simp
  refine ⟨hview, rfl, rfl, rfl, fun pid p' hp' => ?_, ?_⟩
  · change Function.update s.processes t.process (some _) pid = some p' at hp'
    rw [Function.update_apply] at hp'
    split_ifs at hp' with hpid
    · cases hp'
      refine ⟨p, hpid ▸ hp, rfl, fun u hu hne => ?_⟩
      have hut : u ≠ tid := by
        rintro rfl
        exact hne ((hview u).trans (by simp))
      exact (List.mem_erase_of_ne hut).mpr hu
    · exact ⟨p', hp', rfl, fun _ hu _ => hu⟩
  · rw [List.mem_singleton]
    exact fun he => hcond (.inl he.symm)

theorem cleanThreads_cleaned {l : List ℕ} (h : l.foldlM schedCleanThread s = some s') :
    Cleaned s s' l := by
  induction l generalizing s with
  | nil =>
    cases h
    exact ⟨fun u => by simp, rfl, rfl, rfl, processesKept_of_eq rfl, List.not_mem_nil⟩
  | cons u l ih =>
    rw [List.foldlM_cons] at h
    obtain ⟨s1, hs1, hrest⟩ := Option.bind_eq_some_iff.mp h
    exact (schedCleanThread_cleaned hs1).trans (ih hrest)

theorem Cleaned.joinInv {freed : List ℕ} (hc : Cleaned s s' freed) (h : JoinInv s)
    (hfree : ∀ u ∈ freed, ∀ joiner, s.waitingJoiner u = some joiner → joiner ∈ freed) : JoinInv s' :=
  h.remove freed hc.view hc.pc hc.active hc.given hc.processes hc.activeNotMem hfree

/-- A thread that has ended and is not about to wake its joiner has none. -/
theorem JoinInv.waitingJoiner_of_gone (h : JoinInv s) {r : Option ℕ} (hu : s.view u = some (.gone, r))
    (hne : u = s.activeThread → s.pc u ≠ .exitJoiner) (hset : ∀ v, s.pc s.activeThread ≠ .joinSet v) :
    s.waitingJoiner u = none := by
  cases hwait : s.waitingJoiner u with
  | none => rfl
  | some tid =>
    obtain ⟨⟨ph, hrec⟩, r', htid⟩ := waitingJoiner_eq_some.mp hwait
    obtain ⟨v, phv, hj, hv, hgone⟩ := h.awaited tid r' htid fun w hw => by
      obtain ⟨rfl, -⟩ := h.atSet tid w hw
      exact hset w hw
    have hj' := (h.recorded u ph tid hrec).2 _ r' htid nofun
    obtain rfl : u = v := Option.some.inj (hj'.symm.trans hj)
    rw [hu] at hv
    cases hv
    exact absurd (hgone rfl).2 (hne (hgone rfl).1)

/-- A thread that has ended is cleaned, and the active thread goes on outside of a join. -/
theorem JoinInv.joinClean (h : JoinInv s) {target : ℕ} (next : SchedPc) {r : Option ℕ}
    (htarget : s.view target = some (.gone, r)) (hset : ∀ u, s.pc s.activeThread ≠ .joinSet u)
    (hexit : s.pc s.activeThread ≠ .exitJoiner) (hnext : next.joins = none) (hexit' : next ≠ .exitJoiner)
    (hjoins : (s.pc s.activeThread).joins = none ∨
      (s.pc s.activeThread).joins = some target ∧ ∃ r, s.view s.activeThread = some (.live, r))
    (hclean : s.joinClean target next = some s') : JoinInv s' := by
  obtain ⟨s1, hs1, rfl⟩ := Option.map_eq_some_iff.mp hclean
  have hc := schedCleanThread_cleaned hs1
  have hne : target ≠ s.activeThread := fun he => hc.activeNotMem (List.mem_singleton.mpr he.symm)
  have hnone := h.waitingJoiner_of_gone htarget (fun he => absurd he hne) hset
  have h1 : JoinInv s1 := by
    refine hc.joinInv h fun u hu joiner hjoiner => ?_
    rw [List.mem_singleton.mp hu, hnone] at hjoiner
    cases hjoiner
  have hpc : s1.pc s1.activeThread = s.pc s.activeThread := by rw [hc.pc, hc.active]
  refine h1.setPc (by rw [hpc]; exact hset) (by rw [hpc]; exact hexit) (fun u hu => ?_) hexit' ?_
  · rw [hu] at hnext
    cases hnext
  · rw [hpc]
    rcases hjoins with hj | ⟨hj, r', hlive⟩
    · exact .inl (hnext.trans hj.symm)
    · refine .inr ⟨hnext, ⟨r', ?_⟩, fun u hu => ?_⟩
      · rw [hc.view, hc.active, if_neg fun hmem => hne (List.mem_singleton.mp hmem).symm]
        exact hlive
      · rw [hj] at hu
        cases hu
        rw [hc.view, if_pos (List.mem_singleton_self _)]

theorem reparent_unseen {pid : ℕ} (h : s.reparent pid = some s') :
    Unseen s s' ∧ s'.activeThread = s.activeThread := by
  unfold reparent at h
  obtain ⟨p, -, hloop⟩ := Option.bind_eq_some_iff.mp h
  refine foldlM_invariant (fun s1 => Unseen s s1 ∧ s1.activeThread = s.activeThread)
    (fun s1 child s2 hs1 hstep => ?_) ⟨.refl s, rfl⟩ hloop
  obtain ⟨c, hc, hmap⟩ := Option.bind_eq_some_iff.mp hstep
  obtain ⟨m, hm, rfl⟩ := Option.map_eq_some_iff.mp hmap
  refine ⟨hs1.1.trans ⟨rfl, rfl, le_rfl, fun pid' p' hp' => ?_⟩, hs1.2⟩
  change Function.update (Function.update s1.processes child _) mainKprocess _ pid' = some p' at hp'
  rw [Function.update_apply, Function.update_apply] at hp'
  split_ifs at hp' with hmain hchild
  · cases hp'
    exact ⟨m, hmain ▸ hm, rfl, fun _ hu _ => hu⟩
  · cases hp'
    exact ⟨c, hchild ▸ hc, rfl, fun _ hu _ => hu⟩
  · exact ⟨p', hp', rfl, fun _ hu _ => hu⟩

theorem JoinInv.schedCleanProcess (h : JoinInv s) {pid : ℕ}
    (hwithin : ∀ p ∈ s.processes pid, s.JoinedWithin p.threads fun _ => false)
    (hclean : s.schedCleanProcess pid = some s') :
    JoinInv s' ∧ s'.pc = s.pc ∧ s'.activeThread = s.activeThread ∧
      s'.view s.activeThread = s.view s.activeThread := by
  unfold Sched.schedCleanProcess at hclean
  obtain ⟨p, hp, h1⟩ := Option.bind_eq_some_iff.mp hclean
  obtain ⟨s1, hloop, h2⟩ := Option.bind_eq_some_iff.mp h1
  obtain ⟨s2, hrep, rfl⟩ := Option.map_eq_some_iff.mp h2
  have hc := cleanThreads_cleaned hloop
  obtain ⟨hunseen, hactive⟩ := reparent_unseen hrep
  have hs1 : JoinInv s1 := hc.joinInv h fun u hu joiner hjoiner => hwithin p hp u hu rfl joiner hjoiner
  have hfinal : Unseen s2 { s2 with processes := Function.update s2.processes pid none } := by
    refine ⟨rfl, rfl, le_rfl, fun pid' p' hp' => ?_⟩
    change Function.update s2.processes pid none pid' = some p' at hp'
    rw [Function.update_apply] at hp'
    split_ifs at hp'
    exact ⟨p', hp', rfl, fun _ hu _ => hu⟩
  refine ⟨hs1.congr (hunseen.trans hfinal) hactive, hunseen.pc.trans hc.pc, hactive.trans hc.active, ?_⟩
  change s2.view s.activeThread = _
  rw [hunseen.view, hc.view, if_neg hc.activeNotMem]

/-! ## Exit -/

theorem wakeJoiner_cases {joined : ℕ} {v : KernelThread} (hv : s.threads joined = some v)
    (h : s.wakeJoiner v = some s') : s.waitingJoiner joined = none ∧ s' = s ∨
      ∃ joiner j, s.waitingJoiner joined = some joiner ∧ s.threads joiner = some j ∧
        s.pushReady joiner j = some s' := by
  unfold waitingJoiner
  rw [hv, Option.bind_some]
  unfold Sched.wakeJoiner at h
  split at h
  · rename_i hj
    cases h
    exact .inl ⟨by rw [hj]; rfl, rfl⟩
  · rename_i joiner hj
    obtain ⟨j, hjoiner, hbody⟩ := Option.bind_eq_some_iff.mp h
    rw [hj, Option.bind_some, hjoiner, Option.bind_some]
    split_ifs at hbody with hstate
    · exact .inr ⟨joiner, j, if_pos hstate, hjoiner, hbody⟩
    · cases hbody
      exact .inl ⟨if_neg hstate, rfl⟩

/-- The joiner of a thread is woken, if it joins. -/
theorem wakeJoiner_view {joined : ℕ} {v : KernelThread} (hv : s.threads joined = some v)
    (h : s.wakeJoiner v = some s') :
    (∀ u, s'.view u = if s.waitingJoiner joined = some u then
      (s.view u).map fun w => (.live, w.2) else s.view u) ∧
        s'.pc = s.pc ∧ s'.activeThread = s.activeThread ∧ s'.lastGivenTid = s.lastGivenTid ∧
          s'.processes = s.processes := by
  obtain ⟨hwait, rfl⟩ | ⟨joiner, j, hwait, hj, hpush⟩ := wakeJoiner_cases hv h
  · rw [hwait]
    exact ⟨fun u => (if_neg nofun).symm, rfl, rfl, rfl, rfl⟩
  · obtain ⟨-, rfl⟩ := pushReady_eq_some hpush
    refine ⟨fun u => ?_, rfl, rfl, rfl, rfl⟩
    rw [hwait, view_update rfl, Function.update_apply]
    by_cases hu : u = joiner
    · rw [if_pos hu, if_pos (congrArg some hu.symm), hu, view_of_threads hj]
      rfl
    · rw [if_neg hu, if_neg fun he => hu (Option.some.inj he).symm]

/-- The critical section of an exit. -/
theorem JoinInv.threadExitJoiner (h : JoinInv s) (ht : s.threads s.activeThread = some t)
    (hpc : s.pc s.activeThread = .exitJoiner) (hexit : s.threadExitJoiner t = some s') :
    JoinInv s' ∧ s'.pc s'.activeThread = .yield ∧
      s'.view s'.activeThread = some (.gone, t.joiningThread) := by
  obtain ⟨s1, hwake, hdel⟩ := Option.bind_eq_some_iff.mp hexit
  unfold deleteActiveNode at hdel
  split_ifs at hdel
  cases hdel
  obtain ⟨hview, hpc1, hactive1, hgiven1, hprocesses1⟩ := wakeJoiner_view ht hwake
  have hgone : s.view s.activeThread = some (.gone, t.joiningThread) := by
    have hv := view_of_threads ht
    rw [h.exiting _ _ _ hpc hv] at hv
    exact hv
  have hjoiner : ∀ u, s.waitingJoiner s.activeThread = some u → ∃ r, s.view u = some (.joining, r) :=
    fun u hu => (waitingJoiner_eq_some.mp hu).2
  have hself : s1.view s.activeThread = s.view s.activeThread := by
    rw [hview]
    split_ifs with hw
    · obtain ⟨r, hr⟩ := hjoiner _ hw
      rw [hgone] at hr
      cases hr
    · rfl
  refine ⟨h.rephase (fun u ph => if ph = .joining ∧ s.waitingJoiner s.activeThread = some u then .live
    else ph) .yield (fun u => ?_) ?_ hactive1 hgiven1 (processesKept_of_eq hprocesses1) (by rw [hpc]; rfl) nofun
    (.inl rfl) nofun (fun u => rfl) (fun u ph hcopy => ?_) (fun u ph hph => ?_) (fun u r hu hph => ?_)
    fun u r hu _ tid hwait => ?_, Function.update_self .., ?_⟩
  · refine (hview u).trans ?_
    by_cases hw : s.waitingJoiner s.activeThread = some u
    · obtain ⟨r, hr⟩ := hjoiner u hw
      rw [if_pos hw, hr]
      simp [hw]
    · rw [if_neg hw]
      simp [hw]
  · exact congrArg₂ (fun pc a => Function.update pc a SchedPc.yield) hpc1 hactive1
  · split_ifs at hcopy
    exact hcopy
  · split_ifs at hph
    exact .inl hph
  · simp only [true_and] at hph
    split_ifs at hph with hw
    exact ⟨s.activeThread, hw, t.joiningThread, hself.trans hgone⟩
  · simp only [true_and]
    split_ifs with hw
    · nofun
    · -- somebody else has ended, with a joiner entered in it
      intro _
      have hne : u ≠ s.activeThread := fun he => hw (he ▸ hwait)
      have hgoneu : s.view u = some (.gone, r) := by
        change s1.view u = _ at hu
        rw [hview] at hu
        split_ifs at hu with hwu
        · rw [Option.map_eq_some_iff] at hu
          obtain ⟨w, -, hw'⟩ := hu
          cases hw'
        · exact hu
      have hnone := h.waitingJoiner_of_gone hgoneu (fun he => absurd he hne) fun v hv => by
        rw [hpc] at hv
        cases hv
      rw [hnone] at hwait
      cases hwait
  · change s1.view s1.activeThread = _
    rw [hactive1, hself, hgone]

/-- The threads of a process that exits are stopped. -/
theorem stopThreads_view {l : List ℕ} (h : l.foldlM stopThread s = some s') :
    (∀ u, s'.view u = if u ∈ l then (s.view u).map fun w => (.gone, w.2) else s.view u) ∧
      s'.pc = s.pc ∧ s'.activeThread = s.activeThread ∧ s'.lastGivenTid = s.lastGivenTid ∧
        s'.processes = s.processes := by
  induction l generalizing s with
  | nil =>
    cases h
    exact ⟨fun u => (if_neg List.not_mem_nil).symm, rfl, rfl, rfl, rfl⟩
  | cons tid l ih =>
    rw [List.foldlM_cons] at h
    obtain ⟨s1, hs1, hrest⟩ := Option.bind_eq_some_iff.mp h
    obtain ⟨t, ht, rfl⟩ := Option.map_eq_some_iff.mp hs1
    obtain ⟨hview, hpc, hactive, hgiven, hprocesses⟩ := ih hrest
    refine ⟨fun u => ?_, hpc, hactive, hgiven, hprocesses⟩
    rw [hview, view_update rfl, Function.update_apply]
    by_cases hu : u = tid
    · subst hu
      rw [view_of_threads ht]
      by_cases hmem : u ∈ l <;> simp [hmem, ThreadState.phase]
    · by_cases hmem : u ∈ l <;> simp [hmem, hu]

theorem buryProcess_unseen {pid : ℕ} {p : KernelProcess} (h : s.buryProcess pid p = some s') :
    Unseen s s' ∧ s'.activeThread = s.activeThread ∧ s'.threads = s.threads := by
  unfold buryProcess at h
  obtain ⟨parent, -, h1⟩ := Option.bind_eq_some_iff.mp h
  obtain ⟨q, hq, h2⟩ := Option.bind_eq_some_iff.mp h1
  split_ifs at h2
  cases h2
  refine ⟨⟨rfl, rfl, le_rfl, fun pid' p' hp' => ?_⟩, rfl, rfl⟩
  change Function.update s.processes parent _ pid' = some p' at hp'
  rw [Function.update_apply] at hp'
  split_ifs at hp' with hpid
  · cases hp'
    exact ⟨q, hpid ▸ hq, rfl, fun _ hu _ => hu⟩
  · exact ⟨p', hp', rfl, fun _ hu _ => hu⟩

theorem JoinInv.schedExitProcess (h : JoinInv s) (ht : s.threads s.activeThread = some t)
    (hpc : s.pc s.activeThread = .user) (hguard : s.JoinsInTime .exitProcess)
    (hexit : s.schedExitProcess t = some s') :
    JoinInv s' ∧ s'.pc s'.activeThread = .yield ∧ ∀ r, s'.view s'.activeThread ≠ some (.joining, r) := by
  unfold Sched.schedExitProcess at hexit
  split_ifs at hexit
  obtain ⟨p, hp, h1⟩ := Option.bind_eq_some_iff.mp hexit
  obtain ⟨s1, hloop, h2⟩ := Option.bind_eq_some_iff.mp h1
  obtain ⟨s2, hbury, h3⟩ := Option.bind_eq_some_iff.mp h2
  obtain ⟨main, hmain, h4⟩ := Option.bind_eq_some_iff.mp h3
  obtain ⟨s3, hwake, rfl⟩ := Option.map_eq_some_iff.mp h4
  have hwithin : s.JoinedWithin p.threads fun u => decide (u = p.mainThread) := hguard t ht p hp
  obtain ⟨hview1, hpc1, hactive1, hgiven1, hprocesses1⟩ := stopThreads_view hloop
  obtain ⟨hunseen, hactive2, hthreads2⟩ := buryProcess_unseen hbury
  obtain ⟨hview3, hpc3, hactive3, hgiven3, hprocesses3⟩ := wakeJoiner_view hmain hwake
  have hgiven2 : s2.lastGivenTid = s1.lastGivenTid := by
    obtain ⟨parent, -, hb⟩ := Option.bind_eq_some_iff.mp hbury
    obtain ⟨q, -, hb'⟩ := Option.bind_eq_some_iff.mp hb
    split_ifs at hb'
    cases hb'
    rfl
  have hview2 : ∀ u, s2.view u = if u ∈ p.threads then (s.view u).map fun w => (.gone, w.2)
      else s.view u := fun u => by rw [hunseen.view, hview1]
  have hmember : p.mainThread ∈ p.threads := by
    refine (h.main _ p hp).2 fun hnone => ?_
    have hv := view_of_threads hmain
    rw [hview2, hnone] at hv
    split_ifs at hv
    cases hv
  -- who joins the main thread from outside the process is woken
  have hwoken : ∀ u, s2.waitingJoiner p.mainThread = some u ↔
      s.waitingJoiner p.mainThread = some u ∧ u ∉ p.threads := by
    intro u
    rw [waitingJoiner_eq_some, waitingJoiner_eq_some, hview2, hview2, if_pos hmember]
    by_cases hu : u ∈ p.threads
    · simp [hu]
    · simp [hu]
  have hjoining : ∀ u, s2.waitingJoiner p.mainThread = some u → ∃ r, s.view u = some (.joining, r) :=
    fun u hu => (waitingJoiner_eq_some.mp ((hwoken u).mp hu).1).2
  have hview : ∀ u, s3.view u = (s.view u).map fun w => (if u ∈ p.threads then Phase.gone else
      if w.1 = .joining ∧ s2.waitingJoiner p.mainThread = some u then .live else w.1, w.2) := by
    intro u
    rw [hview3, hview2]
    by_cases hu : u ∈ p.threads
    · have hnot : s2.waitingJoiner p.mainThread ≠ some u := fun hw => ((hwoken u).mp hw).2 hu
      simp [hu, hnot]
    · by_cases hw : s2.waitingJoiner p.mainThread = some u
      · obtain ⟨r, hr⟩ := hjoining u hw
        simp [hu, hw, hr]
      · simp [hu, hw]
  have hactive : s3.activeThread = s.activeThread := hactive3.trans (hactive2.trans hactive1)
  have hkept : ProcessesKept s s3 := by
    intro pid p' hp'
    rw [hprocesses3] at hp'
    obtain ⟨q, hq, hqmain, hqthreads⟩ := hunseen.processes pid p' hp'
    rw [hprocesses1] at hq
    refine ⟨q, hq, hqmain, fun u hu hne => hqthreads u hu fun hnone => hne ?_⟩
    rw [hview3, hnone]
    split_ifs <;> rfl
  refine ⟨h.rephase (fun u ph => if u ∈ p.threads then .gone else
      if ph = .joining ∧ s2.waitingJoiner p.mainThread = some u then .live else ph) .yield hview ?_
    hactive ?_ hkept (by rw [hpc]; rfl) nofun (.inl rfl) nofun (fun u => ?_) (fun u ph hcopy => ?_)
    (fun u ph hph => ?_) (fun u r hu hph => ?_) fun u r hu _ tid hwait => ?_, Function.update_self .., fun r hr => ?_⟩
  · have hpcs : s3.pc = s.pc := hpc3.trans (hunseen.pc.trans hpc1)
    exact congrArg₂ (fun pc a => Function.update pc a SchedPc.yield) hpcs hactive
  · exact hgiven3.trans (hgiven2.trans hgiven1)
  · simp
  · split_ifs at hcopy
    exact hcopy
  · split_ifs at hph
    exact .inl hph
  · simp only [true_and] at hph
    split_ifs at hph with hmem hw
    obtain ⟨hwait, -⟩ := (hwoken u).mp hw
    obtain ⟨⟨phm, hm⟩, -⟩ := waitingJoiner_eq_some.mp hwait
    refine ⟨p.mainThread, hwait, some u, ?_⟩
    change s3.view p.mainThread = _
    rw [hview, hm]
    simp [hmember]
  · simp only [true_and]
    by_cases hmem : tid ∈ p.threads
    · simp [hmem]
    rw [if_neg hmem]
    split_ifs with hw
    · nofun
    intro _
    change s3.view u = _ at hu
    by_cases hup : u ∈ p.threads
    · by_cases hum : u = p.mainThread
      · exact hw ((hwoken tid).mpr ⟨hum ▸ hwait, hmem⟩)
      · exact hmem (hwithin u hup (decide_eq_false hum) tid hwait)
    · -- a thread that has ended before has nobody to wake
      have hgone : s.view u = some (.gone, r) := by
        rw [hview, Option.map_eq_some_iff] at hu
        obtain ⟨⟨ph, r'⟩, hv, he⟩ := hu
        rw [if_neg hup, Prod.mk.injEq] at he
        split_ifs at he
        · cases he.1
        · obtain ⟨rfl, rfl⟩ := he
          exact hv
      have hnone := h.waitingJoiner_of_gone hgone (fun he => by rw [he, hpc]; nofun) fun v hv => by
        rw [hpc] at hv
        cases hv
      rw [hnone] at hwait
      cases hwait
  · change s3.view s3.activeThread = _ at hr
    rw [hactive, hview, Option.map_eq_some_iff] at hr
    obtain ⟨⟨ph, r'⟩, hv, he⟩ := hr
    rw [Prod.mk.injEq] at he
    split_ifs at he with hmem hw
    · cases he.1
    · cases he.1
    · obtain ⟨rfl, -⟩ := he
      obtain ⟨v, phv, hj, -⟩ := h.awaited _ r' hv fun w hw' => by
        rw [hpc] at hw'
        cases hw'
      rw [hpc] at hj
      cases hj

theorem JoinInv.threadExit (h : JoinInv s) (ht : s.threads s.activeThread = some t)
    (hrun : t.state = .running) (hpc : s.pc s.activeThread = .user) (hexit : s.threadExit t = some s') :
    JoinInv s' := by
  have hlive : s.view s.activeThread = some (.live, t.joiningThread) := by
    rw [view_of_threads ht, hrun]
    rfl
  unfold Sched.threadExit at hexit
  split_ifs at hexit
  cases hexit
  have hview : ∀ u, (s.setThread s.activeThread { t with state := .zombie }).view u =
      (s.view u).map fun w => (if u = s.activeThread then Phase.gone else w.1, w.2) := by
    intro u
    rw [view_update rfl, Function.update_apply]
    by_cases hu : u = s.activeThread
    · rw [if_pos hu, hu, hlive]
      simp [ThreadState.phase]
    · simp [hu]
  refine h.rephase (fun u ph => if u = s.activeThread then .gone else ph) .exitJoiner hview rfl rfl rfl
    (processesKept_of_eq rfl) (by rw [hpc]; rfl) (by simp) (.inl rfl) (fun _ ph r hr => ?_) (fun u => ?_)
    (fun u ph hcopy => ?_) (fun u ph hph => ?_) (fun u r hu hph => ?_) fun u r hu hne tid hwait => ?_
  · change (s.setThread s.activeThread { t with state := .zombie }).view s.activeThread = _ at hr
    rw [hview, hlive] at hr
    simp only [if_true, Option.map_some, Option.some.injEq, Prod.mk.injEq] at hr
    exact hr.1.symm
  · simp
  · split_ifs at hcopy
    exact hcopy
  · split_ifs at hph
    exact .inl hph
  · split_ifs at hph
  · have hua : u ≠ s.activeThread := fun he => hne ⟨he, rfl⟩
    change (s.setThread s.activeThread { t with state := .zombie }).view u = _ at hu
    rw [hview, Option.map_eq_some_iff] at hu
    obtain ⟨⟨ph, r'⟩, hv, he⟩ := hu
    rw [if_neg hua] at he
    cases he
    have hnone := h.waitingJoiner_of_gone hv (fun he => absurd he hua) fun v hv => by
      rw [hpc] at hv
      cases hv
    rw [hnone] at hwait
    cases hwait

/-! ## Join -/

theorem JoinInv.joinState (h : JoinInv s) (ht : s.threads s.activeThread = some t)
    (hrun : t.state = .running) (hfrom : (s.pc s.activeThread).joins = none)
    (hexit : s.pc s.activeThread ≠ .exitJoiner) (target : ℕ) : JoinInv (s.joinState t target) := by
  have hlive : s.view s.activeThread = some (.live, t.joiningThread) := by
    rw [view_of_threads ht, hrun]
    rfl
  have hview : ∀ u, (s.setThread s.activeThread { t with state := .joining }).view u =
      (s.view u).map fun w =>
        (if u = s.activeThread ∧ w.1 = .live then Phase.joining else w.1, w.2) := by
    intro u
    rw [view_update rfl, Function.update_apply]
    by_cases hu : u = s.activeThread
    · rw [if_pos hu, hu, hlive]
      simp [ThreadState.phase]
    · simp [hu]
  refine h.rephase (fun u ph => if u = s.activeThread ∧ ph = .live then .joining else ph)
    (.joinSet target) hview rfl rfl rfl (processesKept_of_eq rfl) hfrom (fun u _ => ⟨t.joiningThread, ?_⟩)
    (.inr ⟨target, rfl⟩) (by simp) (fun u => ?_) (fun u ph hcopy => ?_) (fun u ph hph => ?_)
    (fun u r hu hph => ?_) fun u r hu _ tid hwait => ?_
  · change (s.setThread s.activeThread { t with state := .joining }).view s.activeThread = _
    rw [hview, hlive]
    simp
  · simp
  · split_ifs at hcopy
    exact hcopy
  · split_ifs at hph with hu
    · exact .inr ⟨hu.1, target, rfl⟩
    · exact .inl hph
  · simp at hph
  · change (s.setThread s.activeThread { t with state := .joining }).view u = _ at hu
    rw [hview, Option.map_eq_some_iff] at hu
    obtain ⟨⟨ph, r'⟩, hv, he⟩ := hu
    rw [Prod.mk.injEq] at he
    split_ifs at he
    · cases he.1
    · obtain ⟨rfl, rfl⟩ := he
      have hnone := h.waitingJoiner_of_gone hv (fun he => he ▸ hexit) fun v hv => by
        rw [hv] at hfrom
        cases hfrom
      rw [hnone] at hwait
      cases hwait

/-! ## The active thread -/

/-- Where a thread is that joins and has yet to elect. -/
def suspends : SchedPc → Bool
  | .joinSet _ | .joinYield _ | .waitYield _ _ => true
  | _ => false

/-- Where a thread is that has ended and has yet to elect. -/
def ends : SchedPc → Bool
  | .exitJoiner | .yield => true
  | _ => false

/-- The active thread joins or has ended only on its way to an election. -/
def ActiveAt (s : Sched) : Prop :=
  ∀ ph r, s.view s.activeThread = some (ph, r) →
    (ph = .joining → suspends (s.pc s.activeThread) = true) ∧
      (ph = .gone → ends (s.pc s.activeThread) = true)

def ActiveLive (s : Sched) : Prop := ∃ r, s.view s.activeThread = some (.live, r)

theorem ActiveLive.activeAt (h : ActiveLive s) : ActiveAt s := by
  obtain ⟨r, hr⟩ := h
  intro ph r' hv
  rw [hr] at hv
  cases hv
  exact ⟨nofun, nofun⟩

theorem ActiveAt.live (hat : ActiveAt s) (h : JoinInv s) (ht : s.threads s.activeThread = some t)
    (hsuspends : suspends (s.pc s.activeThread) = false) (hends : ends (s.pc s.activeThread) = false) :
    ActiveLive s := by
  have hv := view_of_threads ht
  obtain ⟨hjoining, hgone⟩ := hat _ _ hv
  refine ⟨t.joiningThread, ?_⟩
  generalize t.state.phase = ph at hv hjoining hgone
  cases ph with
  | live => exact hv
  | joining =>
    rw [hjoining rfl] at hsuspends
    cases hsuspends
  | gone =>
    rw [hgone rfl] at hends
    cases hends
  | copying => exact absurd hv (h.copying _ _)

/-- The active thread enters itself in the thread it joins. -/
theorem JoinInv.joinSet (h : JoinInv s) {target : ℕ} (hpc : s.pc s.activeThread = .joinSet target)
    (halive : ∀ v, s.threads target = some v → v.state ≠ .zombie) (hnone : s.waitingJoiner target = none)
    (hset : s.joinSet target = some s') (pc : SchedPc) (hjoins : pc.joins = some target)
    (hset' : ∀ u, pc ≠ .joinSet u) (hexit' : pc ≠ .exitJoiner) (hsuspends : suspends pc = true) :
    JoinInv (s'.setPc pc) ∧ ActiveAt (s'.setPc pc) := by
  obtain ⟨v, hv, rfl⟩ := Option.map_eq_some_iff.mp hset
  obtain ⟨-, ra, hra⟩ := h.atSet _ target hpc
  have hview : ((s.setThread target { v with joiningThread := some s.activeThread }).setPc pc).view =
      Function.update s.view target (some (v.state.phase, some s.activeThread)) :=
    view_update (show Sched.threads _ = Function.update s.threads target
      (some { v with joiningThread := some s.activeThread }) from rfl)
  refine ⟨h.enter hpc (view_of_threads hv) (fun hph => halive v hv (phase_eq_gone.mp hph)) hnone hview
    (Function.update_idem ..) hjoins hset' hexit' rfl rfl, fun ph r hr => ?_⟩
  have hself : (((s.setThread target { v with joiningThread := some s.activeThread }).setPc
      (.joinYield target)).setPc pc).pc s.activeThread = pc := Function.update_self ..
  have hjoining : ph = .joining := by
    change ((s.setThread target { v with joiningThread := some s.activeThread }).setPc pc).view
      s.activeThread = _ at hr
    rw [hview, Function.update_apply] at hr
    split_ifs at hr with hta
    · rw [hta, view_of_threads hv, Option.some.injEq, Prod.mk.injEq] at hra
      rw [Option.some.injEq, Prod.mk.injEq] at hr
      exact hr.1.symm.trans hra.1
    · rw [hra] at hr
      cases hr
      rfl
  change (_ → suspends ((((s.setThread target _).setPc _).setPc pc).pc s.activeThread) = true) ∧ _
  rw [hself, hjoining]
  exact ⟨fun _ => hsuspends, nofun⟩

/-- The active thread goes on outside of its joins, and joining sees nothing else. -/
theorem JoinInv.move (h : JoinInv s) (hlive : ActiveLive s) {s1 : Sched} (hs : Unseen s s1)
    (hactive : s1.activeThread = s.activeThread) (pc : SchedPc) (hfrom : (s.pc s.activeThread).joins = none)
    (hexit : s.pc s.activeThread ≠ .exitJoiner) (hto : pc.joins = none) (hexit' : pc ≠ .exitJoiner) :
    JoinInv (s1.setPc pc) ∧ ActiveLive (s1.setPc pc) := by
  have hpc : s1.pc s1.activeThread = s.pc s.activeThread := by rw [hs.pc, hactive]
  refine ⟨(h.congr hs hactive).setPc (fun u hu => ?_) (hpc ▸ hexit) (fun u hu => ?_) hexit'
    (.inl (by rw [hpc, hfrom, hto])), ?_⟩
  · rw [hpc] at hu
    rw [hu] at hfrom
    cases hfrom
  · rw [hu] at hto
    cases hto
  · obtain ⟨r, hr⟩ := hlive
    refine ⟨r, ?_⟩
    change s1.view s1.activeThread = _
    rw [hs.view, hactive, hr]

/-- An election by a thread that goes on at `next`. -/
theorem JoinInv.yieldTo (h : JoinInv s) (hinv : Inv s) {currentTime : ℕ} (next : SchedPc)
    (hset : ∀ u, s.pc s.activeThread ≠ .joinSet u) (hexit : s.pc s.activeThread ≠ .exitJoiner)
    (hset' : ∀ u, next ≠ .joinSet u) (hexit' : next ≠ .exitJoiner)
    (hjoins : next.joins = (s.pc s.activeThread).joins) (hyield : s.yieldTo currentTime next = some s') :
    JoinInv s' ∧ ActiveLive s' := by
  have hself : (s.setPc next).pc (s.setPc next).activeThread = next := Function.update_self ..
  refine (h.setPc hset hexit hset' hexit' (.inl hjoins)).selectThread (hinv.setPc next) ?_ ?_ hyield
  · rw [hself]
    exact hset'
  · rw [hself]
    exact fun he => absurd he hexit'

/-- After cleaning, the active thread is where it goes on and as live as before. -/
theorem ActiveLive.joinClean (hlive : ActiveLive s) {target : ℕ} {next : SchedPc}
    (hclean : s.joinClean target next = some s') : ActiveLive s' := by
  obtain ⟨s1, hs1, rfl⟩ := Option.map_eq_some_iff.mp hclean
  have hc := schedCleanThread_cleaned hs1
  obtain ⟨r, hr⟩ := hlive
  refine ⟨r, ?_⟩
  change s1.view s1.activeThread = _
  rw [hc.active, hc.view, if_neg hc.activeNotMem, hr]

theorem JoinInv.joinCheck (h : JoinInv s) (hlive : ActiveLive s) {target : ℕ}
    (hpc : s.pc s.activeThread = .joinCheck target) (hcheck : s.joinCheck target = some s') :
    JoinInv s' ∧ ActiveLive s' := by
  unfold Sched.joinCheck at hcheck
  obtain ⟨v, hv, hbody⟩ := Option.bind_eq_some_iff.mp hcheck
  split_ifs at hbody with hz
  · have hgone : s.view target = some (.gone, v.joiningThread) := by
      rw [view_of_threads hv, hz]
      rfl
    refine ⟨h.joinClean .user hgone ?_ ?_ rfl nofun (.inl ?_) hbody, hlive.joinClean hbody⟩ <;>
      simp [hpc, SchedPc.joins]
  · cases hbody
    exact h.move hlive (.refl s) rfl (.joinState target) (by rw [hpc]; rfl) (by rw [hpc]; nofun) rfl nofun

/-- The end of a join: the thread that was joined has ended. -/
theorem JoinInv.endJoin (h : JoinInv s) (hlive : ActiveLive s) {target : ℕ} (next : SchedPc)
    (hjoins : (s.pc s.activeThread).joins = some target) (hset : ∀ u, s.pc s.activeThread ≠ .joinSet u)
    (hexit : s.pc s.activeThread ≠ .exitJoiner) (hnext : next.joins = none) (hexit' : next ≠ .exitJoiner)
    (hclean : s.joinClean target next = some s') : JoinInv s' ∧ ActiveLive s' := by
  obtain ⟨r, hr⟩ := hlive
  have hgone : ∃ r', s.view target = some (.gone, r') := by
    obtain ⟨s1, hs1, -⟩ := Option.map_eq_some_iff.mp hclean
    obtain ⟨v, hv, -⟩ := Option.bind_eq_some_iff.mp hs1
    have hview := view_of_threads hv
    rw [(h.resumed _ target r hr hjoins).2 _ _ hview] at hview
    exact ⟨_, hview⟩
  obtain ⟨r', hgone⟩ := hgone
  exact ⟨h.joinClean next hgone hset hexit hnext hexit' (.inr ⟨hjoins, r, hr⟩) hclean,
    ActiveLive.joinClean ⟨r, hr⟩ hclean⟩

theorem JoinInv.waitRemove (h : JoinInv s) (hlive : ActiveLive s) {child : ℕ}
    (hpc : s.pc s.activeThread = .waitRemove child) (hremove : s.waitRemove t child = some s') :
    JoinInv s' ∧ ActiveLive s' := by
  unfold Sched.waitRemove at hremove
  obtain ⟨p, hp, hbody⟩ := Option.bind_eq_some_iff.mp hremove
  split_ifs at hbody
  cases hbody
  have hunseen : Unseen s { s.setProcess t.process { p with
      deadChildren := p.deadChildren.erase child } with processCount := s.processCount - 1 } := by
    refine ⟨rfl, rfl, le_rfl, fun pid p' hp' => ?_⟩
    change Function.update s.processes t.process _ pid = some p' at hp'
    rw [Function.update_apply] at hp'
    split_ifs at hp' with hpid
    · cases hp'
      exact ⟨p, hpid ▸ hp, rfl, fun _ hu _ => hu⟩
    · exact ⟨p', hp', rfl, fun _ hu _ => hu⟩
  exact h.move hlive hunseen rfl .user (by rw [hpc]; rfl) (by rw [hpc]; nofun) rfl nofun

theorem JoinInv.go {currentTime : ℕ} (h : JoinInv s) (hinv : Inv s) (hat : ActiveAt s)
    (ht : s.threads s.activeThread = some t) (hguard : s.JoinsInTime (.go currentTime))
    (hrun : s.leavesState (.go currentTime) = true → t.state = .running)
    (hgo : s.go t currentTime = some s') : JoinInv s' ∧ ActiveAt s' := by
  have hlive := hat.live h ht
  unfold Sched.go at hgo
  unfold leavesState at hrun
  unfold JoinsInTime at hguard
  split at hgo <;> rename_i hpc <;> simp only [hpc] at hrun hguard hlive
  · cases hgo
  · have hs' := h.yieldTo hinv .user (by simp [hpc]) (by simp [hpc]) nofun nofun (by simp [hpc, SchedPc.joins]) hgo
    exact ⟨hs'.1, hs'.2.activeAt⟩
  · have hs' := h.joinCheck (hlive rfl rfl) hpc hgo
    exact ⟨hs'.1, hs'.2.activeAt⟩
  · rename_i target
    cases hgo
    refine ⟨h.joinState ht (hrun trivial) (by rw [hpc]; rfl) (by rw [hpc]; nofun) target, ?_⟩
    intro ph r hr
    have hpc' : (s.joinState t target).pc (s.joinState t target).activeThread = .joinSet target :=
      Function.update_self ..
    rw [hpc']
    refine ⟨fun _ => rfl, fun hph => ?_⟩
    have hv : (s.joinState t target).view s.activeThread = some (.joining, t.joiningThread) :=
      view_of_threads (show (s.joinState t target).threads s.activeThread = _ from
        Function.update_self ..)
    have hsame : (s.joinState t target).activeThread = s.activeThread := rfl
    rw [hsame, hv] at hr
    cases hr
    cases hph
  · rename_i target
    obtain ⟨v, hv, he⟩ := Option.map_eq_some_iff.mp hgo
    have hs' : s'.setPc (.joinYield target) = s' := by
      rw [← he]
      unfold Sched.setPc
      rw [Function.update_idem]
    have halive : ∀ w, s.threads target = some w → w.state ≠ .zombie := by
      intro w hw
      have hall := hguard.1
      rw [hw, Option.all_some] at hall
      exact of_decide_eq_true hall
    exact hs' ▸ h.joinSet hpc halive hguard.2 hgo (.joinYield target) rfl nofun nofun rfl
  · have hs' := h.yieldTo hinv (.joinClean _) (by simp [hpc]) (by simp [hpc]) nofun nofun (by simp [hpc, SchedPc.joins]) hgo
    exact ⟨hs'.1, hs'.2.activeAt⟩
  · have hs' := h.endJoin (hlive rfl rfl) .user (by rw [hpc]; rfl) (by simp [hpc]) (by simp [hpc]) rfl nofun hgo
    exact ⟨hs'.1, hs'.2.activeAt⟩
  · obtain ⟨hs', hpc', hview⟩ := h.threadExitJoiner ht hpc hgo
    refine ⟨hs', fun ph r hr => ?_⟩
    rw [hview] at hr
    cases hr
    rw [hpc']
    exact ⟨nofun, fun _ => rfl⟩
  · have hs' := h.yieldTo hinv (.waitJoined _ _) (by simp [hpc]) (by simp [hpc]) nofun nofun (by simp [hpc, SchedPc.joins]) hgo
    exact ⟨hs'.1, hs'.2.activeAt⟩
  · have hs' := h.endJoin (hlive rfl rfl) (.waitClean _) (by rw [hpc]; rfl) (by simp [hpc]) (by simp [hpc]) rfl nofun hgo
    exact ⟨hs'.1, hs'.2.activeAt⟩
  · rename_i child
    obtain ⟨s1, hclean, rfl⟩ := Option.map_eq_some_iff.mp hgo
    obtain ⟨hs1, hpc1, hactive1, hview1⟩ := h.schedCleanProcess hguard hclean
    obtain ⟨r, hr⟩ := hlive rfl rfl
    have hlive1 : ActiveLive s1 := ⟨r, by rw [hactive1, hview1, hr]⟩
    have hpc' : s1.pc s1.activeThread = .waitClean child := by rw [hpc1, hactive1, hpc]
    have hs' := hs1.move hlive1 (.refl s1) rfl (.waitRemove child) (by rw [hpc']; rfl)
      (by rw [hpc']; nofun) rfl nofun
    exact ⟨hs'.1, hs'.2.activeAt⟩
  · have hs' := h.waitRemove (hlive rfl rfl) hpc hgo
    exact ⟨hs'.1, hs'.2.activeAt⟩

/-! ## Calls -/

theorem JoinInv.waitpid (h : JoinInv s) (ht : s.threads s.activeThread = some t)
    (hrun : t.state = .running) (hpc : s.pc s.activeThread = .user) {child : ℕ}
    (hwait : s.schedWaitProcessPid t child = some s') : JoinInv s' ∧ ActiveAt s' := by
  have hlive : ActiveLive s := ⟨t.joiningThread, by rw [view_of_threads ht, hrun]; rfl⟩
  unfold Sched.schedWaitProcessPid at hwait
  obtain ⟨p, -, h1⟩ := Option.bind_eq_some_iff.mp hwait
  split_ifs at h1
  · cases h1
    exact ⟨h, hlive.activeAt⟩
  obtain ⟨c, -, h2⟩ := Option.bind_eq_some_iff.mp h1
  obtain ⟨main, hmain, h3⟩ := Option.bind_eq_some_iff.mp h2
  split_ifs at h3 with hjoiner hzombie
  · cases h3
    have hs' := h.move hlive (.refl s) rfl (.waitClean child) (by rw [hpc]; rfl) (by rw [hpc]; nofun) rfl
      nofun
    exact ⟨hs'.1, hs'.2.activeAt⟩
  · have hgone : s.view c.mainThread = some (.gone, main.joiningThread) := by
      rw [view_of_threads hmain, hzombie]
      rfl
    refine ⟨h.joinClean (.waitClean child) hgone ?_ ?_ rfl nofun (.inl ?_) h3,
      (hlive.joinClean h3).activeAt⟩ <;> simp [hpc, SchedPc.joins]
  · obtain ⟨s1, hset, rfl⟩ := Option.map_eq_some_iff.mp h3
    have hstate := h.joinState ht hrun (by rw [hpc]; rfl) (by rw [hpc]; nofun) c.mainThread
    have hpc1 : (s.joinState t c.mainThread).pc (s.joinState t c.mainThread).activeThread =
        .joinSet c.mainThread := Function.update_self ..
    -- the main thread is as it was, or it is the caller itself
    have hmain1 : ∀ v, (s.joinState t c.mainThread).threads c.mainThread = some v →
        v.state ≠ .zombie ∧ v.joiningThread = none := by
      intro v hv
      change Function.update s.threads s.activeThread (some { t with state := .joining }) c.mainThread =
        some v at hv
      rw [Function.update_apply] at hv
      split_ifs at hv with hta
      · cases hv
        rw [hta, ht] at hmain
        cases hmain
        exact ⟨nofun, not_not.mp hjoiner⟩
      · rw [hmain] at hv
        cases hv
        exact ⟨hzombie, not_not.mp hjoiner⟩
    have hnone : (s.joinState t c.mainThread).waitingJoiner c.mainThread = none := by
      unfold waitingJoiner
      cases hv : (s.joinState t c.mainThread).threads c.mainThread with
      | none => rfl
      | some v =>
        rw [Option.bind_some, (hmain1 v hv).2]
        rfl
    obtain ⟨v, hv, rfl⟩ := Option.map_eq_some_iff.mp hset
    have hset1 : (s.joinState t c.mainThread).joinSet c.mainThread =
        some (((s.joinState t c.mainThread).setThread c.mainThread
          { v with joiningThread := some s.activeThread }).setPc (.joinYield c.mainThread)) :=
      Option.map_eq_some_iff.mpr ⟨v, hv, rfl⟩
    have hs' := hstate.joinSet hpc1 (fun w hw => (hmain1 w hw).1) hnone hset1
      (.waitYield child c.mainThread) rfl nofun nofun rfl
    have hsame : (((s.joinState t c.mainThread).setThread c.mainThread
        { v with joiningThread := some s.activeThread }).setPc (.joinYield c.mainThread)).setPc
          (.waitYield child c.mainThread) =
        (((s.setThread s.activeThread { t with state := .joining }).setThread c.mainThread
          { v with joiningThread := some s.activeThread }).setPc (.joinYield c.mainThread)).setPc
            (.waitYield child c.mainThread) := by
      simp only [Sched.joinState, Sched.setPc, setThread, Function.update_idem]
    rw [hsame] at hs'
    exact hs'

theorem JoinInv.call {act : SchedAct} (h : JoinInv s) (hat : ActiveAt s)
    (ht : s.threads s.activeThread = some t) (hpc : s.pc s.activeThread = .user)
    (hguard : s.JoinsInTime act) (hrun : s.leavesState act = true → t.state = .running)
    (hcall : s.call t act = some s') : JoinInv s' ∧ ActiveAt s' := by
  obtain ⟨r, hr⟩ := hat.live h ht (by rw [hpc]; rfl) (by rw [hpc]; rfl)
  have hlive : t.state.phase = .live := by
    rw [view_of_threads ht, Option.some.injEq, Prod.mk.injEq] at hr
    exact hr.1
  -- a call that joining does not see leaves the active thread live
  have hquiet : ∀ s1 : Sched, Unseen s s1 → s1.activeThread = s.activeThread → JoinInv s1 ∧ ActiveAt s1 :=
    fun s1 hs1 hactive => ⟨h.congr hs1 hactive,
      ActiveLive.activeAt ⟨r, by rw [hs1.view, hactive, hr]⟩⟩
  have hne : s.activeThread ≠ s.lastGivenTid := (h.given _ (by rw [hr]; simp)).ne
  have hnew : ∀ (s1 : Sched) (t' : KernelThread),
      s1.threads = Function.update s.threads s.lastGivenTid (some t') →
      (t'.state.phase, t'.joiningThread) = (.live, none) →
        s1.pc = Function.update s.pc s.lastGivenTid .user → s1.activeThread = s.activeThread →
      s1.lastGivenTid = s.lastGivenTid + 1 → (∀ pid p', s1.processes pid = some p' →
        (p'.mainThread = s.lastGivenTid ∧ s.lastGivenTid ∈ p'.threads) ∨ ∃ p, s.processes pid = some p ∧
          p'.mainThread = p.mainThread ∧ p.threads ⊆ p'.threads) → JoinInv s1 ∧ ActiveAt s1 :=
    fun s1 t' hthreads hphase hpc1 hactive hgiven hprocesses => by
      have hview := view_update hthreads
      rw [Option.map_some, hphase] at hview
      exact ⟨h.create hview hpc1 hactive hgiven hprocesses, ActiveLive.activeAt
        ⟨r, by rw [hview, hactive, Function.update_of_ne hne, hr]⟩⟩
  unfold leavesState at hrun
  cases act <;> simp only [Sched.call] at hcall <;> simp only [decide_eq_true_eq] at hrun
  case tick => cases hcall
  case go => cases hcall
  case sleep currTime timeMs =>
    cases hcall
    unfold schedSleep
    split_ifs with hidle
    · exact hquiet s (.refl s) rfl
    · have hset : Unseen s (s.setThread s.activeThread { t with
          wakeupTime := (currTime + timeMs * 1000000) % 2 ^ 64, state := .sleeping }) :=
        unseen_setThread ht hlive.symm rfl
      have hs' := h.move ⟨r, hr⟩ hset rfl .yield (by rw [hpc]; rfl) (by rw [hpc]; simp) rfl (by simp)
      exact ⟨hs'.1, hs'.2.activeAt⟩
  case create priority =>
    unfold schedCreateKernelThread at hcall
    split_ifs at hcall
    · cases hcall
      exact hquiet s (.refl s) rfl
    obtain ⟨p, hp, hpush⟩ := Option.bind_eq_some_iff.mp hcall
    obtain ⟨-, rfl⟩ := pushReady_eq_some hpush
    refine hnew _ _ rfl rfl rfl rfl rfl fun pid p' hp' => ?_
    change Function.update s.processes t.process _ pid = some p' at hp'
    rw [Function.update_apply] at hp'
    split_ifs at hp' with hpid
    · cases hp'
      exact .inr ⟨p, hpid ▸ hp, rfl, fun u hu => List.mem_cons_of_mem _ hu⟩
    · exact .inr ⟨p', hp', rfl, List.Subset.refl _⟩
  case fork fault =>
    unfold schedForkProcess at hcall
    split_ifs at hcall
    · cases hcall
      exact hquiet s (.refl s) rfl
    · cases hcall
      exact hquiet _ (unseen_of_eq rfl rfl (Nat.le_succ _) rfl) rfl
    obtain ⟨p, hp, hpush⟩ := Option.bind_eq_some_iff.mp hcall
    obtain ⟨-, rfl⟩ := pushReady_eq_some hpush
    refine hnew _ _ rfl rfl rfl rfl rfl fun pid p' hp' => ?_
    change Function.update (Function.update s.processes t.process _) s.lastGivenPid _ pid = some p' at hp'
    rw [Function.update_apply, Function.update_apply] at hp'
    split_ifs at hp' with hchild hpid
    · cases hp'
      exact .inl ⟨rfl, List.mem_singleton_self _⟩
    · cases hp'
      exact .inr ⟨p, hpid ▸ hp, rfl, List.Subset.refl _⟩
    · exact .inr ⟨p', hp', rfl, List.Subset.refl _⟩
  case futexWait addr value val fault =>
    unfold futexWaitThread at hcall
    split at hcall
    · cases hcall
      exact hquiet s (.refl s) rfl
    split_ifs at hcall
    · cases hcall
      exact hquiet s (.refl s) rfl
    · cases hcall
      exact hquiet s (.refl s) rfl
    · have hlock : Unseen s (s.schedLockThread t .resource) := unseen_setThread ht hlive.symm rfl
      refine hquiet s' (hlock.trans (unseen_schedUnlockThread hcall)) ?_
      obtain ⟨v, -, hpush⟩ := Option.bind_eq_some_iff.mp hcall
      split_ifs at hpush
      obtain ⟨-, rfl⟩ := pushReady_eq_some hpush
      rfl
    · cases hcall
      rename_i queue _ _ _ _
      have hlock : Unseen s (Sched.schedLockThread { s with
          futexTable := Function.update s.futexTable addr queue } { t with
            resources := kqueuePush addr t.resources } .resource) :=
        unseen_of_eq (view_eq_self ht rfl hlive.symm rfl) rfl le_rfl rfl
      have hs' := h.move ⟨r, hr⟩ hlock rfl .yield (by rw [hpc]; rfl) (by rw [hpc]; simp) rfl (by simp)
      exact ⟨hs'.1, hs'.2.activeAt⟩
  case futexWake =>
    obtain ⟨hs', hactive⟩ := unseen_futexWakeThreads hcall
    exact hquiet s' hs' hactive
  case setPriority priority =>
    cases hcall
    unfold schedSetThreadParams
    split_ifs
    · exact hquiet _ (unseen_setThread ht rfl rfl) rfl
    · exact hquiet s (.refl s) rfl
  case join target =>
    obtain ⟨v, -, rfl⟩ := Option.map_eq_some_iff.mp hcall
    split_ifs
    · exact hquiet s (.refl s) rfl
    · have hs' := h.move ⟨r, hr⟩ (.refl s) rfl (.joinCheck target) (by rw [hpc]; rfl) (by rw [hpc]; simp)
        rfl (by simp)
      exact ⟨hs'.1, hs'.2.activeAt⟩
  case exit =>
    refine ⟨h.threadExit ht (hrun trivial) hpc hcall, fun ph r' hr' => ?_⟩
    unfold Sched.threadExit at hcall
    split_ifs at hcall
    cases hcall
    have hself : ((s.setThread s.activeThread { t with state := .zombie }).setPc .exitJoiner).pc
        s.activeThread = .exitJoiner := Function.update_self ..
    have hgone : ((s.setThread s.activeThread { t with state := .zombie }).setPc .exitJoiner).view
        s.activeThread = some (.gone, t.joiningThread) := by
      refine view_of_threads (t := { t with state := .zombie }) ?_
      exact Function.update_self ..
    change ((s.setThread s.activeThread { t with state := .zombie }).setPc .exitJoiner).view
      s.activeThread = _ at hr'
    rw [hgone] at hr'
    cases hr'
    change _ ∧ (_ → ends (((s.setThread s.activeThread _).setPc .exitJoiner).pc s.activeThread) = true)
    rw [hself]
    exact ⟨(by simp), fun _ => rfl⟩
  case exitProcess =>
    obtain ⟨hs', hpc', hview⟩ := h.schedExitProcess ht hpc hguard hcall
    refine ⟨hs', fun ph r' hr' => ?_⟩
    rw [hpc']
    exact ⟨fun hph => absurd (hph ▸ hr') (hview r'), fun _ => rfl⟩
  case waitpid => exact h.waitpid ht (hrun trivial) hpc hcall

/-! ## Runs -/

theorem JoinInv.step {act : SchedAct} (h : JoinInv s) (hinv : Inv s) (hat : ActiveAt s)
    (hrun : s.RunsElected act) (hguard : s.JoinsInTime act) (hstep : s.Step act s') :
    JoinInv s' ∧ ActiveAt s' := by
  unfold Step exec at hstep
  obtain ⟨t, ht, hact⟩ := Option.bind_eq_some_iff.mp hstep
  have hrunning := fun hl => running_of_activeRunning ht (hrun hl)
  split at hact
  · have hset : ∀ u, s.pc s.activeThread ≠ .joinSet u := by
      intro u hu
      unfold JoinsInTime at hguard
      simp only [hu] at hguard
    have hexit : s.pc s.activeThread = .exitJoiner → s.waitingJoiner s.activeThread = none := by
      intro hu
      unfold JoinsInTime at hguard
      simpa only [hu] using hguard
    obtain ⟨hs', hlive⟩ := h.selectThread hinv hset hexit hact
    exact ⟨hs', ActiveLive.activeAt hlive⟩
  · exact h.go hinv hat ht hguard hrunning hact
  · split_ifs at hact with hpc
    exact h.call hat ht hpc hguard hrunning hact

theorem joinInv_schedInit : JoinInv schedInit := by
  have hview : ∀ tid v, schedInit.view tid = some v → v = (.live, none) ∧ tid < 2 := by
    intro tid v hv
    obtain ⟨t, ht, rfl⟩ := Option.map_eq_some_iff.mp hv
    unfold schedInit at ht
    dsimp only at ht
    split_ifs at ht with hidle hinit
    · cases ht
      exact ⟨rfl, by rw [hidle]; decide⟩
    · cases ht
      exact ⟨rfl, by rw [hinit]; decide⟩
  refine ⟨nofun, fun tid r htid => ?_, nofun, fun u ph tid hu => ?_, nofun, fun tid r htid => ?_,
    fun tid htid => ?_, fun pid p hp => ?_⟩
  · cases (hview _ _ htid).1
  · cases (hview _ _ hu).1
  · cases (hview _ _ htid).1
  · obtain ⟨v, hv⟩ := Option.ne_none_iff_exists'.mp htid
    exact (hview tid v hv).2
  · unfold schedInit at hp
    dsimp only at hp
    split_ifs at hp
    cases hp
    exact ⟨by decide, fun _ => by decide⟩

/-- In a run whose threads block and end in the state they were elected in, and whose joins and exits are
in time, every thread that joins and is off the processor is going to be woken. -/
theorem joiners_awaited (h : Guarded Started Step (fun s act => s.RunsElected act ∧ s.JoinsInTime act) s) :
    s.JoinersAwaited := by
  have hinv : Inv s ∧ JoinInv s ∧ ActiveAt s := by
    refine h.invariant (fun s => Inv s ∧ JoinInv s ∧ ActiveAt s) (fun s0 hs0 => ?_)
      fun s0 act s1 hs0 hguard hstep => ⟨hs0.1.step hguard.1 hstep,
        hs0.2.1.step hs0.1 hs0.2.2 hguard.1 hguard.2 hstep⟩
    obtain rfl : s0 = schedInit := hs0
    exact ⟨inv_schedInit, joinInv_schedInit, ActiveLive.activeAt ⟨none, rfl⟩⟩
  obtain ⟨-, hjoin, -⟩ := hinv
  intro tid t ht hstate hne
  have hv : s.view tid = some (.joining, t.joiningThread) := by
    rw [view_of_threads ht, hstate]
    rfl
  obtain ⟨u, ph, hjoins, hu, hgone⟩ := hjoin.awaited tid _ hv fun u hu => hne (hjoin.atSet tid u hu).1
  obtain ⟨v, hv', hphase, hjoiner⟩ := view_eq_some.mp hu
  refine ⟨u, v, hjoins, hv', hjoiner, ?_⟩
  cases hvs : v.state with
  | zombie =>
    rw [hvs] at hphase
    exact .inr (hgone hphase.symm)
  | copying =>
    rw [hvs] at hphase
    exact absurd (hphase ▸ hu) (hjoin.copying u _)
  | _ => exact .inl (by simp)

/-! ### Runs on fixed threads -/

/-- Init creates thread 2 and joins it, and thread 2 runs. -/
def joinActs : List SchedAct :=
  [.tick 0, .create 0, .join 2, .go 0, .go 0, .go 0, .go 0]

/-- A step that both guards allow. -/
def timelyExec (s : Sched) (act : SchedAct) : Option Sched :=
  if s.RunsElected act ∧ s.JoinsInTime act then s.exec act else none

theorem joiners_awaited_join : ∃ s : Sched, s.activeThread = 2 ∧
    (s.threads initThread).map KernelThread.state = some .joining ∧ s.JoinersAwaited := by
  have hval : (runActs timelyExec schedInit joinActs).map (fun s =>
      (s.activeThread, (s.threads initThread).map KernelThread.state)) =
        some (2, some .joining) := by decide +kernel
  obtain ⟨s, hs, he⟩ := Option.map_eq_some_iff.mp hval
  rw [Prod.mk.injEq] at he
  have hstart : Guarded Started Step (fun s act => s.RunsElected act ∧ s.JoinsInTime act) schedInit :=
    .start rfl
  have hguarded := hstart.runActs (fun s act s' h => by
    unfold timelyExec at h
    split_ifs at h with hguard
    exact ⟨hguard, h⟩) hs
  exact ⟨s, he.1, he.2, joiners_awaited hguarded⟩

/-- The timer elects between the two statements of the join. -/
def lateJoinActs : List SchedAct :=
  [.tick 0, .create 0, .join 2, .go 0, .go 0, .tick 0]

/-- The joiner is then off the processor and entered in no thread. -/
theorem joiner_lost : ¬ ∀ s : Sched, Reachable Started Step s → s.JoinersAwaited := by
  intro hclaim
  have hval : (runActs exec schedInit lateJoinActs).map (fun s =>
      (s.activeThread, (s.threads initThread).map KernelThread.state, (s.pc initThread).joins,
        (s.threads 2).map KernelThread.joiningThread)) =
        some (2, some .joining, some 2, some none) := by decide +kernel
  obtain ⟨s, hs, he⟩ := Option.map_eq_some_iff.mp hval
  simp only [Prod.mk.injEq, Option.map_eq_some_iff] at he
  obtain ⟨hactive, ⟨t, ht, hstate⟩, hjoins, v, hv, hjoiner⟩ := he
  have hstart : Reachable Started Step schedInit := .start rfl
  have hreach := hstart.runActs (fun _ _ _ h => ⟨trivial, h⟩) hs
  obtain ⟨u, w, hu, hw, hentered, -⟩ := hclaim s hreach initThread t ht hstate (by rw [hactive]; decide)
  rw [hjoins] at hu
  cases hu
  rw [hv] at hw
  cases hw
  rw [hjoiner] at hentered
  cases hentered

end Sched

end UtkKernel.Scheduler
