import UtkKernel.Structures.KernelError
import UtkKernel.Scheduler.Counts

/-! # Reaping

A waitpid joins the main thread of a child, cleans the child and takes it out of the dead children of the
caller. It never asks whether the join failed, nor whether the child is there: where the join succeeds and
the child has exited by the system call, a child is cleaned once, after it has exited. -/

namespace UtkKernel.Scheduler
open Structures Sync Foundations
set_option autoImplicit false

/-! ## Dead children -/

/-- The process is among the dead children of the other one. -/
def DeadOf (ties : ℕ → Option Ties) (pid c : ℕ) : Prop := ∃ k, ties pid = some k ∧ c ∈ k.dead

theorem DeadOf.update {ties : ℕ → Option Ties} {pid x c : ℕ} {k k' : Ties} (h : DeadOf ties x c)
    (hk : ties pid = some k) (hdead : c ∈ k.dead → c ∈ k'.dead) :
    DeadOf (Function.update ties pid (some k')) x c := by
  obtain ⟨l, hl, hmem⟩ := h
  by_cases hx : x = pid
  · subst hx
    obtain rfl : l = k := Option.some.inj (hl.symm.trans hk)
    exact ⟨k', Function.update_self .., hdead hmem⟩
  · exact ⟨l, by rw [Function.update_of_ne hx, hl], hmem⟩

theorem DeadOf.of_update {ties : ℕ → Option Ties} {pid x c : ℕ} {k k' : Ties}
    (h : DeadOf (Function.update ties pid (some k')) x c) (hk : ties pid = some k) :
    DeadOf ties x c ∨ c ∈ k'.dead ∧ c ∉ k.dead := by
  obtain ⟨l, hl, hmem⟩ := h
  rw [Function.update_apply] at hl
  split_ifs at hl with hx
  · cases hl
    by_cases hc : c ∈ k.dead
    · exact .inl ⟨k, hx ▸ hk, hc⟩
    · exact .inr ⟨hmem, hc⟩
  · exact .inl ⟨l, hl, hmem⟩

theorem adopted_dead {ties : ℕ → Option Ties} {pid x : ℕ} {l : List ℕ} (hx : x ≠ pid) :
    (adopted ties pid l x).map Ties.dead = (ties x).map Ties.dead := by
  unfold adopted
  rw [if_neg hx]
  split_ifs <;> first | rfl | (rw [Option.map_map]; rfl)

namespace Sched

variable {s : Sched} {r : Roll} {act : SchedAct}

theorem cleanedProcess_of_ne (h : ∀ currentTime, act = .go currentTime →
    ∀ child, s.pc s.activeThread ≠ .waitClean child) : s.cleanedProcess act = [] := by
  unfold cleanedProcess
  split
  · rename_i time
    split
    · rename_i child hpc
      exact absurd hpc (h time rfl child)
    · rfl
  · rfl

theorem Joins.not_clean {tid : ℕ} {next : SchedPc} (h : s.Joins tid act next) : s.cleanedProcess act = [] := by
  cases h with
  | own hpc =>
    refine cleanedProcess_of_ne fun _ _ c hc => ?_
    rw [hc] at hpc
    exact hpc.elim nofun nofun
  | woken hpc =>
    refine cleanedProcess_of_ne fun _ _ c hc => ?_
    rw [hc] at hpc
    cases hpc
  | ended => rfl

theorem cleanedProcess_eq {child currentTime : ℕ} (hpc : s.pc s.activeThread = .waitClean child) :
    s.cleanedProcess (.go currentTime) = [child] := by
  unfold cleanedProcess
  simp only [hpc]

/-- What a step does to the links of the processes, as far as reaping reads them. -/
structure TiesStep (s : Sched) (act : SchedAct) (r : Roll) : Prop where
  dead : ∀ {pid c}, DeadOf s.roll.ties pid c → c ∉ s.reapedProcess act → pid ∉ s.cleanedProcess act →
    DeadOf r.ties pid c
  dead_new : ∀ {pid c}, DeadOf r.ties pid c → DeadOf s.roll.ties pid c ∨ c ∈ s.endedProcess act
  there : ∀ {c}, s.roll.ties c ≠ none → c ∉ s.cleanedProcess act → r.ties c ≠ none
  gone : ∀ {c}, s.roll.ties c = none → c < s.lastGivenPid → r.ties c = none
  cleaned : ∀ c ∈ s.cleanedProcess act, s.roll.ties c ≠ none ∧ r.ties c = none

theorem TiesStep.of_eq (h : r.ties = s.roll.ties) (hclean : s.cleanedProcess act = []) :
    TiesStep s act r := by
  refine ⟨fun hd _ _ => by rw [h]; exact hd, fun hd => .inl (by rw [← h]; exact hd),
    fun hne _ => by rw [h]; exact hne, fun hnone _ => by rw [h]; exact hnone, fun c hc => ?_⟩
  rw [hclean] at hc
  cases hc

/-- The queues of one process change. -/
theorem TiesStep.of_update {pid : ℕ} {k k' : Ties} (hk : s.roll.ties pid = some k)
    (h : r.ties = Function.update s.roll.ties pid (some k')) (hclean : s.cleanedProcess act = [])
    (hkeep : ∀ c ∈ k.dead, c ∉ s.reapedProcess act → c ∈ k'.dead)
    (hnew : ∀ c ∈ k'.dead, c ∉ k.dead → c ∈ s.endedProcess act) : TiesStep s act r := by
  have hnone : ∀ {c}, r.ties c = none ↔ s.roll.ties c = none := by
    intro c
    rw [h, Function.update_apply]
    split_ifs with hc
    · rw [hc, hk]
      exact iff_of_false nofun nofun
    · exact Iff.rfl
  refine ⟨fun hd hc _ => ?_, fun hd => ?_, fun hne _ => fun hr => hne (hnone.mp hr),
    fun hs _ => hnone.mpr hs, fun c hc => ?_⟩
  · rw [h]
    exact hd.update hk fun hmem => hkeep _ hmem hc
  · rw [h] at hd
    exact (hd.of_update hk).imp_right fun hc => hnew _ hc.1 hc.2
  · rw [hclean] at hc
    cases hc

theorem Move.tiesStep (h : s.Move act r) (hinv : TreeInv s.roll) : TiesStep s act r := by
  have hfam := hinv.families
  cases h with
  | stay _ _ _ _ hgo _ => exact .of_eq rfl (cleanedProcess_of_ne fun time hact c => (hgo time hact c).1)
  | create _ _ hp => exact .of_eq (Roll.ties_congr (r := s.roll) _ rfl hp rfl) rfl
  | @fork pid p hcount hhome hp =>
    have hk := Roll.ties_of_processes (r := s.roll) hp
    have hold : ∀ {x l}, s.roll.ties x = some l → x ≠ s.lastGivenPid := fun hx => (hfam.given hx).ne
    refine ⟨fun hd _ _ => ?_, fun hd => .inl ?_, fun hne _ hnone => hne ?_,
      fun {c} hnone hlt => ?_, nofun⟩
    · rw [Roll.ties_fork (r := s.roll) p rfl rfl]
      obtain ⟨l, hl, hmem⟩ : DeadOf (Function.update s.roll.ties pid (some { p.ties with
        children := kqueuePush s.lastGivenPid p.ties.children })) _ _ := hd.update hk id
      obtain ⟨_, hx, -⟩ := hd
      exact ⟨l, by rw [Function.update_of_ne (hold hx)]; exact hl, hmem⟩
    · rw [Roll.ties_fork (r := s.roll) p rfl rfl] at hd
      obtain ⟨l, hl, hmem⟩ := hd
      rw [Function.update_apply] at hl
      split_ifs at hl
      · cases hl
        cases hmem
      · exact (DeadOf.of_update ⟨l, hl, hmem⟩ hk).resolve_right fun hc => hc.2 hc.1
    · rw [Roll.ties_fork (r := s.roll) p rfl rfl, Function.update_apply, Function.update_apply] at hnone
      split_ifs at hnone
      exact hnone
    · have hne : c ≠ pid := by
        rintro rfl
        rw [hnone] at hk
        cases hk
      rw [Roll.ties_fork (r := s.roll) p rfl rfl, Function.update_of_ne hlt.ne, Function.update_of_ne hne,
        hnone]
  | failFork => exact .of_eq rfl rfl
  | @exitProcess pid parent p q hpc hhome hp hparent hq hchild =>
    refine .of_update (Roll.ties_of_processes (r := s.roll) hq) (Roll.ties_update (r := s.roll) { q with
      children := q.children.erase pid, deadChildren := kqueuePush pid q.deadChildren } rfl) rfl
      (fun c hc _ => List.mem_cons_of_mem _ hc) fun c hc hnot => ?_
    have hcp : c = pid := (List.mem_cons.mp hc).resolve_right hnot
    unfold endedProcess
    rw [hhome, hcp]
    exact List.mem_singleton_self pid
  | block => exact .of_eq rfl rfl
  | clash => exact .of_eq rfl rfl
  | cleanThread hjoins _ _ hp _ => exact .of_eq (Roll.Dropped.dropThread s.roll hp).ties hjoins.not_clean
  | @cleanProcess time child s1 hpc hclean =>
    obtain ⟨p, hp, hties, -⟩ := schedCleanProcess_roll hfam hclean
    have hk := Roll.ties_of_processes (r := s.roll) hp
    have hdead : ∀ {x}, x ≠ child → (s1.roll.ties x).map Ties.dead = (s.roll.ties x).map Ties.dead := by
      intro x hx
      rw [hties]
      exact adopted_dead hx
    have hself : s1.roll.ties child = none := by
      rw [hties]
      exact if_pos rfl
    have hmem : ∀ {x c}, DeadOf s1.roll.ties x c ↔ x ≠ child ∧ DeadOf s.roll.ties x c := by
      intro x c
      constructor
      · rintro ⟨k, hx, hc⟩
        have hne : x ≠ child := by
          rintro rfl
          rw [hself] at hx
          cases hx
        have hd := hdead hne
        rw [hx] at hd
        obtain ⟨l, hl, hkl⟩ := Option.map_eq_some_iff.mp hd.symm
        exact ⟨hne, l, hl, hkl ▸ hc⟩
      · rintro ⟨hne, k, hx, hc⟩
        have hd := hdead hne
        rw [hx] at hd
        obtain ⟨l, hl, hkl⟩ := Option.map_eq_some_iff.mp hd
        exact ⟨l, hl, hkl ▸ hc⟩
    have hnone : ∀ {x}, x ≠ child → (s1.roll.ties x = none ↔ s.roll.ties x = none) := by
      intro x hx
      rw [← Option.map_eq_none_iff (f := Ties.dead), hdead hx, Option.map_eq_none_iff]
    have hin : ∀ {x}, x ∈ s.cleanedProcess (.go time) ↔ x = child := by
      intro x
      rw [cleanedProcess_eq hpc, List.mem_singleton]
    refine ⟨fun hd _ hx => hmem.mpr ⟨fun he => hx (hin.mpr he), hd⟩, fun hd => .inl (hmem.mp hd).2,
      fun {c} hne hc hr => hne ?_, fun {c} hr _ => ?_, fun c hc => ?_⟩
    · exact (hnone fun he => hc (hin.mpr he)).mp hr
    · by_cases hc : c = child
      · exact hc ▸ hself
      · exact (hnone hc).mpr hr
    · rw [hin.mp hc]
      exact ⟨by rw [hk]; exact Option.some_ne_none _, hself⟩
  | @remove time child pid p hpc hhome hp hdead =>
    have hreap : s.reapedProcess (.go time) = [child] := by
      unfold reapedProcess
      simp only [hpc]
    refine .of_update (Roll.ties_of_processes (r := s.roll) hp) (Roll.ties_update (r := s.roll) { p with
      deadChildren := p.deadChildren.erase child } rfl)
      (cleanedProcess_of_ne fun _ _ c hc => by rw [hpc] at hc; cases hc) (fun c hc hnot => ?_)
      fun c hc hnot => absurd (List.mem_of_mem_erase hc) hnot
    rw [hreap, List.mem_singleton] at hnot
    exact (List.mem_erase_of_ne hnot).mpr hc

end Sched

/-! ## Threads and their processes -/

/-- Every thread in the table is in the queue of its process. -/
def Roll.Members (r : Roll) : Prop :=
  ∀ u pid, r.home u = some pid → ∃ p, r.processes pid = some p ∧ u ∈ p.threads

theorem Roll.Members.congr {r r' : Roll} (h : r.Members) (hhome : r'.home = r.home)
    (hprocesses : ∀ {pid p}, r.processes pid = some p →
      ∃ p', r'.processes pid = some p' ∧ ∀ u ∈ p.threads, u ∈ p'.threads) : r'.Members := by
  intro u pid hu
  rw [hhome] at hu
  obtain ⟨p, hp, hmem⟩ := h u pid hu
  obtain ⟨p', hp', hsub⟩ := hprocesses hp
  exact ⟨p', hp', hsub u hmem⟩

theorem Roll.members_keep {processes : ℕ → Option KernelProcess} {pid x : ℕ} {p p0 q : KernelProcess}
    (hp : processes pid = some p) (hthreads : ∀ u ∈ p.threads, u ∈ q.threads) (hx : processes x = some p0) :
    ∃ p', Function.update processes pid (some q) x = some p' ∧ ∀ u ∈ p0.threads, u ∈ p'.threads := by
  by_cases hxp : x = pid
  · subst hxp
    obtain rfl : p0 = p := Option.some.inj (hx.symm.trans hp)
    exact ⟨q, Function.update_self .., hthreads⟩
  · exact ⟨p0, by rw [Function.update_of_ne hxp, hx], fun _ hu => hu⟩

theorem Roll.Members.drop {r r' : Roll} {threads : List ℕ} (h : r.Members)
    (hhome : ∀ u, r'.home u = if u ∈ threads then none else r.home u)
    (hprocesses : ∀ {pid p'}, r'.processes pid = some p' → ∃ p, r.processes pid = some p ∧
      (∀ u ∈ p'.threads, u ∈ p.threads) ∧ ∀ u ∈ p.threads, u ∉ threads → u ∈ p'.threads)
    (hthere : ∀ {pid p u}, r.processes pid = some p → u ∈ p.threads → u ∉ threads →
      r'.processes pid ≠ none) : r'.Members := by
  intro u pid hu
  rw [hhome] at hu
  split_ifs at hu with hnot
  obtain ⟨p, hp, hmem⟩ := h u pid hu
  obtain ⟨p', hp'⟩ := Option.ne_none_iff_exists'.mp (hthere hp hmem hnot)
  obtain ⟨p0, hp0, -, hkeep⟩ := hprocesses hp'
  obtain rfl : p0 = p := Option.some.inj (hp0.symm.trans hp)
  exact ⟨p', hp', hkeep u hmem hnot⟩

namespace Sched

variable {s : Sched} {r : Roll} {act : SchedAct}

theorem Move.members (h : s.Move act r) (hinv : TreeInv s.roll) (hmem : s.roll.Members) : r.Members := by
  cases h with
  | stay => exact hmem
  | @create priority pid p hpriority hhome hp =>
    intro u x hu
    change Function.update s.roll.home s.lastGivenTid (some pid) u = some x at hu
    change ∃ q, Function.update s.processes pid (some { p with
      threads := kqueuePush s.lastGivenTid p.threads }) x = some q ∧ u ∈ q.threads
    rw [Function.update_apply] at hu
    split_ifs at hu with hnew
    · cases hu
      exact ⟨_, Function.update_self .., hnew ▸ List.mem_cons_self ..⟩
    · obtain ⟨p0, hp0, hmem0⟩ := hmem u x hu
      obtain ⟨p', hp', hsub⟩ := Roll.members_keep (q := { p with
        threads := kqueuePush s.lastGivenTid p.threads }) hp (fun v hv => List.mem_cons_of_mem _ hv) hp0
      exact ⟨p', hp', hsub u hmem0⟩
  | @fork pid p hcount hhome hp =>
    intro u x hu
    change Function.update s.roll.home s.lastGivenTid (some s.lastGivenPid) u = some x at hu
    change ∃ q, Function.update (Function.update s.processes pid (some { p with
      children := kqueuePush s.lastGivenPid p.children })) s.lastGivenPid
      (some ⟨some pid, s.lastGivenTid, [s.lastGivenTid], [], []⟩) x = some q ∧ u ∈ q.threads
    rw [Function.update_apply] at hu
    split_ifs at hu with hnew
    · cases hu
      exact ⟨_, Function.update_self .., hnew ▸ List.mem_singleton_self _⟩
    · obtain ⟨p0, hp0, hmem0⟩ := hmem u x hu
      obtain ⟨p', hp', hsub⟩ := Roll.members_keep (q := { p with
        children := kqueuePush s.lastGivenPid p.children }) hp (fun _ hv => hv) hp0
      have hlt : x < s.lastGivenPid := hinv.families.given (Roll.ties_of_processes (r := s.roll) hp0)
      exact ⟨p', by rw [Function.update_of_ne hlt.ne]; exact hp', hsub u hmem0⟩
  | failFork => exact hmem
  | @exitProcess pid parent p q hpc hhome hp hparent hq hchild =>
    exact hmem.congr rfl fun hx => Roll.members_keep (q := { q with
      children := q.children.erase pid, deadChildren := kqueuePush pid q.deadChildren }) hq (fun _ hu => hu) hx
  | block => exact hmem
  | clash => exact hmem
  | @cleanThread _ next tid pid p _ _ _ hp _ =>
    have hdropped : Roll.Dropped s.roll (s.roll.dropThread tid pid p) [tid] := .dropThread s.roll hp
    refine hmem.drop hdropped.home hdropped.members fun {x q u} hq _ _ hnone => ?_
    have hties : (s.roll.dropThread tid pid p).ties x = some q.ties := by
      rw [hdropped.ties]
      exact Roll.ties_of_processes hq
    unfold Roll.ties at hties
    rw [show (s.roll.dropThread tid pid p).processes x = none from hnone] at hties
    cases hties
  | @cleanProcess time child s1 hpc hclean =>
    obtain ⟨p, hp, hties, hhome, hprocesses, -⟩ := schedCleanProcess_roll hinv.families hclean
    refine hmem.drop hhome hprocesses fun {x q u} hq hu hnot hnone => ?_
    have hx : x ≠ child := by
      rintro rfl
      obtain rfl : q = p := Option.some.inj (hq.symm.trans hp)
      exact hnot hu
    obtain ⟨k, hk, -⟩ := Families.adopted_of_ne (l := p.children)
      (Roll.ties_of_processes (r := s.roll) hq) hx
    rw [← hties, Roll.ties] at hk
    rw [show s1.roll.processes x = none from hnone] at hk
    cases hk
  | @remove time child pid p hpc hhome hp hdead =>
    exact hmem.congr rfl fun hx => Roll.members_keep (q := { p with
      deadChildren := p.deadChildren.erase child }) hp (fun _ hu => hu) hx

/-- A thread that is in the table after a step was there before and its process was not cleaned, or it is
new. -/
theorem Move.home (h : s.Move act r) (hinv : TreeInv s.roll) (hmem : s.roll.Members) {u pid : ℕ}
    (hu : r.home u = some pid) :
    s.roll.home u = some pid ∧ pid ∉ s.cleanedProcess act ∨ r.pc u = .user := by
  cases h with
  | stay _ _ _ _ hgo _ =>
    rw [cleanedProcess_of_ne fun time hact c => (hgo time hact c).1]
    exact .inl ⟨hu, List.not_mem_nil⟩
  | create =>
    change Function.update s.roll.home s.lastGivenTid _ u = some pid at hu
    change _ ∨ Function.update s.pc s.lastGivenTid .user u = .user
    rw [Function.update_apply] at hu ⊢
    split_ifs at hu ⊢
    · exact .inr rfl
    · exact .inl ⟨hu, List.not_mem_nil⟩
  | fork =>
    change Function.update s.roll.home s.lastGivenTid _ u = some pid at hu
    change _ ∨ Function.update s.pc s.lastGivenTid .user u = .user
    rw [Function.update_apply] at hu ⊢
    split_ifs at hu ⊢
    · exact .inr rfl
    · exact .inl ⟨hu, List.not_mem_nil⟩
  | failFork => exact .inl ⟨hu, List.not_mem_nil⟩
  | exitProcess => exact .inl ⟨hu, List.not_mem_nil⟩
  | block => exact .inl ⟨hu, List.not_mem_nil⟩
  | clash => exact .inl ⟨hu, List.not_mem_nil⟩
  | @cleanThread _ next tid x p hjoins _ _ hp _ =>
    rw [hjoins.not_clean]
    have hdropped : Roll.Dropped s.roll (s.roll.dropThread tid x p) [tid] := .dropThread s.roll hp
    change (s.roll.dropThread tid x p).home u = some pid at hu
    rw [hdropped.home] at hu
    split_ifs at hu
    exact .inl ⟨hu, List.not_mem_nil⟩
  | @cleanProcess time child s1 hpc hclean =>
    obtain ⟨p, hp, -, hhome, -⟩ := schedCleanProcess_roll hinv.families hclean
    change s1.roll.home u = some pid at hu
    rw [hhome] at hu
    split_ifs at hu with hnot
    rw [cleanedProcess_eq hpc, List.mem_singleton]
    refine .inl ⟨hu, ?_⟩
    rintro rfl
    obtain ⟨q, hq, hin⟩ := hmem u pid hu
    obtain rfl : q = p := Option.some.inj (hq.symm.trans hp)
    exact hnot hin
  | remove hpc _ _ _ =>
    rw [cleanedProcess_of_ne fun _ _ c hc => by rw [hpc] at hc; cases hc]
    exact .inl ⟨hu, List.not_mem_nil⟩

/-- How the active thread comes to a point of a waitpid for a child. -/
inductive Waits (s : Sched) (c : ℕ) : SchedAct → SchedPc → Prop
  | same {act : SchedAct} (hpc : (s.pc s.activeThread).child = some c) (hreaped : s.reapedProcess act = [])
      (hcleaned : s.cleanedProcess act = []) : Waits s c act (s.pc s.activeThread)
  | woken {act : SchedAct} {main : ℕ} (hpc : s.pc s.activeThread = .waitYield c main) :
      Waits s c act (.waitJoined c main)
  | blocked {main : ℕ} (hchild : s.hasChild c = true) : Waits s c (.waitpid c) (.waitYield c main)
  | refused (hchild : s.hasChild c = true) (hjoined : s.mainJoined c = true) :
      Waits s c (.waitpid c) (.waitClean c)
  | ended (hchild : s.hasChild c = true) (hended : s.mainEnded c = true) :
      Waits s c (.waitpid c) (.waitClean c)
  | joined {main currentTime : ℕ} (hpc : s.pc s.activeThread = .waitJoined c main) :
      Waits s c (.go currentTime) (.waitClean c)
  | cleaned {currentTime : ℕ} (hpc : s.pc s.activeThread = .waitClean c) :
      Waits s c (.go currentTime) (.waitRemove c)

theorem Move.waits (h : s.Move act r) {c : ℕ} (hc : (r.pc s.activeThread).child = some c) :
    Waits s c act (r.pc s.activeThread) := by
  have hfresh : ∀ {tid : ℕ} {act : SchedAct}, s.reapedProcess act = [] → s.cleanedProcess act = [] →
      (Function.update s.pc tid .user s.activeThread).child = some c →
      Waits s c act (Function.update s.pc tid .user s.activeThread) := by
    intro tid act hreaped hcleaned hc
    rw [Function.update_apply] at hc ⊢
    split_ifs at hc ⊢
    · cases hc
    · exact .same hc hreaped hcleaned
  cases h with
  | @stay act next _ _ _ _ hgo hnext =>
    rw [Roll.setPc_pc] at hc ⊢
    rcases hnext with ⟨rfl, -⟩ | ⟨hnone, -⟩ | ⟨child, main, hpc, rfl⟩
    · exact .same hc (reapedProcess_of_ne fun time hact c => (hgo time hact c).2)
        (cleanedProcess_of_ne fun time hact c => (hgo time hact c).1)
    · rw [hnone] at hc
      cases hc
    · cases hc
      exact .woken hpc
  | create => exact hfresh rfl rfl hc
  | fork => exact hfresh rfl rfl hc
  | failFork => exact .same hc rfl rfl
  | exitProcess =>
    rw [Roll.setPc_pc] at hc
    cases hc
  | block hpc hchild _ =>
    rw [Roll.setPc_pc] at hc ⊢
    cases hc
    exact .blocked hchild
  | clash hpc hchild hjoined =>
    rw [Roll.setPc_pc] at hc ⊢
    cases hc
    exact .refused hchild hjoined
  | cleanThread hjoins _ _ _ _ =>
    rw [Roll.setPc_pc] at hc ⊢
    cases hjoins with
    | own => cases hc
    | woken hpc =>
      cases hc
      exact .joined hpc
    | ended _ hchild _ hended =>
      cases hc
      exact .ended hchild hended
  | cleanProcess hpc _ =>
    rw [Roll.setPc_pc] at hc ⊢
    cases hc
    exact .cleaned hpc
  | remove =>
    rw [Roll.setPc_pc] at hc
    cases hc

theorem Waits.child {c : ℕ} {next : SchedPc} (h : Waits s c act next) :
    (s.pc s.activeThread).child = some c ∨ act = .waitpid c ∧ s.hasChild c = true := by
  cases h with
  | same hpc => exact .inl hpc
  | woken hpc => exact .inl (by rw [hpc]; rfl)
  | blocked hchild => exact .inr ⟨rfl, hchild⟩
  | refused hchild => exact .inr ⟨rfl, hchild⟩
  | ended hchild => exact .inr ⟨rfl, hchild⟩
  | joined hpc => exact .inl (by rw [hpc]; rfl)
  | cleaned hpc => exact .inl (by rw [hpc]; rfl)

theorem pc_of_reaped {c : ℕ} (h : c ∈ s.reapedProcess act) : s.pc s.activeThread = .waitRemove c := by
  unfold reapedProcess at h
  split at h
  · split at h
    · rename_i child hpc
      rw [hpc, List.mem_singleton.mp h]
    · cases h
  · cases h

theorem pc_of_cleaned {c : ℕ} (h : c ∈ s.cleanedProcess act) : s.pc s.activeThread = .waitClean c := by
  unfold cleanedProcess at h
  split at h
  · split at h
    · rename_i child hpc
      rw [hpc, List.mem_singleton.mp h]
    · cases h
  · cases h

/-! ## The condition -/

/-- The child is among the dead children of the active process, and is there. -/
def hasDeadChild (s : Sched) (child : ℕ) : Bool :=
  s.activeProcess.any (fun p => decide (child ∈ p.deadChildren)) && (s.processes child).isSome

/-- No thread is in a waitpid for the child. -/
def unawaited (s : Sched) (child : ℕ) : Bool :=
  (List.range s.lastGivenTid).all fun tid => decide ((s.pc tid).child ≠ some child)

/-- A waitpid is called for a child that no thread is in a waitpid for and whose main thread no thread
joins. When its join returns, the child is among the dead children of the caller. -/
def ReapsExited (s : Sched) : SchedAct → Prop
  | .waitpid child => s.hasChild child = true → s.mainJoined child = false ∧ s.unawaited child = true ∧
      (s.mainEnded child = true → s.hasDeadChild child = true)
  | .go _ =>
    match s.pc s.activeThread with
    | .waitJoined child _ => s.hasDeadChild child = true
    | _ => True
  | _ => True

instance (s : Sched) : (act : SchedAct) → Decidable (s.ReapsExited act)
  | .waitpid _ => inferInstanceAs (Decidable (_ → _ ∧ _ ∧ (_ → _)))
  | .go _ =>
    let woken : (pc : SchedPc) → Decidable (match pc with
        | .waitJoined child _ => s.hasDeadChild child = true
        | _ => True)
      | .waitJoined _ _ => inferInstanceAs (Decidable (_ = _))
      | .user | .yield | .joinCheck _ | .joinState _ | .joinSet _ | .joinYield _ | .joinClean _ | .exitJoiner
      | .waitYield _ _ | .waitClean _ | .waitRemove _ => .isTrue trivial
    woken (s.pc s.activeThread)
  | .tick _ | .sleep _ _ | .create _ | .fork _ | .futexWait _ _ _ _ | .futexWake _ _ _ | .setPriority _ | .join _
  | .exit | .exitProcess => .isTrue trivial

/-- The error a waitpid reports: the process is no child of the caller, or the join is refused. -/
def waitpidError (s : Sched) (child : ℕ) : Option OsReturnE :=
  if s.hasChild child = false then some .osErrNoSuchId
  else if s.mainJoined child then some .osErrUnauthorizedAction
  else none

theorem deadOf_of_hasDeadChild {c : ℕ} (h : s.hasDeadChild c = true) :
    ∃ pid, s.roll.home s.activeThread = some pid ∧ DeadOf s.roll.ties pid c ∧ s.roll.ties c ≠ none := by
  unfold hasDeadChild at h
  obtain ⟨hdead, hthere⟩ := Bool.and_eq_true_iff.mp h
  cases hp : s.activeProcess with
  | none =>
    rw [hp] at hdead
    cases hdead
  | some p =>
    rw [hp, Option.any_some, decide_eq_true_eq] at hdead
    obtain ⟨t, ht, hpid⟩ := Option.bind_eq_some_iff.mp hp
    obtain ⟨q, hq⟩ := Option.isSome_iff_exists.mp hthere
    refine ⟨t.process, roll_home ht, ⟨p.ties, Roll.ties_of_processes hpid, hdead⟩, ?_⟩
    rw [Roll.ties_of_processes (r := s.roll) hq]
    exact Option.some_ne_none _

end Sched

/-! ## The invariant -/

/-- Only one thread is in a waitpid for a child. A child that is to be cleaned is among the dead children of
the process that waits for it, and stays there until it is taken out; those have exited. -/
structure ReapInv (l : Ledger) : Prop where
  count : CountInv l
  members : l.sched.roll.Members
  unique : ∀ {u v c}, l.sched.roll.home u ≠ none → l.sched.roll.home v ≠ none →
    (l.sched.pc u).child = some c → (l.sched.pc v).child = some c → u = v
  atClean : ∀ {u pid c}, l.sched.roll.home u = some pid → l.sched.pc u = .waitClean c →
    DeadOf l.sched.roll.ties pid c ∧ l.sched.roll.ties c ≠ none
  atRemove : ∀ {u pid c}, l.sched.roll.home u = some pid → l.sched.pc u = .waitRemove c →
    DeadOf l.sched.roll.ties pid c ∧ c ∈ l.cleanedProcesses
  exited : ∀ {pid c}, DeadOf l.sched.roll.ties pid c → c ∈ l.exitedProcesses
  cleaned : l.cleanedProcesses.Nodup ∧ ∀ c ∈ l.cleanedProcesses,
    l.sched.roll.ties c = none ∧ c < l.sched.lastGivenPid ∧ c ∈ l.exitedProcesses

namespace ReapInv
open Sched

variable {l : Ledger} {act : SchedAct} {s' : Sched}

/-- A thread that is in a waitpid after a step was in the table before, and at that point unless it acts. -/
theorem back (h : ReapInv l) (hexec : l.sched.exec act = some s') {u c : ℕ}
    (hu : s'.roll.home u ≠ none) (hc : (s'.pc u).child = some c) : l.sched.roll.home u ≠ none ∧
      (∀ pid, s'.roll.home u = some pid → l.sched.roll.home u = some pid ∧ pid ∉ l.sched.cleanedProcess act) ∧
      (u = l.sched.activeThread ∨ s'.pc u = l.sched.pc u) := by
  have hm := exec_move hexec
  have hnot : s'.pc u ≠ .user := by
    intro huser
    rw [huser] at hc
    cases hc
  have hhome : ∀ pid, s'.roll.home u = some pid →
      l.sched.roll.home u = some pid ∧ pid ∉ l.sched.cleanedProcess act :=
    fun pid hpid => (hm.home h.count.tree h.members hpid).resolve_right hnot
  refine ⟨?_, hhome, ?_⟩
  · obtain ⟨pid, hpid⟩ := Option.ne_none_iff_exists'.mp hu
    rw [(hhome pid hpid).1]
    exact Option.some_ne_none _
  · by_cases hua : u = l.sched.activeThread
    · exact .inl hua
    · exact .inr ((hm.pc_of_ne hua).resolve_right fun hnew => hnot hnew.1)

/-- A dead child that a thread is about to clean or to take out stays, unless that is what the step does. -/
theorem dead_kept (h : ReapInv l) (hexec : l.sched.exec act = some s') {u pid c : ℕ}
    (hdead : DeadOf l.sched.roll.ties pid c) (hpid : pid ∉ l.sched.cleanedProcess act)
    (hu : l.sched.roll.home u ≠ none) (hpc : (l.sched.pc u).child = some c)
    (hne : u = l.sched.activeThread → l.sched.reapedProcess act = []) : DeadOf s'.roll.ties pid c := by
  have hactive : l.sched.roll.home l.sched.activeThread ≠ none := by
    obtain ⟨t, ht, -⟩ := Option.bind_eq_some_iff.mp hexec
    rw [roll_home ht]
    exact Option.some_ne_none _
  refine ((exec_move hexec).tiesStep h.count.tree).dead hdead (fun hc => ?_) hpid
  have hpca := pc_of_reaped hc
  have hua := h.unique hu hactive hpc (by rw [hpca]; rfl)
  rw [hne hua] at hc
  cases hc

theorem active_home (hexec : l.sched.exec act = some s') :
    l.sched.roll.home l.sched.activeThread ≠ none := by
  obtain ⟨t, ht, -⟩ := Option.bind_eq_some_iff.mp hexec
  rw [roll_home ht]
  exact Option.some_ne_none _

theorem atClean_step (h : ReapInv l) (hguard : l.sched.ReapsExited act)
    (hexec : l.sched.exec act = some s') {u pid c : ℕ} (hu : s'.roll.home u = some pid)
    (hpc : s'.pc u = .waitClean c) : DeadOf s'.roll.ties pid c ∧ s'.roll.ties c ≠ none := by
  have hties := (exec_move hexec).tiesStep h.count.tree
  obtain ⟨hthere, hhome, hmoved⟩ := h.back hexec (u := u) (c := c)
    (by rw [hu]; exact Option.some_ne_none _) (by rw [hpc]; rfl)
  obtain ⟨hpid, hnot⟩ := hhome pid hu
  -- the child is a dead child there, and the step neither cleans it nor takes it out
  have hkeep : DeadOf l.sched.roll.ties pid c → l.sched.roll.ties c ≠ none →
      l.sched.reapedProcess act = [] → l.sched.cleanedProcess act = [] →
      DeadOf s'.roll.ties pid c ∧ s'.roll.ties c ≠ none := by
    intro hdead hc hreaped hcleaned
    exact ⟨hties.dead hdead (by rw [hreaped]; exact List.not_mem_nil) hnot,
      hties.there hc (by rw [hcleaned]; exact List.not_mem_nil)⟩
  have hgranted : l.sched.hasDeadChild c = true → u = l.sched.activeThread →
      DeadOf l.sched.roll.ties pid c ∧ l.sched.roll.ties c ≠ none := by
    rintro hdead rfl
    obtain ⟨x, hx, hd, hc⟩ := deadOf_of_hasDeadChild hdead
    rw [hpid] at hx
    cases hx
    exact ⟨hd, hc⟩
  by_cases hua : u = l.sched.activeThread
  · subst hua
    have hwaits := (exec_move hexec).waits (c := c) (by
      rw [show s'.roll.pc _ = _ from hpc]; rfl)
    generalize hnext : s'.roll.pc l.sched.activeThread = next at hwaits
    have hnext' : next = .waitClean c := hnext.symm.trans hpc
    cases hwaits with
    | same _ hreaped hcleaned =>
      obtain ⟨hdead, hc⟩ := h.atClean hpid hnext'
      exact hkeep hdead hc hreaped hcleaned
    | refused hchild hjoined =>
      have hfalse := (hguard hchild).1
      rw [hjoined] at hfalse
      cases hfalse
    | ended hchild hended =>
      obtain ⟨hdead, hc⟩ := hgranted ((hguard hchild).2.2 hended) rfl
      exact hkeep hdead hc rfl rfl
    | joined hjoined =>
      have hdead : l.sched.hasDeadChild c = true := by
        unfold ReapsExited at hguard
        simpa only [hjoined] using hguard
      obtain ⟨hdead, hc⟩ := hgranted hdead rfl
      exact hkeep hdead hc (reapedProcess_of_ne fun _ _ x hx => by rw [hjoined] at hx; cases hx)
        (cleanedProcess_of_ne fun _ _ x hx => by rw [hjoined] at hx; cases hx)
    | woken => cases hnext'
    | blocked => cases hnext'
    | cleaned => cases hnext'
  · have hsame := hmoved.resolve_left hua
    rw [hpc] at hsame
    obtain ⟨hdead, hc⟩ := h.atClean hpid hsame.symm
    refine ⟨h.dead_kept hexec hdead hnot hthere (by rw [← hsame]; rfl) fun he => absurd he hua,
      hties.there hc fun hmem => hua ?_⟩
    exact h.unique hthere (active_home hexec) (by rw [← hsame]; rfl) (by rw [pc_of_cleaned hmem]; rfl)

theorem atRemove_step (h : ReapInv l) (hexec : l.sched.exec act = some s') {u pid c : ℕ}
    (hu : s'.roll.home u = some pid) (hpc : s'.pc u = .waitRemove c) :
    DeadOf s'.roll.ties pid c ∧ c ∈ l.sched.cleanedProcess act ++ l.cleanedProcesses := by
  obtain ⟨hthere, hhome, hmoved⟩ := h.back hexec (u := u) (c := c)
    (by rw [hu]; exact Option.some_ne_none _) (by rw [hpc]; rfl)
  obtain ⟨hpid, hnot⟩ := hhome pid hu
  by_cases hua : u = l.sched.activeThread
  · subst hua
    have hwaits := (exec_move hexec).waits (c := c) (by
      rw [show s'.roll.pc _ = _ from hpc]; rfl)
    generalize hnext : s'.roll.pc l.sched.activeThread = next at hwaits
    have hnext' : next = .waitRemove c := hnext.symm.trans hpc
    cases hwaits with
    | same hchild hreaped _ =>
      obtain ⟨hdead, hc⟩ := h.atRemove hpid hnext'
      exact ⟨h.dead_kept hexec hdead hnot hthere hchild fun _ => hreaped, List.mem_append_right _ hc⟩
    | cleaned hclean =>
      refine ⟨h.dead_kept hexec (h.atClean hpid hclean).1 hnot hthere (by rw [hclean]; rfl) fun _ => ?_, ?_⟩
      · exact reapedProcess_of_ne fun _ _ x hx => by rw [hclean] at hx; cases hx
      · rw [cleanedProcess_eq hclean]
        exact List.mem_cons_self ..
    | woken => cases hnext'
    | blocked => cases hnext'
    | refused => cases hnext'
    | ended => cases hnext'
    | joined => cases hnext'
  · have hsame := hmoved.resolve_left hua
    rw [hpc] at hsame
    obtain ⟨hdead, hc⟩ := h.atRemove hpid hsame.symm
    exact ⟨h.dead_kept hexec hdead hnot hthere (by rw [← hsame]; rfl) fun he => absurd he hua,
      List.mem_append_right _ hc⟩

theorem step (h : ReapInv l) (hguard : l.sched.ReapsExited act) (hexec : l.sched.exec act = some s') :
    ReapInv (l.record act s') := by
  have hm := exec_move hexec
  have htree := h.count.tree
  have hties := hm.tiesStep htree
  have hactive : l.sched.roll.home l.sched.activeThread ≠ none := by
    obtain ⟨t, ht, -⟩ := Option.bind_eq_some_iff.mp hexec
    rw [roll_home ht]
    exact Option.some_ne_none _
  have hwaits : ∀ {c}, (s'.pc l.sched.activeThread).child = some c →
      Waits l.sched c act (s'.pc l.sched.activeThread) := fun hc => hm.waits hc
  -- a thread that does not act is not in a waitpid for the child that the acting one is
  have hother : ∀ {u c}, s'.roll.home u ≠ none → u ≠ l.sched.activeThread → (s'.pc u).child = some c →
      (s'.pc l.sched.activeThread).child ≠ some c := by
    intro u c hu hne hc ha
    obtain ⟨hhome, -, hpc⟩ := h.back hexec hu hc
    rw [hpc.resolve_left hne] at hc
    rcases (hwaits ha).child with hold | ⟨rfl, hchild⟩
    · exact hne (h.unique hhome hactive hc hold)
    · have hunawaited := (hguard hchild).2.1
      unfold unawaited at hunawaited
      have hlt := h.count.createdThreads.2 u (h.count.known u (.inl hhome))
      have hnot := List.all_eq_true.mp hunawaited u (List.mem_range.mpr hlt)
      rw [decide_eq_true_eq] at hnot
      exact hnot hc
  refine ⟨h.count.step hexec, hm.members htree h.members, fun {u v c} hu hv huc hvc => ?_,
    fun {u pid c} hu hpc => ?_, fun {u pid c} hu hpc => ?_, fun {pid c} hd => ?_, ?_, fun c hc => ?_⟩
  · by_cases hua : u = l.sched.activeThread <;> by_cases hva : v = l.sched.activeThread
    · rw [hua, hva]
    · exact absurd (hua ▸ huc) (hother hv hva hvc)
    · exact absurd (hva ▸ hvc) (hother hu hua huc)
    · obtain ⟨hu', -, hpcu⟩ := h.back hexec hu huc
      obtain ⟨hv', -, hpcv⟩ := h.back hexec hv hvc
      change (s'.pc u).child = some c at huc
      change (s'.pc v).child = some c at hvc
      rw [hpcu.resolve_left hua] at huc
      rw [hpcv.resolve_left hva] at hvc
      exact h.unique hu' hv' huc hvc
  · exact h.atClean_step hguard hexec hu hpc
  · exact h.atRemove_step hexec hu hpc
  · rcases hties.dead_new hd with hold | hnew
    · exact List.mem_append_right _ (h.exited hold)
    · exact List.mem_append_left _ hnew
  · have hnodup : (l.sched.cleanedProcess act).Nodup := by
      unfold cleanedProcess
      split
      · split
        · exact List.nodup_singleton _
        · exact List.nodup_nil
      · exact List.nodup_nil
    refine List.nodup_append'.mpr ⟨hnodup, h.cleaned.1, fun c hc hmem => ?_⟩
    exact (hties.cleaned c hc).1 (h.cleaned.2 c hmem).1
  · have hgiven : l.sched.lastGivenPid ≤ s'.lastGivenPid :=
      (Nat.le_add_right _ _).trans (hm.counts htree.families).2.2.1.ge
    rcases List.mem_append.mp hc with hc | hc
    · have hpca := pc_of_cleaned hc
      obtain ⟨pid, hpid⟩ := Option.ne_none_iff_exists'.mp hactive
      have hexited := h.exited (h.atClean hpid hpca).1
      have hlt := (htree.waited l.sched.activeThread c (by
        rw [show l.sched.roll.pc _ = _ from hpca]; rfl)).2
      exact ⟨(hties.cleaned c hc).2, lt_of_lt_of_le hlt hgiven, List.mem_append_right _ hexited⟩
    · obtain ⟨hnone, hlt, hexited⟩ := h.cleaned.2 c hc
      exact ⟨hties.gone hnone hlt, hlt.trans_le hgiven, List.mem_append_right _ hexited⟩

theorem init : ReapInv Ledger.init := by
  have hdead : ∀ {pid c}, ¬ DeadOf schedInit.roll.ties pid c := by
    rintro pid c ⟨k, hk, hc⟩
    obtain ⟨p, hp, rfl⟩ := Option.map_eq_some_iff.mp hk
    change (if pid = mainKprocess then _ else none) = some p at hp
    split_ifs at hp
    cases hp
    cases hc
  refine ⟨CountInv.init, fun u pid hu => ?_, nofun, nofun, nofun, fun hd => absurd hd hdead,
    List.nodup_nil, nofun⟩
  obtain ⟨t, ht, hpid⟩ := Option.map_eq_some_iff.mp hu
  change (if u = idleThread then _ else if u = initThread then _ else none) = some t at ht
  split_ifs at ht with hidle hinit
  · cases ht
    exact ⟨_, if_pos hpid.symm, by rw [hidle]; decide⟩
  · cases ht
    exact ⟨_, if_pos hpid.symm, by rw [hinit]; decide⟩

end ReapInv

namespace Ledger
open Sched

/-- A child is cleaned at most once, after it has exited, and is then among the dead children of the caller;
it is taken out of them, and is in no queue after. A waitpid that reports an error changes nothing. -/
structure ReapsOnce (l : Ledger) (act : SchedAct) (l' : Ledger) : Prop where
  once : l'.cleanedProcesses.Nodup
  terminated : ∀ c ∈ l'.cleanedProcesses, c ∈ l'.exitedProcesses
  cleaned : ∀ c ∈ l.sched.cleanedProcess act, c ∉ l.cleanedProcesses ∧ c ∈ l.exitedProcesses ∧
    l.sched.hasDeadChild c = true
  removed : ∀ c ∈ l.sched.reapedProcess act, c ∈ l.cleanedProcesses ∧
    (∃ p, l.sched.activeProcess = some p ∧ c ∈ p.deadChildren) ∧
    ∀ pid p, l'.sched.processes pid = some p → c ∉ p.children ∧ c ∉ p.deadChildren
  untouched : ∀ c, act = .waitpid c → l.sched.waitpidError c ≠ none → l'.sched = l.sched

variable {l l' : Ledger} {act : SchedAct}

theorem exists_activeProcess {s : Sched} {pid c : ℕ} (hpid : s.roll.home s.activeThread = some pid)
    (hdead : DeadOf s.roll.ties pid c) : ∃ p, s.activeProcess = some p ∧ c ∈ p.deadChildren := by
  obtain ⟨t, ht, rfl⟩ := Option.map_eq_some_iff.mp hpid
  obtain ⟨k, hk, hc⟩ := hdead
  obtain ⟨p, hp, rfl⟩ := Option.map_eq_some_iff.mp hk
  exact ⟨p, by rw [activeProcess, ht]; exact hp, hc⟩

theorem exec_waitpid_of_not_hasChild {s s' : Sched} {c : ℕ} (h : s.exec (.waitpid c) = some s')
    (hchild : s.hasChild c = false) : s' = s := by
  obtain ⟨t, ht, hact⟩ := Option.bind_eq_some_iff.mp h
  dsimp only at hact
  split_ifs at hact
  obtain ⟨p, hp, hfound⟩ := Option.bind_eq_some_iff.mp hact
  rw [hasChild_of ht hp c, decide_eq_false_iff_not, not_or] at hchild
  rw [if_pos hchild] at hfound
  exact (Option.some.inj hfound).symm

/-- A step that the condition allows. -/
def reapingExec (l : Ledger) (act : SchedAct) : Option Ledger :=
  if l.sched.ReapsExited act then l.exec act else none

/-- Init forks process 1, whose main thread returns, and waits for it. -/
def returnedChildActs : List SchedAct :=
  [.tick 0, .fork none, .tick 0, .exit, .go 0, .go 0, .waitpid 1]

end Ledger

end UtkKernel.Scheduler
