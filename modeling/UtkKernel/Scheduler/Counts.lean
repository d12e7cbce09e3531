import UtkKernel.Scheduler.ProcessTree

/-! # Counting threads and processes

`Ledger` follows a run with the lists of what has happened in it so far. `thread_count` is counted up by
`sched_create_kernel_thread` only, so it is off by what forks add and exits take away. -/

namespace UtkKernel.Scheduler
open Structures Sync Foundations
set_option autoImplicit false

namespace Sched

/-- The threads that an action ends. -/
def endedThreads (s : Sched) : SchedAct → List ℕ
  | .exit => [s.activeThread]
  | .exitProcess => (s.activeProcess.map KernelProcess.threads).getD []
  | _ => []

/-- The process that an action ends. -/
def endedProcess (s : Sched) : SchedAct → List ℕ
  | .exitProcess => (s.roll.home s.activeThread).toList
  | _ => []

/-- The process that an action cleans. -/
def cleanedProcess (s : Sched) : SchedAct → List ℕ
  | .go _ =>
    match s.pc s.activeThread with
    | .waitClean child => [child]
    | _ => []
  | _ => []

/-- The process that an action takes out of the dead children of its parent. -/
def reapedProcess (s : Sched) : SchedAct → List ℕ
  | .go _ =>
    match s.pc s.activeThread with
    | .waitRemove child => [child]
    | _ => []
  | _ => []

end Sched

structure Ledger where
  sched : Sched
  createdThreads : List ℕ
  exitedThreads : List ℕ
  createdProcesses : List ℕ
  exitedProcesses : List ℕ
  cleanedProcesses : List ℕ
  reapedProcesses : List ℕ

namespace Ledger
open Sched

/-- The ledger after an action that leads to `s`. -/
def record (l : Ledger) (act : SchedAct) (s : Sched) : Ledger where
  sched := s
  createdThreads :=
    if creates act || l.sched.forks act then l.sched.lastGivenTid :: l.createdThreads else l.createdThreads
  exitedThreads := l.sched.endedThreads act ∪ l.exitedThreads
  createdProcesses :=
    if l.sched.forks act then l.sched.lastGivenPid :: l.createdProcesses else l.createdProcesses
  exitedProcesses := l.sched.endedProcess act ++ l.exitedProcesses
  cleanedProcesses := l.sched.cleanedProcess act ++ l.cleanedProcesses
  reapedProcesses := l.sched.reapedProcess act ++ l.reapedProcesses

def exec (l : Ledger) (act : SchedAct) : Option Ledger := (l.sched.exec act).map (l.record act)

def Step (l : Ledger) (act : SchedAct) (l' : Ledger) : Prop := l.exec act = some l'

/-- `sched_init` has created the idle and the init thread, and the main kernel process. -/
def init : Ledger := ⟨schedInit, [initThread, idleThread], [], [mainKprocess], [], [], []⟩

def Started (l : Ledger) : Prop := l = init

/-- `thread_count` is the number of threads that have been created and have not exited. -/
def ThreadCountExact (l : Ledger) : Prop :=
  l.sched.threadCount = (l.createdThreads.filter fun u => u ∉ l.exitedThreads).length

/-- `process_count` is the number of processes that have been created and have not been reaped. -/
def ProcessCountExact (l : Ledger) : Prop :=
  l.sched.processCount = (l.createdProcesses.filter fun p => p ∉ l.reapedProcesses).length

end Ledger

/-! ## What a step adds -/

/-- A thread that is in the table or in the queue of a process. -/
def Roll.Known (r : Roll) (u : ℕ) : Prop :=
  r.home u ≠ none ∨ ∃ pid p, r.processes pid = some p ∧ u ∈ p.threads

theorem Roll.Known.mono {r r' : Roll} {u : ℕ} (hu : r'.Known u)
    (hhome : r'.home u ≠ none → r.home u ≠ none) (hmembers : ∀ {pid p'}, r'.processes pid = some p' →
      ∃ p, r.processes pid = some p ∧ ∀ u ∈ p'.threads, u ∈ p.threads) : r.Known u := by
  rcases hu with hu | ⟨pid, p', hp', hu⟩
  · exact .inl (hhome hu)
  · obtain ⟨p, hp, hsub⟩ := hmembers hp'
    exact .inr ⟨pid, p, hp, hsub u hu⟩

/-- The threads of the processes stay when one is rewritten with its threads. -/
theorem Roll.members_update {r r' : Roll} {pid : ℕ} {p : KernelProcess} (q : KernelProcess)
    (hp : r.processes pid = some p) (hprocesses : r'.processes = Function.update r.processes pid (some q))
    (hthreads : q.threads = p.threads)
    {x : ℕ} {q' : KernelProcess} (hq' : r'.processes x = some q') :
    ∃ q0, r.processes x = some q0 ∧ ∀ u ∈ q'.threads, u ∈ q0.threads := by
  rw [hprocesses, Function.update_apply] at hq'
  split_ifs at hq' with hx
  · cases hq'
    exact ⟨p, hx ▸ hp, fun u hu => hthreads ▸ hu⟩
  · exact ⟨q', hq', fun _ hu => hu⟩

/-- A process that is in the queue of another one. -/
def Queued (ties : ℕ → Option Ties) (c : ℕ) : Prop := ∃ pid k, ties pid = some k ∧ c ∈ k.queued

theorem Queued.lt {ties : ℕ → Option Ties} {n c : ℕ} (hfam : Families ties n) (hc : Queued ties c) :
    c < n := by
  obtain ⟨pid, k, hk, hmem⟩ := hc
  exact (hfam.younger hk hmem).2

namespace Sched

variable {s : Sched} {r : Roll} {act : SchedAct}

theorem reapedProcess_of_ne (h : ∀ currentTime, act = .go currentTime →
    ∀ child, s.pc s.activeThread ≠ .waitRemove child) : s.reapedProcess act = [] := by
  unfold reapedProcess
  split
  · rename_i time
    split
    · rename_i child hpc
      exact absurd hpc (h time rfl child)
    · rfl
  · rfl

theorem Joins.of_ne {tid : ℕ} {next : SchedPc} (h : s.Joins tid act next) :
    creates act = false ∧ s.forks act = false ∧ s.reapedProcess act = [] := by
  cases h with
  | own hpc =>
    refine ⟨rfl, rfl, reapedProcess_of_ne fun _ _ c hc => ?_⟩
    rw [hc] at hpc
    exact hpc.elim nofun nofun
  | woken hpc =>
    refine ⟨rfl, rfl, reapedProcess_of_ne fun _ _ c hc => ?_⟩
    rw [hc] at hpc
    cases hpc
  | ended => exact ⟨rfl, rfl, rfl⟩

/-- The counters after a step. -/
theorem Move.counts (h : s.Move act r) (hfam : Families s.roll.ties s.lastGivenPid) :
    r.threadCount = s.threadCount + (if creates act then 1 else 0) ∧
      r.processCount = s.processCount + (if s.forks act then 1 else 0) - (s.reapedProcess act).length ∧
      r.lastGivenPid = s.lastGivenPid + (if s.forks act then 1 else 0) ∧
      s.lastGivenTid + (if creates act || s.forks act then 1 else 0) ≤ r.lastGivenTid := by
  cases h with
  | stay hcreates hforks _ _ hgo _ =>
    have hreap := reapedProcess_of_ne (s := s) fun time hact c => (hgo time hact c).2
    rw [hcreates, hforks, hreap]
    exact ⟨rfl, rfl, rfl, le_rfl⟩
  | create hpriority _ _ =>
    have hcreates : creates (.create _) = true := decide_eq_true hpriority
    rw [hcreates]
    exact ⟨rfl, rfl, rfl, le_rfl⟩
  | fork hcount _ _ =>
    have hforks : s.forks (.fork none) = true := decide_eq_true hcount
    rw [hforks]
    exact ⟨rfl, rfl, rfl, le_rfl⟩
  | failFork => exact ⟨rfl, rfl, rfl, Nat.le_succ _⟩
  | exitProcess => exact ⟨rfl, rfl, rfl, le_rfl⟩
  | block => exact ⟨rfl, rfl, rfl, le_rfl⟩
  | clash => exact ⟨rfl, rfl, rfl, le_rfl⟩
  | cleanThread hjoins _ _ _ _ =>
    obtain ⟨hcreates, hforks, hreap⟩ := hjoins.of_ne
    rw [hcreates, hforks, hreap]
    exact ⟨rfl, rfl, rfl, le_rfl⟩
  | @cleanProcess time child s1 hpc hclean =>
    obtain ⟨p, -, -, -, -, -, hrest⟩ := schedCleanProcess_roll hfam hclean
    have hreap : s.reapedProcess (.go time) = [] :=
      reapedProcess_of_ne fun _ _ c hc => by rw [hpc] at hc; cases hc
    rw [hreap]
    change s1.roll.threadCount = _ ∧ s1.roll.processCount = _ ∧ s1.roll.lastGivenPid = _ ∧
      _ ≤ s1.roll.lastGivenTid
    rw [hrest]
    exact ⟨rfl, rfl, rfl, le_rfl⟩
  | @remove time child pid p hpc _ _ _ =>
    have hreap : s.reapedProcess (.go time) = [child] := by
      unfold reapedProcess
      simp only [hpc]
    rw [hreap]
    exact ⟨rfl, rfl, rfl, le_rfl⟩

/-- A thread that is known after a step was known before, or is the one that was created. -/
theorem Move.known (h : s.Move act r) (hfam : Families s.roll.ties s.lastGivenPid) {u : ℕ}
    (hu : r.Known u) : s.roll.Known u ∨ u = s.lastGivenTid ∧ (creates act || s.forks act) = true := by
  cases h with
  | stay => exact .inl hu
  | @create priority pid p hpriority hhome hp =>
    have hcreates : creates (.create priority) = true := decide_eq_true hpriority
    rcases hu with hu | ⟨x, q, hq, hu⟩
    · change Function.update s.roll.home s.lastGivenTid (some pid) u ≠ none at hu
      rw [Function.update_apply] at hu
      split_ifs at hu with hnew
      · exact .inr ⟨hnew, by rw [hcreates]; rfl⟩
      · exact .inl (.inl hu)
    · change Function.update s.processes pid _ x = some q at hq
      rw [Function.update_apply] at hq
      split_ifs at hq with hx
      · cases hq
        rcases List.mem_cons.mp hu with rfl | hu
        · exact .inr ⟨rfl, by rw [hcreates]; rfl⟩
        · exact .inl (.inr ⟨pid, p, hp, hu⟩)
      · exact .inl (.inr ⟨x, q, hq, hu⟩)
  | @fork pid p hcount hhome hp =>
    have hforks : s.forks (.fork none) = true := decide_eq_true hcount
    rcases hu with hu | ⟨x, q, hq, hu⟩
    · change Function.update s.roll.home s.lastGivenTid _ u ≠ none at hu
      rw [Function.update_apply] at hu
      split_ifs at hu with hnew
      · exact .inr ⟨hnew, by rw [hforks]; rfl⟩
      · exact .inl (.inl hu)
    · change Function.update (Function.update s.processes pid _) s.lastGivenPid _ x = some q at hq
      rw [Function.update_apply, Function.update_apply] at hq
      split_ifs at hq with hnew hx
      · cases hq
        exact .inr ⟨List.mem_singleton.mp hu, by rw [hforks]; rfl⟩
      · cases hq
        exact .inl (.inr ⟨pid, p, hp, hu⟩)
      · exact .inl (.inr ⟨x, q, hq, hu⟩)
  | failFork => exact .inl hu
  | @exitProcess pid parent p q _ _ _ _ hq _ =>
    exact .inl (hu.mono id (Roll.members_update (r := s.roll) { q with
      children := q.children.erase pid, deadChildren := kqueuePush pid q.deadChildren } hq rfl rfl))
  | block => exact .inl hu
  | clash => exact .inl hu
  | @cleanThread _ next tid pid p _ _ _ hp _ =>
    have hdropped : Roll.Dropped s.roll (s.roll.dropThread tid pid p) [tid] := .dropThread s.roll hp
    exact .inl (hu.mono (hdropped.home_of u) fun hp' => (hdropped.members hp').imp fun _ h => ⟨h.1, h.2.1⟩)
  | @cleanProcess time child s1 hpc hclean =>
    obtain ⟨p, -, -, hhome, hmembers, -⟩ := schedCleanProcess_roll hfam hclean
    refine .inl (hu.mono (fun hne hnone => hne ?_) fun hp' => (hmembers hp').imp fun _ h => ⟨h.1, h.2.1⟩)
    change s1.roll.home u = none
    rw [hhome, hnone]
    exact ite_self none
  | @remove time child pid p hpc _ hp _ =>
    exact .inl (hu.mono id (Roll.members_update (r := s.roll) { p with
      deadChildren := p.deadChildren.erase child } hp rfl rfl))

theorem queued_update {ties : ℕ → Option Ties} {pid c : ℕ} {k k' : Ties} (hk : ties pid = some k)
    (hc : Queued (Function.update ties pid (some k')) c) (hsub : c ∈ k'.queued → c ∈ k.queued) :
    Queued ties c := by
  obtain ⟨x, l, hx, hmem⟩ := hc
  rw [Function.update_apply] at hx
  split_ifs at hx
  · cases hx
    exact ⟨pid, k, hk, hsub hmem⟩
  · exact ⟨x, l, hx, hmem⟩

/-- A process that is queued after a step was queued before, or is the one that was forked. -/
theorem Move.queued (h : s.Move act r) (hinv : TreeInv s.roll) {c : ℕ} (hc : Queued r.ties c) :
    (Queued s.roll.ties c ∧ c ∉ s.reapedProcess act) ∨ c = s.lastGivenPid ∧ s.forks act = true := by
  have hfam := hinv.families
  cases h with
  | stay _ _ _ _ hgo _ =>
    rw [reapedProcess_of_ne (s := s) fun time hact c => (hgo time hact c).2]
    exact .inl ⟨hc, List.not_mem_nil⟩
  | @create priority pid p hpriority hhome hp =>
    rw [Roll.ties_congr (r := s.roll) { p with threads := kqueuePush s.lastGivenTid p.threads } rfl hp
      rfl] at hc
    exact .inl ⟨hc, List.not_mem_nil⟩
  | @fork pid p hcount hhome hp =>
    have hk := Roll.ties_of_processes (r := s.roll) hp
    rw [Roll.ties_fork (r := s.roll) p rfl rfl] at hc
    obtain ⟨x, l, hx, hmem⟩ := hc
    rw [Function.update_apply, Function.update_apply] at hx
    split_ifs at hx
    · cases hx
      cases hmem
    · cases hx
      rcases List.mem_cons.mp hmem with rfl | hmem
      · exact .inr ⟨rfl, decide_eq_true hcount⟩
      · exact .inl ⟨⟨pid, p.ties, hk, hmem⟩, List.not_mem_nil⟩
    · exact .inl ⟨⟨x, l, hx, hmem⟩, List.not_mem_nil⟩
  | failFork => exact .inl ⟨hc, List.not_mem_nil⟩
  | @exitProcess pid parent p q _ _ _ _ hq hchild =>
    have hk := Roll.ties_of_processes (r := s.roll) hq
    rw [Roll.ties_update (r := s.roll) { q with
      children := q.children.erase pid, deadChildren := kqueuePush pid q.deadChildren } rfl] at hc
    exact .inl ⟨queued_update hk hc fun hd => (perm_bury hchild).mem_iff.mp hd, List.not_mem_nil⟩
  | block => exact .inl ⟨hc, List.not_mem_nil⟩
  | clash => exact .inl ⟨hc, List.not_mem_nil⟩
  | @cleanThread _ next tid pid p hjoins _ _ hp _ =>
    rw [hjoins.of_ne.2.2]
    change Queued (s.roll.dropThread tid pid p).ties c at hc
    rw [(Roll.Dropped.dropThread s.roll hp).ties] at hc
    exact .inl ⟨hc, List.not_mem_nil⟩
  | @cleanProcess time child s1 hpc hclean =>
    obtain ⟨p, hp, hties, -⟩ := schedCleanProcess_roll hfam hclean
    have hreap : s.reapedProcess (.go time) = [] :=
      reapedProcess_of_ne fun _ _ c hc => by rw [hpc] at hc; cases hc
    rw [hreap]
    obtain ⟨x, l, hx, hmem⟩ := hc
    change s1.roll.ties x = some l at hx
    rw [hties] at hx
    obtain ⟨-, l0, hl0, hq, -⟩ := Families.adopted_cases hx
    rw [hq, List.mem_append] at hmem
    refine .inl ⟨?_, List.not_mem_nil⟩
    rcases hmem with hmem | hmem
    · split_ifs at hmem
      · exact ⟨child, p.ties, Roll.ties_of_processes hp, List.mem_append_left _ hmem⟩
      · cases hmem
    · exact ⟨x, l0, hl0, hmem⟩
  | @remove time child pid p hpc hhome hp hdead =>
    have hk := Roll.ties_of_processes (r := s.roll) hp
    rw [Roll.ties_update (r := s.roll) { p with deadChildren := p.deadChildren.erase child } rfl] at hc
    have hsub : (p.children ++ p.deadChildren.erase child).Sublist (p.children ++ p.deadChildren) :=
      List.erase_sublist.append_left p.children
    have hreap : s.reapedProcess (.go time) = [child] := by
      unfold reapedProcess
      simp only [hpc]
    refine .inl ⟨queued_update hk hc fun hd => hsub.subset hd, fun hmem => ?_⟩
    rw [hreap, List.mem_singleton] at hmem
    subst hmem
    obtain ⟨x, l, hx, hmem⟩ := hc
    have hin : c ∈ p.children ++ p.deadChildren := List.mem_append_right _ hdead
    rw [Function.update_apply] at hx
    split_ifs at hx with hxp
    · cases hx
      obtain ⟨-, hnodup, hdisj⟩ := List.nodup_append'.mp (hfam.nodup hk)
      rcases List.mem_append.mp hmem with hmem | hmem
      · exact hdisj hmem hdead
      · exact hnodup.not_mem_erase hmem
    · exact hxp (hfam.disjoint hx hk hmem hin)

theorem Move.queued_of_reaped (h : s.Move act r) {c : ℕ} (hc : c ∈ s.reapedProcess act) :
    Queued s.roll.ties c := by
  unfold reapedProcess at hc
  split at hc
  · split at hc
    · rename_i child hpc
      rw [List.mem_singleton] at hc
      subst hc
      cases h with
      | stay _ _ _ _ hgo _ => exact absurd hpc (hgo _ rfl c).2
      | cleanThread hjoins _ _ _ _ =>
        have hnil := hjoins.of_ne.2.2
        unfold reapedProcess at hnil
        simp only [hpc] at hnil
        cases hnil
      | cleanProcess hpc' _ =>
        rw [hpc] at hpc'
        cases hpc'
      | remove hpc' _ hp hdead =>
        rw [hpc] at hpc'
        cases hpc'
        exact ⟨_, _, Roll.ties_of_processes hp, List.mem_append_right _ hdead⟩
    · cases hc
  · cases hc

theorem forks_of_creates (h : creates act = true) : s.forks act = false := by
  cases act <;> first | rfl | cases h

theorem reapedProcess_of_forks (h : s.forks act = true) : s.reapedProcess act = [] := by
  cases act <;> first | rfl | cases h

theorem reapedProcess_nodup (s : Sched) (act : SchedAct) : (s.reapedProcess act).Nodup := by
  unfold reapedProcess
  split
  · split
    · exact List.nodup_singleton _
    · exact List.nodup_nil
  · exact List.nodup_nil

/-- A thread that an action ends is known. -/
theorem known_of_ended {s' : Sched} (h : s.exec act = some s') {u : ℕ} (hu : u ∈ s.endedThreads act) :
    s.roll.Known u := by
  obtain ⟨t, ht, -⟩ := Option.bind_eq_some_iff.mp h
  unfold endedThreads at hu
  split at hu
  · rw [List.mem_singleton] at hu
    subst hu
    exact .inl (by rw [roll_home ht]; exact Option.some_ne_none _)
  · unfold activeProcess at hu
    rw [ht, Option.bind_some] at hu
    cases hp : s.processes t.process with
    | none =>
      rw [hp] at hu
      cases hu
    | some p =>
      rw [hp] at hu
      exact .inr ⟨t.process, p, hp, hu⟩
  · cases hu

end Sched

/-! ## The invariant -/

/-- What the lists of a ledger have to do with the state it has reached. -/
structure CountInv (l : Ledger) : Prop where
  tree : TreeInv l.sched.roll
  threads : l.createdThreads.length + 1 = l.sched.threadCount + l.createdProcesses.length
  createdThreads : l.createdThreads.Nodup ∧ ∀ u ∈ l.createdThreads, u < l.sched.lastGivenTid
  known : ∀ u, l.sched.roll.Known u → u ∈ l.createdThreads
  exited : l.exitedThreads.Nodup ∧ ∀ u ∈ l.exitedThreads, u ∈ l.createdThreads
  processes : l.sched.processCount + l.reapedProcesses.length = l.createdProcesses.length
  createdProcesses : l.createdProcesses.Nodup ∧ ∀ c, c ∈ l.createdProcesses ↔ c < l.sched.lastGivenPid
  reaped : l.reapedProcesses.Nodup ∧
    ∀ c ∈ l.reapedProcesses, c < l.sched.lastGivenPid ∧ ¬ Queued l.sched.roll.ties c

namespace CountInv
open Sched

variable {l : Ledger} {act : SchedAct} {s' : Sched}

theorem step (h : CountInv l) (hexec : l.sched.exec act = some s') : CountInv (l.record act s') := by
  have hm := exec_move hexec
  have hfam := h.tree.families
  obtain ⟨hthreads, hprocesses, hpid, htid⟩ := hm.counts hfam
  change s'.threadCount = _ at hthreads
  change s'.processCount = _ at hprocesses
  change s'.lastGivenPid = _ at hpid
  change _ ≤ s'.lastGivenTid at htid
  have hreapedQueued : ∀ c ∈ l.sched.reapedProcess act, c < l.sched.lastGivenPid ∧ c ∉ l.reapedProcesses :=
    fun c hc => ⟨(hm.queued_of_reaped hc).lt hfam, fun hmem => (h.reaped.2 c hmem).2 (hm.queued_of_reaped hc)⟩
  have hreaped : (l.sched.reapedProcess act ++ l.reapedProcesses).Nodup :=
    List.nodup_append'.mpr ⟨reapedProcess_nodup _ _, h.reaped.1, fun c hc => (hreapedQueued c hc).2⟩
  have hcreated : ∀ u ∈ l.createdThreads, u ∈ (l.record act s').createdThreads := by
    intro u hu
    unfold Ledger.record
    dsimp only
    split_ifs
    · exact List.mem_cons_of_mem _ hu
    · exact hu
  refine ⟨h.tree.step hm, ?_, ?_, fun u hu => ?_, ⟨?_, fun u hu => ?_⟩, ?_, ?_, hreaped, fun c hc => ?_⟩
  · have hold := h.threads
    unfold Ledger.record
    dsimp only
    rw [hthreads]
    by_cases hcreates : creates act = true
    · rw [forks_of_creates hcreates, hcreates]
      simp only [Bool.or_false, if_true, List.length_cons, Bool.false_eq_true, if_false]
      omega
    · rw [Bool.not_eq_true] at hcreates
      simp only [hcreates, Bool.false_or, Bool.false_eq_true, if_false, Nat.add_zero]
      split_ifs
      · simp only [List.length_cons]
        omega
      · exact hold
  · unfold Ledger.record
    dsimp only
    split_ifs at htid ⊢ with hnew
    · refine ⟨List.nodup_cons.mpr ⟨fun hmem => lt_irrefl _ (h.createdThreads.2 _ hmem), h.createdThreads.1⟩, ?_⟩
      refine List.forall_mem_cons.mpr ⟨htid, fun u hu => (h.createdThreads.2 u hu).trans htid⟩
    · exact ⟨h.createdThreads.1, fun u hu => (h.createdThreads.2 u hu).trans_le htid⟩
  · rcases hm.known hfam hu with hu | ⟨rfl, hnew⟩
    · exact hcreated u (h.known u hu)
    · unfold Ledger.record
      dsimp only
      rw [if_pos hnew]
      exact List.mem_cons_self ..
  · exact h.exited.1.union _
  · rcases List.mem_union_iff.mp hu with hu | hu
    · exact hcreated u (h.known u (known_of_ended hexec hu))
    · exact hcreated u (h.exited.2 u hu)
  · have hold := h.processes
    unfold Ledger.record
    dsimp only
    rw [hprocesses, List.length_append]
    by_cases hforks : l.sched.forks act = true
    · rw [reapedProcess_of_forks hforks, if_pos hforks, if_pos hforks, List.length_cons, List.length_nil]
      omega
    · rw [if_neg hforks, if_neg hforks]
      have hsub : (l.sched.reapedProcess act ++ l.reapedProcesses).length ≤ l.createdProcesses.length := by
        refine (hreaped.subperm fun c hc => (h.createdProcesses.2 c).mpr ?_).length_le
        rcases List.mem_append.mp hc with hc | hc
        · exact (hreapedQueued c hc).1
        · exact (h.reaped.2 c hc).1
      rw [List.length_append] at hsub
      omega
  · unfold Ledger.record
    dsimp only
    rw [hpid]
    split_ifs
    · refine ⟨List.nodup_cons.mpr ⟨fun hmem => lt_irrefl _ ((h.createdProcesses.2 _).mp hmem),
        h.createdProcesses.1⟩, fun c => ?_⟩
      rw [List.mem_cons, h.createdProcesses.2]
      omega
    · exact h.createdProcesses
  · change c ∈ l.sched.reapedProcess act ++ l.reapedProcesses at hc
    change c < s'.lastGivenPid ∧ ¬ Queued s'.roll.ties c
    have hlt : c < l.sched.lastGivenPid := by
      rcases List.mem_append.mp hc with hc | hc
      · exact (hreapedQueued c hc).1
      · exact (h.reaped.2 c hc).1
    refine ⟨by omega, fun hqueued => ?_⟩
    rcases hm.queued h.tree hqueued with ⟨hold, hnot⟩ | ⟨rfl, -⟩
    · rcases List.mem_append.mp hc with hc | hc
      · exact hnot hc
      · exact (h.reaped.2 c hc).2 hold
    · exact lt_irrefl _ hlt

theorem init : CountInv Ledger.init := by
  refine ⟨treeInv_schedInit, rfl, by decide, fun u hu => ?_, ⟨List.nodup_nil, nofun⟩, rfl,
    ⟨by decide, fun c => ?_⟩, List.nodup_nil, nofun⟩
  · have hthread : ∀ x, schedInit.roll.home x ≠ none → x ∈ [initThread, idleThread] := by
      intro x hx
      obtain ⟨pid, hpid⟩ := Option.ne_none_iff_exists'.mp hx
      obtain ⟨t, ht, -⟩ := Option.map_eq_some_iff.mp hpid
      rcases (schedInit_threads ht).2 with ⟨rfl, -⟩ | ⟨rfl, -⟩ <;> decide
    rcases hu with hu | ⟨pid, p, hp, hu⟩
    · exact hthread u hu
    · change (if pid = mainKprocess then _ else none) = some p at hp
      split_ifs at hp
      cases hp
      exact hu
  · change c ∈ [mainKprocess] ↔ c < 1
    rw [List.mem_singleton, Nat.lt_one_iff]
    rfl

end CountInv

namespace Ledger

variable {l : Ledger}

theorem countInv_of_reachable (h : Reachable Started Step l) : CountInv l := by
  refine h.invariant CountInv (fun l0 hl0 => ?_) fun l0 act l1 hl0 _ hstep => ?_
  · obtain rfl : l0 = init := hl0
    exact CountInv.init
  · obtain ⟨s', hexec, rfl⟩ := Option.map_eq_some_iff.mp hstep
    exact hl0.step hexec

/-- The elements of a list that are not in a part of it. -/
theorem length_filter_notMem {l e : List ℕ} (hl : l.Nodup) (he : e.Nodup) (hsub : ∀ x ∈ e, x ∈ l) :
    (l.filter fun x => x ∉ e).length + e.length = l.length := by
  have hperm : (l.filter fun x => x ∈ e).Perm e := by
    refine (List.perm_ext_iff_of_nodup (hl.filter _) he).mpr fun x => ?_
    rw [List.mem_filter, decide_eq_true_eq]
    exact ⟨And.right, fun hx => ⟨hsub x hx, hx⟩⟩
  have hsplit := List.length_eq_length_filter_add (l := l) fun x => decide (x ∈ e)
  rw [hperm.length_eq] at hsplit
  simp only [decide_not]
  omega

/-- Init forks process 1, whose main thread exits. -/
def forkExitActs : List Sched.SchedAct := [.tick 0, .fork none, .tick 0, .exit]

/-- Init creates thread 2, which exits. -/
def createExitActs : List Sched.SchedAct := [.tick 0, .create 0, .tick 0, .exit]

end Ledger

end UtkKernel.Scheduler
