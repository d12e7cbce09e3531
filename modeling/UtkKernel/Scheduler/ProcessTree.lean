import UtkKernel.Scheduler.ProcessTable

/-! # The process tree

A process is in a queue of its parent from the fork on, among the children until it exits and among the dead
children after. Cleaning a process hands its children, but not its dead children, to the main kernel process:
the tree stays well formed as long as no process is cleaned that has dead children. -/

namespace UtkKernel.Scheduler
open Structures Sync Foundations
set_option autoImplicit false

/-- The links of a process to other processes. -/
structure Ties where
  parent : Option ℕ
  children : List ℕ
  dead : List ℕ
  deriving DecidableEq, Repr

def KernelProcess.ties (p : KernelProcess) : Ties := ⟨p.parentProcess, p.children, p.deadChildren⟩

namespace Ties

/-- The processes in the two queues of a process. -/
def queued (k : Ties) : List ℕ := k.children ++ k.dead

end Ties

namespace Roll

def ties (r : Roll) (pid : ℕ) : Option Ties := (r.processes pid).map KernelProcess.ties

theorem ties_of_processes {r : Roll} {pid : ℕ} {p : KernelProcess} (hp : r.processes pid = some p) :
    r.ties pid = some p.ties := by
  rw [Roll.ties, hp, Option.map_some]

/-- Changing one process changes its links only. -/
theorem ties_update {r r' : Roll} {pid : ℕ} (p' : KernelProcess)
    (hprocesses : r'.processes = Function.update r.processes pid (some p')) :
    r'.ties = Function.update r.ties pid (some p'.ties) := by
  funext x
  unfold Roll.ties
  rw [hprocesses]
  by_cases hx : x = pid
  · rw [hx, Function.update_self, Function.update_self, Option.map_some]
  · rw [Function.update_of_ne hx, Function.update_of_ne hx]

/-- The links after a fork. -/
theorem ties_fork {r r' : Roll} {f : ℕ → Option KernelProcess} {pid n : ℕ} (p : KernelProcess)
    {q : KernelProcess} (hf : f = Function.update r.processes pid
      (some { p with children := kqueuePush n p.children }))
    (hprocesses : r'.processes = Function.update f n (some q)) :
    r'.ties = Function.update (Function.update r.ties pid
      (some { p.ties with children := kqueuePush n p.ties.children })) n (some q.ties) := by
  rw [ties_update (r := { r with processes := f }) _ hprocesses, ties_update (r := r) _ hf]
  rfl

theorem setPc_pc_or (r : Roll) {tid : ℕ} {next : SchedPc} (hnext : next.child = none) (u : ℕ) :
    (r.setPc tid next).pc u = r.pc u ∨ ((r.setPc tid next).pc u).child = none := by
  unfold Roll.setPc
  dsimp only
  rw [Function.update_apply]
  split_ifs
  · exact .inr hnext
  · exact .inl rfl

end Roll

/-! ## Queues of families -/

/-- What holds of the queues of processes in every run: the main kernel process is there, a queue holds
processes that are younger than its owner, each once and no other queue, and a process knows the owner of the
queue it is in. -/
structure Families (ties : ℕ → Option Ties) (n : ℕ) : Prop where
  main : ∃ k, ties mainKprocess = some k
  given : ∀ {pid k}, ties pid = some k → pid < n
  younger : ∀ {pid k c}, ties pid = some k → c ∈ k.queued → pid < c ∧ c < n
  nodup : ∀ {pid k}, ties pid = some k → k.queued.Nodup
  disjoint : ∀ {pid k o l c}, ties pid = some k → ties o = some l → c ∈ k.queued → c ∈ l.queued → pid = o
  owner : ∀ {pid k c q}, ties pid = some k → c ∈ k.queued → ties c = some q → q.parent = some pid

/-- Every process but the main kernel process is in a queue of some process. -/
def Owned (ties : ℕ → Option Ties) : Prop :=
  ∀ pid k, ties pid = some k → pid ≠ mainKprocess → ∃ o l, ties o = some l ∧ pid ∈ l.queued

namespace Families

variable {ties : ℕ → Option Ties} {n : ℕ}

theorem pid_lt (h : Families ties n) {k : Ties} (hk : ties n = some k) : False :=
  lt_irrefl n (h.given hk)

/-- The queues of one process change, and hold no process they did not hold. -/
theorem requeue (h : Families ties n) {pid : ℕ} {k k' : Ties} (hk : ties pid = some k)
    (hparent : k'.parent = k.parent) (hnodup : k'.queued.Nodup) (hsub : ∀ c ∈ k'.queued, c ∈ k.queued) :
    Families (Function.update ties pid (some k')) n := by
  have hget : ∀ {x l}, Function.update ties pid (some k') x = some l → ∃ l0, ties x = some l0 ∧
      l.parent = l0.parent ∧ l.queued.Nodup ∧ ∀ c ∈ l.queued, c ∈ l0.queued := by
    intro x l hx
    by_cases hxp : x = pid
    · subst hxp
      rw [Function.update_self] at hx
      cases hx
      exact ⟨k, hk, hparent, hnodup, hsub⟩
    · rw [Function.update_of_ne hxp] at hx
      exact ⟨l, hx, rfl, h.nodup hx, fun _ hc => hc⟩
  refine ⟨?_, fun hx => ?_, fun hx hc => ?_, fun hx => ?_, fun hx ho hc hc' => ?_, fun hx hc hq => ?_⟩
  · obtain ⟨m, hm⟩ := h.main
    by_cases hmp : mainKprocess = pid
    · exact ⟨k', by rw [hmp, Function.update_self]⟩
    · exact ⟨m, by rw [Function.update_of_ne hmp, hm]⟩
  · obtain ⟨_, hx0, -⟩ := hget hx
    exact h.given hx0
  · obtain ⟨_, hx0, -, -, hsub0⟩ := hget hx
    exact h.younger hx0 (hsub0 _ hc)
  · obtain ⟨_, _, -, hnd, -⟩ := hget hx
    exact hnd
  · obtain ⟨_, hx0, -, -, hsub0⟩ := hget hx
    obtain ⟨_, ho0, -, -, hsub1⟩ := hget ho
    exact h.disjoint hx0 ho0 (hsub0 _ hc) (hsub1 _ hc')
  · obtain ⟨_, hx0, -, -, hsub0⟩ := hget hx
    obtain ⟨_, hq0, hpq, -⟩ := hget hq
    rw [hpq]
    exact h.owner hx0 (hsub0 _ hc) hq0

/-- A process is forked. -/
theorem fork (h : Families ties n) {pid : ℕ} {k : Ties} (hk : ties pid = some k) :
    Families (Function.update (Function.update ties pid (some { k with children := kqueuePush n k.children }))
      n (some ⟨some pid, [], []⟩)) (n + 1) := by
  have hne : pid ≠ n := (h.given hk).ne
  have hfresh : ∀ {x l}, ties x = some l → n ∉ l.queued := fun hx hc => lt_irrefl n (h.younger hx hc).2
  have hget : ∀ {x l}, Function.update (Function.update ties pid
      (some { k with children := kqueuePush n k.children })) n (some ⟨some pid, [], []⟩) x = some l →
      (x = n ∧ l = ⟨some pid, [], []⟩) ∨ (x ≠ n ∧ ∃ l0, ties x = some l0 ∧ l.parent = l0.parent ∧
        l.queued = if x = pid then n :: l0.queued else l0.queued) := by
    intro x l hx
    by_cases hxn : x = n
    · rw [hxn, Function.update_self] at hx
      cases hx
      exact .inl ⟨hxn, rfl⟩
    · rw [Function.update_of_ne hxn] at hx
      by_cases hxp : x = pid
      · rw [hxp, Function.update_self] at hx
        cases hx
        exact .inr ⟨hxn, k, hxp ▸ hk, rfl, by rw [if_pos hxp]; rfl⟩
      · rw [Function.update_of_ne hxp] at hx
        exact .inr ⟨hxn, l, hx, rfl, by rw [if_neg hxp]⟩
  have hmem : ∀ {x l c}, Function.update (Function.update ties pid
      (some { k with children := kqueuePush n k.children })) n (some ⟨some pid, [], []⟩) x = some l →
      c ∈ l.queued → (x = pid ∧ c = n) ∨ ∃ l0, ties x = some l0 ∧ c ∈ l0.queued := by
    intro x l c hx hc
    rcases hget hx with ⟨-, rfl⟩ | ⟨-, l0, hl0, -, hq⟩
    · cases hc
    · rw [hq] at hc
      split_ifs at hc with hxp
      · rcases List.mem_cons.mp hc with rfl | hc
        · exact .inl ⟨hxp, rfl⟩
        · exact .inr ⟨l0, hl0, hc⟩
      · exact .inr ⟨l0, hl0, hc⟩
  refine ⟨?_, fun hx => ?_, fun hx hc => ?_, fun hx => ?_, fun hx ho hc hc' => ?_, fun hx hc hq => ?_⟩
  · obtain ⟨m, hm⟩ := h.main
    rw [Function.update_of_ne (h.given hm).ne]
    by_cases hmp : mainKprocess = pid
    · exact ⟨_, by rw [hmp, Function.update_self]⟩
    · exact ⟨m, by rw [Function.update_of_ne hmp, hm]⟩
  · rcases hget hx with ⟨rfl, -⟩ | ⟨-, l0, hl0, -⟩
    · exact Nat.lt_succ_self _
    · exact (h.given hl0).trans (Nat.lt_succ_self n)
  · rcases hmem hx hc with ⟨rfl, rfl⟩ | ⟨l0, hl0, hc0⟩
    · exact ⟨h.given hk, Nat.lt_succ_self _⟩
    · exact ⟨(h.younger hl0 hc0).1, (h.younger hl0 hc0).2.trans (Nat.lt_succ_self n)⟩
  · rcases hget hx with ⟨-, rfl⟩ | ⟨-, l0, hl0, -, hq⟩
    · exact List.nodup_nil
    · rw [hq]
      split_ifs
      · exact List.nodup_cons.mpr ⟨hfresh hl0, h.nodup hl0⟩
      · exact h.nodup hl0
  · rcases hmem hx hc with ⟨rfl, rfl⟩ | ⟨l0, hl0, hc0⟩ <;> rcases hmem ho hc' with ⟨rfl, hn⟩ | ⟨l1, hl1, hc1⟩
    · rfl
    · exact absurd hc1 (hfresh hl1)
    · exact absurd (hn ▸ hc0) (hfresh hl0)
    · exact h.disjoint hl0 hl1 hc0 hc1
  · rcases hmem hx hc with ⟨rfl, rfl⟩ | ⟨l0, hl0, hc0⟩
    · rw [Function.update_self] at hq
      cases hq
      rfl
    · rcases hget hq with ⟨rfl, -⟩ | ⟨-, q0, hq0, hpq, -⟩
      · exact absurd hc0 (hfresh hl0)
      · rw [hpq]
        exact h.owner hl0 hc0 hq0

end Families

/-- The links after a process is cleaned whose children are `l`. -/
def adopted (ties : ℕ → Option Ties) (pid : ℕ) (l : List ℕ) (x : ℕ) : Option Ties :=
  if x = pid then none
  else if x = mainKprocess then (ties x).map fun m => { m with children := l ++ m.children }
  else if x ∈ l then (ties x).map fun q => { q with parent := some mainKprocess }
  else ties x

namespace Families

variable {ties : ℕ → Option Ties} {n : ℕ}

/-- What a process that is still there was before. -/
theorem adopted_cases {pid x : ℕ} {l : List ℕ} {k : Ties} (hx : adopted ties pid l x = some k) :
    x ≠ pid ∧ ∃ k0, ties x = some k0 ∧
      k.queued = (if x = mainKprocess then l else []) ++ k0.queued ∧
      k.parent = (if x ≠ mainKprocess ∧ x ∈ l then some mainKprocess else k0.parent) := by
  unfold adopted at hx
  split_ifs at hx with hpid hmain hmem
  · obtain ⟨m, hm, rfl⟩ := Option.map_eq_some_iff.mp hx
    refine ⟨hpid, m, hm, ?_, ?_⟩
    · rw [if_pos hmain]
      exact List.append_assoc ..
    · rw [if_neg fun hc => hc.1 hmain]
  · obtain ⟨q, hq, rfl⟩ := Option.map_eq_some_iff.mp hx
    refine ⟨hpid, q, hq, ?_, ?_⟩
    · rw [if_neg hmain]
      rfl
    · rw [if_pos ⟨hmain, hmem⟩]
  · refine ⟨hpid, k, hx, ?_, ?_⟩
    · rw [if_neg hmain]
      rfl
    · rw [if_neg fun hc => hmem hc.2]

/-- A process that was there is still there, with all that its queues held. -/
theorem adopted_of_ne {pid x : ℕ} {l : List ℕ} {k : Ties} (hx : ties x = some k) (hne : x ≠ pid) :
    ∃ k', adopted ties pid l x = some k' ∧
      k'.queued = (if x = mainKprocess then l else []) ++ k.queued := by
  unfold adopted
  rw [if_neg hne]
  split_ifs with hmain hmem
  · exact ⟨_, by rw [hx]; rfl, List.append_assoc ..⟩
  · exact ⟨{ k with parent := some mainKprocess }, by rw [hx]; rfl, rfl⟩
  · exact ⟨k, hx, rfl⟩

/-- A process other than the main kernel process is cleaned. -/
theorem clean (h : Families ties n) {pid : ℕ} {k : Ties} (hk : ties pid = some k)
    (hpid : pid ≠ mainKprocess) : Families (adopted ties pid k.children) n := by
  have hchild : ∀ {c}, c ∈ k.children → c ∈ k.queued := fun hc => List.mem_append_left _ hc
  have hmem : ∀ {x l c}, adopted ties pid k.children x = some l → c ∈ l.queued →
      (x = mainKprocess ∧ c ∈ k.children) ∨ (x ≠ pid ∧ ∃ l0, ties x = some l0 ∧ c ∈ l0.queued) := by
    intro x l c hx hc
    obtain ⟨hne, l0, hl0, hq, -⟩ := adopted_cases hx
    rw [hq, List.mem_append] at hc
    rcases hc with hc | hc
    · split_ifs at hc with hmain
      · exact .inl ⟨hmain, hc⟩
      · cases hc
    · exact .inr ⟨hne, l0, hl0, hc⟩
  refine ⟨?_, fun hx => ?_, fun hx hc => ?_, fun hx => ?_, fun hx ho hc hc' => ?_, fun hx hc hq => ?_⟩
  · obtain ⟨m, hm⟩ := h.main
    obtain ⟨m', hm', -⟩ := adopted_of_ne (l := k.children) hm fun he => hpid he.symm
    exact ⟨m', hm'⟩
  · obtain ⟨-, l0, hl0, -⟩ := adopted_cases hx
    exact h.given hl0
  · rcases hmem hx hc with ⟨rfl, hc⟩ | ⟨-, l0, hl0, hc⟩
    · have hlt := h.younger hk (hchild hc)
      exact ⟨(Nat.zero_le pid).trans_lt hlt.1, hlt.2⟩
    · exact h.younger hl0 hc
  · obtain ⟨hne, l0, hl0, hq, -⟩ := adopted_cases hx
    rw [hq]
    split_ifs with hmain
    · refine List.nodup_append'.mpr ⟨(List.nodup_append.mp (h.nodup hk)).1, h.nodup hl0, ?_⟩
      intro c hc hc0
      exact hne (h.disjoint hl0 hk hc0 (hchild hc))
    · exact h.nodup hl0
  · rcases hmem hx hc with ⟨rfl, hc0⟩ | ⟨hne, l0, hl0, hc0⟩ <;>
      rcases hmem ho hc' with ⟨rfl, hc1⟩ | ⟨hne', l1, hl1, hc1⟩
    · rfl
    · exact absurd (h.disjoint hl1 hk hc1 (hchild hc0)) hne'
    · exact absurd (h.disjoint hl0 hk hc0 (hchild hc1)) hne
    · exact h.disjoint hl0 hl1 hc0 hc1
  · obtain ⟨-, q0, hq0, -, hparent⟩ := adopted_cases hq
    rw [hparent]
    rcases hmem hx hc with ⟨rfl, hc0⟩ | ⟨hne, l0, hl0, hc0⟩
    · have hlt := (h.younger hk (hchild hc0)).1
      rw [if_pos ⟨((Nat.zero_le pid).trans_lt hlt).ne', hc0⟩]
    · rw [if_neg fun hand => hne (h.disjoint hl0 hk hc0 (hchild hand.2))]
      exact h.owner hl0 hc0 hq0

/-- Cleaning a process leaves the others owned exactly when it has no dead children. -/
theorem owned_clean_iff (h : Families ties n) (howned : Owned ties) {pid : ℕ} {k : Ties}
    (hk : ties pid = some k) (hpid : pid ≠ mainKprocess) :
    Owned (adopted ties pid k.children) ↔ ∀ d ∈ k.dead, ties d = none := by
  constructor
  · intro hclean d hd
    cases hx : ties d with
    | none => rfl
    | some q =>
      have hq : d ∈ k.queued := List.mem_append_right _ hd
      have hlt := (h.younger hk hq).1
      have hmain : d ≠ mainKprocess := ((Nat.zero_le pid).trans_lt hlt).ne'
      obtain ⟨q', hq', -⟩ := adopted_of_ne (l := k.children) hx hlt.ne'
      obtain ⟨o, l, ho, hmem⟩ := hclean d q' hq' hmain
      obtain ⟨hne, l0, hl0, hl, -⟩ := adopted_cases ho
      rw [hl, List.mem_append] at hmem
      rcases hmem with hmem | hmem
      · split_ifs at hmem
        · exact absurd hd (List.disjoint_of_nodup_append (h.nodup hk) hmem)
        · cases hmem
      · exact absurd (h.disjoint hl0 hk hmem hq) hne
  · intro hdead x q hx hmain
    obtain ⟨hne, q0, hq0, -⟩ := adopted_cases hx
    obtain ⟨o, l, ho, hmem⟩ := howned x q0 hq0 hmain
    by_cases hop : o = pid
    · subst hop
      obtain rfl : l = k := Option.some.inj (ho.symm.trans hk)
      rcases List.mem_append.mp hmem with hmem | hmem
      · obtain ⟨m, hm⟩ := h.main
        obtain ⟨m', hm', hq'⟩ := adopted_of_ne (l := l.children) hm fun he => hpid he.symm
        refine ⟨mainKprocess, m', hm', ?_⟩
        rw [hq', if_pos rfl]
        exact List.mem_append_left _ hmem
      · rw [hdead x hmem] at hq0
        cases hq0
    · obtain ⟨l', hl', hq'⟩ := adopted_of_ne (l := k.children) ho hop
      exact ⟨o, l', hl', by rw [hq']; exact List.mem_append_right _ hmem⟩

end Families

/-! ## Cleaning a process -/

/-- Some threads are gone from the table and from their processes. -/
structure Roll.Dropped (r r' : Roll) (threads : List ℕ) : Prop where
  home : ∀ u, r'.home u = if u ∈ threads then none else r.home u
  ties : r'.ties = r.ties
  members : ∀ {pid p'}, r'.processes pid = some p' → ∃ p, r.processes pid = some p ∧
    (∀ u ∈ p'.threads, u ∈ p.threads) ∧ ∀ u ∈ p.threads, u ∉ threads → u ∈ p'.threads
  rest : r' = { r with home := r'.home, processes := r'.processes }

theorem Roll.ties_congr {r r' : Roll} {pid : ℕ} {p : KernelProcess} (p' : KernelProcess)
    (hprocesses : r'.processes = Function.update r.processes pid (some p')) (hp : r.processes pid = some p)
    (hties : p'.ties = p.ties) : r'.ties = r.ties := by
  funext x
  unfold Roll.ties
  rw [hprocesses]
  by_cases hx : x = pid
  · rw [hx, Function.update_self, hp, Option.map_some, Option.map_some, hties]
  · rw [Function.update_of_ne hx]

theorem Roll.Dropped.dropThread (r : Roll) {tid pid : ℕ} {p : KernelProcess}
    (hp : r.processes pid = some p) : Roll.Dropped r (r.dropThread tid pid p) [tid] := by
  refine ⟨fun u => ?_, Roll.ties_congr { p with threads := p.threads.erase tid } rfl hp rfl,
    fun {x q'} hq' => ?_, rfl⟩
  · simp only [Roll.dropThread, Function.update_apply, List.mem_singleton]
  · simp only [Roll.dropThread, Function.update_apply] at hq'
    split_ifs at hq' with hx
    · subst hx
      cases hq'
      refine ⟨p, hp, fun u hu => List.mem_of_mem_erase hu, fun u hu hne => ?_⟩
      exact (List.mem_erase_of_ne fun he => hne (List.mem_singleton.mpr he)).mpr hu
    · exact ⟨q', hq', fun _ hu => hu, fun _ hu _ => hu⟩

theorem Roll.Dropped.home_of {r r' : Roll} {threads : List ℕ} (h : Roll.Dropped r r' threads) (u : ℕ)
    (hu : r'.home u ≠ none) : r.home u ≠ none := by
  intro hnone
  rw [h.home, hnone] at hu
  exact hu (ite_self none)

theorem Roll.Dropped.trans {r r1 r' : Roll} {l l' : List ℕ} (h : Roll.Dropped r r1 l)
    (h' : Roll.Dropped r1 r' l') : Roll.Dropped r r' (l ++ l') := by
  refine ⟨fun u => ?_, h'.ties.trans h.ties, fun {pid p'} hp' => ?_, ?_⟩
  · rw [h'.home, h.home]
    by_cases hu : u ∈ l <;> by_cases hu' : u ∈ l' <;> simp [hu, hu']
  · obtain ⟨p1, hp1, hsub1, hkeep1⟩ := h'.members hp'
    obtain ⟨p, hp, hsub, hkeep⟩ := h.members hp1
    refine ⟨p, hp, fun u hu => hsub u (hsub1 u hu), fun u hu hne => ?_⟩
    rw [List.mem_append, not_or] at hne
    exact hkeep1 u (hkeep u hu hne.1) hne.2
  · rw [h'.rest, h.rest]

namespace Sched

variable {s s' : Sched} {tid : ℕ} {t : KernelThread}

theorem cleanThreads_dropped {threads : List ℕ} (h : threads.foldlM schedCleanThread s = some s') :
    Roll.Dropped s.roll s'.roll threads ∧ s.activeThread ∉ threads := by
  induction threads generalizing s with
  | nil =>
    cases h
    refine ⟨⟨fun u => ?_, rfl, fun {pid p'} hp' => ?_, rfl⟩, List.not_mem_nil⟩
    · rw [if_neg List.not_mem_nil]
    · exact ⟨p', hp', fun _ hu => hu, fun _ hu _ => hu⟩
  | cons u threads ih =>
    rw [List.foldlM_cons] at h
    obtain ⟨s1, hs1, hrest⟩ := Option.bind_eq_some_iff.mp h
    obtain ⟨hne, hactive, pid, p, -, hp, -, hroll⟩ := roll_schedCleanThread hs1
    obtain ⟨hdropped, hactive'⟩ := ih hrest
    rw [hroll] at hdropped
    rw [hactive] at hactive'
    refine ⟨(Roll.Dropped.dropThread s.roll hp).trans hdropped, ?_⟩
    rw [List.mem_cons, not_or]
    exact ⟨fun he => hne he.symm, hactive'⟩

/-- The children of a process are handed to the main kernel process one after the other. -/
theorem reparent_loop {l : List ℕ} (hmain : mainKprocess ∉ l) (h : l.foldlM (fun s child =>
      (s.processes child).bind fun c => (s.processes mainKprocess).map fun m =>
        (s.setProcess child { c with parentProcess := some mainKprocess }).setProcess mainKprocess
          { m with children := kqueuePush child m.children }) s = some s') :
    s'.roll = { s.roll with processes := s'.processes } ∧
      (∀ m, s.processes mainKprocess = some m → s'.processes mainKprocess =
        some { m with children := l.reverse ++ m.children }) ∧
      ∀ x, x ≠ mainKprocess → s'.processes x = if x ∈ l then (s.processes x).map fun c =>
        { c with parentProcess := some mainKprocess } else s.processes x := by
  induction l generalizing s with
  | nil =>
    cases h
    exact ⟨rfl, fun m hm => hm, fun x _ => by rw [if_neg List.not_mem_nil]⟩
  | cons child l ih =>
    rw [List.mem_cons, not_or] at hmain
    obtain ⟨hne, hl⟩ := hmain
    rw [List.foldlM_cons] at h
    obtain ⟨s1, hs1, hrest⟩ := Option.bind_eq_some_iff.mp h
    obtain ⟨c, hc, hmap⟩ := Option.bind_eq_some_iff.mp hs1
    obtain ⟨m, hm, rfl⟩ := Option.map_eq_some_iff.mp hmap
    obtain ⟨hroll, hm', hx'⟩ := ih hl hrest
    refine ⟨hroll, fun m0 hm0 => ?_, fun x hx => ?_⟩
    · obtain rfl : m = m0 := Option.some.inj (hm.symm.trans hm0)
      have hset : ∀ p : KernelProcess, ((s.setProcess child
          { c with parentProcess := some mainKprocess }).setProcess mainKprocess p).processes mainKprocess =
          some p := fun p => by simp only [setProcess, Function.update_self]
      rw [hm' _ (hset _), List.reverse_cons, List.append_assoc]
      rfl
    · rw [hx' x hx]
      simp only [setProcess, Function.update_of_ne hx, Function.update_apply]
      by_cases hxc : x = child
      · subst hxc
        rw [if_pos rfl, if_pos (List.mem_cons_self ..), hc]
        split_ifs <;> rfl
      · rw [if_neg hxc]
        simp only [List.mem_cons, hxc, false_or]

/-- What cleaning a process does. -/
theorem schedCleanProcess_roll {pid n : ℕ} (hfam : Families s.roll.ties n) (h : s.schedCleanProcess pid = some s') :
    ∃ p, s.processes pid = some p ∧ s'.roll.ties = adopted s.roll.ties pid p.children ∧
      (∀ u, s'.roll.home u = if u ∈ p.threads then none else s.roll.home u) ∧
      (∀ {x q'}, s'.processes x = some q' → ∃ q, s.processes x = some q ∧
        (∀ u ∈ q'.threads, u ∈ q.threads) ∧ ∀ u ∈ q.threads, u ∉ p.threads → u ∈ q'.threads) ∧
      s.activeThread ∉ p.threads ∧
      s'.roll = { s.roll with home := s'.roll.home, processes := s'.processes } := by
  obtain ⟨p, hp, h1⟩ := Option.bind_eq_some_iff.mp h
  obtain ⟨s1, hloop, h2⟩ := Option.bind_eq_some_iff.mp h1
  obtain ⟨s2, hrep, rfl⟩ := Option.map_eq_some_iff.mp h2
  obtain ⟨q, hq, hreparent⟩ := Option.bind_eq_some_iff.mp hrep
  obtain ⟨hdropped, hactive⟩ := cleanThreads_dropped hloop
  have hties : s1.roll.ties pid = some p.ties := by
    rw [hdropped.ties, Roll.ties]
    exact congrArg (Option.map KernelProcess.ties) hp
  obtain ⟨q0, hq0, hqp⟩ := Option.map_eq_some_iff.mp hties
  obtain rfl : q0 = q := Option.some.inj (hq0.symm.trans hq)
  have hchildren : q0.children = p.children := congrArg Ties.children hqp
  have hmain : mainKprocess ∉ q0.children.reverse := by
    intro hmem
    rw [List.mem_reverse, hchildren] at hmem
    rw [hdropped.ties] at hties
    have hlt := (hfam.younger hties (List.mem_append_left _ hmem)).1
    exact absurd hlt (Nat.not_lt_zero pid)
  obtain ⟨hroll, hm, hx⟩ := reparent_loop hmain hreparent
  have hmain1 : ∃ m, s1.processes mainKprocess = some m := by
    obtain ⟨k, hk⟩ := hfam.main
    rw [← hdropped.ties] at hk
    obtain ⟨m, hm1, -⟩ := Option.map_eq_some_iff.mp hk
    exact ⟨m, hm1⟩
  have hs2 : ∀ x q', s2.processes x = some q' → ∃ q, s1.processes x = some q ∧
      q'.threads = q.threads := by
    intro x r' hr'
    by_cases hxm : x = mainKprocess
    · subst hxm
      obtain ⟨m, hm1⟩ := hmain1
      rw [hm m hm1] at hr'
      cases hr'
      exact ⟨m, hm1, rfl⟩
    · rw [hx x hxm] at hr'
      split_ifs at hr'
      · obtain ⟨c, hc, rfl⟩ := Option.map_eq_some_iff.mp hr'
        exact ⟨c, hc, rfl⟩
      · exact ⟨r', hr', rfl⟩
  have hhome : s2.roll.home = s1.roll.home := by rw [hroll]
  refine ⟨p, hp, ?_, fun u => ?_, fun {x r'} hr' => ?_, hactive, ?_⟩
  · funext x
    change (Function.update s2.processes pid none x).map KernelProcess.ties = _
    unfold adopted
    rw [Function.update_apply, ← hdropped.ties]
    split_ifs with hxp hxm hmem
    · rfl
    · subst hxm
      obtain ⟨m, hm1⟩ := hmain1
      have hties1 : s1.roll.ties mainKprocess = some m.ties := congrArg (Option.map KernelProcess.ties) hm1
      rw [hm m hm1, hties1, List.reverse_reverse, hchildren]
      rfl
    · rw [hx x hxm, if_pos (by rwa [List.mem_reverse, hchildren])]
      unfold Roll.ties
      rw [Option.map_map, Option.map_map]
      rfl
    · rw [hx x hxm, if_neg (by rwa [List.mem_reverse, hchildren])]
      rfl
  · rw [← hdropped.home u, ← hhome]
    rfl
  · change Function.update s2.processes pid none x = some r' at hr'
    rw [Function.update_apply] at hr'
    split_ifs at hr'
    obtain ⟨r1, hr1, hthreads⟩ := hs2 x r' hr'
    rw [hthreads]
    exact hdropped.members hr1
  · have hrest : s2.roll = { s.roll with home := s2.roll.home, processes := s2.processes } := by
      rw [hhome]
      exact hroll.trans (by rw [hdropped.rest])
    change { s2.roll with processes := Function.update s2.processes pid none } = _
    rw [hrest]
    rfl

end Sched

/-- A process that exits moves from one queue of its parent to the other. -/
theorem perm_bury {children dead : List ℕ} {pid : ℕ} (h : pid ∈ children) :
    (children.erase pid ++ pid :: dead).Perm (children ++ dead) :=
  List.perm_middle.trans (List.Perm.append_right dead (List.perm_cons_erase h).symm)

/-! ## Steps -/

/-- The queues, and what the threads in a waitpid know of the child they are to reap. -/
structure TreeInv (r : Roll) : Prop where
  families : Families r.ties r.lastGivenPid
  waited : ∀ tid c, (r.pc tid).child = some c → c ≠ mainKprocess ∧ c < r.lastGivenPid
  removed : ∀ tid c, r.pc tid = .waitRemove c → r.ties c = none

namespace TreeInv

variable {s : Sched} {r : Roll}

/-- The active thread goes on elsewhere, and the queues stay. -/
theorem setPc (h : TreeInv r) {r' : Roll} (hties : r'.ties = r.ties) (hn : r'.lastGivenPid = r.lastGivenPid)
    {tid : ℕ} {next : SchedPc} (hpc : r'.pc = Function.update r.pc tid next)
    (hnext : ∀ c, next.child = some c → c ≠ mainKprocess ∧ c < r.lastGivenPid)
    (hremove : ∀ c, next = .waitRemove c → r.ties c = none) : TreeInv r' := by
  refine ⟨?_, fun u c hu => ?_, fun u c hu => ?_⟩
  · rw [hties, hn]
    exact h.families
  · rw [hpc, Function.update_apply] at hu
    rw [hn]
    split_ifs at hu
    · exact hnext c hu
    · exact h.waited u c hu
  · rw [hpc, Function.update_apply] at hu
    rw [hties]
    split_ifs at hu
    · exact hremove c hu
    · exact h.removed u c hu

/-- The queues of one process change. -/
theorem requeue (h : TreeInv r) {r' : Roll} {pid : ℕ} {k : Ties} (k' : Ties) (hk : r.ties pid = some k)
    (hties : r'.ties = Function.update r.ties pid (some k')) (hn : r'.lastGivenPid = r.lastGivenPid)
    (hparent : k'.parent = k.parent) (hnodup : k'.queued.Nodup) (hsub : ∀ c ∈ k'.queued, c ∈ k.queued)
    (hpc : ∀ u, r'.pc u = r.pc u ∨ (r'.pc u).child = none) : TreeInv r' := by
  refine ⟨?_, fun u c hu => ?_, fun u c hu => ?_⟩
  · rw [hties, hn]
    exact h.families.requeue hk hparent hnodup hsub
  · rw [hn]
    rcases hpc u with he | he
    · exact h.waited u c (he ▸ hu)
    · rw [he] at hu
      cases hu
  · rcases hpc u with he | he
    · have hnone := h.removed u c (he ▸ hu)
      have hne : c ≠ pid := by
        rintro rfl
        rw [hnone] at hk
        cases hk
      rw [hties, Function.update_of_ne hne, hnone]
    · rw [hu] at he
      cases he

theorem hasChild (h : TreeInv s.roll) {c : ℕ} (hc : s.hasChild c = true) :
    c ≠ mainKprocess ∧ c < s.lastGivenPid := by
  obtain ⟨pid, p, -, hp, hmem⟩ := Sched.exists_of_hasChild hc
  have hk : s.roll.ties pid = some p.ties := congrArg (Option.map KernelProcess.ties) hp
  have hlt := h.families.younger hk (c := c) (List.mem_append.mpr hmem)
  exact ⟨((Nat.zero_le pid).trans_lt hlt.1).ne', hlt.2⟩

/-- Every action keeps the queues in order. -/
theorem step (h : TreeInv s.roll) {act : Sched.SchedAct} (hm : s.Move act r) : TreeInv r := by
  cases hm with
  | @stay _ next _ _ _ _ hgo hnext =>
    refine h.setPc rfl rfl rfl (fun c hc => ?_) (fun c hc => ?_)
    · rcases hnext with ⟨rfl, -⟩ | ⟨hnone, -⟩ | ⟨child, main, hpc, rfl⟩
      · exact h.waited _ c hc
      · rw [hnone] at hc
        cases hc
      · cases hc
        exact h.waited s.activeThread c (by rw [show s.roll.pc _ = _ from hpc]; rfl)
    · rcases hnext with ⟨rfl, -⟩ | ⟨hnone, -⟩ | ⟨child, main, hpc, rfl⟩
      · exact h.removed _ c hc
      · rw [hc] at hnone
        cases hnone
      · cases hc
  | @create _ pid p _ _ hp =>
    refine h.setPc (Roll.ties_congr _ rfl hp rfl) rfl rfl nofun nofun
  | @fork pid p _ hhome hp =>
    have hk := Roll.ties_of_processes (r := s.roll) hp
    refine ⟨?_, fun u c hu => ?_, fun u c hu => ?_⟩
    · rw [Roll.ties_fork (r := s.roll) p rfl rfl]
      exact h.families.fork hk
    · change (Function.update s.roll.pc s.lastGivenTid .user u).child = some c at hu
      rw [Function.update_apply] at hu
      split_ifs at hu
      · cases hu
      · exact (h.waited u c hu).imp_right fun hlt => hlt.trans (Nat.lt_succ_self _)
    · change Function.update s.roll.pc s.lastGivenTid .user u = .waitRemove c at hu
      rw [Function.update_apply] at hu
      split_ifs at hu
      have hnone := h.removed u c hu
      have hne : c ≠ pid := by
        rintro rfl
        rw [hnone] at hk
        cases hk
      have hlt : c < s.lastGivenPid := (h.waited u c (by rw [hu]; rfl)).2
      rw [Roll.ties_fork (r := s.roll) p rfl rfl, Function.update_of_ne hlt.ne, Function.update_of_ne hne, hnone]
  | failFork => exact ⟨h.families, h.waited, h.removed⟩
  | @exitProcess pid parent p q hpc hhome hp hparent hq hchild =>
    have hk := Roll.ties_of_processes (r := s.roll) hq
    have hperm := @perm_bury _ q.deadChildren _ hchild
    refine h.requeue (KernelProcess.ties { q with
      children := q.children.erase pid, deadChildren := kqueuePush pid q.deadChildren }) hk (Roll.ties_update _ rfl)
      rfl rfl (hperm.nodup_iff.mpr (h.families.nodup hk))
      (fun c hc => hperm.mem_iff.mp hc) fun u => Roll.setPc_pc_or _ rfl u
  | @block child main hpc hchild _ =>
    exact h.setPc rfl rfl rfl (fun c hc => by cases hc; exact h.hasChild hchild) nofun
  | @clash child hpc hchild _ =>
    exact h.setPc rfl rfl rfl (fun c hc => by cases hc; exact h.hasChild hchild) nofun
  | @cleanThread _ next tid pid p hjoins hne hhome hp hmem =>
    refine h.setPc
      (Roll.ties_congr { p with threads := p.threads.erase tid } rfl hp rfl) rfl rfl
      (fun c hc => ?_) (fun c hc => ?_)
    · cases hjoins with
      | own => cases hc
      | woken hpc =>
        cases hc
        exact h.waited s.activeThread c (by rw [show s.roll.pc _ = _ from hpc]; rfl)
      | ended _ hchild _ _ =>
        cases hc
        exact h.hasChild hchild
    · subst hc
      cases hjoins
  | @cleanProcess _ child s1 hpc hclean =>
    obtain ⟨p, hp, hties, -, -, -, hrest⟩ := Sched.schedCleanProcess_roll h.families hclean
    have hk := Roll.ties_of_processes (r := s.roll) hp
    have hwaited := h.waited s.activeThread child (by rw [show s.roll.pc _ = _ from hpc]; rfl)
    have hn : s1.roll.lastGivenPid = s.roll.lastGivenPid := by rw [hrest]
    have hpcs : s1.roll.pc = s.roll.pc := by rw [hrest]
    refine ⟨?_, fun u c hu => ?_, fun u c hu => ?_⟩
    · change Families s1.roll.ties s1.roll.lastGivenPid
      rw [hties, hn]
      exact h.families.clean hk hwaited.1
    · change (Function.update s1.roll.pc s.activeThread (.waitRemove child) u).child = some c at hu
      change c ≠ mainKprocess ∧ c < s1.roll.lastGivenPid
      rw [hpcs, Function.update_apply] at hu
      rw [hn]
      split_ifs at hu
      · cases hu
        exact hwaited
      · exact h.waited u c hu
    · change Function.update s1.roll.pc s.activeThread (.waitRemove child) u = .waitRemove c at hu
      change s1.roll.ties c = none
      rw [hpcs, Function.update_apply] at hu
      rw [hties]
      unfold adopted
      split_ifs at hu with hactive
      · cases hu
        rw [if_pos rfl]
      · rw [h.removed u c hu]
        split_ifs <;> rfl
  | @remove _ child pid p hpc hhome hp hdead =>
    have hk := Roll.ties_of_processes (r := s.roll) hp
    have hsub : (p.children ++ p.deadChildren.erase child).Sublist (p.children ++ p.deadChildren) :=
      List.erase_sublist.append_left p.children
    refine h.requeue (KernelProcess.ties { p with deadChildren := p.deadChildren.erase child }) hk
      (Roll.ties_update _ rfl) rfl rfl ((h.families.nodup hk).sublist hsub) (fun c hc => hsub.subset hc)
      fun u => Roll.setPc_pc_or _ rfl u

end TreeInv

namespace Sched

variable {s s' : Sched}

/-! ## The tree -/

/-- Every process other than the main kernel process is in exactly one queue of children or dead children,
the owner of that queue is there, and it is the parent of the process. -/
def TreeWellFormed (s : Sched) : Prop :=
  ∀ pid p, s.processes pid = some p → pid ≠ mainKprocess → ∃ parent q,
    p.parentProcess = some parent ∧ s.processes parent = some q ∧
      q.children.count pid + q.deadChildren.count pid = 1 ∧
      ∀ o r, s.processes o = some r → o ≠ parent → pid ∉ r.children ∧ pid ∉ r.deadChildren

/-- A process that is cleaned has no dead child that is still to be reaped. -/
def CleansChildless (s : Sched) : SchedAct → Prop
  | .go _ =>
    match s.pc s.activeThread with
    | .waitClean child => ∀ p, s.processes child = some p → ∀ d ∈ p.deadChildren, s.processes d = none
    | _ => True
  | _ => True

theorem cleansChildless_of_ne {act : SchedAct} (h : ∀ child, s.pc s.activeThread ≠ .waitClean child) :
    s.CleansChildless act := by
  unfold CleansChildless
  split
  · split
    · rename_i child hpc
      exact absurd hpc (h child)
    · trivial
  · trivial

theorem treeWellFormed_iff (h : TreeInv s.roll) : s.TreeWellFormed ↔ Owned s.roll.ties := by
  constructor
  · intro hs pid k hk hmain
    obtain ⟨p, hp, -⟩ := Option.map_eq_some_iff.mp hk
    obtain ⟨parent, q, -, hq, hcount, -⟩ := hs pid p hp hmain
    refine ⟨parent, q.ties, Roll.ties_of_processes (r := s.roll) hq, ?_⟩
    change pid ∈ q.children ++ q.deadChildren
    rw [← List.count_pos_iff, List.count_append, hcount]
    exact Nat.one_pos
  · intro hs pid p hp hmain
    have hk := Roll.ties_of_processes (r := s.roll) hp
    obtain ⟨o, l, ho, hmem⟩ := hs pid p.ties hk hmain
    obtain ⟨q, hq, rfl⟩ := Option.map_eq_some_iff.mp ho
    refine ⟨o, q, h.families.owner ho hmem hk, hq, ?_, fun x r hx hne => ?_⟩
    · have hcount := List.count_eq_one_of_mem (h.families.nodup ho) hmem
      rwa [Ties.queued, List.count_append] at hcount
    · have hx' := Roll.ties_of_processes (r := s.roll) hx
      have hnot : pid ∉ r.children ++ r.deadChildren :=
        fun hm => hne (h.families.disjoint hx' ho hm hmem)
      rw [List.mem_append, not_or] at hnot
      exact hnot

/-- The queues of one process change, and hold what they held but for processes that are gone. -/
theorem owned_update {ties : ℕ → Option Ties} {pid : ℕ} {k : Ties} (k' : Ties) (h : Owned ties)
    (hk : ties pid = some k) (hsub : ∀ c ∈ k.queued, ties c ≠ none → c ∈ k'.queued) :
    Owned (Function.update ties pid (some k')) := by
  have hback : ∀ {x l}, Function.update ties pid (some k') x = some l → ∃ l0, ties x = some l0 := by
    intro x l hx
    by_cases hxp : x = pid
    · exact ⟨k, hxp ▸ hk⟩
    · rw [Function.update_of_ne hxp] at hx
      exact ⟨l, hx⟩
  intro x l hx hmain
  obtain ⟨l0, hl0⟩ := hback hx
  obtain ⟨o, q, ho, hmem⟩ := h x l0 hl0 hmain
  by_cases hop : o = pid
  · subst hop
    obtain rfl : q = k := Option.some.inj (ho.symm.trans hk)
    exact ⟨o, k', Function.update_self .., hsub x hmem (by rw [hl0]; exact Option.some_ne_none _)⟩
  · exact ⟨o, q, by rw [Function.update_of_ne hop]; exact ho, hmem⟩

theorem owned_of_eq {ties f : ℕ → Option Ties} (h : Owned f) (he : ties = f) : Owned ties := he ▸ h

/-- A process is forked. -/
theorem owned_fork {ties : ℕ → Option Ties} {n pid : ℕ} {k : Ties} (hfam : Families ties n)
    (h : Owned ties) (hk : ties pid = some k) : Owned (Function.update (Function.update ties pid
      (some { k with children := kqueuePush n k.children })) n (some ⟨some pid, [], []⟩)) := by
  have hpush := owned_update { k with children := kqueuePush n k.children } h hk
    fun c hc _ => List.mem_cons_of_mem n hc
  intro x l hx hmain
  by_cases hxn : x = n
  · refine ⟨pid, { k with children := kqueuePush n k.children }, ?_, ?_⟩
    · rw [Function.update_of_ne (hfam.given hk).ne, Function.update_self]
    · rw [hxn]
      exact List.mem_cons_self ..
  · rw [Function.update_of_ne hxn] at hx
    obtain ⟨o, q, ho, hmem⟩ := hpush x l hx hmain
    refine ⟨o, q, ?_, hmem⟩
    have hon : o ≠ n := by
      rintro rfl
      rw [Function.update_of_ne (hfam.given hk).ne'] at ho
      exact hfam.pid_lt ho
    rw [Function.update_of_ne hon, ho]

/-- A step leaves every process owned exactly when it does not clean a process with a dead child. -/
theorem owned_step_iff (h : TreeInv s.roll) (howned : Owned s.roll.ties) {act : SchedAct} {r : Roll}
    (hm : s.Move act r) : Owned r.ties ↔ s.CleansChildless act := by
  have hpcs : ∀ {pc : SchedPc}, s.pc s.activeThread = pc → (∀ child, pc ≠ .waitClean child) →
      s.CleansChildless act := fun hpc hne => cleansChildless_of_ne fun c => by rw [hpc]; exact hne c
  cases hm with
  | @stay _ next _ _ _ _ hgo hnext =>
    refine iff_of_true howned ?_
    unfold CleansChildless
    split
    · split
      · rename_i child hpc
        exact absurd hpc (hgo _ rfl child).1
      · trivial
    · trivial
  | @create _ pid p _ _ hp =>
    exact iff_of_true (owned_of_eq howned (Roll.ties_congr (r := s.roll) _ rfl hp rfl)) trivial
  | @fork pid p _ hhome hp =>
    have hk := Roll.ties_of_processes (r := s.roll) hp
    refine iff_of_true ?_ trivial
    rw [Roll.ties_fork (r := s.roll) p rfl rfl]
    exact owned_fork h.families howned hk
  | failFork => exact iff_of_true howned trivial
  | @exitProcess pid parent p q hpc hhome hp hparent hq hchild =>
    refine iff_of_true ?_ trivial
    have hk := Roll.ties_of_processes (r := s.roll) hq
    refine owned_of_eq (owned_update (KernelProcess.ties { q with
      children := q.children.erase pid, deadChildren := kqueuePush pid q.deadChildren }) howned hk
      fun c hc _ => ?_) (Roll.ties_update (r := s.roll) _ rfl)
    change c ∈ q.children.erase pid ++ pid :: q.deadChildren
    exact (perm_bury hchild).mem_iff.mpr hc
  | block => exact iff_of_true howned trivial
  | clash => exact iff_of_true howned trivial
  | @cleanThread _ next tid pid p hjoins hne hhome hp hmem =>
    refine iff_of_true (owned_of_eq howned (Roll.ties_congr (r := s.roll) _ rfl hp rfl)) ?_
    cases hjoins with
    | own hpc => exact hpc.elim (hpcs · nofun) (hpcs · nofun)
    | woken hpc => exact hpcs hpc nofun
    | ended => trivial
  | @cleanProcess _ child s1 hpc hclean =>
    obtain ⟨p, hp, hties, -⟩ := schedCleanProcess_roll h.families hclean
    have hk := Roll.ties_of_processes (r := s.roll) hp
    have hwaited := h.waited s.activeThread child (by rw [show s.roll.pc _ = _ from hpc]; rfl)
    change Owned s1.roll.ties ↔ _
    rw [hties]
    change Owned (adopted s.roll.ties child p.ties.children) ↔ _
    rw [h.families.owned_clean_iff howned hk hwaited.1]
    unfold CleansChildless
    simp only [hpc, hp, Option.some.injEq, forall_eq']
    refine forall₂_congr fun d _ => ?_
    exact Option.map_eq_none_iff
  | @remove _ child pid p hpc hhome hp hdead =>
    have hk := Roll.ties_of_processes (r := s.roll) hp
    refine iff_of_true (owned_of_eq (owned_update (KernelProcess.ties { p with
      deadChildren := p.deadChildren.erase child }) howned hk fun c hc hthere => ?_)
      (Roll.ties_update (r := s.roll) _ rfl)) (hpcs hpc nofun)
    have hne : c ≠ child := by
      rintro rfl
      exact hthere (h.removed s.activeThread c hpc)
    change c ∈ p.children ++ p.deadChildren.erase child
    rcases List.mem_append.mp hc with hc | hc
    · exact List.mem_append_left _ hc
    · exact List.mem_append_right _ ((List.mem_erase_of_ne hne).mpr hc)

/-! ## Runs -/

theorem treeInv_schedInit : TreeInv schedInit.roll := by
  have hties : schedInit.roll.ties = Function.update (fun _ => none) mainKprocess (some ⟨none, [], []⟩) := by
    funext x
    by_cases hx : x = mainKprocess
    · subst hx
      rw [Function.update_self]
      rfl
    · rw [Function.update_of_ne hx]
      simp [Roll.ties, roll, schedInit, hx]
  have hget : ∀ {x k}, schedInit.roll.ties x = some k → x = mainKprocess ∧ k = ⟨none, [], []⟩ := by
    intro x k hx
    rw [hties, Function.update_apply] at hx
    split_ifs at hx with hmain
    exact ⟨hmain, (Option.some.inj hx).symm⟩
  have hempty : ∀ {x k c}, schedInit.roll.ties x = some k → c ∉ k.queued := by
    intro x k c hx hc
    obtain ⟨-, rfl⟩ := hget hx
    cases hc
  refine ⟨⟨⟨⟨none, [], []⟩, by rw [hties, Function.update_self]⟩, fun hx => ?_,
    fun hx hc => absurd hc (hempty hx), fun hx => ?_, fun hx _ hc _ => absurd hc (hempty hx),
    fun hx hc _ => absurd hc (hempty hx)⟩, (by rintro _ _ ⟨⟩), (by rintro _ _ ⟨⟩)⟩
  · rw [(hget hx).1]
    exact Nat.one_pos
  · obtain ⟨-, rfl⟩ := hget hx
    exact List.nodup_nil

theorem owned_schedInit : Owned schedInit.roll.ties := by
  intro pid k hk hmain
  obtain ⟨p, hp, -⟩ := Option.map_eq_some_iff.mp hk
  change (if pid = mainKprocess then _ else none) = some p at hp
  rw [if_neg hmain] at hp
  cases hp

theorem treeInv_of_reachable (h : Reachable Started Step s) : TreeInv s.roll := by
  refine h.invariant (fun s => TreeInv s.roll) (fun s0 hs0 => ?_) fun _ _ _ hs _ hstep =>
    hs.step (exec_move hstep)
  obtain rfl : s0 = schedInit := hs0
  exact treeInv_schedInit

/-- The process tree is well formed in every state of a run exactly when every process that the run cleans
has no dead child that is still to be reaped. -/
theorem tree_wellFormed_iff {l : List (SchedAct × Sched)} (h : Trace Step schedInit l) :
    (∀ x ∈ l, x.2.TreeWellFormed) ↔ GuardedTrace CleansChildless schedInit l := by
  refine h.forall_iff_guarded (fun s => TreeInv s.roll ∧ Owned s.roll.ties) TreeWellFormed
    (fun s hs => (treeWellFormed_iff hs.1).mpr hs.2) (fun s act s' hs hstep hguard => ?_)
    (fun s act s' hs hstep hgood => ?_) ⟨treeInv_schedInit, owned_schedInit⟩
  · have hmove := exec_move hstep
    exact ⟨hs.1.step hmove, (owned_step_iff hs.1 hs.2 hmove).mpr hguard⟩
  · have hmove := exec_move hstep
    exact (owned_step_iff hs.1 hs.2 hmove).mp ((treeWellFormed_iff (hs.1.step hmove)).mp hgood)

/-- Init forks process 1, which exits and is reaped. -/
def reapActs : List SchedAct :=
  [.tick 0, .fork none, .tick 0, .exitProcess, .go 0, .waitpid 1, .go 0, .go 0]

theorem tree_wellFormed_reaped : ∃ l, l.length = 8 ∧ Trace Step schedInit l ∧
    ((∀ x ∈ l, x.2.TreeWellFormed) ↔ GuardedTrace CleansChildless schedInit l) := by
  have hval : (traceActs exec schedInit reapActs).map List.length = some 8 := by decide +kernel
  obtain ⟨l, hl, hlength⟩ := Option.map_eq_some_iff.mp hval
  have htrace : Trace Step schedInit l := trace_of_traceActs (fun _ _ _ h => h) hl
  exact ⟨l, hlength, htrace, tree_wellFormed_iff htrace⟩

/-- Init forks process 1, which forks process 2; both exit, and init cleans process 1. -/
def orphanActs : List SchedAct :=
  [.tick 0, .fork none, .tick 0, .fork none, .tick 0, .tick 0, .exitProcess, .go 0, .exitProcess, .go 0,
    .waitpid 1, .go 0]

/-- Process 2 is then in no queue, and its parent is gone. -/
theorem dead_orphan_lost : ¬ ∀ s : Sched, Reachable Started Step s → s.TreeWellFormed := by
  intro hclaim
  have hval : (runActs exec schedInit orphanActs).map (fun s =>
      ((s.processes 1).isNone, (s.processes 2).map KernelProcess.parentProcess)) =
        some (true, some (some 1)) := by decide +kernel
  obtain ⟨s, hs, he⟩ := Option.map_eq_some_iff.mp hval
  rw [Prod.mk.injEq, Option.isNone_iff_eq_none, Option.map_eq_some_iff] at he
  obtain ⟨hgone, p, hp, hparent⟩ := he
  have hstart : Reachable Started Step schedInit := .start rfl
  have hreach := hstart.runActs (fun _ _ _ h => ⟨trivial, h⟩) hs
  obtain ⟨parent, q, hp', hq, -⟩ := hclaim s hreach 2 p hp (by decide)
  rw [hparent] at hp'
  cases hp'
  rw [hgone] at hq
  cases hq

end Sched

end UtkKernel.Scheduler
