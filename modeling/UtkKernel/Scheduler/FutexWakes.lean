import UtkKernel.Scheduler.Calls
import UtkKernel.Scheduler.FutexCalls

/-! # What a wake does

`futex_wake` takes the first candidates of the queue, as many as it is asked for. It goes through exactly when each
of them waits as it did when it was queued and the size that the queue records does not read 0 too early; then
these threads are made ready in their order and nothing else changes. -/

namespace UtkKernel.Scheduler
open Structures Foundations
set_option autoImplicit false

variable {q q' : WaitList} {w : WaitNode} {before rest L : List WaitNode} {value : BitVec 32} {val fuel : ℕ}

/-! ## The scan -/

/-- Does the thread wait for a change from another value than the word holds? -/
def WaitNode.candidate (value : BitVec 32) (w : WaitNode) : Bool := decide (w.wait ≠ value)

theorem WaitNode.candidate_iff : w.candidate value = true ↔ w.wait ≠ value := decide_eq_true_iff

theorem WaitList.read_eq (hq : q.nodes = before ++ w :: rest) :
    q.read w.node = some (w, rest.head?.map WaitNode.node) := by
  have hnodup := q.nodup
  rw [hq, List.map_append, List.map_cons] at hnodup
  have hbefore : ∀ v ∈ before, decide (v.node ≠ w.node) = true := by
    intro v hv
    have hne := (List.nodup_append.mp hnodup).2.2 v.node (List.mem_map_of_mem hv) w.node (List.mem_cons_self ..)
    exact decide_eq_true hne
  have hdrop : q.nodes.dropWhile (fun v => decide (v.node ≠ w.node)) = w :: rest := by
    rw [hq, List.dropWhile_append_of_pos hbefore, List.dropWhile_cons_of_neg (by simp)]
  unfold WaitList.read
  rw [hdrop]

/-- Behind the nodes `before` the scan stops at the first candidate of the rest, if there is one. -/
theorem seekCandidate_cases (value : BitVec 32) (hq : q.nodes = before ++ rest) (hfuel : rest.length < fuel) :
    rest.filter (WaitNode.candidate value) = [] ∧
      FutexState.seekCandidate q value fuel (rest.head?.map WaitNode.node) = some none ∨
    ∃ skipped w rest', rest = skipped ++ w :: rest' ∧
      rest.filter (WaitNode.candidate value) = w :: rest'.filter (WaitNode.candidate value) ∧
      FutexState.seekCandidate q value fuel (rest.head?.map WaitNode.node) =
        some (some (w, rest'.head?.map WaitNode.node)) := by
  induction rest generalizing before fuel with
  | nil =>
    obtain ⟨fuel, rfl⟩ := Nat.exists_eq_succ_of_ne_zero (Nat.ne_of_gt hfuel)
    exact .inl ⟨rfl, rfl⟩
  | cons w rest ih =>
    obtain ⟨fuel, rfl⟩ := Nat.exists_eq_succ_of_ne_zero (Nat.ne_of_gt (Nat.zero_lt_of_lt hfuel))
    have hstep : FutexState.seekCandidate q value (fuel + 1) (some w.node) =
        if w.wait ≠ value then some (some (w, rest.head?.map WaitNode.node))
        else FutexState.seekCandidate q value fuel (rest.head?.map WaitNode.node) := by
      change (q.read w.node).bind _ = _
      rw [WaitList.read_eq hq]
      rfl
    change _ ∧ FutexState.seekCandidate q value (fuel + 1) (some w.node) = _ ∨ ∃ skipped v rest', _ ∧ _ ∧
      FutexState.seekCandidate q value (fuel + 1) (some w.node) = _
    rw [hstep]
    by_cases hw : w.wait ≠ value
    · rw [if_pos hw, List.filter_cons_of_pos (WaitNode.candidate_iff.mpr hw)]
      exact .inr ⟨[], w, rest, rfl, rfl, rfl⟩
    · rw [if_neg hw, List.filter_cons_of_neg (mt WaitNode.candidate_iff.mp hw)]
      have hq' : q.nodes = (before ++ [w]) ++ rest := by
        rw [hq, List.append_assoc]
        rfl
      obtain hnone | ⟨skipped, v, rest', hrest, hfound⟩ := ih hq' (Nat.lt_of_succ_lt_succ hfuel)
      · exact .inl hnone
      · exact .inr ⟨w :: skipped, v, rest', congrArg _ hrest, hfound⟩

namespace FutexState

variable {s s' s1 : FutexState} {phys : ℕ} {t : KernelThread}

/-! ## One thread is woken -/

/-- The thread waits as it did when it was queued: it is no idle thread, it is locked for a resource, it has the
resource node, and it is in no ready queue. -/
def Wakeable (s : FutexState) (w : WaitNode) : Prop :=
  w.waitingThread ≠ idleThread ∧ s.enlisted w.waitingThread = false ∧
    ∃ t, s.threads w.waitingThread = some t ∧ t.state = .waiting ∧ t.blockType = .resource ∧
      w.resourceNode ∈ t.resources

/-- The thread without its resource, and ready. -/
def released (w : WaitNode) (t : KernelThread) : KernelThread :=
  { t with state := .ready, resources := t.resources.erase w.resourceNode }

/-- The threads of the nodes are ready and in the ready queues of their priorities, where they were pushed in this
order; `table` is the futex table. -/
structure Woken (L : List WaitNode) (table : ℕ → Option (Option WaitList)) (s s' : FutexState) : Prop where
  threads (u : ℕ) : s'.threads u =
    match L.find? fun w => decide (w.waitingThread = u) with
    | none => s.threads u
    | some w => (s.threads u).map (released w)
  ready (p : ℕ) : s'.activeThreadsTable p =
    ((L.map WaitNode.waitingThread).filter fun u =>
      decide ((s.threads u).map KernelThread.priority = some p)).reverse ++ s.activeThreadsTable p
  active : s'.activeThread = s.activeThread
  table : s'.table = table

theorem release_eq (ht : s.threads w.waitingThread = some t) (hidle : w.waitingThread ≠ idleThread)
    (henlisted : s.enlisted w.waitingThread = false) (hwaiting : t.state = .waiting)
    (htype : t.blockType = .resource) (hmem : w.resourceNode ∈ t.resources) :
    ((s.schedThreadRemoveResource w.waitingThread w.resourceNode).bind fun s =>
      s.schedUnlockThread w.waitingThread .resource) = some { s with
        threads := Function.update s.threads w.waitingThread (some (released w t))
        activeThreadsTable := Function.update s.activeThreadsTable t.priority
          (w.waitingThread :: s.activeThreadsTable t.priority) } := by
  unfold schedThreadRemoveResource
  rw [ht, Option.bind_some, if_pos hmem, Option.bind_some]
  unfold schedUnlockThread
  have hset : (s.setThread w.waitingThread { t with resources := t.resources.erase w.resourceNode }).threads
      w.waitingThread = some { t with resources := t.resources.erase w.resourceNode } := Function.update_self ..
  have hnot : ¬(w.waitingThread = idleThread ∨ t.state ≠ .waiting ∨ t.blockType ≠ .resource ∨
      s.enlisted w.waitingThread = true) := by
    simp [hidle, hwaiting, htype, henlisted]
  rw [hset, Option.bind_some]
  change (if w.waitingThread = idleThread ∨ t.state ≠ .waiting ∨ t.blockType ≠ .resource ∨
    s.enlisted w.waitingThread = true then none else _) = _
  rw [if_neg hnot]
  unfold setThread
  simp only [Function.update_idem]
  rfl

theorem wakeable_of_release
    (h : ((s.schedThreadRemoveResource w.waitingThread w.resourceNode).bind fun s =>
      s.schedUnlockThread w.waitingThread .resource) = some s') : s.Wakeable w := by
  obtain ⟨s1, hremove, hunlock⟩ := Option.bind_eq_some_iff.mp h
  obtain ⟨t, ht, hbody⟩ := Option.bind_eq_some_iff.mp hremove
  split_ifs at hbody with hmem
  obtain rfl := Option.some.inj hbody
  obtain ⟨v, hv, hbody⟩ := Option.bind_eq_some_iff.mp hunlock
  have hset : (s.setThread w.waitingThread { t with resources := t.resources.erase w.resourceNode }).threads
      w.waitingThread = some { t with resources := t.resources.erase w.resourceNode } := Function.update_self ..
  obtain rfl := Option.some.inj (hset.symm.trans hv)
  split_ifs at hbody with hwrong
  simp only [not_or, not_not, Bool.not_eq_true] at hwrong
  exact ⟨hwrong.1, hwrong.2.2.2, t, ht, hwrong.2.1, hwrong.2.2.1, hmem⟩

theorem WaitList.remove_eq (hq : q.nodes = before ++ w :: rest) :
    ∃ q', q.remove w.node = some q' ∧ q'.nodes = before ++ rest ∧ q'.size = q.size := by
  have hmem : w.node ∈ q.nodes.map WaitNode.node := by
    rw [hq]
    exact List.mem_map_of_mem (List.mem_append_right _ (List.mem_cons_self ..))
  have hnodup := q.nodup
  rw [hq, List.map_append, List.map_cons] at hnodup
  obtain ⟨-, hrest, hbefore⟩ := List.nodup_append.mp hnodup
  have hfilter : q.nodes.filter (fun v => decide (v.node ≠ w.node)) = before ++ rest := by
    rw [hq, List.filter_append, List.filter_cons_of_neg (by simp)]
    congr 1
    · exact List.filter_eq_self.mpr fun v hv =>
        decide_eq_true (hbefore v.node (List.mem_map_of_mem hv) w.node (List.mem_cons_self ..))
    · exact List.filter_eq_self.mpr fun v hv => decide_eq_true fun heq =>
        (List.nodup_cons.mp hrest).1 (heq ▸ List.mem_map_of_mem hv)
  exact ⟨_, if_pos hmem, hfilter, rfl⟩

/-- What a thread that is made ready and pushed looks like to the others. -/
theorem woken_singleton (ht : s.threads w.waitingThread = some t) (table : ℕ → Option (Option WaitList))
    (hthreads : s'.threads = Function.update s.threads w.waitingThread (some (released w t)))
    (hready : s'.activeThreadsTable = Function.update s.activeThreadsTable t.priority
      (w.waitingThread :: s.activeThreadsTable t.priority))
    (hactive : s'.activeThread = s.activeThread) (htable : s'.table = table) : Woken [w] table s s' := by
  refine ⟨fun u => ?_, fun p => ?_, hactive, htable⟩
  · rw [hthreads, List.find?_singleton]
    by_cases hu : w.waitingThread = u
    · subst hu
      rw [Function.update_self, decide_eq_true rfl, ht]
      rfl
    · rw [Function.update_of_ne (Ne.symm hu), decide_eq_false hu]
      rfl
  · have hpriority : ((s.threads w.waitingThread).map KernelThread.priority = some p) ↔ t.priority = p := by
      rw [ht, Option.map_some, Option.some_inj]
    have hfilter : ([w.waitingThread].filter fun u =>
        decide ((s.threads u).map KernelThread.priority = some p)) =
        if t.priority = p then [w.waitingThread] else [] := by
      simp only [List.filter_cons, List.filter_nil, decide_eq_true_eq, hpriority]
    rw [hready, List.map_singleton, hfilter]
    by_cases hp : t.priority = p
    · rw [if_pos hp, ← hp, Function.update_self]
      rfl
    · rw [if_neg hp, Function.update_of_ne (Ne.symm hp)]
      rfl

theorem Woken.priority {table : ℕ → Option (Option WaitList)} (h : Woken L table s s') (u : ℕ) :
    (s'.threads u).map KernelThread.priority = (s.threads u).map KernelThread.priority := by
  rw [h.threads]
  split
  · rfl
  · rw [Option.map_map]
    rfl

theorem Woken.cons {table table' : ℕ → Option (Option WaitList)} (h : Woken [w] table s s1)
    (h' : Woken L table' s1 s') (hnew : w.waitingThread ∉ L.map WaitNode.waitingThread) :
    Woken (w :: L) table' s s' := by
  refine ⟨fun u => ?_, fun p => ?_, h'.active.trans h.active, h'.table⟩
  · rw [h'.threads u, h.threads u, List.find?_singleton, List.find?_cons]
    by_cases hu : w.waitingThread = u
    · have hnone : L.find? (fun v => decide (v.waitingThread = u)) = none := by
        refine List.find?_eq_none.mpr fun v hv heq => hnew ?_
        rw [hu, ← of_decide_eq_true heq]
        exact List.mem_map_of_mem hv
      rw [hnone, decide_eq_true hu]
      rfl
    · rw [decide_eq_false hu]
      rfl
  · have hfilter : ((L.map WaitNode.waitingThread).filter fun u =>
        decide ((s1.threads u).map KernelThread.priority = some p)) =
        (L.map WaitNode.waitingThread).filter fun u =>
          decide ((s.threads u).map KernelThread.priority = some p) :=
      List.filter_congr fun u _ => by rw [h.priority]
    rw [h'.ready p, h.ready p, hfilter, ← List.append_assoc, ← List.reverse_append, ← List.filter_append]
    rfl

/-- The wake of one thread, up to what happens with the queue. -/
theorem wakeNode_eq (hw : s.Wakeable w) (htable : s.table phys = some (some q))
    (hq : q.nodes = before ++ w :: rest) : ∃ (q' : WaitList) (s1 : FutexState),
      q'.nodes = before ++ rest ∧ q'.size = q.size ∧
      (∀ entry, Woken [w] (Function.update s.table phys entry) s (s1.setEntry phys entry)) ∧
      s.wakeNode phys w =
        if q'.size = 0 then if q'.nodes = [] then some (true, s1.setEntry phys none) else none
        else some (false, s1.setEntry phys (some (some q'))) := by
  obtain ⟨hidle, henlisted, t, ht, hwaiting, htype, hmem⟩ := hw
  obtain ⟨q', hremove, hnodes, hsize⟩ := WaitList.remove_eq hq
  have hrelease := release_eq ht hidle henlisted hwaiting htype hmem
  refine ⟨q', { s with
    threads := Function.update s.threads w.waitingThread (some (released w t))
    activeThreadsTable := Function.update s.activeThreadsTable t.priority
      (w.waitingThread :: s.activeThreadsTable t.priority) }, hnodes, hsize,
    fun entry => woken_singleton ht _ rfl rfl rfl rfl, ?_⟩
  obtain ⟨s1, hs1, hs2⟩ := Option.bind_eq_some_iff.mp hrelease
  unfold wakeNode
  rw [Option.bind_eq_bind, hs1, Option.bind_some, Option.bind_eq_bind, hs2, Option.bind_some, htable]
  change (q.remove w.node).bind _ = _
  rw [hremove]
  rfl

theorem wakeNode_none (hw : ¬s.Wakeable w) : s.wakeNode phys w = none := by
  by_contra hsome
  obtain ⟨r, hr⟩ := Option.ne_none_iff_exists'.mp hsome
  obtain ⟨s1, hs1, hr⟩ := Option.bind_eq_some_iff.mp hr
  obtain ⟨s2, hs2, -⟩ := Option.bind_eq_some_iff.mp hr
  exact hw (wakeable_of_release (Option.bind_eq_some_iff.mpr ⟨s1, hs1, hs2⟩))

/-- From a queue whose size does not read 0. -/
theorem wakeNode_cases (htable : s.table phys = some (some q)) (hq : q.nodes = before ++ w :: rest)
    (hsize : q.size ≠ 0) :
    ¬s.Wakeable w ∧ s.wakeNode phys w = none ∨
      s.Wakeable w ∧ ∃ q' s', q'.nodes = before ++ rest ∧ q'.size = q.size ∧
        s.wakeNode phys w = some (false, s') ∧
        Woken [w] (Function.update s.table phys (some (some q'))) s s' := by
  by_cases hw : s.Wakeable w
  · obtain ⟨q', s1, hnodes, hsize', hwoken, hwake⟩ := wakeNode_eq hw htable hq
    rw [if_neg (hsize' ▸ hsize)] at hwake
    exact .inr ⟨hw, q', _, hnodes, hsize', hwake, hwoken _⟩
  · exact .inl ⟨hw, wakeNode_none hw⟩

/-! ## All of them -/

theorem Woken.wakeable_iff {table : ℕ → Option (Option WaitList)} (h : Woken [w] table s s1) {v : WaitNode}
    (hne : v.waitingThread ≠ w.waitingThread) : s1.Wakeable v ↔ s.Wakeable v := by
  have hthreads : s1.threads v.waitingThread = s.threads v.waitingThread := by
    rw [h.threads, List.find?_singleton, decide_eq_false hne.symm]
    rfl
  have hmem : ∀ i, v.waitingThread ∈ s1.activeThreadsTable i ↔ v.waitingThread ∈ s.activeThreadsTable i := by
    intro i
    rw [h.ready, List.mem_append]
    refine or_iff_right fun hfilter => hne ?_
    exact List.mem_singleton.mp (List.mem_filter.mp (List.mem_reverse.mp hfilter)).1
  have henlisted : s1.enlisted v.waitingThread = s.enlisted v.waitingThread := by
    unfold enlisted
    simp only [hmem]
  unfold Wakeable
  rw [hthreads, henlisted]

theorem Woken.not_wakeable {table : ℕ → Option (Option WaitList)} (h : Woken [w] table s s1) {v : WaitNode}
    (heq : v.waitingThread = w.waitingThread) : ¬s1.Wakeable v := by
  rintro ⟨-, -, t, ht, hwaiting, -, -⟩
  rw [h.threads, List.find?_singleton, decide_eq_true heq.symm] at ht
  obtain ⟨t', -, rfl⟩ := Option.map_eq_some_iff.mp ht
  exact nomatch hwaiting

/-- The nodes can be woken one after the other. -/
def AllWakeable (s : FutexState) (L : List WaitNode) : Prop :=
  (∀ w ∈ L, s.Wakeable w) ∧ (L.map WaitNode.waitingThread).Nodup

theorem allWakeable_cons {table : ℕ → Option (Option WaitList)} (hw : s.Wakeable w) (h : Woken [w] table s s1) :
    s.AllWakeable (w :: L) ↔ s1.AllWakeable L := by
  unfold AllWakeable
  rw [List.forall_mem_cons, List.map_cons, List.nodup_cons]
  constructor
  · rintro ⟨⟨-, hall⟩, hnew, hnodup⟩
    refine ⟨fun v hv => (h.wakeable_iff fun heq => hnew ?_).mpr (hall v hv), hnodup⟩
    rw [← heq]
    exact List.mem_map_of_mem hv
  · rintro ⟨hall, hnodup⟩
    have hne : ∀ v ∈ L, v.waitingThread ≠ w.waitingThread := fun v hv heq => h.not_wakeable heq (hall v hv)
    refine ⟨⟨hw, fun v hv => (h.wakeable_iff (hne v hv)).mp (hall v hv)⟩, fun hmem => ?_, hnodup⟩
    obtain ⟨v, hv, heq⟩ := List.mem_map.mp hmem
    exact hne v hv heq

/-- A turn of the outer loop. -/
theorem wakeNodes_succ (htable : s.table phys = some (some q)) (cursor : Option ℕ) :
    wakeNodes phys value (val + 1) cursor s =
      (seekCandidate q value (q.nodes.length + 1) cursor).bind fun found =>
        match found with
        | none => some s
        | some (w, next) => (s.wakeNode phys w).bind fun r =>
            if r.1 then some r.2 else wakeNodes phys value val next r.2 := by
  change (s.table phys).join.bind _ = _
  rw [htable]
  rfl

/-- A loop that wakes nobody. -/
theorem wakeNodes_stop (htable : s.table phys = some (some q)) (hq : q.nodes = before ++ rest) (hL : L = [])
    {r : Option FutexState} (hr : r = some s) :
    ¬s.AllWakeable L ∧ r = none ∨ s.AllWakeable L ∧ ∃ q' s',
      q'.nodes = before ++ rest.filter (fun w => decide (w ∉ L)) ∧ r = some s' ∧
      Woken L (Function.update s.table phys (some (some q'))) s s' := by
  subst hL hr
  refine .inr ⟨⟨nofun, List.nodup_nil⟩, q, s, ?_, rfl, fun u => rfl, fun p => rfl, rfl, ?_⟩
  · rw [hq, List.filter_eq_self.mpr fun w _ => decide_eq_true List.not_mem_nil]
  · rw [← htable, Function.update_eq_self]

/-- The nodes that are left, when a node and some behind it leave. -/
theorem filter_left {skipped rest' : List WaitNode} (hnodup : (skipped ++ w :: rest').Nodup)
    (hL : ∀ v ∈ L, v ∈ rest') : (skipped ++ w :: rest').filter (fun v => decide (v ∉ w :: L)) =
      skipped ++ rest'.filter fun v => decide (v ∉ L) := by
  obtain ⟨-, hrest, hskipped⟩ := List.nodup_append.mp hnodup
  have hw := (List.nodup_cons.mp hrest).1
  rw [List.filter_append, List.filter_cons_of_neg (by simp)]
  congr 1
  · refine List.filter_eq_self.mpr fun v hv => decide_eq_true fun hmem => ?_
    rcases List.mem_cons.mp hmem with rfl | hvL
    · exact hskipped v hv v (List.mem_cons_self ..) rfl
    · exact hskipped v hv v (List.mem_cons_of_mem _ (hL v hvL)) rfl
  · refine List.filter_congr fun v hv => decide_eq_decide.mpr (not_congr ?_)
    rw [List.mem_cons]
    exact or_iff_right fun heq => hw (heq ▸ hv)

/-- What the outer loop does from the nodes `rest` on: it goes through exactly when the first candidates there can
be woken, as many as are asked for, and then takes them out. -/
theorem wakeNodes_cases (value : BitVec 32) (val : ℕ) (htable : s.table phys = some (some q)) (hq : q.nodes = before ++ rest)
    (hsize : q.size ≠ 0) :
    ¬s.AllWakeable ((rest.filter (WaitNode.candidate value)).take val) ∧
        wakeNodes phys value val (rest.head?.map WaitNode.node) s = none ∨
      s.AllWakeable ((rest.filter (WaitNode.candidate value)).take val) ∧ ∃ q' s',
        q'.nodes = before ++ rest.filter
          (fun w => decide (w ∉ (rest.filter (WaitNode.candidate value)).take val)) ∧
        wakeNodes phys value val (rest.head?.map WaitNode.node) s = some s' ∧
        Woken ((rest.filter (WaitNode.candidate value)).take val)
          (Function.update s.table phys (some (some q'))) s s' := by
  induction val generalizing s q before rest with
  | zero => exact wakeNodes_stop htable hq List.take_zero rfl
  | succ val ih =>
    have hfuel : rest.length < q.nodes.length + 1 := by
      rw [hq, List.length_append]
      omega
    obtain ⟨hnil, hseek⟩ | ⟨skipped, w, rest', hrest, hfilter, hseek⟩ :=
      seekCandidate_cases value hq hfuel
    · rw [wakeNodes_succ htable, hseek, hnil]
      exact wakeNodes_stop htable hq List.take_nil rfl
    · rw [wakeNodes_succ htable, hseek, hfilter, List.take_succ_cons]
      have hsplit : q.nodes = (before ++ skipped) ++ w :: rest' := by
        rw [hq, hrest, List.append_assoc]
      have hnodup : (skipped ++ w :: rest').Nodup := by
        have hnodes := List.Nodup.of_map _ q.nodup
        rw [hq, hrest] at hnodes
        exact (List.nodup_append.mp hnodes).2.1
      obtain ⟨hw, hnone⟩ | ⟨hw, q1, s1, hnodes, hsize1, hwake, hwoken⟩ := wakeNode_cases htable hsplit hsize
      · refine .inl ⟨fun hall => hw (hall.1 w (List.mem_cons_self ..)), ?_⟩
        change (s.wakeNode phys w).bind _ = none
        rw [hnone]
        rfl
      · have htable1 : s1.table phys = some (some q1) := by
          rw [hwoken.table, Function.update_self]
        have hgo : ((some (some (w, rest'.head?.map WaitNode.node))).bind fun found =>
            match found with
            | none => some s
            | some (w, next) => (s.wakeNode phys w).bind fun r =>
                if r.1 then some r.2 else wakeNodes phys value val next r.2) =
            wakeNodes phys value val (rest'.head?.map WaitNode.node) s1 := by
          change (s.wakeNode phys w).bind _ = _
          rw [hwake]
          rfl
        rw [hgo, allWakeable_cons hw hwoken]
        obtain hfail | ⟨hall, q2, s2, hnodes2, hloop, hwoken2⟩ := ih htable1 hnodes (hsize1 ▸ hsize)
        · exact .inl hfail
        · refine .inr ⟨hall, q2, s2, ?_, hloop, ?_⟩
          · rw [hnodes2, hrest, filter_left hnodup fun v hv => (List.mem_filter.mp (List.take_subset _ _ hv)).1,
              List.append_assoc]
          · rw [hwoken.table, Function.update_idem] at hwoken2
            exact hwoken.cons hwoken2 (List.nodup_cons.mp ((allWakeable_cons hw hwoken).mpr hall).2).1

/-! ## The call -/

/-- The nodes of the threads that wait on an address. -/
def waiters (s : FutexState) (phys : ℕ) : List WaitNode := (s.table phys).join.elim [] WaitList.nodes

/-- The first candidates among them, as many as are asked for. -/
def toWake (s : FutexState) (phys : ℕ) (value : BitVec 32) (val : ℕ) : List WaitNode :=
  ((s.waiters phys).filter (WaitNode.candidate value)).take val

/-- As many different threads as are asked for, or all that there are to wake, become ready without the resource,
each pushed once in the ready queue of its priority; they and nobody else leave the queue of the address, and
neither the other queues nor other threads change. -/
structure WakesExactly (s : FutexState) (phys : ℕ) (value : BitVec 32) (val : ℕ) (s' : FutexState) : Prop where
  number : (s.toWake phys value val).length = min val ((s.waiters phys).filter (WaitNode.candidate value)).length
  distinct : ((s.toWake phys value val).map WaitNode.waitingThread).Nodup
  woken : Woken (s.toWake phys value val) s'.table s s'
  left : s'.waiters phys = (s.waiters phys).filter fun w => decide (w ∉ s.toWake phys value val)
  others (a : ℕ) : a ≠ phys → s'.table a = s.table a

/-- If the address has a queue, it is not freed, the threads to wake wait as they did when they were queued, and the
size that the queue records does not read 0 when one is to be woken that is not alone. -/
def CanWake (s : FutexState) (phys : ℕ) (value : BitVec 32) (val : ℕ) : Prop :=
  ∀ entry, s.table phys = some entry → ∃ q, entry = some q ∧ s.AllWakeable (s.toWake phys value val) ∧
    (s.toWake phys value val = [] ∨ q.size ≠ 0 ∨ q.nodes.length = 1)

theorem waiters_eq (htable : s.table phys = some (some q)) : s.waiters phys = q.nodes := by
  rw [waiters, htable]
  rfl

theorem futexWake_eq (htable : s.table phys = some (some q)) : s.futexWake phys value val =
    (wakeNodes phys value val (q.nodes.head?.map WaitNode.node) s).map fun s' => (.osNoErr, s') := by
  unfold futexWake
  rw [htable]
  exact Option.map_eq_bind.symm

/-- What is woken and what is left of the table is all that a wake has to show. -/
theorem wakesExactly_of_woken (entry : Option (Option WaitList)) (hall : s.AllWakeable (s.toWake phys value val))
    (hwoken : Woken (s.toWake phys value val) (Function.update s.table phys entry) s s')
    (hleft : entry.join.elim [] WaitList.nodes =
      (s.waiters phys).filter fun w => decide (w ∉ s.toWake phys value val)) :
    s.WakesExactly phys value val s' := by
  refine ⟨List.length_take, hall.2, ⟨hwoken.threads, hwoken.ready, hwoken.active, rfl⟩, ?_, fun a ha => ?_⟩
  · rw [waiters, hwoken.table, Function.update_self]
    exact hleft
  · rw [hwoken.table, Function.update_of_ne ha]

/-- The loop from a queue whose size reads 0: it wakes nobody, or one thread that is alone. -/
theorem wakeNodes_zero (value : BitVec 32) (val : ℕ) (htable : s.table phys = some (some q)) (hsize : q.size = 0) :
    ¬(s.AllWakeable (s.toWake phys value val) ∧ (s.toWake phys value val = [] ∨ q.nodes.length = 1)) ∧
        wakeNodes phys value val (q.nodes.head?.map WaitNode.node) s = none ∨
      (s.AllWakeable (s.toWake phys value val) ∧ (s.toWake phys value val = [] ∨ q.nodes.length = 1)) ∧
        ∃ s', wakeNodes phys value val (q.nodes.head?.map WaitNode.node) s = some s' ∧
          s.WakesExactly phys value val s' := by
  have hnobody : s.toWake phys value val = [] → s.AllWakeable (s.toWake phys value val) ∧
      s.WakesExactly phys value val s := by
    intro hnil
    have hall : s.AllWakeable (s.toWake phys value val) := by
      rw [hnil]
      exact ⟨nofun, List.nodup_nil⟩
    refine ⟨hall, wakesExactly_of_woken (s.table phys) hall ?_ ?_⟩
    · rw [hnil, Function.update_eq_self]
      exact ⟨fun _ => rfl, fun _ => rfl, rfl, rfl⟩
    · rw [hnil]
      exact (List.filter_eq_self.mpr fun w _ => decide_eq_true List.not_mem_nil).symm
  cases val with
  | zero =>
    obtain ⟨hall, hexact⟩ := hnobody List.take_zero
    exact .inr ⟨⟨hall, .inl List.take_zero⟩, s, rfl, hexact⟩
  | succ val =>
    rw [wakeNodes_succ htable]
    obtain ⟨hfilter, hseek⟩ | ⟨skipped, w, rest, hnodes, hfilter, hseek⟩ :=
      seekCandidate_cases value (show q.nodes = [] ++ q.nodes from rfl) (Nat.lt_succ_self q.nodes.length)
    · have hnil : s.toWake phys value (val + 1) = [] := by
        rw [toWake, waiters_eq htable, hfilter, List.take_nil]
      obtain ⟨hall, hexact⟩ := hnobody hnil
      rw [hseek]
      exact .inr ⟨⟨hall, .inl hnil⟩, s, rfl, hexact⟩
    · have hwake : s.toWake phys value (val + 1) = w :: (rest.filter (WaitNode.candidate value)).take val := by
        rw [toWake, waiters_eq htable, hfilter, List.take_succ_cons]
      rw [hseek]
      change _ ∧ (s.wakeNode phys w).bind _ = none ∨ _ ∧ ∃ s', (s.wakeNode phys w).bind _ = some s' ∧ _
      by_cases hw : s.Wakeable w
      · obtain ⟨q', s1, hnodes', hsize', hwoken, hnode⟩ := wakeNode_eq hw htable hnodes
        rw [if_pos (hsize'.trans hsize), hnodes'] at hnode
        by_cases halone : skipped ++ rest = []
        · obtain ⟨rfl, rfl⟩ := List.append_eq_nil_iff.mp halone
          have hlist : s.toWake phys value (val + 1) = [w] := by
            rw [hwake, List.filter_nil, List.take_nil]
          have hall : s.AllWakeable (s.toWake phys value (val + 1)) := by
            rw [hlist]
            exact ⟨fun v hv => List.mem_singleton.mp hv ▸ hw, List.nodup_singleton _⟩
          rw [if_pos halone] at hnode
          refine .inr ⟨⟨hall, .inr (by rw [hnodes]; rfl)⟩, s1.setEntry phys none, by rw [hnode]; rfl,
            wakesExactly_of_woken none hall ?_ ?_⟩
          · rw [hlist]
            exact hwoken none
          · rw [hlist, waiters_eq htable, hnodes]
            simp
        · rw [if_neg halone] at hnode
          refine .inl ⟨fun ⟨_, hlone⟩ => ?_, by rw [hnode]; rfl⟩
          rw [hwake, hnodes, List.length_append, List.length_cons] at hlone
          have hlength := hlone.resolve_left (List.cons_ne_nil _ _)
          have hzero : (skipped ++ rest).length = 0 := by
            rw [List.length_append]
            omega
          exact halone (List.length_eq_zero_iff.mp hzero)
      · refine .inl ⟨fun ⟨hall, _⟩ => hw (hall.1 w (by rw [hwake]; exact List.mem_cons_self ..)), ?_⟩
        rw [wakeNode_none hw]
        rfl

/-- Init forks process 1 of thread 2, which creates thread 3; that waits on a futex, thread 2 forks process 2 of
thread 4, which shares the stack of thread 3 as a copy, and exits process 1; thread 4 runs. -/
def endedActs : List Sched.SchedAct :=
  [.tick 0, .fork none, .tick 0, .create 0, .tick 0, .tick 0, .futexWait 100 7 7 none, .go 0, .fork none, .exitProcess,
    .go 0, .tick 0]

/-- The threads and the ready queues of the scheduler with one futex, on which thread 3 waits. -/
def ofSched (r : Sched) : FutexState where
  table := Function.update (fun _ => none) 100 (some (some ⟨[⟨1, 3, 7, 100⟩], 1, List.nodup_singleton _⟩))
  threads := r.threads
  activeThreadsTable := r.activeThreadsTable
  activeThread := r.activeThread

end FutexState
end UtkKernel.Scheduler
