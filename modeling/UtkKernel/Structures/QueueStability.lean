import UtkKernel.Structures.Queue

/-! # Priority queues are stable

From head to tail a queue holds the present nodes in the order in which a stable sort leaves them, so that the tail is
the oldest node of the smallest priority. -/

namespace UtkKernel.Structures
open Foundations
set_option autoImplicit false

/-! ## Lists of nodes -/

section Lists

variable {α : Type} {queue before after nodes : List (KqueueNode α)} {node : KqueueNode α}

/-- A node is pushed in front of the first one whose priority is not higher. -/
theorem kqueuePushPrio_append (hbefore : ∀ n ∈ before, node.priority < n.priority)
    (hafter : ∀ n ∈ after.head?, n.priority ≤ node.priority) :
    kqueuePushPrio node (before ++ after) = before ++ node :: after := by
  induction before with
  | nil =>
    cases after with
    | nil => rfl
    | cons cursor after => exact if_neg (Nat.not_lt.mpr (hafter cursor rfl))
  | cons cursor before ih =>
    obtain ⟨hcursor, hbefore⟩ := List.forall_mem_cons.mp hbefore
    have hpush : kqueuePushPrio node (cursor :: (before ++ after)) = cursor :: kqueuePushPrio node (before ++ after) :=
      if_pos hcursor
    rw [List.cons_append, hpush, ih hbefore, List.cons_append]

/-- A node that no other one is below, nor equal to if it was pushed before, is at the tail. -/
theorem kqueuePushAll_last (hbefore : ∀ n ∈ before, node.priority < n.priority)
    (hafter : ∀ n ∈ after, node.priority ≤ n.priority) :
    kqueuePushAll (before ++ node :: after) [] = kqueuePushAll (before ++ after) [] ++ [node] := by
  have hbehind : ∀ (n : KqueueNode α) (queue : List (KqueueNode α)), node.priority ≤ n.priority →
      kqueuePushPrio n (queue ++ [node]) = kqueuePushPrio n queue ++ [node] := by
    intro n queue hn
    induction queue with
    | nil => exact if_neg (Nat.not_lt.mpr hn)
    | cons cursor queue ih =>
      rw [List.cons_append]
      unfold kqueuePushPrio
      split_ifs
      · rw [ih, List.cons_append]
      · rfl
  have hall : ∀ nodes queue : List (KqueueNode α), (∀ n ∈ nodes, node.priority ≤ n.priority) →
      kqueuePushAll nodes (queue ++ [node]) = kqueuePushAll nodes queue ++ [node] := by
    intro nodes
    induction nodes with
    | nil => exact fun _ _ => rfl
    | cons n nodes ih =>
      intro queue hnodes
      obtain ⟨hn, hnodes⟩ := List.forall_mem_cons.mp hnodes
      change kqueuePushAll nodes (kqueuePushPrio n (queue ++ [node])) = kqueuePushAll nodes (kqueuePushPrio n queue) ++ [node]
      rw [hbehind n queue hn, ih _ hnodes]
  have hfirst : kqueuePushPrio node (kqueuePushAll before []) = kqueuePushAll before [] ++ [node] := by
    have hmem : ∀ n ∈ kqueuePushAll before [], node.priority < n.priority := by
      intro n hn
      have hn := (kqueuePushAll_perm before []).mem_iff.mp hn
      rw [List.append_nil] at hn
      exact hbefore n hn
    have hnone : ∀ n ∈ ([] : List (KqueueNode α)).head?, n.priority ≤ node.priority := by simp
    have hpush := kqueuePushPrio_append hmem hnone
    rwa [List.append_nil] at hpush
  have hsplit : ∀ nodes nodes' queue : List (KqueueNode α),
      kqueuePushAll (nodes ++ nodes') queue = kqueuePushAll nodes' (kqueuePushAll nodes queue) :=
    fun nodes nodes' queue => List.foldl_append ..
  rw [hsplit, hsplit]
  change kqueuePushAll after (kqueuePushPrio node (kqueuePushAll before [])) = _
  rw [hfirst, hall after _ hafter]

/-- In a list that is not empty some node is such a one. -/
theorem exists_oldest {β : Type} (key : β → ℕ) {l : List β} (h : l ≠ []) : ∃ before node after,
    l = before ++ node :: after ∧ (∀ n ∈ before, key node < key n) ∧ ∀ n ∈ after, key node ≤ key n := by
  induction l with
  | nil => exact absurd rfl h
  | cons x l ih =>
    by_cases hl : l = []
    · exact ⟨[], x, [], by rw [hl, List.nil_append], by simp, by simp⟩
    · obtain ⟨before, node, after, rfl, hbefore, hafter⟩ := ih hl
      by_cases hx : key node < key x
      · exact ⟨x :: before, node, after, rfl, List.forall_mem_cons.mpr ⟨hx, hbefore⟩, hafter⟩
      · refine ⟨[], x, before ++ node :: after, rfl, by simp, fun n hn => ?_⟩
        have hle := Nat.le_of_not_lt hx
        rcases List.mem_append.mp hn with hn | hn
        · exact hle.trans (hbefore n hn).le
        · rcases List.mem_cons.mp hn with rfl | hn
          · exact hle
          · exact hle.trans (hafter n hn)

end Lists

/-! ## Calls -/

/-- The two implementations. -/
inductive PrioQueue
  | kqueue
  | queue
  deriving DecidableEq

/-- A call that ends: a push, or a pop with the node that it returns. -/
inductive PrioEvent
  | pushed (node : Pointer) (priority : BitVec 32)
  | popped (node : Pointer)
  deriving DecidableEq

namespace PrioQueue

/-- A push that neither panics nor reports an error. -/
def pushPrio : PrioQueue → ℕ → KqueueT → Pointer → BitVec 32 → Option KqueueT
  | kqueue, fuel, s, node, priority => s.pushPrio fuel node priority
  | queue, fuel, s, node, priority =>
    (s.queuePushPrio fuel node priority).bind fun r => if r.1 = .osNoErr then some r.2 else none

def pop : PrioQueue → KqueueT → Option (Pointer × KqueueT)
  | kqueue, s => s.pop
  | queue, s => s.queuePop

/-- A node that is pushed is not enlisted. -/
def Step (q : PrioQueue) (s : KqueueT) (s' : KqueueT) : PrioEvent → Prop
  | .pushed node priority =>
    node ≠ 0 ∧ (s.nodes node).enlisted = false ∧ ∃ fuel, q.pushPrio fuel s node priority = some s'
  | .popped node => q.pop s = some (node, s')

/-- The calls lead from an empty queue to the state. -/
inductive Served (q : PrioQueue) (others : Set Pointer) : List PrioEvent → KqueueT → Prop
  | start {s : KqueueT} (h : s.Started others) : Served q others [] s
  | next {events : List PrioEvent} {event : PrioEvent} {s s' : KqueueT} (h : Served q others events s)
      (hstep : q.Step s s' event) : Served q others (events ++ [event]) s'

end PrioQueue

/-- The nodes that were pushed and not popped since, with their priorities; the oldest one comes first. -/
def pending (events : List PrioEvent) : List (Pointer × BitVec 32) :=
  events.foldl (fun present event =>
    match event with
    | .pushed node priority => present ++ [(node, priority)]
    | .popped node => present.eraseP fun p => decide (p.1 = node)) []

/-- The node has the smallest priority, and the nodes that were pushed before it have higher ones. -/
def Oldest (present : List (Pointer × BitVec 32)) (node : Pointer) : Prop :=
  ∃ before p after, present = before ++ p :: after ∧ p.1 = node ∧ (∀ n ∈ before, p.2 < n.2) ∧ ∀ n ∈ after, p.2 ≤ n.2

/-- From head to tail the queue has the present nodes in falling order; calls end, and a pop returns the oldest node of
the smallest priority, or `NULL` if there is none. -/
structure StableQueue (q : PrioQueue) (s : KqueueT) (present : List (Pointer × BitVec 32)) : Prop where
  sorted : ∃ l, KqueueT.Visits (fun n => (s.nodes n).next) s.head l ∧
    KqueueT.Visits (fun n => (s.nodes n).prev) s.tail l.reverse ∧ l.Perm (present.map Prod.fst) ∧
    l.Pairwise fun a b => (s.nodes b).priority ≤ (s.nodes a).priority
  priorities : ∀ p ∈ present, (s.nodes p.1).priority = p.2
  nodup : (present.map Prod.fst).Nodup
  pushes : ∀ node priority, node ≠ 0 → (s.nodes node).enlisted = false → ∃ s', q.Step s s' (.pushed node priority)
  pops : ∃ node s', q.Step s s' (.popped node)
  popped : ∀ node s', q.Step s s' (.popped node) → (present = [] ∧ node = 0) ∨ Oldest present node

/-! ## The invariant -/

/-- The queue is the stable sort of the present nodes. -/
structure SortedBy (others : Set Pointer) (s : KqueueT) (present : List (Pointer × BitVec 32)) (l : List Pointer) :
    Prop where
  linked : s.Linked others l
  priorities : ∀ p ∈ present, (s.nodes p.1).priority = p.2
  order : l.map (fun n => (⟨n, (s.nodes n).priority.toNat⟩ : KqueueNode Pointer)) =
    kqueuePushAll (present.map fun p => ⟨p.1, p.2.toNat⟩) []

variable {q : PrioQueue} {others : Set Pointer} {s s' : KqueueT} {present : List (Pointer × BitVec 32)} {l : List Pointer}
  {node : Pointer} {priority : BitVec 32} {events : List PrioEvent}

theorem SortedBy.perm (h : SortedBy others s present l) : l.Perm (present.map Prod.fst) := by
  have hperm := kqueuePushAll_perm (present.map fun p => (⟨p.1, p.2.toNat⟩ : KqueueNode Pointer)) []
  rw [← h.order, List.append_nil] at hperm
  have hdata := hperm.map KqueueNode.data
  rw [List.map_map, List.map_map] at hdata
  have hid : KqueueNode.data ∘ (fun n : Pointer => (⟨n, (s.nodes n).priority.toNat⟩ : KqueueNode Pointer)) = id := rfl
  rw [hid, List.map_id] at hdata
  exact hdata

theorem SortedBy.falling (h : SortedBy others s present l) :
    l.Pairwise fun a b => (s.nodes b).priority ≤ (s.nodes a).priority := by
  have hfalling : Falling (kqueuePushAll (present.map fun p => (⟨p.1, p.2.toNat⟩ : KqueueNode Pointer)) []) :=
    Falling.pushAll List.Pairwise.nil _
  unfold Falling at hfalling
  rw [← h.order, List.pairwise_map] at hfalling
  exact hfalling

theorem SortedBy.push (h : SortedBy others s present l) (hnull : node ≠ 0) (hfresh : (s.nodes node).enlisted = false)
    {fuel : ℕ} (hpush : s.pushPrio fuel node priority = some s') :
    ∃ l', SortedBy others s' (present ++ [(node, priority)]) l' := by
  have hnot : ¬(node ∈ l ∨ node ∈ others) := by
    rw [← h.linked.enlisted, hfresh]
    exact Bool.false_ne_true
  obtain ⟨hn, hother⟩ := not_or.mp hnot
  obtain ⟨-, before, after, hl, hlinked, hbefore, hafter⟩ := (h.linked.pushPrio hn hnull hother priority).2 s' hpush
  have hprio : ∀ m, (s'.nodes m).priority = if m = node then priority else (s.nodes m).priority :=
    fun m => KqueueT.pushPrio_priority hpush
  have hsame : ∀ m ∈ l, (s'.nodes m).priority = (s.nodes m).priority := by
    intro m hm
    rw [hprio, if_neg]
    rintro rfl
    exact hn hm
  refine ⟨before ++ node :: after, hlinked, fun p hp => ?_, ?_⟩
  · rcases List.mem_append.mp hp with hp | hp
    · rw [hsame p.1 (h.perm.mem_iff.mpr (List.mem_map_of_mem hp))]
      exact h.priorities p hp
    · rw [List.mem_singleton.mp hp, hprio, if_pos rfl]
  · have hmap : ∀ part : List Pointer, (∀ m ∈ part, m ∈ l) →
        part.map (fun n => (⟨n, (s'.nodes n).priority.toNat⟩ : KqueueNode Pointer)) =
          part.map fun n => ⟨n, (s.nodes n).priority.toNat⟩ := by
      intro part hpart
      exact List.map_congr_left fun m hm => by rw [hsame m (hpart m hm)]
    have hall : kqueuePushAll ((present ++ [(node, priority)]).map fun p => (⟨p.1, p.2.toNat⟩ : KqueueNode Pointer)) [] =
        kqueuePushPrio ⟨node, priority.toNat⟩ (kqueuePushAll (present.map fun p => ⟨p.1, p.2.toNat⟩) []) := by
      unfold kqueuePushAll
      rw [List.map_append, List.foldl_append]
      rfl
    rw [hall, ← h.order, hl, List.map_append, List.map_append, List.map_cons,
      hmap before fun m hm => hl ▸ List.mem_append_left _ hm, hmap after fun m hm => hl ▸ List.mem_append_right _ hm,
      hprio node, if_pos rfl, kqueuePushPrio_append]
    · intro n hn
      obtain ⟨m, hm, rfl⟩ := List.mem_map.mp hn
      exact hbefore m hm
    · intro n hn
      rw [List.head?_map] at hn
      obtain ⟨m, hm, rfl⟩ := Option.map_eq_some_iff.mp hn
      exact hafter m hm

/-- A pop returns the oldest node of the smallest priority. -/
theorem SortedBy.pop (h : SortedBy others s present l) {r : Pointer × KqueueT} (hpop : s.pop = some r) :
    (present = [] ∧ r = (0, s)) ∨ ∃ before p after l', present = before ++ p :: after ∧ p.1 = r.1 ∧
      (∀ n ∈ before, p.2 < n.2) ∧ (∀ n ∈ after, p.2 ≤ n.2) ∧ SortedBy others r.2 (before ++ after) l' := by
  obtain ⟨rfl, rfl⟩ | ⟨rest, hl, hlinked, -⟩ := h.linked.pop hpop
  · exact .inl ⟨List.map_eq_nil_iff.mp h.perm.nil_eq.symm, rfl⟩
  · have hne : present ≠ [] := by
      rintro rfl
      have hnil := h.perm.eq_nil
      rw [hl] at hnil
      exact List.append_ne_nil_of_right_ne_nil _ (List.cons_ne_nil _ _) hnil
    obtain ⟨before, p, after, rfl, hbefore, hafter⟩ := exists_oldest (fun p : Pointer × BitVec 32 => p.2.toNat) hne
    have horder := h.order
    rw [List.map_append, List.map_cons, kqueuePushAll_last, hl, List.map_append] at horder
    rotate_left
    · intro n hn
      obtain ⟨m, hm, rfl⟩ := List.mem_map.mp hn
      exact hbefore m hm
    · intro n hn
      obtain ⟨m, hm, rfl⟩ := List.mem_map.mp hn
      exact hafter m hm
    obtain ⟨hrest, hnode⟩ := List.append_inj' horder rfl
    have hp : r.1 = p.1 := congrArg KqueueNode.data (List.cons.inj hnode).1
    refine .inr ⟨before, p, after, rest, rfl, hp.symm, hbefore, hafter, hlinked, fun n hn => ?_, ?_⟩
    · rw [KqueueT.pop_priority hpop]
      exact h.priorities n ((List.sublist_cons_self p after).append_left before |>.subset hn)
    · rw [List.map_append, ← hrest]
      exact List.map_congr_left fun m _ => by rw [KqueueT.pop_priority hpop]

/-! ## Runs -/

namespace PrioQueue

theorem pushPrio_eq (fuel : ℕ) : q.pushPrio fuel s node priority = s.pushPrio fuel node priority := by
  cases q with
  | kqueue => rfl
  | queue => exact KqueueT.queuePushPrio_eq fuel s node priority

theorem pop_eq : q.pop s = s.pop := by
  cases q <;> rfl

end PrioQueue

theorem pending_pushed : pending (events ++ [.pushed node priority]) = pending events ++ [(node, priority)] :=
  List.foldl_append ..

theorem pending_popped : pending (events ++ [.popped node]) = (pending events).eraseP fun p => decide (p.1 = node) :=
  List.foldl_append ..

/-- The nodes of a queue differ, so a pop takes away the one that it returns. -/
theorem SortedBy.eraseP {before after : List (Pointer × BitVec 32)} {p : Pointer × BitVec 32}
    (h : SortedBy others s (before ++ p :: after) l) :
    (before ++ p :: after).eraseP (fun n => decide (n.1 = p.1)) = before ++ after := by
  have hnodup : ((before ++ p :: after).map Prod.fst).Nodup := h.perm.nodup_iff.mp h.linked.nodup
  rw [List.map_append, List.map_cons] at hnodup
  have hfresh : ∀ n ∈ before, ¬decide (n.1 = p.1) = true := by
    intro n hn hsame
    exact (List.nodup_append.mp hnodup).2.2 n.1 (List.mem_map_of_mem hn) p.1 List.mem_cons_self (of_decide_eq_true hsame)
  have hfirst : (p :: after).eraseP (fun n => decide (n.1 = p.1)) = after := by simp
  rw [List.eraseP_append_right _ hfresh, hfirst]

/-- What a call keeps. -/
theorem SortedBy.step {event : PrioEvent} (h : SortedBy others s (pending events) l) (hstep : q.Step s s' event) :
    ∃ l', SortedBy others s' (pending (events ++ [event])) l' := by
  cases event with
  | pushed node priority =>
    obtain ⟨hnull, hfresh, fuel, hpush⟩ := hstep
    rw [PrioQueue.pushPrio_eq] at hpush
    rw [pending_pushed]
    exact h.push hnull hfresh hpush
  | popped node =>
    have hpop : s.pop = some (node, s') := PrioQueue.pop_eq (q := q) ▸ hstep
    rw [pending_popped]
    obtain ⟨hnil, hr⟩ | ⟨before, p, after, l', hpresent, hp, -, -, hrest⟩ := h.pop hpop
    · obtain ⟨-, rfl⟩ := Prod.mk.inj hr
      rw [hnil, List.eraseP_nil, ← hnil]
      exact ⟨l, h⟩
    · rw [hpresent] at h ⊢
      have hnode : p.1 = node := hp
      rw [← hnode, h.eraseP]
      exact ⟨l', hrest⟩

theorem PrioQueue.Served.sorted (h : q.Served others events s) : ∃ l, SortedBy others s (pending events) l := by
  induction h with
  | start h =>
    refine ⟨[], h.linked, ?_, rfl⟩
    exact fun _ hp => absurd hp List.not_mem_nil
  | next _ hstep ih =>
    obtain ⟨l, hl⟩ := ih
    exact hl.step hstep

theorem SortedBy.stable (h : SortedBy others s present l) : StableQueue q s present := by
  constructor
  case sorted =>
    refine ⟨l, ?_, ?_, h.perm, h.falling⟩
    · rw [h.linked.head]
      exact KqueueT.Visits.of_segment h.linked.segment h.linked.not_null
    · rw [h.linked.tail]
      exact KqueueT.Visits.of_segment_prev h.linked.segment h.linked.not_null
  case priorities => exact h.priorities
  case nodup => exact h.perm.nodup_iff.mp h.linked.nodup
  case pushes =>
    intro node priority hnull hfresh
    have hnot : ¬(node ∈ l ∨ node ∈ others) := by
      rw [← h.linked.enlisted, hfresh]
      exact Bool.false_ne_true
    obtain ⟨hn, hother⟩ := not_or.mp hnot
    obtain ⟨s', hpush⟩ := Option.isSome_iff_exists.mp ((h.linked.pushPrio hn hnull hother priority).1 l.length.lt_succ_self)
    exact ⟨s', hnull, hfresh, l.length + 1, PrioQueue.pushPrio_eq _ ▸ hpush⟩
  case pops =>
    obtain ⟨r, hpop⟩ := h.linked.pop_ends
    exact ⟨r.1, r.2, PrioQueue.pop_eq.trans hpop⟩
  case popped =>
    intro node s' hstep
    have hpop : s.pop = some (node, s') := PrioQueue.pop_eq.symm.trans hstep
    obtain ⟨hnil, hr⟩ | ⟨before, p, after, -, hpresent, hp, hbefore, hafter, -⟩ := h.pop hpop
    · exact .inl ⟨hnil, (Prod.mk.inj hr).1⟩
    · exact .inr ⟨before, p, after, hpresent, hp, hbefore, hafter⟩

theorem emptyQueue_pushPrio : (PrioQueue.queue.pushPrio 0 KqueueT.emptyQueue 1 5).isSome := by decide

end UtkKernel.Structures
