import Mathlib.Data.List.Perm.Basic
import Mathlib.Data.List.Nodup
import Mathlib.Tactic

/-! # Kernel queues (`core/src/kqueue.c`)

A queue is the list of its nodes from head to tail. `kqueue_push` puts a node at the head and
`kqueue_pop` takes one from the tail; `kqueue_push_prio` keeps the priorities in falling order from
the head, so that the tail has the lowest. -/

namespace UtkKernel.Structures
set_option autoImplicit false

variable {α : Type}

/-- A node with the priority its queue is sorted by. -/
structure KqueueNode (α : Type) where
  data : α
  priority : ℕ
  deriving DecidableEq, Repr

/-- `kqueue_push` -/
def kqueuePush (node : α) (queue : List α) : List α := node :: queue

/-- `kqueue_push_prio` -/
def kqueuePushPrio (node : KqueueNode α) : List (KqueueNode α) → List (KqueueNode α)
  | [] => [node]
  | cursor :: queue =>
    if cursor.priority > node.priority then cursor :: kqueuePushPrio node queue
    else node :: cursor :: queue

/-- `kqueue_pop`: the tail node and the queue left. -/
def kqueuePop (queue : List α) : Option (α × List α) :=
  match queue.getLast? with
  | none => none
  | some node => some (node, queue.dropLast)

theorem kqueuePushPrio_perm (node : KqueueNode α) (queue : List (KqueueNode α)) :
    (kqueuePushPrio node queue).Perm (node :: queue) := by
  induction queue with
  | nil => exact List.Perm.refl _
  | cons cursor queue ih =>
    unfold kqueuePushPrio
    split_ifs
    · exact (ih.cons cursor).trans (List.Perm.swap node cursor queue)
    · exact List.Perm.refl _

theorem mem_kqueuePushPrio {node n : KqueueNode α} {queue : List (KqueueNode α)} :
    n ∈ kqueuePushPrio node queue ↔ n = node ∨ n ∈ queue := by
  rw [(kqueuePushPrio_perm node queue).mem_iff, List.mem_cons]

/-- The priorities fall from the head on. -/
def Falling (queue : List (KqueueNode α)) : Prop :=
  queue.Pairwise fun a b => b.priority ≤ a.priority

theorem Falling.pushPrio {queue : List (KqueueNode α)} (h : Falling queue) (node : KqueueNode α) :
    Falling (kqueuePushPrio node queue) := by
  induction queue with
  | nil => exact List.pairwise_singleton _ _
  | cons cursor queue ih =>
    obtain ⟨hcursor, hqueue⟩ := List.pairwise_cons.mp h
    unfold kqueuePushPrio
    split_ifs with hprio
    · refine List.pairwise_cons.mpr ⟨fun n hn => ?_, ih hqueue⟩
      rcases mem_kqueuePushPrio.mp hn with rfl | hn
      · exact hprio.le
      · exact hcursor n hn
    · refine List.pairwise_cons.mpr ⟨fun n hn => ?_, h⟩
      have hle : cursor.priority ≤ node.priority := not_lt.mp hprio
      rcases List.mem_cons.mp hn with rfl | hn
      · exact hle
      · exact (hcursor n hn).trans hle

/-- Nodes pushed one after the other. -/
def kqueuePushAll (nodes queue : List (KqueueNode α)) : List (KqueueNode α) :=
  nodes.foldl (fun queue node => kqueuePushPrio node queue) queue

theorem kqueuePushAll_perm (nodes queue : List (KqueueNode α)) :
    (kqueuePushAll nodes queue).Perm (nodes ++ queue) := by
  induction nodes generalizing queue with
  | nil => exact List.Perm.refl _
  | cons node nodes ih =>
    refine (ih (kqueuePushPrio node queue)).trans ?_
    refine ((kqueuePushPrio_perm node queue).append_left nodes).trans ?_
    exact List.perm_middle

theorem Falling.pushAll {queue : List (KqueueNode α)} (h : Falling queue)
    (nodes : List (KqueueNode α)) : Falling (kqueuePushAll nodes queue) := by
  induction nodes generalizing queue with
  | nil => exact h
  | cons node nodes ih => exact ih (h.pushPrio node)

/-- A node that no other one is above, nor equal to if it is pushed later, is at the head. -/
theorem kqueuePushAll_head {before after : List (KqueueNode α)} {node : KqueueNode α}
    (hbefore : ∀ n ∈ before, n.priority ≤ node.priority)
    (hafter : ∀ n ∈ after, n.priority < node.priority) :
    kqueuePushAll (before ++ node :: after) [] = node :: kqueuePushAll (before ++ after) [] := by
  have hfront : ∀ queue : List (KqueueNode α), (∀ n ∈ queue, n.priority ≤ node.priority) →
      kqueuePushPrio node queue = node :: queue := by
    intro queue hqueue
    cases queue with
    | nil => rfl
    | cons cursor queue => exact if_neg (not_lt.mpr (hqueue cursor (List.mem_cons_self ..)))
  have hbehind : ∀ nodes queue : List (KqueueNode α), (∀ n ∈ nodes, n.priority < node.priority) →
      kqueuePushAll nodes (node :: queue) = node :: kqueuePushAll nodes queue := by
    intro nodes
    induction nodes with
    | nil => exact fun _ _ => rfl
    | cons n nodes ih =>
      intro queue hnodes
      obtain ⟨hn, hnodes⟩ := List.forall_mem_cons.mp hnodes
      have hpush : kqueuePushPrio n (node :: queue) = node :: kqueuePushPrio n queue := if_pos hn
      have hstep : kqueuePushAll (n :: nodes) (node :: queue) =
          kqueuePushAll nodes (kqueuePushPrio n (node :: queue)) := rfl
      rw [hstep, hpush, ih _ hnodes]
      rfl
  have hsplit : ∀ nodes nodes' queue : List (KqueueNode α),
      kqueuePushAll (nodes ++ nodes') queue = kqueuePushAll nodes' (kqueuePushAll nodes queue) :=
    fun nodes nodes' queue => List.foldl_append ..
  have hmem : ∀ n ∈ kqueuePushAll before [], n.priority ≤ node.priority := by
    intro n hn
    have hperm := (kqueuePushAll_perm before []).mem_iff.mp hn
    rw [List.append_nil] at hperm
    exact hbefore n hperm
  rw [hsplit, hsplit]
  have hstep : kqueuePushAll (node :: after) (kqueuePushAll before []) =
      kqueuePushAll after (kqueuePushPrio node (kqueuePushAll before [])) := rfl
  rw [hstep, hfront _ hmem, hbehind after _ hafter]

/-- In a list that is not empty some node is such a one. -/
theorem exists_head {β : Type} (key : β → ℕ) {l : List β} (h : l ≠ []) : ∃ before node after,
    l = before ++ node :: after ∧ (∀ n ∈ before, key n ≤ key node) ∧ ∀ n ∈ after, key n < key node := by
  induction l with
  | nil => exact absurd rfl h
  | cons x l ih =>
    by_cases hl : l = []
    · exact ⟨[], x, [], by rw [hl, List.nil_append], by simp, by simp⟩
    · obtain ⟨before, node, after, rfl, hbefore, hafter⟩ := ih hl
      by_cases hx : key x ≤ key node
      · refine ⟨x :: before, node, after, rfl, ?_, hafter⟩
        exact List.forall_mem_cons.mpr ⟨hx, hbefore⟩
      · refine ⟨[], x, before ++ node :: after, rfl, by simp, fun n hn => ?_⟩
        have hlt := not_le.mp hx
        rcases List.mem_append.mp hn with hn | hn
        · exact (hbefore n hn).trans_lt hlt
        · rcases List.mem_cons.mp hn with rfl | hn
          · exact hlt
          · exact (hafter n hn).trans hlt

/-- The last node of a falling queue has the lowest priority. -/
theorem Falling.last {queue : List (KqueueNode α)} {node last : KqueueNode α}
    (h : Falling queue) (hlast : queue.getLast? = some last) (hnode : node ∈ queue) :
    last.priority ≤ node.priority := by
  obtain ⟨front, rfl⟩ := List.getLast?_eq_some_iff.mp hlast
  rcases List.mem_append.mp hnode with hmem | hmem
  · exact (List.pairwise_append.mp h).2.2 node hmem last (List.mem_singleton_self _)
  · rw [List.mem_singleton.mp hmem]

theorem kqueuePop_eq_some {queue rest : List α} {node : α} (h : kqueuePop queue = some (node, rest)) :
    queue = rest ++ [node] := by
  unfold kqueuePop at h
  cases hl : queue.getLast? with
  | none => simp [hl] at h
  | some last =>
    simp only [hl, Option.some.injEq, Prod.mk.injEq] at h
    obtain ⟨rfl, rfl⟩ := h
    rw [List.getLast?_eq_some_iff] at hl
    obtain ⟨ys, rfl⟩ := hl
    simp

theorem kqueuePop_perm {queue rest : List α} {node : α}
    (h : kqueuePop queue = some (node, rest)) : queue.Perm (node :: rest) := by
  rw [kqueuePop_eq_some h]
  exact List.perm_append_singleton node rest

theorem kqueuePop_eq_none {queue : List α} : kqueuePop queue = none ↔ queue = [] := by
  unfold kqueuePop
  cases hl : queue.getLast? with
  | none => simpa using hl
  | some last =>
    refine ⟨fun h => by simp at h, fun h => ?_⟩
    simp [h] at hl

end UtkKernel.Structures
