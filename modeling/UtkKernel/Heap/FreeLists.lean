import UtkKernel.Heap.Links

/-! # The free lists of the heaps

A slot holds the pointer to the first chunk of its list, and the chunks are linked in a ring by the nodes
in their data. Pushing and popping happen at the head, removal anywhere. -/

namespace UtkKernel.Heap
open Foundations Code Cell
set_option autoImplicit false

/-- The free list of a slot. -/
structure InSlot (m : Store) (n : ℤ) (l : List ℕ) : Prop where
  head : m (.freeChunk n) = l.headD 0
  ring : Ring m (l.map freeNode)

/-- What the list functions write: the pointer of the slot and the links of the chunks. -/
def slotCells (n : ℤ) (l : List ℕ) : Set Cell := insert (.freeChunk n) (nodeCells (l.map freeNode))

variable {m m' : Store} {n : ℤ} {c x : ℕ} {l l1 l2 : List ℕ}

theorem slot_mem_slotCells : Cell.freeChunk n ∈ slotCells n l := Set.mem_insert _ _

theorem nodeCells_subset_slotCells (n : ℤ) (l : List ℕ) :
    nodeCells (l.map freeNode) ⊆ slotCells n l :=
  Set.subset_insert _ _

theorem slot_notMem_nodeCells : Cell.freeChunk n ∉ nodeCells l := by
  rintro ⟨p, -, h | h⟩ <;> cases h

theorem freeNode_ne_zero (c : ℕ) : freeNode c ≠ 0 := (Nat.add_pos_right c (by decide)).ne'

@[simp] theorem freeContainer_freeNode (c : ℕ) : freeContainer (freeNode c) = c := by
  unfold freeContainer
  rw [if_neg (freeNode_ne_zero c)]
  exact Nat.add_sub_cancel ..

@[simp] theorem freeContainer_zero : freeContainer 0 = 0 := rfl

theorem InSlot.congr (h : InSlot m n l) (hsame : ∀ c ∈ slotCells n l, m' c = m c) :
    InSlot m' n l :=
  ⟨(hsame _ slot_mem_slotCells).trans h.head,
    h.ring.congr fun c hc => hsame c (nodeCells_subset_slotCells n l hc)⟩

/-- The fields of a node that is not of the ring are left alone. -/
theorem linked_congr {p q : ℕ} (h : Linked m p q) (hp : m' (next p) = m (next p))
    (hq : m' (prev q) = m (prev q)) : Linked m' p q :=
  ⟨hp.trans h.1, hq.trans h.2⟩

/-- The first node is taken off a list of nodes that are no null pointers. -/
theorem pop_ensures (h : Ring m (x :: l)) (ha : (x :: l).Pairwise Apart) :
    Ensures (nodeCells (x :: l))
      (fun r m' => r = (x, l.headD 0) ∧ Ring m' l ∧ Linked m' x x) (pop x) m := by
  unfold pop
  rw [ensures_bind, ensures_read]
  refine (removeNode_ensures h ha).bind subset_rfl fun _ m' hm' _ => ?_
  rw [ensures_pure]
  refine ⟨?_, hm'.1⟩
  cases l with
  | nil => rw [(ring_singleton.mp h).1, if_pos rfl, List.headD_nil]
  | cons y l =>
    have hne : x ≠ y := fun he => (List.nodup_cons.mp (nodup_of_apart ha)).1 (he ▸ List.mem_cons_self ..)
    rw [h.next_eq, if_neg hne, List.headD_cons]

theorem freeContainer_headD (l : List ℕ) : freeContainer ((l.map freeNode).headD 0) = l.headD 0 := by
  cases l with
  | nil => rfl
  | cons a l => exact freeContainer_freeNode a

/-- A write of the slot's pointer leaves the rings. -/
theorem inSlot_write (h : Ring m (l.map freeNode)) :
    InSlot (Function.update m (.freeChunk n) (l.headD 0)) n l := by
  refine ⟨Function.update_self .., h.congr fun c hc => ?_⟩
  rw [Function.update_of_ne]
  rintro rfl
  exact slot_notMem_nodeCells hc

theorem linked_write {p v : ℕ} (h : Linked m p p) :
    Linked (Function.update m (.freeChunk n) v) p p :=
  linked_congr h (Function.update_of_ne (by rintro ⟨⟩) ..) (Function.update_of_ne (by rintro ⟨⟩) ..)

theorem listPush_ensures (h : InSlot m n l) (hc : Linked m (freeNode c) (freeNode c))
    (ha : ((c :: l).map freeNode).Pairwise Apart) (hpos : ∀ a ∈ l, a ≠ 0) :
    Ensures (slotCells n (c :: l)) (fun _ m' => InSlot m' n (c :: l)) (listPush n c) m := by
  unfold listPush push
  simp only [ensures_bind, ensures_read, ensures_write]
  rw [h.head]
  cases l with
  | nil =>
    rw [List.headD_nil, if_pos rfl, if_neg (fun h => h rfl)]
    simp only [ensures_pure, freeContainer_freeNode]
    have hring : Ring m ([c].map freeNode) := ring_singleton.mpr hc
    exact ⟨slot_mem_slotCells, inSlot_write hring⟩
  | cons a l =>
    rw [List.headD_cons, if_neg (hpos a (List.mem_cons_self ..)), if_pos (freeNode_ne_zero a)]
    simp only [ensures_pure, freeContainer_freeNode]
    exact (insertBefore_ensures h.ring hc ha).mono (nodeCells_subset_slotCells n (c :: a :: l))
      fun _ m' hm' => ⟨slot_mem_slotCells, inSlot_write (l := c :: a :: l) hm'⟩

theorem listPop_ensures (h : InSlot m n (c :: l)) (ha : ((c :: l).map freeNode).Pairwise Apart) :
    Ensures (slotCells n (c :: l))
      (fun r m' => r = c ∧ InSlot m' n l ∧ Linked m' (freeNode c) (freeNode c)) (listPop n) m := by
  unfold listPop
  simp only [ensures_bind, ensures_read, ensures_write, ensures_pure]
  rw [h.head, List.headD_cons]
  refine (pop_ensures h.ring ha).mono (nodeCells_subset_slotCells n (c :: l)) ?_
  rintro r m' ⟨rfl, hring, hself⟩
  refine ⟨slot_mem_slotCells, Nat.add_sub_cancel .., ?_, linked_write hself⟩
  rw [freeContainer_headD]
  exact inSlot_write hring

theorem listRemoveFrom_ensures (h : InSlot m n (l1 ++ c :: l2))
    (ha : ((l1 ++ c :: l2).map freeNode).Pairwise Apart) :
    Ensures (slotCells n (l1 ++ c :: l2))
      (fun _ m' => InSlot m' n (l1 ++ l2) ∧ Linked m' (freeNode c) (freeNode c))
      (listRemoveFrom n c) m := by
  unfold listRemoveFrom removeFrom
  simp only [ensures_bind, ensures_read, ensures_write]
  rw [h.head]
  cases l1 with
  | nil =>
    rw [List.nil_append, List.headD_cons, if_pos rfl]
    simp only [ensures_bind, ensures_pure]
    refine (pop_ensures h.ring ha).mono (nodeCells_subset_slotCells n (c :: l2)) ?_
    rintro r m' ⟨rfl, hring, hself⟩
    refine ⟨slot_mem_slotCells, ?_, linked_write hself⟩
    rw [freeContainer_headD]
    exact inSlot_write hring
  | cons a l1 =>
    rw [List.cons_append, List.map_cons] at ha
    have hne : freeNode a ≠ freeNode c := by
      intro he
      apply (List.nodup_cons.mp (nodup_of_apart ha)).1
      rw [he, List.map_append, List.map_cons]
      exact List.mem_append_right _ (List.mem_cons_self ..)
    -- the ring from the removed chunk on
    have hring : Ring m (((a :: l1) ++ c :: l2).map freeNode) := h.ring
    rw [List.map_append] at hring
    have hperm : ((a :: l1).map freeNode ++ (c :: l2).map freeNode).Perm
        ((c :: l2).map freeNode ++ (a :: l1).map freeNode) := List.perm_append_comm
    rw [← List.map_append] at hperm
    have ha' : ((c :: l2).map freeNode ++ (a :: l1).map freeNode).Pairwise Apart :=
      (hperm.pairwise_iff fun h => h.symm).mp ha
    have hcells : nodeCells ((c :: l2).map freeNode ++ (a :: l1).map freeNode) ⊆
        nodeCells (((a :: l1) ++ c :: l2).map freeNode) := nodeCells_mono hperm.symm.subset
    rw [List.cons_append, List.headD_cons, if_neg hne]
    simp only [ensures_bind, ensures_pure]
    refine (removeNode_ensures hring.rotate ha').mono
      (hcells.trans (nodeCells_subset_slotCells n _)) fun _ m' hm' => ?_
    refine ⟨slot_mem_slotCells, ?_, linked_write hm'.1.2⟩
    have hrest : Ring m' ((a :: l1 ++ l2).map freeNode) := by
      rw [List.map_append]
      exact hm'.1.1.rotate
    rw [freeContainer_freeNode]
    exact inSlot_write (l := a :: l1 ++ l2) hrest

end UtkKernel.Heap
