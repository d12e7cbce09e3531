import UtkKernel.Foundations.Rings
import UtkKernel.Heap.Model

/-! # The linked lists of the heaps

A list is a ring of nodes in memory. Each list function is a few assignments of a link between two nodes
(`link`), and it writes only fields of the nodes of its ring. -/

namespace UtkKernel.Heap
open Foundations Code Cell
set_option autoImplicit false

/-! ## Links -/

def Linked (m : Store) (p q : ℕ) : Prop := m (next p) = q ∧ m (prev q) = p

def Ring (m : Store) (l : List ℕ) : Prop := Cycle.Chain (Linked m) (l : Cycle ℕ)

/-- Two nodes whose fields do not overlap. -/
def Apart (p q : ℕ) : Prop := p + 8 ≤ q ∨ q + 8 ≤ p

/-- The fields of some nodes. -/
def nodeCells (l : List ℕ) : Set Cell := {c | ∃ p ∈ l, c = next p ∨ c = prev p}

/-- `p->next = q; q->prev = p` -/
def link (m : Store) (p q : ℕ) : Store := Function.update (Function.update m (next p) q) (prev q) p

variable {m : Store} {p q u v x y : ℕ} {l : List ℕ} {c : Cell}

theorem Apart.symm (h : Apart p q) : Apart q p := Or.symm h

instance : Std.Symm Apart := ⟨fun _ _ h => h.symm⟩

theorem Apart.ne (h : Apart p q) : p ≠ q := by
  rintro rfl
  rcases h with h | h <;> omega

theorem next_ne_prev (h : p ≠ q + 4) : next p ≠ prev q := fun he => h (Cell.word.inj he)

theorem next_ne_next (h : p ≠ q) : next p ≠ next q := fun he => h (Cell.word.inj he)

theorem prev_ne_prev (h : p ≠ q) : prev p ≠ prev q :=
  fun he => h (Nat.add_right_cancel (Cell.word.inj he))

theorem nodup_of_apart (h : l.Pairwise Apart) : l.Nodup := h.imp Apart.ne

/-- No field `next` of a node is a field `prev` of one. -/
theorem ne_add_of_apart (h : l.Pairwise Apart) (hp : p ∈ l) (hq : q ∈ l) : p ≠ q + 4 := by
  rcases eq_or_ne p q with rfl | hne
  · omega
  · have hpq : Apart p q := h.forall hp hq hne
    rcases hpq with hpq | hpq <;> omega

theorem next_mem_nodeCells (hp : p ∈ l) : next p ∈ nodeCells l := ⟨p, hp, .inl rfl⟩

theorem prev_mem_nodeCells (hp : p ∈ l) : prev p ∈ nodeCells l := ⟨p, hp, .inr rfl⟩

theorem nodeCells_mono {l' : List ℕ} (h : l ⊆ l') : nodeCells l ⊆ nodeCells l' :=
  fun _ ⟨p, hp, hc⟩ => ⟨p, h hp, hc⟩

theorem linked_link (h : p ≠ q + 4) : Linked (link m p q) p q := by
  refine ⟨?_, Function.update_self ..⟩
  unfold link
  rw [Function.update_of_ne (next_ne_prev h), Function.update_self]

theorem link_of_ne (hp : c ≠ next p) (hq : c ≠ prev q) : link m p q c = m c := by
  unfold link
  rw [Function.update_of_ne hq, Function.update_of_ne hp]

theorem next_link (hu : u ≠ p) (huq : u ≠ q + 4) : link m p q (next u) = m (next u) :=
  link_of_ne (next_ne_next hu) (next_ne_prev huq)

theorem Linked.link (h : Linked m u v) (hu : u ≠ p) (hv : v ≠ q) (huq : u ≠ q + 4)
    (hpv : p ≠ v + 4) : Linked (link m p q) u v := by
  refine ⟨?_, ?_⟩
  · rw [next_link hu huq]
    exact h.1
  · unfold Heap.link
    rw [Function.update_of_ne (prev_ne_prev hv), Function.update_of_ne (next_ne_prev hpv).symm]
    exact h.2

/-- A ring depends on the fields of its nodes only. -/
theorem Ring.congr {m' : Store} (h : Ring m l) (hsame : ∀ c ∈ nodeCells l, m' c = m c) :
    Ring m' l := by
  refine ring_congr h fun u hu v hv hR => ⟨?_, ?_⟩
  · rw [hsame _ (next_mem_nodeCells hu)]
    exact hR.1
  · rw [hsame _ (prev_mem_nodeCells hv)]
    exact hR.2

theorem Ring.prev_eq (h : Ring m (x :: l)) :
    m (prev x) = (x :: l).getLast (List.cons_ne_nil x l) :=
  (ring_cons.mp h).2.2

theorem Ring.next_eq (h : Ring m (x :: y :: l)) : m (next x) = y := by
  have hchain := (ring_cons.mp h).1
  rw [List.isChain_cons_cons] at hchain
  exact hchain.1.1

theorem ring_singleton : Ring m [x] ↔ Linked m x x := Cycle.chain_singleton _ _

theorem Ring.rotate {l1 l2 : List ℕ} (h : Ring m (l1 ++ l2)) : Ring m (l2 ++ l1) :=
  (ring_rotate l1 l2).mp h

/-! ## Joining and leaving a ring -/

/-- A node is linked in between the last node of a ring and the first one. -/
theorem Ring.join (h : Ring m (x :: l)) (hp : (x :: l).getLast (List.cons_ne_nil x l) = p)
    (ha : (y :: x :: l).Pairwise Apart) : Ring (link (link m p y) y x) (y :: x :: l) := by
  have hnodup := nodup_of_apart ha
  have hmem : p ∈ x :: l := hp ▸ List.getLast_mem _
  have hsep : ∀ u ∈ y :: x :: l, ∀ v ∈ y :: x :: l, u ≠ v + 4 :=
    fun u hu v hv => ne_add_of_apart ha hu hv
  have hy : ∀ u ∈ x :: l, u ≠ y := fun u hu he => (List.nodup_cons.mp hnodup).1 (he ▸ hu)
  have hx : x ∈ x :: l := List.mem_cons_self ..
  refine ring_join h (List.nodup_cons.mp hnodup).2 ?_ ?_ (linked_link (hsep y (by simp) x (by simp)))
  · intro u hu v hv hlast hhead hR
    have hup : u ≠ p := by
      rintro rfl
      rw [List.getLast?_eq_some_getLast (List.cons_ne_nil x l), hp] at hlast
      exact hlast rfl
    have hu' := List.mem_cons_of_mem y hu
    have hv' := List.mem_cons_of_mem y hv
    have h1 := hR.link hup (hy v hv) (hsep u hu' y (by simp))
      (hsep p (List.mem_cons_of_mem y hmem) v hv')
    exact h1.link (hy u hu) hhead (hsep u hu' x (by simp)) (hsep y (by simp) v hv')
  · rw [hp]
    have h1 : Linked (Heap.link m p y) p y :=
      linked_link (hsep p (List.mem_cons_of_mem y hmem) y (by simp))
    exact h1.link (hy p hmem) (hy x hx).symm (hsep p (List.mem_cons_of_mem y hmem) x (by simp))
      (hsep y (by simp) y (by simp))

/-- A node is linked out of a ring, and to itself. -/
theorem Ring.leave (h : Ring m (x :: y :: l))
    (hp : (y :: l).getLast (List.cons_ne_nil y l) = p) (ha : (x :: y :: l).Pairwise Apart) :
    Ring (link (link m p y) x x) (y :: l) ∧ Linked (link (link m p y) x x) x x := by
  have hnodup := nodup_of_apart ha
  have hmem : p ∈ y :: l := hp ▸ List.getLast_mem _
  have hsep : ∀ u ∈ x :: y :: l, ∀ v ∈ x :: y :: l, u ≠ v + 4 :=
    fun u hu v hv => ne_add_of_apart ha hu hv
  have hx : ∀ u ∈ y :: l, u ≠ x := fun u hu he => (List.nodup_cons.mp hnodup).1 (he ▸ hu)
  have hy : y ∈ y :: l := List.mem_cons_self ..
  refine ⟨ring_leave h (List.nodup_cons.mp hnodup).2 ?_ ?_, linked_link (hsep x (by simp) x (by simp))⟩
  · intro u hu v hv hlast hhead hR
    have hup : u ≠ p := by
      rintro rfl
      rw [List.getLast?_eq_some_getLast (List.cons_ne_nil y l), hp] at hlast
      exact hlast rfl
    have hu' := List.mem_cons_of_mem x hu
    have hv' := List.mem_cons_of_mem x hv
    have h1 := hR.link hup hhead (hsep u hu' y (by simp))
      (hsep p (List.mem_cons_of_mem x hmem) v hv')
    exact h1.link (hx u hu) (hx v hv) (hsep u hu' x (by simp)) (hsep x (by simp) v hv')
  · rw [hp]
    have h1 : Linked (Heap.link m p y) p y :=
      linked_link (hsep p (List.mem_cons_of_mem x hmem) y (by simp))
    exact h1.link (hx p hmem) (hx y hy) (hsep p (List.mem_cons_of_mem x hmem) x (by simp))
      (hsep x (by simp) y (by simp))

/-! ## The list functions -/

theorem listInit_ensures {W : Set Cell} (hnext : next x ∈ W) (hprev : prev x ∈ W) :
    Ensures W (fun _ m' => m' = link m x x) (listInit x) m := by
  unfold listInit
  simp only [ensures_bind, ensures_write]
  exact ⟨hnext, hprev, rfl⟩

theorem insertBefore_ensures (h : Ring m (x :: l)) (hy : Linked m y y)
    (ha : (y :: x :: l).Pairwise Apart) :
    Ensures (nodeCells (y :: x :: l)) (fun _ m' => Ring m' (y :: x :: l)) (insertBefore x y) m := by
  have hmem := List.mem_cons_of_mem y (List.getLast_mem (List.cons_ne_nil x l))
  have hy' : y ∈ y :: x :: l := List.mem_cons_self ..
  unfold insertBefore
  simp only [ensures_bind, ensures_write, ensures_read]
  rw [h.prev_eq, hy.2]
  refine ⟨next_mem_nodeCells hmem, prev_mem_nodeCells hy', next_mem_nodeCells hy',
    prev_mem_nodeCells (by simp), ?_⟩
  exact h.join rfl ha

/-- Only the links behind the two nodes are new. -/
theorem insertAfter_ensures (h : Ring m (x :: l)) (hy : Linked m y y)
    (ha : (x :: y :: l).Pairwise Apart) :
    Ensures (nodeCells (x :: y :: l))
      (fun _ m' => Ring m' (x :: y :: l) ∧ ∀ u ∈ l, m' (next u) = m (next u)) (insertAfter x y) m := by
  have hmem : ∀ z ∈ l ++ [x], z ∈ x :: y :: l := by
    intro z hz
    simp only [List.mem_append, List.mem_cons, List.not_mem_nil, or_false] at hz ⊢
    tauto
  have hy' : y ∈ x :: y :: l := by simp
  -- the node behind `x` is the first one of the ring that ends with `x`
  obtain ⟨z, l', hl⟩ : ∃ z l', l ++ [x] = z :: l' := by
    cases l with
    | nil => exact ⟨x, [], rfl⟩
    | cons a l => exact ⟨a, l ++ [x], rfl⟩
  have hfirst : Ring m ([x] ++ l) := h
  have hrot : Ring m (z :: l') := hl ▸ hfirst.rotate
  have hlast : (z :: l').getLast (List.cons_ne_nil z l') = x := by
    simp only [← hl, List.getLast_append_singleton]
  have hz : m (next x) = z := by
    have hR := (ring_cons.mp hrot).2
    rw [hlast] at hR
    exact hR.1
  have hperm : (x :: y :: l).Perm (y :: z :: l') := by
    rw [← hl]
    exact (List.Perm.swap y x l).trans ((List.perm_append_singleton x l).symm.cons y)
  have ha' : (y :: z :: l').Pairwise Apart :=
    (hperm.pairwise_iff fun h => h.symm).mp ha
  have hjoin : Ring (link (link m x y) y z) (y :: z :: l') := hrot.join hlast ha'
  unfold insertAfter
  simp only [ensures_bind, ensures_write, ensures_read]
  rw [hz, hy.2]
  refine ⟨next_mem_nodeCells (by simp), prev_mem_nodeCells hy', next_mem_nodeCells hy',
    prev_mem_nodeCells (hmem z (by rw [hl]; simp)), ?_⟩
  rw [← hl, ← List.cons_append] at hjoin
  refine ⟨hjoin.rotate, fun u hu => ?_⟩
  obtain ⟨hx, hrest⟩ := List.nodup_cons.mp (nodup_of_apart ha)
  have hux : u ≠ x := fun he => hx (he ▸ List.mem_cons_of_mem y hu)
  have huy : u ≠ y := fun he => (List.nodup_cons.mp hrest).1 (he ▸ hu)
  have hu' : u ∈ x :: y :: l := by simp [hu]
  have h1 := next_link (m := link m x y) huy (ne_add_of_apart ha hu' (hmem z (by rw [hl]; simp)))
  exact h1.trans (next_link hux (ne_add_of_apart ha hu' hy'))

/-- Only the links behind the node and behind the one before it are new. -/
theorem removeNode_ensures (h : Ring m (x :: l)) (ha : (x :: l).Pairwise Apart) :
    Ensures (nodeCells (x :: l))
      (fun _ m' => (Ring m' l ∧ Linked m' x x) ∧
        ∀ u ∈ l, u ≠ m (prev x) → m' (next u) = m (next u)) (removeNode x) m := by
  have hx : x ∈ x :: l := List.mem_cons_self ..
  have hxx : next x ≠ prev x := next_ne_prev (ne_add_of_apart ha hx hx)
  unfold removeNode
  simp only [ensures_bind, ensures_write, ensures_read]
  cases l with
  | nil =>
    have hself := ring_singleton.mp h
    rw [hself.1, hself.2, Function.update_self, Function.update_of_ne hxx.symm, hself.2]
    refine ⟨next_mem_nodeCells hx, prev_mem_nodeCells hx, next_mem_nodeCells hx,
      prev_mem_nodeCells hx, ⟨Cycle.Chain.nil _, ?_⟩, fun u hu => absurd hu List.not_mem_nil⟩
    exact linked_link (m := link m x x) (ne_add_of_apart ha hx hx)
  | cons y l =>
    have hprev : m (prev x) = (y :: l).getLast (List.cons_ne_nil y l) := by
      rw [h.prev_eq, List.getLast_cons]
    have hmem := List.mem_cons_of_mem x (List.getLast_mem (List.cons_ne_nil y l))
    have hne : x ≠ (y :: l).getLast (List.cons_ne_nil y l) := by
      intro he
      exact (List.nodup_cons.mp (nodup_of_apart ha)).1 (he ▸ List.getLast_mem _)
    rw [hprev, h.next_eq, Function.update_of_ne (next_ne_next hne), h.next_eq,
      Function.update_of_ne (next_ne_prev (ne_add_of_apart ha hmem hx)).symm, hprev]
    refine ⟨next_mem_nodeCells hmem, prev_mem_nodeCells (by simp), next_mem_nodeCells hx,
      prev_mem_nodeCells hx, h.leave rfl ha, fun u hu hup => ?_⟩
    have hux : u ≠ x := fun he => (List.nodup_cons.mp (nodup_of_apart ha)).1 (he ▸ hu)
    have hu' := List.mem_cons_of_mem x hu
    have h1 := next_link (m := link m ((y :: l).getLast (List.cons_ne_nil y l)) y) hux
      (ne_add_of_apart ha hu' hx)
    exact h1.trans (next_link hup (ne_add_of_apart ha hu' (by simp)))

end UtkKernel.Heap
