import Mathlib.Data.List.Basic
import Mathlib.Order.Lattice

/-! # Search trees

A tree with a key at each node, in the order of the keys: smaller ones to the left, larger ones to the right. -/

namespace UtkKernel.Foundations
set_option autoImplicit false

inductive SearchTree (α : Type) where
  | nil
  | node (left right : SearchTree α) (key : α)
  deriving DecidableEq, Repr

namespace SearchTree

variable {α : Type} {a k : α} {t l r : SearchTree α}

/-- The keys from left to right. -/
def keys : SearchTree α → List α
  | nil => []
  | node left right key => left.keys ++ key :: right.keys

theorem mem_keys_node : a ∈ (node l r k).keys ↔ a ∈ l.keys ∨ a = k ∨ a ∈ r.keys := by
  rw [keys, List.mem_append, List.mem_cons]

theorem mem_keys_leaf : a ∈ (node nil nil k).keys ↔ a = k := List.mem_singleton

section
variable [LinearOrder α]

/-- The keys of a tree are in order. -/
def Ordered : SearchTree α → Prop
  | nil => True
  | node left right key =>
    left.Ordered ∧ right.Ordered ∧ (∀ a ∈ left.keys, a < key) ∧ ∀ a ∈ right.keys, key < a

theorem ordered_leaf (k : α) : (node nil nil k).Ordered := ⟨trivial, trivial, nofun, nofun⟩

theorem Ordered.pairwise (h : t.Ordered) : t.keys.Pairwise (· < ·) := by
  induction t with
  | nil => exact .nil
  | node left right key ihl ihr =>
    obtain ⟨hleft, hright, hbelow, habove⟩ := h
    refine List.pairwise_append.mpr ⟨ihl hleft, List.pairwise_cons.mpr ⟨habove, ihr hright⟩, fun a ha b hb => ?_⟩
    rcases List.mem_cons.mp hb with rfl | hb
    · exact hbelow a ha
    · exact (hbelow a ha).trans (habove b hb)

/-- No key is there twice. -/
theorem Ordered.nodup (h : t.Ordered) : t.keys.Nodup := h.pairwise.imp fun hlt => hlt.ne

/-- A key that is larger than the one at a node is found to its right. -/
theorem Ordered.mem_of_gt (h : (node l r k).Ordered) (hgt : k < a) : a ∈ (node l r k).keys ↔ a ∈ r.keys := by
  rw [mem_keys_node]
  refine ⟨?_, fun ha => .inr (.inr ha)⟩
  rintro (ha | rfl | ha)
  · exact absurd (h.2.2.1 a ha) hgt.not_gt
  · exact absurd hgt (lt_irrefl _)
  · exact ha

/-- A key that is smaller is found to its left. -/
theorem Ordered.mem_of_lt (h : (node l r k).Ordered) (hlt : a < k) : a ∈ (node l r k).keys ↔ a ∈ l.keys := by
  rw [mem_keys_node]
  refine ⟨?_, .inl⟩
  rintro (ha | rfl | ha)
  · exact ha
  · exact absurd hlt (lt_irrefl _)
  · exact absurd (h.2.2.2 a ha) hlt.not_gt

/-- A tree to the right gets another key. -/
theorem Ordered.insertRight (h : (node l r k).Ordered) (hgt : k < a) (ht : t.Ordered)
    (hmem : ∀ b, b ∈ t.keys ↔ b = a ∨ b ∈ r.keys) :
    (node l t k).Ordered ∧ ∀ b, b ∈ (node l t k).keys ↔ b = a ∨ b ∈ (node l r k).keys := by
  refine ⟨⟨h.1, ht, h.2.2.1, fun b hb => ?_⟩, fun b => ?_⟩
  · rcases (hmem b).mp hb with rfl | hb
    · exact hgt
    · exact h.2.2.2 b hb
  · rw [mem_keys_node, mem_keys_node, hmem]
    tauto

/-- A tree to the left gets another key. -/
theorem Ordered.insertLeft (h : (node l r k).Ordered) (hlt : a < k) (ht : t.Ordered)
    (hmem : ∀ b, b ∈ t.keys ↔ b = a ∨ b ∈ l.keys) :
    (node t r k).Ordered ∧ ∀ b, b ∈ (node t r k).keys ↔ b = a ∨ b ∈ (node l r k).keys := by
  refine ⟨⟨ht, h.2.1, fun b hb => ?_, h.2.2.2⟩, fun b => ?_⟩
  · rcases (hmem b).mp hb with rfl | hb
    · exact hlt
    · exact h.2.2.1 b hb
  · rw [mem_keys_node, mem_keys_node, hmem]
    tauto

end

end SearchTree

end UtkKernel.Foundations
