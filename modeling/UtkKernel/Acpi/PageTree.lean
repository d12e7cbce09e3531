import Mathlib.Order.Nat
import UtkKernel.Foundations.SearchTree

/-! # The tree of mapped pages

The addresses of the pages that are mapped for the tables of the firmware are in a tree. A search follows the order of
the addresses, and so does an insertion, which asserts that the address is not there and that there is memory for the
node; it gives `none` where an assertion trips. -/

namespace UtkKernel.Acpi
open Foundations
set_option autoImplicit false

/-- `acpi_page_tree_t` -/
abbrev AcpiPageTree := SearchTree ℕ

variable {tree : AcpiPageTree} {addr : ℕ}

/-- `walk_acpi_tree` -/
def walkAcpiTree : AcpiPageTree → ℕ → Bool
  | .nil, _ => false
  | .node left right address, addr =>
    if address = addr then true
    else if addr > address then walkAcpiTree right addr
    else walkAcpiTree left addr

/-- `add_acpi_tree` -/
def addAcpiTree (kmalloc : Bool) : AcpiPageTree → ℕ → Option AcpiPageTree
  | .nil, _ => none
  | .node left right address, addr =>
    if address = addr then none
    else if addr > address then
      if right = .nil then if kmalloc then some (.node left (.node .nil .nil addr) address) else none
      else (addAcpiTree kmalloc right addr).map fun right => .node left right address
    else
      if left = .nil then if kmalloc then some (.node (.node .nil .nil addr) right address) else none
      else (addAcpiTree kmalloc left addr).map fun left => .node left right address

/-- `add_mapped_page` -/
def addMappedPage (kmalloc : Bool) (tree : AcpiPageTree) (addr : ℕ) : Option AcpiPageTree :=
  if tree = .nil then if kmalloc then some (.node .nil .nil addr) else none
  else addAcpiTree kmalloc tree addr

/-- In a tree that is in order, a search finds the addresses of the tree. -/
theorem walkAcpiTree_iff (hordered : tree.Ordered) : walkAcpiTree tree addr = true ↔ addr ∈ tree.keys := by
  induction tree with
  | nil => exact iff_of_false Bool.false_ne_true List.not_mem_nil
  | node left right address ihl ihr =>
    rw [walkAcpiTree]
    by_cases heq : address = addr
    · rw [if_pos heq]
      exact iff_of_true rfl (SearchTree.mem_keys_node.mpr (.inr (.inl heq.symm)))
    · rw [if_neg heq]
      by_cases hgt : addr > address
      · rw [if_pos hgt, hordered.mem_of_gt hgt]
        exact ihr hordered.2.1
      · have hlt : addr < address := lt_of_le_of_ne (not_lt.mp hgt) fun h => heq h.symm
        rw [if_neg hgt, hordered.mem_of_lt hlt]
        exact ihl hordered.1

theorem mem_keys_of_nil {b : ℕ} (hnil : tree = .nil) : b ∈ (SearchTree.node .nil .nil addr).keys ↔ b = addr ∨ b ∈ tree.keys := by
  subst hnil
  exact SearchTree.mem_keys_leaf.trans (or_iff_left List.not_mem_nil).symm

/-- With memory for a node, an address that is not there is added in its place. -/
theorem addAcpiTree_ordered (hordered : tree.Ordered) (hne : tree ≠ .nil) (hnew : addr ∉ tree.keys) :
    ∃ tree', addAcpiTree true tree addr = some tree' ∧ tree'.Ordered ∧ ∀ a, a ∈ tree'.keys ↔ a = addr ∨ a ∈ tree.keys := by
  induction tree with
  | nil => exact absurd rfl hne
  | node left right address ihl ihr =>
    have heq : address ≠ addr := fun h => hnew (SearchTree.mem_keys_node.mpr (.inr (.inl h.symm)))
    rw [addAcpiTree, if_neg heq]
    by_cases hgt : addr > address
    · rw [if_pos hgt]
      rw [hordered.mem_of_gt hgt] at hnew
      by_cases hnil : right = .nil
      · rw [if_pos hnil]
        exact ⟨_, rfl, hordered.insertRight hgt (SearchTree.ordered_leaf addr) fun b => mem_keys_of_nil hnil⟩
      · obtain ⟨right', hadd, hordered', hmem⟩ := ihr hordered.2.1 hnil hnew
        rw [if_neg hnil, hadd]
        exact ⟨_, rfl, hordered.insertRight hgt hordered' hmem⟩
    · have hlt : addr < address := lt_of_le_of_ne (not_lt.mp hgt) heq.symm
      rw [if_neg hgt]
      rw [hordered.mem_of_lt hlt] at hnew
      by_cases hnil : left = .nil
      · rw [if_pos hnil]
        exact ⟨_, rfl, hordered.insertLeft hlt (SearchTree.ordered_leaf addr) fun b => mem_keys_of_nil hnil⟩
      · obtain ⟨left', hadd, hordered', hmem⟩ := ihl hordered.1 hnil hnew
        rw [if_neg hnil, hadd]
        exact ⟨_, rfl, hordered.insertLeft hlt hordered' hmem⟩

theorem addMappedPage_ordered (hordered : tree.Ordered) (hnew : addr ∉ tree.keys) :
    ∃ tree', addMappedPage true tree addr = some tree' ∧ tree'.Ordered ∧ ∀ a, a ∈ tree'.keys ↔ a = addr ∨ a ∈ tree.keys := by
  unfold addMappedPage
  by_cases hnil : tree = .nil
  · rw [if_pos hnil]
    exact ⟨_, rfl, SearchTree.ordered_leaf addr, fun b => mem_keys_of_nil hnil⟩
  · rw [if_neg hnil]
    exact addAcpiTree_ordered hordered hnil hnew

end UtkKernel.Acpi
