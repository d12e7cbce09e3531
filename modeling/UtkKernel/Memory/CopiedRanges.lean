import UtkKernel.Memory.Fork
import UtkKernel.Memory.FreeRanges

/-! # The copy of a free page list (`paging_copy_free_page_table` of `arch/cpu/i386/src/memmgt.c`)

The copy is pushed together range by range, where the list itself is kept in order by `kqueue_push_prio`. -/

namespace UtkKernel.Memory
open Structures Foundations MemState
set_option autoImplicit false

variable {list copy list' : List Block} {node next : Block} {addr : ℕ}

/-- The ranges are those of the list in reverse order, and their priorities are lost. -/
theorem pagingCopyFreePageTable_eq (list : List Block) :
    pagingCopyFreePageTable list = (list.map fun node => (⟨node.data, 0⟩ : Block)).reverse := by
  have hfold : ∀ list copy : List Block, list.foldl (fun copy node => kqueuePush ⟨node.data, 0⟩ copy) copy =
      (list.map fun node => (⟨node.data, 0⟩ : Block)).reverse ++ copy := by
    intro list
    induction list with
    | nil => exact fun _ => rfl
    | cons node list ih =>
      intro copy
      rw [List.foldl_cons, ih, List.map_cons, List.reverse_cons, List.append_assoc]
      rfl
  exact (hfold list []).trans (List.append_nil _)

/-- What a sequence of calls returns, up to the call that panics: the addresses that it gets. -/
def BlockAct.serve : List BlockAct → List Block → List (Option ℕ)
  | [], _ => []
  | .add first length :: acts, list =>
    match addBlock list first length with
    | none => []
    | some list' => none :: serve acts list'
  | .get length start :: acts, list =>
    match getBlock list length start with
    | none => none :: serve acts list
    | some r => some r.1 :: serve acts r.2

/-- The same ranges in the same order with the same priorities, in falling order, and the same addresses are got. -/
structure CopiedFaithfully (list copy : List Block) : Prop where
  ranges : copy.map KqueueNode.data = list.map KqueueNode.data
  priorities : copy.map KqueueNode.priority = list.map KqueueNode.priority
  ordered : FreeRanges copy
  addresses : ∀ acts, BlockAct.serve acts copy = BlockAct.serve acts list

/-- The copy has no order if there are two ranges, and no priority if the base of a range is not zero. -/
theorem free_pages_copied_iff (h : Guarded (fun list => list = []) BlockAct.Step BlockAct.Fits list) :
    CopiedFaithfully list (pagingCopyFreePageTable list) ↔
      list = [] ∨ ∃ node, list = [node] ∧ node.data.base = 0 := by
  have hdesc := descending_of_run h
  constructor
  · intro hcopy
    have hpriorities := hcopy.priorities
    have hordered := hcopy.ordered.descending
    rw [pagingCopyFreePageTable_eq] at hpriorities hordered
    match list, hdesc with
    | [], _ => exact .inl rfl
    | [node], hdesc =>
      have hzero : 0 = node.priority := (List.cons.inj hpriorities).1
      exact .inr ⟨node, rfl, (hdesc.priority node List.mem_cons_self).symm.trans hzero.symm⟩
    | node :: next :: rest, hdesc =>
      have hfalls : next.data.base < node.data.base :=
        (List.pairwise_cons.mp hdesc.freeRanges.descending).1 next List.mem_cons_self
      rw [List.pairwise_reverse, List.pairwise_map] at hordered
      have hrises : node.data.base < next.data.base :=
        (List.pairwise_cons.mp hordered).1 next List.mem_cons_self
      omega
  · have hsame : pagingCopyFreePageTable list = list → CopiedFaithfully list (pagingCopyFreePageTable list) := by
      intro hsame
      rw [hsame]
      exact ⟨rfl, rfl, hdesc.freeRanges, fun _ => rfl⟩
    rintro (rfl | ⟨node, rfl, hbase⟩)
    · exact hsame rfl
    · refine hsame ?_
      have hpriority : node.priority = 0 := (hdesc.priority node List.mem_cons_self).trans hbase
      rw [pagingCopyFreePageTable_eq]
      change [(⟨node.data, 0⟩ : Block)] = [node]
      rw [← hpriority]

/-- The pages from the first one on. -/
theorem free_pages_copied_iff_first : CopiedFaithfully [⟨⟨0, 0x4000⟩, 0⟩] (pagingCopyFreePageTable [⟨⟨0, 0x4000⟩, 0⟩]) ↔
    [(⟨⟨0, 0x4000⟩, 0⟩ : Block)] = [] ∨
      ∃ node : Block, [(⟨⟨0, 0x4000⟩, 0⟩ : Block)] = [node] ∧ node.data.base = 0 := by
  refine free_pages_copied_iff (.next (a := .add 0 4) (.start rfl) ⟨by decide, by decide, by decide, ?_⟩ ?_)
  · exact fun x _ _ => not_covers_nil
  · show BlockAct.exec _ _ = _
    decide +kernel

/-- Where the last page of two ranges is got from the list, the first one is got from the copy. -/
theorem free_pages_copied_reversed : ¬ ∀ list, Guarded (fun list => list = []) BlockAct.Step BlockAct.Fits list →
    CopiedFaithfully list (pagingCopyFreePageTable list) := by
  intro hclaim
  have hcopy := hclaim [⟨⟨0x300000, 0x301000⟩, 0x300000⟩, ⟨⟨0x100000, 0x101000⟩, 0x100000⟩] ?_
  · have haddr := hcopy.addresses [.get 1 .begining]
    have hlist : BlockAct.serve [.get 1 .begining]
        [⟨⟨0x300000, 0x301000⟩, 0x300000⟩, ⟨⟨0x100000, 0x101000⟩, 0x100000⟩] = [some 0x300000] := by decide +kernel
    have hother : BlockAct.serve [.get 1 .begining] (pagingCopyFreePageTable
        [⟨⟨0x300000, 0x301000⟩, 0x300000⟩, ⟨⟨0x100000, 0x101000⟩, 0x100000⟩]) = [some 0x100000] := by decide +kernel
    rw [hlist, hother] at haddr
    exact absurd haddr (by decide)
  · refine .next (s := [⟨⟨0x100000, 0x101000⟩, 0x100000⟩]) (a := .add 0x300000 1)
      (.next (a := .add 0x100000 1) (.start rfl) ⟨by decide, by decide, by decide, ?_⟩ ?_)
      ⟨by decide, by decide, by decide, ?_⟩ ?_
    · exact fun x _ _ => not_covers_nil
    · show BlockAct.exec _ _ = _
      decide +kernel
    · rintro x hfirst - ⟨node, hnode, -, hlimit⟩
      rw [List.mem_singleton.mp hnode] at hlimit
      exact absurd (hfirst.trans_lt hlimit) (by decide)
    · show BlockAct.exec _ _ = _
      decide +kernel

end UtkKernel.Memory
