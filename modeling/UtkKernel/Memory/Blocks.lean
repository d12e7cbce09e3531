import UtkKernel.Structures.Kqueue

/-! # Free blocks (`get_block` and `add_block` of `arch/cpu/i386/src/memmgt.c`)

The free frames and the free pages are kept as ranges of addresses, in a kernel queue that is meant to
be sorted by falling base. The priority of a node is written here as the source writes it, although it
is read only by `kqueue_push_prio`. -/

namespace UtkKernel.Memory
open Structures
set_option autoImplicit false

/-- `KERNEL_FRAME_SIZE` and `KERNEL_PAGE_SIZE` -/
def kernelFrameSize : ℕ := 0x1000

theorem kernelFrameSize_eq : kernelFrameSize = 0x1000 := rfl

/-- `mem_range_t`, without the type, which nothing reads once the ranges are free blocks. -/
structure MemRange where
  base : ℕ
  limit : ℕ
  deriving DecidableEq, Repr

abbrev Block := KqueueNode MemRange

/-- A number as a `uintptr_t`. -/
@[irreducible] def uintptr (n : ℕ) : ℕ := n % 2 ^ 32

theorem uintptr_of_lt {n : ℕ} (h : n < 2 ^ 32) : uintptr n = n := by
  unfold uintptr
  exact Nat.mod_eq_of_lt h

/-- `range->limit - range->base` -/
def MemRange.size (range : MemRange) : ℕ := uintptr (range.limit + 2 ^ 32 - range.base)

/-- `MEM_ALLOC_START_E` -/
inductive MemAllocStart
  | begining
  | last
  deriving DecidableEq, Repr

/-- The size in bytes of a number of frames, as a `size_t`. -/
def blockSize (length : ℕ) : ℕ := length * kernelFrameSize % 2 ^ 32

/-! ## Taking a block -/

/-- The first block of the list that is long enough is cut and, if nothing is left of it, removed. -/
def takeFirst (size : ℕ) (cut : Block → ℕ × Block) : List Block → Option (ℕ × List Block)
  | [] => none
  | node :: list =>
    if size ≤ node.data.size then
      some ((cut node).1,
        if (cut node).2.data.base = (cut node).2.data.limit then list else (cut node).2 :: list)
    else (takeFirst size cut list).map fun r => (r.1, node :: r.2)

/-- The block is taken from the beginning of the range, whose base moves up. -/
def cutBegining (size : ℕ) (node : Block) : ℕ × Block :=
  (node.data.base,
    ⟨⟨uintptr (node.data.base + size), node.data.limit⟩, uintptr (node.data.base + size)⟩)

/-- The block is taken from the end of the range, whose limit moves down. -/
def cutLast (size : ℕ) (node : Block) : ℕ × Block :=
  (uintptr (node.data.limit + 2 ^ 32 - size),
    ⟨⟨node.data.base, uintptr (node.data.limit + 2 ^ 32 - size)⟩, node.priority⟩)

/-- `get_block`: the address of the block and the list left, or no block. -/
def getBlock (list : List Block) (length : ℕ) (start : MemAllocStart) : Option (ℕ × List Block) :=
  match start with
  | .begining => takeFirst (blockSize length) (cutBegining (blockSize length)) list
  | .last =>
    (takeFirst (blockSize length) (cutLast (blockSize length)) list.reverse).map fun r =>
      (r.1, r.2.reverse)

/-! ## Giving a block back -/

/-- What the loop of `add_block` finds: the block is free already, which is a panic, or it was merged
and this is the list, or nothing could be merged. -/
inductive Merge
  | panics
  | merged (list : List Block)
  | unmerged

/-- The node stays in front of the list. -/
def Merge.cons (node : Block) : Merge → Merge
  | .panics => .panics
  | .merged list => .merged (node :: list)
  | .unmerged => .unmerged

/-- The loop of `add_block`. A range that ends where the block starts is grown upwards; the source then
looks for a range before it that starts at the new limit, but such a range has been grown downwards
already. -/
def mergeBlock (first limit : ℕ) : List Block → Merge
  | [] => .unmerged
  | node :: list =>
    if node.data.base = limit then
      match list with
      | [] => .merged [⟨⟨first, node.data.limit⟩, first⟩]
      | next :: rest =>
        if next.data.limit = first then
          .merged (⟨⟨next.data.base, node.data.limit⟩, next.data.base⟩ :: rest)
        else .merged (⟨⟨first, node.data.limit⟩, first⟩ :: next :: rest)
    else if node.data.limit = first then
      .merged (⟨⟨node.data.base, limit⟩, node.priority⟩ :: list)
    else if node.data.base ≤ first ∧ first < node.data.limit then .panics
    else if node.data.limit < first then .unmerged
    else (mergeBlock first limit list).cons node

/-- `add_block` -/
def addBlock (list : List Block) (first length : ℕ) : Option (List Block) :=
  let limit := uintptr (first + blockSize length)
  match mergeBlock first limit list with
  | .panics => none
  | .merged list' => some list'
  | .unmerged => some (kqueuePushPrio ⟨⟨first, limit⟩, first⟩ list)

/-! ## What the lists hold -/

/-- The address is in a range of the list. -/
def Covers (list : List Block) (x : ℕ) : Prop :=
  ∃ node ∈ list, node.data.base ≤ x ∧ x < node.data.limit

/-- The frame or page of this number starts in a range of the list. -/
def IsFree (list : List Block) (f : ℕ) : Prop := Covers list (f * kernelFrameSize)

/-- The ranges are not empty, start at multiples of the frame size and do not overlap. -/
structure WellFormed (list : List Block) : Prop where
  aligned : ∀ node ∈ list, kernelFrameSize ∣ node.data.base
  bounds : ∀ node ∈ list, node.data.base < node.data.limit ∧ node.data.limit < 2 ^ 32
  disjoint : list.Pairwise fun n n' =>
    n.data.limit ≤ n'.data.base ∨ n'.data.limit ≤ n.data.base

variable {list list' before after : List Block} {node : Block} {f size first limit x addr : ℕ}

theorem isFree_of_addr (haddr : f * kernelFrameSize = addr) (hnode : node ∈ list)
    (hbase : node.data.base ≤ addr) (hlimit : addr < node.data.limit) : IsFree list f := by
  subst haddr
  exact ⟨node, hnode, hbase, hlimit⟩

theorem isFree_cons_of_base {base limit priority : ℕ} (hbase : f * kernelFrameSize = base)
    (hlimit : base < limit) : IsFree (⟨⟨base, limit⟩, priority⟩ :: list) f :=
  isFree_of_addr hbase (List.mem_cons_self ..) le_rfl hlimit

theorem not_covers_nil : ¬ Covers [] x := by
  rintro ⟨_, hn, -⟩
  cases hn

theorem covers_cons : Covers (node :: list) x ↔
    (node.data.base ≤ x ∧ x < node.data.limit) ∨ Covers list x := by
  unfold Covers
  rw [List.exists_mem_cons_iff]

theorem covers_append : Covers (before ++ after) x ↔ Covers before x ∨ Covers after x := by
  induction before with
  | nil => exact ⟨.inr, fun h => h.resolve_left not_covers_nil⟩
  | cons node before ih => rw [List.cons_append, covers_cons, covers_cons, ih, or_assoc]

theorem Covers.perm (h : list.Perm list') : Covers list x ↔ Covers list' x := by
  unfold Covers
  simp only [h.mem_iff]

theorem MemRange.size_eq {range : MemRange} (hbase : range.base < range.limit)
    (hlimit : range.limit < 2 ^ 32) : range.size = range.limit - range.base := by
  unfold MemRange.size uintptr
  omega

/-- In a list of pairwise related nodes, some next to each other are replaced by one that is related to
all that they were related to. -/
theorem pairwise_replace {α : Type} {R : α → α → Prop} (as : List α) {b : α} {before after : List α}
    (h : (before ++ (as ++ after)).Pairwise R) (hbefore : ∀ n ∈ before, (∀ a ∈ as, R n a) → R n b)
    (hafter : ∀ n ∈ after, (∀ a ∈ as, R a n) → R b n) : (before ++ b :: after).Pairwise R := by
  rw [List.pairwise_append, List.pairwise_append] at h
  obtain ⟨h1, ⟨-, h2, h3⟩, h4⟩ := h
  rw [List.pairwise_append, List.pairwise_cons]
  refine ⟨h1, ⟨fun n hn => hafter n hn fun a ha => h3 a ha n hn, h2⟩, fun n hn m hm => ?_⟩
  rcases List.mem_cons.mp hm with rfl | hm'
  · exact hbefore n hn fun a ha => h4 n hn a (List.mem_append_left _ ha)
  · exact h4 n hn m (List.mem_append_right _ hm')

/-! ## What is taken -/

/-- What is left of a range that was cut, in the list. -/
def leftOf (node : Block) : List Block :=
  if node.data.base = node.data.limit then [] else [node]

theorem takeFirst_eq_some {cut : Block → ℕ × Block}
    (h : takeFirst size cut list = some (addr, list')) :
    ∃ before node after, list = before ++ node :: after ∧ size ≤ node.data.size ∧
      addr = (cut node).1 ∧ list' = before ++ (leftOf (cut node).2 ++ after) := by
  induction list generalizing addr list' with
  | nil => cases h
  | cons node list ih =>
    unfold takeFirst at h
    by_cases hfits : size ≤ node.data.size
    · rw [if_pos hfits, Option.some.injEq, Prod.mk.injEq] at h
      refine ⟨[], node, list, rfl, hfits, h.1.symm, h.2.symm.trans ?_⟩
      unfold leftOf
      split_ifs <;> rfl
    · rw [if_neg hfits] at h
      obtain ⟨⟨addr', rest⟩, hrest, heq⟩ := Option.map_eq_some_iff.mp h
      cases heq
      obtain ⟨before, n, after, rfl, hn, haddr, rfl⟩ := ih hrest
      exact ⟨node :: before, n, after, rfl, hn, haddr, rfl⟩

/-- The block is cut from one end of a range, and nothing else in the list changes. -/
def cutAt (start : MemAllocStart) (size : ℕ) : Block → ℕ × Block :=
  match start with
  | .begining => cutBegining size
  | .last => cutLast size

theorem cutAt_begining (size : ℕ) (node : Block) :
    ∃ base, base = uintptr (node.data.base + size) ∧ cutAt .begining size node =
      (node.data.base, ⟨⟨base, node.data.limit⟩, base⟩) :=
  ⟨_, rfl, rfl⟩

theorem cutAt_last (size : ℕ) (node : Block) :
    ∃ limit, limit = uintptr (node.data.limit + 2 ^ 32 - size) ∧ cutAt .last size node =
      (limit, ⟨⟨node.data.base, limit⟩, node.priority⟩) :=
  ⟨_, rfl, rfl⟩

theorem getBlock_eq_some {length : ℕ} {start : MemAllocStart}
    (h : getBlock list length start = some (addr, list')) :
    ∃ before node after, list = before ++ node :: after ∧ blockSize length ≤ node.data.size ∧
      addr = (cutAt start (blockSize length) node).1 ∧
      list' = before ++ (leftOf (cutAt start (blockSize length) node).2 ++ after) := by
  cases start with
  | begining => exact takeFirst_eq_some h
  | last =>
    obtain ⟨⟨addr', rest⟩, hrest, heq⟩ := Option.map_eq_some_iff.mp h
    cases heq
    obtain ⟨before, node, after, hlist, hn, haddr, rfl⟩ := takeFirst_eq_some hrest
    refine ⟨after.reverse, node, before.reverse, ?_, hn, haddr, ?_⟩
    · rw [← List.reverse_reverse list, hlist, List.reverse_append, List.reverse_cons,
        List.append_assoc, List.singleton_append]
    · have hleft : ∀ n : Block, (leftOf n).reverse = leftOf n := by
        intro n
        unfold leftOf
        split_ifs <;> rfl
      rw [List.reverse_append, List.reverse_append, hleft, List.append_assoc]
      rfl

/-- The bounds of what is taken from a range that is big enough, and of what is left. -/
theorem cutAt_bounds (start : MemAllocStart) (hsize : 0 < size) (hfits : size ≤ node.data.size)
    (hbase : node.data.base < node.data.limit) (hlimit : node.data.limit < 2 ^ 32) :
    node.data.base ≤ (cutAt start size node).1 ∧
      (cutAt start size node).1 + size ≤ node.data.limit ∧
      node.data.base ≤ (cutAt start size node).2.data.base ∧
      (cutAt start size node).2.data.base ≤ (cutAt start size node).2.data.limit ∧
      (cutAt start size node).2.data.limit ≤ node.data.limit ∧
      ∀ x, ((cutAt start size node).2.data.base ≤ x ∧ x < (cutAt start size node).2.data.limit) ↔
        (node.data.base ≤ x ∧ x < node.data.limit) ∧
          ¬((cutAt start size node).1 ≤ x ∧ x < (cutAt start size node).1 + size) := by
  rw [MemRange.size_eq hbase hlimit] at hfits
  cases start with
  | begining =>
    obtain ⟨base, hcut, heq⟩ := cutAt_begining size node
    rw [uintptr_of_lt (by omega)] at hcut
    rw [heq]
    dsimp only
    exact ⟨by omega, by omega, by omega, by omega, by omega, fun x => by omega⟩
  | last =>
    obtain ⟨limit, hcut, heq⟩ := cutAt_last size node
    unfold uintptr at hcut
    rw [heq]
    dsimp only
    exact ⟨by omega, by omega, by omega, by omega, by omega, fun x => by omega⟩

theorem covers_leftOf : Covers (leftOf node) x ↔ node.data.base ≤ x ∧ x < node.data.limit := by
  unfold leftOf
  split_ifs with hempty
  · refine ⟨fun h => absurd h not_covers_nil, fun h => ?_⟩
    omega
  · rw [covers_cons]
    exact or_iff_left not_covers_nil

/-- A range that is disjoint from all others of its list is the only one that covers its addresses. -/
theorem WellFormed.not_covers (hl : WellFormed (before ++ node :: after))
    (hbase : node.data.base ≤ x) (hlimit : x < node.data.limit) :
    ¬ Covers before x ∧ ¬ Covers after x := by
  have hdisjoint := hl.disjoint
  rw [List.pairwise_append, List.pairwise_cons] at hdisjoint
  obtain ⟨-, ⟨hafter, -⟩, hbefore⟩ := hdisjoint
  constructor
  · rintro ⟨n, hn, hnb, hnl⟩
    have := hbefore n hn node (List.mem_cons_self ..)
    omega
  · rintro ⟨n, hn, hnb, hnl⟩
    have := hafter n hn
    omega

theorem kernelFrameSize_dvd_word : kernelFrameSize ∣ 2 ^ 32 := by
  rw [kernelFrameSize_eq]
  norm_num

theorem kernelFrameSize_dvd_uintptr (n : ℕ) : kernelFrameSize ∣ uintptr n ↔ kernelFrameSize ∣ n := by
  unfold uintptr
  exact Nat.dvd_mod_iff kernelFrameSize_dvd_word

theorem kernelFrameSize_dvd_blockSize (length : ℕ) : kernelFrameSize ∣ blockSize length :=
  (Nat.dvd_mod_iff kernelFrameSize_dvd_word).mpr (Dvd.intro_left length rfl)

theorem cutAt_aligned (start : MemAllocStart) {length : ℕ} (hnode : kernelFrameSize ∣ node.data.base) :
    kernelFrameSize ∣ (cutAt start (blockSize length) node).2.data.base := by
  cases start with
  | begining =>
    obtain ⟨base, rfl, hcut⟩ := cutAt_begining (blockSize length) node
    rw [hcut]
    dsimp only
    rw [kernelFrameSize_dvd_uintptr]
    exact Nat.dvd_add hnode (kernelFrameSize_dvd_blockSize length)
  | last =>
    obtain ⟨limit, -, hcut⟩ := cutAt_last (blockSize length) node
    rw [hcut]
    exact hnode

/-- The block that is taken was in the list, and what is left covers all the rest. -/
theorem getBlock_covers {length : ℕ} {start : MemAllocStart} (hl : WellFormed list)
    (hsize : 0 < blockSize length) (h : getBlock list length start = some (addr, list')) :
    addr + blockSize length < 2 ^ 32 ∧
      (∀ x, addr ≤ x → x < addr + blockSize length → Covers list x) ∧
      ∀ x, Covers list' x ↔ Covers list x ∧ ¬(addr ≤ x ∧ x < addr + blockSize length) := by
  obtain ⟨before, node, after, rfl, hfits, rfl, rfl⟩ := getBlock_eq_some h
  obtain ⟨hbase, hlimit⟩ := hl.bounds node (by simp)
  obtain ⟨h1, h2, -, -, -, hleft⟩ := cutAt_bounds start hsize hfits hbase hlimit
  refine ⟨by omega, fun x hx hx' => ?_, fun x => ?_⟩
  · exact covers_append.mpr (.inr (covers_cons.mpr (.inl ⟨by omega, by omega⟩)))
  · rw [covers_append, covers_append, covers_append, covers_cons, covers_leftOf, hleft]
    have hnot := hl.not_covers (x := x)
    by_cases hin : node.data.base ≤ x ∧ x < node.data.limit
    · have := hnot hin.1 hin.2
      tauto
    · have hout : ¬((cutAt start (blockSize length) node).1 ≤ x ∧
          x < (cutAt start (blockSize length) node).1 + blockSize length) := by
        omega
      tauto

theorem getBlock_wellFormed {length : ℕ} {start : MemAllocStart} (hl : WellFormed list)
    (hsize : 0 < blockSize length) (h : getBlock list length start = some (addr, list')) :
    WellFormed list' := by
  obtain ⟨before, node, after, rfl, hfits, rfl, rfl⟩ := getBlock_eq_some h
  obtain ⟨hbase, hlimit⟩ := hl.bounds node (by simp)
  obtain ⟨-, -, h3, h4, h5, -⟩ := cutAt_bounds start hsize hfits hbase hlimit
  have hsub : (before ++ after).Sublist (before ++ node :: after) :=
    (List.sublist_cons_self node after).append_left before
  unfold leftOf
  split_ifs with hempty
  · exact ⟨fun n hn => hl.aligned n (hsub.subset hn), fun n hn => hl.bounds n (hsub.subset hn),
      hl.disjoint.sublist hsub⟩
  · have hmem : ∀ n, n ∈ before ++ (cutAt start (blockSize length) node).2 :: after →
        n = (cutAt start (blockSize length) node).2 ∨ n ∈ before ++ after := by
      intro n hn
      simp only [List.mem_append, List.mem_cons] at hn ⊢
      tauto
    refine ⟨fun n hn => ?_, fun n hn => ?_, pairwise_replace [node] hl.disjoint ?_ ?_⟩
    · rcases hmem n hn with rfl | hn'
      · exact cutAt_aligned start (hl.aligned node (by simp))
      · exact hl.aligned n (hsub.subset hn')
    · rcases hmem n hn with rfl | hn'
      · exact ⟨by omega, by omega⟩
      · exact hl.bounds n (hsub.subset hn')
    · intro n _ hn
      have := hn node (List.mem_singleton_self _)
      omega
    · intro n _ hn
      have := hn node (List.mem_singleton_self _)
      omega

/-! ## What is given back -/

/-- The ranges `joined` of a list become one with the block between two addresses. -/
inductive Joins (first limit : ℕ) (after : List Block) : List Block → Block → Prop
  | up {node : Block} (hbase : node.data.base = limit) (hnext : ∀ n ∈ after.head?, n.data.limit ≠ first) :
    Joins first limit after [node] ⟨⟨first, node.data.limit⟩, first⟩
  | both {node next : Block} (hbase : node.data.base = limit) (hnext : next.data.limit = first) :
    Joins first limit after [node, next] ⟨⟨next.data.base, node.data.limit⟩, next.data.base⟩
  | down {node : Block} (hbase : node.data.base ≠ limit) (hlimit : node.data.limit = first) :
    Joins first limit after [node] ⟨⟨node.data.base, limit⟩, node.priority⟩

theorem mergeBlock_merged (h : mergeBlock first limit list = .merged list') :
    ∃ before joined after node', list = before ++ (joined ++ after) ∧
      list' = before ++ node' :: after ∧ Joins first limit after joined node' ∧
      ∀ n ∈ before, n.data.base ≠ limit ∧ n.data.limit ≠ first := by
  induction list generalizing list' with
  | nil => cases h
  | cons node list ih =>
    unfold mergeBlock at h
    by_cases hbase : node.data.base = limit
    · rw [if_pos hbase] at h
      cases list with
      | nil =>
        cases h
        exact ⟨[], [node], [], _, rfl, rfl, .up hbase (by simp), by simp⟩
      | cons next rest =>
        dsimp only at h
        split_ifs at h with hnext
        · cases h
          exact ⟨[], [node, next], rest, _, rfl, rfl, .both hbase hnext, by simp⟩
        · cases h
          exact ⟨[], [node], next :: rest, _, rfl, rfl, .up hbase (by simpa using hnext), by simp⟩
    · rw [if_neg hbase] at h
      by_cases hlimit : node.data.limit = first
      · rw [if_pos hlimit] at h
        cases h
        exact ⟨[], [node], list, _, rfl, rfl, .down hbase hlimit, by simp⟩
      · rw [if_neg hlimit] at h
        split_ifs at h with hin hbelow
        cases hm : mergeBlock first limit list with
        | panics => rw [hm] at h; cases h
        | unmerged => rw [hm] at h; cases h
        | merged rest =>
          rw [hm] at h
          cases h
          obtain ⟨before, joined, after, node', rfl, rfl, hjoins, hbefore⟩ := ih hm
          exact ⟨node :: before, joined, after, node', rfl, rfl, hjoins,
            List.forall_mem_cons.mpr ⟨⟨hbase, hlimit⟩, hbefore⟩⟩

theorem mergeBlock_panics (h : mergeBlock first limit list = .panics) : Covers list first := by
  induction list with
  | nil => cases h
  | cons node list ih =>
    unfold mergeBlock at h
    by_cases hbase : node.data.base = limit
    · rw [if_pos hbase] at h
      cases list with
      | nil => cases h
      | cons next rest =>
        dsimp only at h
        split_ifs at h
    · rw [if_neg hbase] at h
      split_ifs at h with hlimit hin hbelow
      · exact covers_cons.mpr (.inl hin)
      · cases hm : mergeBlock first limit list with
        | panics => exact covers_cons.mpr (.inr (ih hm))
        | unmerged => rw [hm] at h; cases h
        | merged rest => rw [hm] at h; cases h

/-- A block that no range covers lies before or behind each of them. -/
theorem WellFormed.outside (hl : WellFormed list) (hblock : first < limit)
    (hout : ∀ x, first ≤ x → x < limit → ¬ Covers list x) (hnode : node ∈ list) :
    limit ≤ node.data.base ∨ node.data.limit ≤ first := by
  obtain ⟨hbase, -⟩ := hl.bounds node hnode
  by_contra hc
  rw [not_or, not_le, not_le] at hc
  rcases le_total first node.data.base with hle | hle
  · exact hout _ hle hc.1 ⟨node, hnode, le_rfl, hbase⟩
  · exact hout first le_rfl hblock ⟨node, hnode, hle, hc.2⟩

/-- A range joined with the block covers what the ranges it is made of do, and the block. -/
theorem Joins.covers {joined : List Block} {node' : Block} (h : Joins first limit after joined node')
    (hblock : first < limit) (hbounds : ∀ n ∈ joined, n.data.base < n.data.limit) :
    (node'.data.base ≤ x ∧ x < node'.data.limit) ↔ Covers joined x ∨ (first ≤ x ∧ x < limit) := by
  cases h with
  | @up node hbase _ =>
    have := hbounds node (List.mem_singleton_self _)
    rw [covers_cons, or_iff_left not_covers_nil]
    dsimp only
    omega
  | @both node next hbase hnext =>
    have := hbounds node (List.mem_cons_self ..)
    have := hbounds next (List.mem_cons_of_mem _ (List.mem_singleton_self _))
    rw [covers_cons, covers_cons, or_iff_left not_covers_nil]
    dsimp only
    omega
  | @down node _ hlimit =>
    have := hbounds node (List.mem_singleton_self _)
    rw [covers_cons, or_iff_left not_covers_nil]
    dsimp only
    omega

theorem Joins.bounds {joined : List Block} {node' : Block} (h : Joins first limit after joined node')
    (hblock : first < limit) (hlimit : limit < 2 ^ 32)
    (hbounds : ∀ n ∈ joined, n.data.base < n.data.limit ∧ n.data.limit < 2 ^ 32) :
    node'.data.base < node'.data.limit ∧ node'.data.limit < 2 ^ 32 := by
  cases h with
  | @up node hbase _ =>
    have := hbounds node (List.mem_singleton_self _)
    dsimp only
    omega
  | @both node next hbase hnext =>
    have := hbounds node (List.mem_cons_self ..)
    have := hbounds next (List.mem_cons_of_mem _ (List.mem_singleton_self _))
    dsimp only
    omega
  | @down node _ hlow =>
    have := hbounds node (List.mem_singleton_self _)
    dsimp only
    omega

theorem Joins.aligned {joined : List Block} {node' : Block} (h : Joins first limit after joined node')
    (hfirst : kernelFrameSize ∣ first) (haligned : ∀ n ∈ joined, kernelFrameSize ∣ n.data.base) :
    kernelFrameSize ∣ node'.data.base := by
  cases h with
  | up _ _ => exact hfirst
  | @both node next _ _ => exact haligned next (by simp)
  | @down node _ _ => exact haligned node (by simp)

/-- What is outside of the block and of all the ranges joined with it is outside of the new range. -/
theorem Joins.outside {joined : List Block} {node' n : Block}
    (h : Joins first limit after joined node') (hblock : first < limit)
    (hbounds : ∀ a ∈ joined, a.data.base < a.data.limit) (hn : n.data.base < n.data.limit)
    (hout : limit ≤ n.data.base ∨ n.data.limit ≤ first)
    (hjoined : ∀ a ∈ joined, a.data.limit ≤ n.data.base ∨ n.data.limit ≤ a.data.base) :
    node'.data.limit ≤ n.data.base ∨ n.data.limit ≤ node'.data.base := by
  cases h with
  | @up node hbase _ =>
    have := hbounds node (List.mem_singleton_self _)
    have := hjoined node (List.mem_singleton_self _)
    dsimp only
    omega
  | @both node next hbase hnext =>
    have := hbounds node (List.mem_cons_self ..)
    have := hjoined node (List.mem_cons_self ..)
    have := hbounds next (List.mem_cons_of_mem _ (List.mem_singleton_self _))
    have := hjoined next (List.mem_cons_of_mem _ (List.mem_singleton_self _))
    dsimp only
    omega
  | @down node _ hlimit =>
    have := hbounds node (List.mem_singleton_self _)
    have := hjoined node (List.mem_singleton_self _)
    dsimp only
    omega

theorem addBlock_eq {length : ℕ} (hlimit : first + blockSize length < 2 ^ 32) :
    addBlock list first length = match mergeBlock first (first + blockSize length) list with
      | .panics => none
      | .merged list' => some list'
      | .unmerged => some (kqueuePushPrio ⟨⟨first, first + blockSize length⟩, first⟩ list) := by
  unfold addBlock
  rw [uintptr_of_lt hlimit]

/-- A block that is not in the list is added, and the list is well formed again. -/
theorem addBlock_spec {length : ℕ} (hl : WellFormed list) (hfirst : kernelFrameSize ∣ first)
    (hsize : 0 < blockSize length) (hlimit : first + blockSize length < 2 ^ 32)
    (hout : ∀ x, first ≤ x → x < first + blockSize length → ¬ Covers list x) :
    ∃ list', addBlock list first length = some list' ∧ WellFormed list' ∧
      ∀ x, Covers list' x ↔ Covers list x ∨ (first ≤ x ∧ x < first + blockSize length) := by
  have hblock : first < first + blockSize length := by omega
  rw [addBlock_eq hlimit]
  cases hm : mergeBlock first (first + blockSize length) list with
  | panics => exact absurd (mergeBlock_panics hm) (hout first le_rfl hblock)
  | unmerged =>
    have hperm := kqueuePushPrio_perm (⟨⟨first, first + blockSize length⟩, first⟩ : Block) list
    refine ⟨_, rfl, ⟨fun n hn => ?_, fun n hn => ?_, ?_⟩, fun x => ?_⟩
    · rcases List.mem_cons.mp (hperm.mem_iff.mp hn) with rfl | hn'
      · exact hfirst
      · exact hl.aligned n hn'
    · rcases List.mem_cons.mp (hperm.mem_iff.mp hn) with rfl | hn'
      · exact ⟨hblock, hlimit⟩
      · exact hl.bounds n hn'
    · refine (hperm.pairwise_iff fun h => h.symm).mpr (List.pairwise_cons.mpr ⟨?_, hl.disjoint⟩)
      exact fun n hn => hl.outside hblock hout hn
    · rw [Covers.perm hperm, covers_cons, or_comm]
  | merged list' =>
    obtain ⟨before, joined, after, node', rfl, rfl, hjoins, -⟩ := mergeBlock_merged hm
    have hjoined : ∀ n ∈ joined, n ∈ before ++ (joined ++ after) := by simp_all
    have hmem : ∀ n ∈ before ++ node' :: after, n = node' ∨ n ∈ before ++ (joined ++ after) := by
      intro n hn
      simp only [List.mem_append, List.mem_cons] at hn ⊢
      tauto
    have hbounds : ∀ n ∈ joined, n.data.base < n.data.limit := fun n hn =>
      (hl.bounds n (hjoined n hn)).1
    refine ⟨_, rfl, ⟨fun n hn => ?_, fun n hn => ?_, pairwise_replace _ hl.disjoint ?_ ?_⟩,
      fun x => ?_⟩
    · rcases hmem n hn with rfl | hn'
      · exact hjoins.aligned hfirst fun a ha => hl.aligned a (hjoined a ha)
      · exact hl.aligned n hn'
    · rcases hmem n hn with rfl | hn'
      · exact hjoins.bounds hblock hlimit fun a ha => hl.bounds a (hjoined a ha)
      · exact hl.bounds n hn'
    · intro n hn hall
      have hn' : n ∈ before ++ (joined ++ after) := List.mem_append_left _ hn
      exact (hjoins.outside hblock hbounds (hl.bounds n hn').1 (hl.outside hblock hout hn')
        fun a ha => (hall a ha).symm).symm
    · intro n hn hall
      have hn' : n ∈ before ++ (joined ++ after) :=
        List.mem_append_right _ (List.mem_append_right _ hn)
      exact hjoins.outside hblock hbounds (hl.bounds n hn').1 (hl.outside hblock hout hn') hall
    · rw [covers_append, covers_cons, hjoins.covers hblock hbounds, covers_append, covers_append]
      tauto

end UtkKernel.Memory
