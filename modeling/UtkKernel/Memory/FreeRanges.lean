import UtkKernel.Foundations.Runs
import UtkKernel.Memory.Blocks

/-! # Lists of free ranges

What any run of `get_block` and `add_block` keeps of a list: its order, and that ranges next to each
other are one range. -/

namespace UtkKernel.Memory
open Structures Foundations
set_option autoImplicit false

variable {list list' before after : List Block} {node : Block} {first limit length addr : ℕ}
  {start : MemAllocStart}

/-! ## Order -/

/-- Not empty, disjoint, coalesced, in falling order of the bases, which are the priorities. -/
structure FreeRanges (list : List Block) : Prop where
  nonempty : ∀ node ∈ list, node.data.base < node.data.limit
  disjoint : list.Pairwise fun n n' => ∀ x, n.data.base ≤ x → x < n.data.limit →
    ¬(n'.data.base ≤ x ∧ x < n'.data.limit)
  coalesced : list.Pairwise fun n n' =>
    n.data.limit ≠ n'.data.base ∧ n'.data.limit ≠ n.data.base
  descending : list.Pairwise fun n n' => n'.data.base < n.data.base
  priority : ∀ node ∈ list, node.priority = node.data.base

/-- Every range ends before the one in front of it starts. -/
structure Descending (list : List Block) : Prop where
  wellFormed : WellFormed list
  limits : ∀ node ∈ list, kernelFrameSize ∣ node.data.limit
  gaps : list.Pairwise fun n n' => n'.data.limit < n.data.base
  priority : ∀ node ∈ list, node.priority = node.data.base

theorem descending_nil : Descending [] := ⟨⟨nofun, nofun, .nil⟩, nofun, .nil, nofun⟩

theorem Descending.freeRanges (hl : Descending list) : FreeRanges list := by
  have hbounds := fun n hn => (hl.wellFormed.bounds n hn).1
  refine ⟨hbounds, hl.gaps.imp fun hgap x _ _ hin => ?_, hl.gaps.imp_of_mem fun hn hn' hgap => ?_,
    hl.gaps.imp_of_mem fun hn hn' hgap => ?_, hl.priority⟩
  · omega
  · have := hbounds _ hn
    have := hbounds _ hn'
    omega
  · have := hbounds _ hn'
    omega

/-! ## Taking a block -/

theorem leftOf_sublist : (leftOf node).Sublist [node] := by
  unfold leftOf
  split_ifs
  · exact List.nil_sublist _
  · exact List.Sublist.refl _

/-- A property of nodes that cutting keeps is kept in the whole list. -/
theorem getBlock_forall {P : Block → Prop} (h : getBlock list length start = some (addr, list'))
    (hl : ∀ n ∈ list, P n)
    (hcut : ∀ n ∈ list, P n → P (cutAt start (blockSize length) n).2) : ∀ n ∈ list', P n := by
  obtain ⟨before, node, after, rfl, -, -, rfl⟩ := getBlock_eq_some h
  intro n hn
  rw [List.mem_append, List.mem_append] at hn
  rcases hn with hn | hn | hn
  · exact hl n (List.mem_append_left _ hn)
  · obtain rfl := List.mem_singleton.mp (leftOf_sublist.subset hn)
    exact hcut node (by simp) (hl node (by simp))
  · exact hl n (List.mem_append_right _ (List.mem_cons_of_mem _ hn))

theorem cutAt_limit (hnode : kernelFrameSize ∣ node.data.limit) :
    kernelFrameSize ∣ (cutAt start (blockSize length) node).2.data.limit := by
  cases start with
  | begining =>
    obtain ⟨base, -, hcut⟩ := cutAt_begining (blockSize length) node
    rw [hcut]
    exact hnode
  | last =>
    obtain ⟨limit, rfl, hcut⟩ := cutAt_last (blockSize length) node
    rw [hcut]
    dsimp only
    rw [kernelFrameSize_dvd_uintptr]
    exact Nat.dvd_sub (Nat.dvd_add hnode kernelFrameSize_dvd_word)
      (kernelFrameSize_dvd_blockSize length)

theorem cutAt_priority (hnode : node.priority = node.data.base) :
    (cutAt start (blockSize length) node).2.priority =
      (cutAt start (blockSize length) node).2.data.base := by
  cases start with
  | begining =>
    obtain ⟨base, -, hcut⟩ := cutAt_begining (blockSize length) node
    rw [hcut]
  | last =>
    obtain ⟨limit, -, hcut⟩ := cutAt_last (blockSize length) node
    rw [hcut]
    exact hnode

theorem Descending.getBlock (hl : Descending list) (hsize : 0 < blockSize length)
    (h : getBlock list length start = some (addr, list')) : Descending list' := by
  refine ⟨getBlock_wellFormed hl.wellFormed hsize h,
    getBlock_forall h hl.limits fun n _ => cutAt_limit, ?_,
    getBlock_forall h hl.priority fun n _ => cutAt_priority⟩
  obtain ⟨before, node, after, rfl, hfits, -, rfl⟩ := getBlock_eq_some h
  obtain ⟨hbase, hlimit⟩ := hl.wellFormed.bounds node (by simp)
  obtain ⟨-, -, h3, -, h5, -⟩ := cutAt_bounds start hsize hfits hbase hlimit
  have hcut : (before ++ (cutAt start (blockSize length) node).2 :: after).Pairwise
      fun n n' => n'.data.limit < n.data.base := by
    refine pairwise_replace [node] hl.gaps (fun n _ hn => ?_) fun n _ hn => ?_
    · exact lt_of_le_of_lt h5 (hn node (List.mem_singleton_self _))
    · exact lt_of_lt_of_le (hn node (List.mem_singleton_self _)) h3
  exact hcut.sublist ((leftOf_sublist.append_right after).append_left before)

theorem cutAt_addr (hbase : kernelFrameSize ∣ node.data.base)
    (hlimit : kernelFrameSize ∣ node.data.limit) :
    kernelFrameSize ∣ (cutAt start (blockSize length) node).1 := by
  cases start with
  | begining =>
    obtain ⟨base, -, hcut⟩ := cutAt_begining (blockSize length) node
    rw [hcut]
    exact hbase
  | last =>
    obtain ⟨limit, rfl, hcut⟩ := cutAt_last (blockSize length) node
    rw [hcut]
    dsimp only
    rw [kernelFrameSize_dvd_uintptr]
    exact Nat.dvd_sub (Nat.dvd_add hlimit kernelFrameSize_dvd_word)
      (kernelFrameSize_dvd_blockSize length)

/-- The address of the block is a multiple of the frame size. -/
theorem Descending.getBlock_aligned (hl : Descending list)
    (h : Memory.getBlock list length start = some (addr, list')) : kernelFrameSize ∣ addr := by
  obtain ⟨before, node, after, rfl, -, rfl, -⟩ := getBlock_eq_some h
  exact cutAt_addr (hl.wellFormed.aligned node (by simp)) (hl.limits node (by simp))

/-! ## Giving a block back -/

theorem kqueuePushPrio_split {α : Type} (node : KqueueNode α) (queue : List (KqueueNode α)) :
    ∃ before after, queue = before ++ after ∧ kqueuePushPrio node queue = before ++ node :: after ∧
      (∀ n ∈ before, node.priority < n.priority) ∧ ∀ n ∈ after.head?, n.priority ≤ node.priority := by
  induction queue with
  | nil => exact ⟨[], [], rfl, rfl, by simp, by simp⟩
  | cons cursor queue ih =>
    unfold kqueuePushPrio
    split_ifs with hprio
    · obtain ⟨before, after, rfl, hpush, hbefore, hafter⟩ := ih
      refine ⟨cursor :: before, after, rfl, by rw [hpush, List.cons_append], ?_, hafter⟩
      exact List.forall_mem_cons.mpr ⟨hprio, hbefore⟩
    · exact ⟨[], cursor :: queue, rfl, rfl, by simp, by simpa using hprio⟩

/-- Where nothing is merged, no range touches the block. -/
theorem Descending.unmerged (hl : Descending list) (hblock : first < limit)
    (h : mergeBlock first limit list = .unmerged) (hnode : node ∈ list) :
    node.data.base ≠ limit ∧ node.data.limit ≠ first := by
  obtain ⟨hwell, -, hgaps, -⟩ := hl
  induction list with
  | nil => cases hnode
  | cons head list ih =>
    rw [List.pairwise_cons] at hgaps
    unfold mergeBlock at h
    by_cases hbase : head.data.base = limit
    · rw [if_pos hbase] at h
      cases list with
      | nil => cases h
      | cons next rest =>
        dsimp only at h
        split_ifs at h
    · rw [if_neg hbase] at h
      split_ifs at h with hlimit hin hbelow
      · -- everything behind the head lies below it
        have hbounds := hwell.bounds node hnode
        rcases List.mem_cons.mp hnode with rfl | hmem
        · exact ⟨hbase, hlimit⟩
        · have := hgaps.1 node hmem
          have := hwell.bounds head (List.mem_cons_self ..)
          omega
      · cases hm : mergeBlock first limit list with
        | panics => rw [hm] at h; cases h
        | merged rest => rw [hm] at h; cases h
        | unmerged =>
          rcases List.mem_cons.mp hnode with rfl | hmem
          · exact ⟨hbase, hlimit⟩
          · have hwell' : WellFormed list := ⟨fun n hn => hwell.aligned n (List.mem_cons_of_mem _ hn),
              fun n hn => hwell.bounds n (List.mem_cons_of_mem _ hn),
              (List.pairwise_cons.mp hwell.disjoint).2⟩
            exact ih hm hmem hwell' hgaps.2

/-- A block inside of a range is found there. -/
theorem Descending.mergeBlock_inside (hl : Descending list) (hnode : node ∈ list) (hbase : node.data.base ≤ first)
    (hne : node.data.base ≠ limit) (hin : first < node.data.limit) (hlimit : limit ≤ node.data.limit) :
    mergeBlock first limit list = .panics := by
  have hbounds := fun n hn => (hl.wellFormed.bounds n hn).1
  have hgaps := hl.gaps
  clear hl
  induction list with
  | nil => cases hnode
  | cons head list ih =>
    rw [List.pairwise_cons] at hgaps
    unfold mergeBlock
    rcases List.mem_cons.mp hnode with rfl | hmem
    · rw [if_neg hne, if_neg (by omega), if_pos ⟨hbase, hin⟩]
    · -- the ranges in front of it are behind the block
      have habove := hgaps.1 node hmem
      have hhead := hbounds head (List.mem_cons_self ..)
      rw [if_neg (by omega), if_neg (by omega), if_neg (by omega), if_neg (by omega),
        ih hmem (fun n hn => hbounds n (List.mem_cons_of_mem _ hn)) hgaps.2]
      rfl

/-- What lies above every joined range and outside of the block lies above the new range. -/
theorem Joins.gap_before {joined : List Block} {node' n : Block}
    (h : Joins first limit after joined node') (hn : n.data.base < n.data.limit)
    (hout : limit ≤ n.data.base ∨ n.data.limit ≤ first) (hbase : n.data.base ≠ limit)
    (hgap : ∀ a ∈ joined, a.data.limit < n.data.base) : node'.data.limit < n.data.base := by
  cases h with
  | @up node _ _ => exact hgap node (by simp)
  | @both node next _ _ => exact hgap node (by simp)
  | @down node _ hlimit =>
    have := hgap node (by simp)
    dsimp only
    omega

/-- What follows the joined ranges in the list lies below the new range. -/
theorem Joins.gap_after {joined : List Block} {node' n : Block}
    (h : Joins first limit after joined node')
    (hbounds : ∀ a ∈ after, a.data.base < a.data.limit)
    (hout : ∀ a ∈ after, limit ≤ a.data.base ∨ a.data.limit ≤ first)
    (hgaps : after.Pairwise fun n n' => n'.data.limit < n.data.base)
    (hgap : ∀ m ∈ after, ∀ a ∈ joined, m.data.limit < a.data.base) (hn : n ∈ after) :
    n.data.limit < node'.data.base := by
  cases h with
  | @up node hbase hnext =>
    cases after with
    | nil => cases hn
    | cons head rest =>
      have hhead := hgap head (List.mem_cons_self ..) node (by simp)
      have hheadOut := hout head (List.mem_cons_self ..)
      have hheadBounds := hbounds head (List.mem_cons_self ..)
      have hne := hnext head rfl
      rcases List.mem_cons.mp hn with rfl | hrest
      · dsimp only
        omega
      · have := (List.pairwise_cons.mp hgaps).1 n hrest
        dsimp only
        omega
  | @both node next _ _ => exact hgap n hn next (by simp)
  | @down node _ _ => exact hgap n hn node (by simp)

/-- A property of ranges that joining keeps holds of the new range. -/
theorem Joins.priority {joined : List Block} {node' : Block}
    (h : Joins first limit after joined node')
    (hjoined : ∀ n ∈ joined, n.priority = n.data.base) : node'.priority = node'.data.base := by
  cases h with
  | up _ _ => rfl
  | both _ _ => rfl
  | @down node _ _ => exact hjoined node (by simp)

theorem Joins.limits {joined : List Block} {node' : Block}
    (h : Joins first limit after joined node') (hlimit : kernelFrameSize ∣ limit)
    (hjoined : ∀ n ∈ joined, kernelFrameSize ∣ n.data.limit) : kernelFrameSize ∣ node'.data.limit := by
  cases h with
  | @up node _ _ => exact hjoined node (by simp)
  | @both node next _ _ => exact hjoined node (by simp)
  | down _ _ => exact hlimit

theorem Descending.addBlock (hl : Descending list) (hfirst : kernelFrameSize ∣ first)
    (hsize : 0 < blockSize length) (hlimit : first + blockSize length < 2 ^ 32)
    (hout : ∀ x, first ≤ x → x < first + blockSize length → ¬ Covers list x) :
    ∃ list', addBlock list first length = some list' ∧ Descending list' ∧
      ∀ x, Covers list' x ↔ Covers list x ∨ (first ≤ x ∧ x < first + blockSize length) := by
  obtain ⟨list', hadd, hwell, hcovers⟩ := addBlock_spec hl.wellFormed hfirst hsize hlimit hout
  refine ⟨list', hadd, ?_, hcovers⟩
  have hblock : first < first + blockSize length := by omega
  have hend : kernelFrameSize ∣ first + blockSize length :=
    Nat.dvd_add hfirst (kernelFrameSize_dvd_blockSize length)
  rw [addBlock_eq hlimit] at hadd
  cases hm : mergeBlock first (first + blockSize length) list with
  | panics =>
    rw [hm] at hadd
    cases hadd
  | unmerged =>
    rw [hm] at hadd
    obtain ⟨before, after, hlist, hpush, hbefore, hafter⟩ :=
      kqueuePushPrio_split (⟨⟨first, first + blockSize length⟩, first⟩ : Block) list
    obtain rfl : before ++ ⟨⟨first, first + blockSize length⟩, first⟩ :: after = list' :=
      hpush.symm.trans (Option.some.inj hadd)
    subst hlist
    have hapart : ∀ n ∈ before ++ after, n.data.base < n.data.limit ∧ n.data.base ≠ first + blockSize length ∧
        n.data.limit ≠ first ∧ (first + blockSize length ≤ n.data.base ∨ n.data.limit ≤ first) :=
      fun n hn => ⟨(hl.wellFormed.bounds n hn).1, (hl.unmerged hblock hm hn).1,
        (hl.unmerged hblock hm hn).2, hl.wellFormed.outside hblock hout hn⟩
    refine ⟨hwell, ?_, ?_, ?_⟩
    · intro n hn
      rcases List.mem_cons.mp (List.perm_middle.mem_iff.mp hn) with rfl | hn'
      · exact hend
      · exact hl.limits n hn'
    · refine pairwise_replace [] hl.gaps (fun n hn _ => ?_) fun n hn _ => ?_
      · have := hapart n (List.mem_append_left _ hn)
        have := hbefore n hn
        rw [hl.priority n (List.mem_append_left _ hn)] at this
        dsimp only at this ⊢
        omega
      · have hn' := List.mem_append_right before hn
        have hbelow : n.data.base ≤ first := by
          cases after with
          | nil => cases hn
          | cons head rest =>
            have hhead := hafter head rfl
            rw [hl.priority head (by simp)] at hhead
            rcases List.mem_cons.mp hn with rfl | hrest
            · exact hhead
            · have hgap := (List.pairwise_cons.mp (List.pairwise_append.mp hl.gaps).2.1).1 n hrest
              have := hapart n hn'
              dsimp only at hhead
              omega
        have := hapart n hn'
        dsimp only
        omega
    · intro n hn
      rcases List.mem_cons.mp (List.perm_middle.mem_iff.mp hn) with rfl | hn'
      · rfl
      · exact hl.priority n hn'
  | merged list'' =>
    rw [hm] at hadd
    obtain rfl : list'' = list' := Option.some.inj hadd
    obtain ⟨before, joined, after, node', rfl, rfl, hjoins, hbefore⟩ := mergeBlock_merged hm
    have hjoined : ∀ n ∈ joined, n ∈ before ++ (joined ++ after) := fun n hn =>
      List.mem_append_right _ (List.mem_append_left _ hn)
    have hmem : ∀ n ∈ before ++ node' :: after, n = node' ∨ n ∈ before ++ (joined ++ after) := by
      intro n hn
      simp only [List.mem_append, List.mem_cons] at hn ⊢
      tauto
    have hbehind : ∀ n ∈ after, n ∈ before ++ (joined ++ after) := fun n hn =>
      List.mem_append_right _ (List.mem_append_right _ hn)
    have hgaps := (List.pairwise_append.mp (List.pairwise_append.mp hl.gaps).2.1)
    refine ⟨hwell, fun n hn => ?_, pairwise_replace _ hl.gaps (fun n hn hall => ?_)
      fun n hn _ => ?_, fun n hn => ?_⟩
    · rcases hmem n hn with rfl | hn'
      · exact hjoins.limits hend fun a ha => hl.limits a (hjoined a ha)
      · exact hl.limits n hn'
    · have hn' : n ∈ before ++ (joined ++ after) := List.mem_append_left _ hn
      exact hjoins.gap_before (hl.wellFormed.bounds n hn').1 (hl.wellFormed.outside hblock hout hn')
        (hbefore n hn).1 hall
    · exact hjoins.gap_after (fun a ha => (hl.wellFormed.bounds a (hbehind a ha)).1)
        (fun a ha => hl.wellFormed.outside hblock hout (hbehind a ha)) hgaps.2.1
        (fun m hm a ha => hgaps.2.2 a ha m hm) hn
    · rcases hmem n hn with rfl | hn'
      · exact hjoins.priority fun a ha => hl.priority a (hjoined a ha)
      · exact hl.priority n hn'

/-! ## Runs -/

inductive BlockAct
  | add (first length : ℕ)
  | get (length : ℕ) (start : MemAllocStart)
  deriving DecidableEq, Repr

namespace BlockAct

/-- A request that cannot be met leaves the list as it is. -/
def exec (list : List Block) : BlockAct → Option (List Block)
  | add first length => addBlock list first length
  | get length start =>
    match getBlock list length start with
    | none => some list
    | some r => some r.2

def Step (list : List Block) (act : BlockAct) (list' : List Block) : Prop :=
  exec list act = some list'

/-- A block is at least one frame long and does not wrap; one that is given back is aligned and not
free. -/
def Fits (list : List Block) : BlockAct → Prop
  | add first length => kernelFrameSize ∣ first ∧ 0 < length ∧
      first + length * kernelFrameSize < 2 ^ 32 ∧
      ∀ x, first ≤ x → x < first + length * kernelFrameSize → ¬ Covers list x
  | get length _ => 0 < length ∧ length * kernelFrameSize < 2 ^ 32

end BlockAct

theorem blockSize_of_lt (h : length * kernelFrameSize < 2 ^ 32) :
    blockSize length = length * kernelFrameSize := Nat.mod_eq_of_lt h

theorem blockSize_pos (hpos : 0 < length) (h : length * kernelFrameSize < 2 ^ 32) :
    0 < blockSize length := by
  rw [blockSize_of_lt h]
  exact Nat.mul_pos hpos (by decide)

open BlockAct in
theorem descending_of_run (h : Guarded (fun list => list = []) Step Fits list) :
    Descending list := by
  refine h.invariant Descending ?_ fun list act list' hl hfits hstep => ?_
  · rintro _ rfl
    exact ⟨⟨by simp, by simp, List.Pairwise.nil⟩, by simp, List.Pairwise.nil, by simp⟩
  cases act with
  | add first length =>
    obtain ⟨hfirst, hpos, hlimit, hout⟩ := hfits
    have hsize := @blockSize_of_lt length (by omega)
    obtain ⟨list'', hadd, hdesc, -⟩ := hl.addBlock hfirst (blockSize_pos hpos (by omega))
      (hsize ▸ hlimit) (hsize ▸ hout)
    obtain rfl : list'' = list' := Option.some.inj (hadd.symm.trans hstep)
    exact hdesc
  | get length start =>
    unfold Step exec at hstep
    dsimp only at hstep
    cases hget : getBlock list length start with
    | none =>
      rw [hget] at hstep
      cases hstep
      exact hl
    | some r =>
      rw [hget] at hstep
      cases hstep
      exact hl.getBlock (blockSize_pos hfits.1 hfits.2) hget

open BlockAct in
/-- The ranges are in order; a block that is added is free from then on; one that is got was free, is not
any more, and can be given back. -/
structure FreeRangesCorrect (list : List Block) : Prop where
  ranges : FreeRanges list
  added : ∀ first length, Fits list (.add first length) →
    ∃ list', addBlock list first length = some list' ∧ ∀ x, Covers list' x ↔
      Covers list x ∨ (first ≤ x ∧ x < first + length * kernelFrameSize)
  got : ∀ length start addr list', Fits list (.get length start) →
    getBlock list length start = some (addr, list') →
      (∀ x, addr ≤ x → x < addr + length * kernelFrameSize → Covers list x) ∧
      ∀ x, Covers list' x ↔ Covers list x ∧ ¬(addr ≤ x ∧ x < addr + length * kernelFrameSize)
  restored : ∀ length start addr list', Fits list (.get length start) →
    getBlock list length start = some (addr, list') →
      ∃ list'', addBlock list' addr length = some list'' ∧ ∀ x, Covers list'' x ↔ Covers list x

theorem Descending.correct (hl : Descending list) : FreeRangesCorrect list := by
  refine ⟨hl.freeRanges, fun first length hfits => ?_, fun length start addr list' hfits hget => ?_,
    fun length start addr list' hfits hget => ?_⟩
  · obtain ⟨hfirst, hpos, hlimit, hout⟩ := hfits
    have hsize := @blockSize_of_lt length (by omega)
    obtain ⟨list', hadd, -, hcovers⟩ := hl.addBlock hfirst (blockSize_pos hpos (by omega))
      (hsize ▸ hlimit) (hsize ▸ hout)
    exact ⟨list', hadd, hsize ▸ hcovers⟩
  · obtain ⟨-, hfree, hcovers⟩ :=
      getBlock_covers hl.wellFormed (blockSize_pos hfits.1 hfits.2) hget
    rw [blockSize_of_lt hfits.2] at hfree hcovers
    exact ⟨hfree, hcovers⟩
  · have hpos := blockSize_pos hfits.1 hfits.2
    obtain ⟨hend, hfree, hcovers⟩ := getBlock_covers hl.wellFormed hpos hget
    obtain ⟨list'', hadd, -, hback⟩ := (hl.getBlock hpos hget).addBlock (hl.getBlock_aligned hget) hpos
      hend fun x hx hx' hc => ((hcovers x).mp hc).2 ⟨hx, hx'⟩
    refine ⟨list'', hadd, fun x => ?_⟩
    rw [hback, hcovers]
    constructor
    · rintro (⟨hc, -⟩ | ⟨hx, hx'⟩)
      · exact hc
      · exact hfree x hx hx'
    · intro hc
      by_cases hin : addr ≤ x ∧ x < addr + blockSize length
      · exact .inr hin
      · exact .inl ⟨hc, hin⟩

open BlockAct in
/-- Every list that is built from an empty one by fitting calls is correct. -/
theorem free_ranges_correct (h : Guarded (fun list => list = []) Step Fits list) :
    FreeRangesCorrect list :=
  (descending_of_run h).correct

/-- Four pages are added and the last one is got. -/
theorem free_ranges_correct_small :
    FreeRangesCorrect [⟨⟨0x100000, 0x103000⟩, 0x100000⟩] := by
  refine free_ranges_correct (.next (s := [⟨⟨0x100000, 0x104000⟩, 0x100000⟩]) (a := .get 1 .last)
    (.next (a := .add 0x100000 4) (.start rfl) ⟨by decide, by decide, by decide, ?_⟩ ?_)
    ⟨by decide, by decide⟩ ?_)
  · exact fun x _ _ => not_covers_nil
  · show BlockAct.exec [] _ = _
    decide +kernel
  · show BlockAct.exec _ _ = _
    decide +kernel

end UtkKernel.Memory
