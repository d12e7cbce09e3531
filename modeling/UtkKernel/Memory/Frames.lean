import UtkKernel.Memory.FreeRanges
import UtkKernel.Memory.Model

/-! # Single frames

What the allocation of one frame and giving one back do to the set of free frames. -/

namespace UtkKernel.Memory
open Structures Foundations
set_option autoImplicit false

variable {list list' : List Block} {f g addr : ℕ}

/-! ## Lists of whole frames -/

/-- The ranges do not overlap and consist of whole frames. -/
structure WholeFrames (list : List Block) : Prop where
  wellFormed : WellFormed list
  limits : ∀ node ∈ list, kernelFrameSize ∣ node.data.limit

theorem blockSize_one : blockSize 1 = kernelFrameSize := rfl

/-- An address is covered with the frame it is in. -/
theorem WellFormed.covers_frame (hl : WellFormed list) {x : ℕ} (h : Covers list x) :
    IsFree list (x / kernelFrameSize) := by
  obtain ⟨node, hnode, hbase, hlimit⟩ := h
  obtain ⟨k, hk⟩ := hl.aligned node hnode
  rw [kernelFrameSize_eq] at hk
  refine isFree_of_addr rfl hnode ?_ ?_
  · rw [kernelFrameSize_eq]
    omega
  · rw [kernelFrameSize_eq]
    omega

theorem WholeFrames.getBlock {length : ℕ} {start : MemAllocStart} (hl : WholeFrames list)
    (hsize : 0 < blockSize length) (h : Memory.getBlock list length start = some (addr, list')) :
    WholeFrames list' :=
  ⟨getBlock_wellFormed hl.wellFormed hsize h, getBlock_forall h hl.limits fun _ _ => cutAt_limit⟩

theorem WholeFrames.addBlock (hl : WholeFrames list) {first length : ℕ} (hfirst : kernelFrameSize ∣ first)
    (hsize : 0 < blockSize length) (hlimit : first + blockSize length < 2 ^ 32)
    (hout : ∀ x, first ≤ x → x < first + blockSize length → ¬ Covers list x) :
    ∃ list', Memory.addBlock list first length = some list' ∧ WholeFrames list' ∧
      ∀ x, Covers list' x ↔ Covers list x ∨ (first ≤ x ∧ x < first + blockSize length) := by
  obtain ⟨list', hadd, hwell, hcovers⟩ := addBlock_spec hl.wellFormed hfirst hsize hlimit hout
  refine ⟨list', hadd, ⟨hwell, fun n hn => ?_⟩, hcovers⟩
  have hend : kernelFrameSize ∣ first + blockSize length :=
    Nat.dvd_add hfirst (kernelFrameSize_dvd_blockSize length)
  rw [addBlock_eq hlimit] at hadd
  cases hm : mergeBlock first (first + blockSize length) list with
  | panics =>
    rw [hm] at hadd
    cases hadd
  | unmerged =>
    rw [hm] at hadd
    cases hadd
    obtain rfl | hn := List.mem_cons.mp ((kqueuePushPrio_perm _ list).mem_iff.mp hn)
    · exact hend
    · exact hl.limits n hn
  | merged merged =>
    rw [hm] at hadd
    cases hadd
    obtain ⟨before, joined, after, node', rfl, rfl, hjoins, -⟩ := mergeBlock_merged hm
    have hlimits := hl.limits
    simp only [List.mem_append, List.mem_cons] at hn hlimits
    obtain hn | rfl | hn := hn
    · exact hlimits n (.inl hn)
    · exact hjoins.limits hend fun a ha => hlimits a (.inr (.inl ha))
    · exact hlimits n (.inr (.inr hn))

/-- The frames that one allocation of a frame after the other takes, and what is left. -/
def takeFrames : ℕ → List Block → Option (List ℕ × List Block)
  | 0, list => some ([], list)
  | n + 1, list =>
    (Memory.getBlock list 1 .begining).bind fun r =>
      (takeFrames n r.2).map fun t => (r.1 / kernelFrameSize :: t.1, t.2)

theorem takeFrames_add (m n : ℕ) (list : List Block) : takeFrames (m + n) list =
    (takeFrames m list).bind fun t => (takeFrames n t.2).map fun u => (t.1 ++ u.1, u.2) := by
  induction m generalizing list with
  | zero =>
    rw [Nat.zero_add]
    show takeFrames n list = (takeFrames n list).map fun u => u
    rw [Option.map_id']
  | succ m ih =>
    rw [Nat.succ_add]
    show (Memory.getBlock list 1 .begining).bind _ = ((Memory.getBlock list 1 .begining).bind _).bind _
    rw [Option.bind_assoc]
    refine congrArg _ (funext fun r => ?_)
    rw [ih, Option.map_bind, Option.bind_map]
    refine congrArg _ (funext fun t => ?_)
    rw [Function.comp_apply, Function.comp_apply, Option.map_map]
    rfl

/-- A frame that is free ends below the last address. -/
theorem WholeFrames.bound (hl : WholeFrames list) (h : IsFree list f) :
    f * kernelFrameSize + kernelFrameSize < 2 ^ 32 := by
  obtain ⟨node, hnode, -, hlimit⟩ := h
  obtain ⟨-, hbound⟩ := hl.wellFormed.bounds node hnode
  obtain ⟨k, hk⟩ := hl.limits node hnode
  rw [hk, Nat.mul_comm] at hlimit
  have hlt : f < k := Nat.lt_of_mul_lt_mul_left hlimit
  calc f * kernelFrameSize + kernelFrameSize = kernelFrameSize * (f + 1) := by ring
    _ ≤ kernelFrameSize * k := Nat.mul_le_mul_left _ hlt
    _ < 2 ^ 32 := hk ▸ hbound

/-- A frame is taken from a list. -/
theorem WholeFrames.getBlock_one (hl : WholeFrames list)
    (h : Memory.getBlock list 1 .begining = some (addr, list')) :
    IsFree list (addr / kernelFrameSize) ∧ WholeFrames list' ∧
      ∀ g, IsFree list' g ↔ IsFree list g ∧ g ≠ addr / kernelFrameSize := by
  have hpos : 0 < blockSize 1 := by decide
  obtain ⟨-, hfree, hrest⟩ := getBlock_covers hl.wellFormed hpos h
  rw [blockSize_one] at hfree hrest
  have haddr : kernelFrameSize ∣ addr := by
    obtain ⟨before, node, after, hlist, -, rfl, -⟩ := getBlock_eq_some h
    have hnode : node ∈ list := by
      rw [hlist]
      exact List.mem_append_right _ (List.mem_cons_self ..)
    exact cutAt_addr (hl.wellFormed.aligned node hnode) (hl.limits node hnode)
  obtain ⟨k, rfl⟩ := haddr
  rw [Nat.mul_div_cancel_left k (by decide)]
  refine ⟨hfree _ ?_ ?_, hl.getBlock hpos h, fun g => ?_⟩
  · rw [Nat.mul_comm]
  · rw [Nat.mul_comm, kernelFrameSize_eq]
    omega
  · unfold IsFree
    rw [hrest, kernelFrameSize_eq]
    refine and_congr_right fun _ => ?_
    omega

theorem exists_takeFirst {size : ℕ} (cut : Block → ℕ × Block) {node : Block} (hnode : node ∈ list)
    (hfits : size ≤ node.data.size) : ∃ r, takeFirst size cut list = some r := by
  induction list with
  | nil => cases hnode
  | cons head list ih =>
    unfold takeFirst
    by_cases hhead : size ≤ head.data.size
    · rw [if_pos hhead]
      exact ⟨_, rfl⟩
    · rw [if_neg hhead]
      obtain rfl | hmem := List.mem_cons.mp hnode
      · exact absurd hfits hhead
      · obtain ⟨r, hr⟩ := ih hmem
        rw [hr]
        exact ⟨_, rfl⟩

/-- A list with a free frame has one to give. -/
theorem WholeFrames.exists_takeFrames (hl : WholeFrames list) (hf : IsFree list f) :
    ∃ r, takeFrames 1 list = some r := by
  obtain ⟨node, hnode, hbase, hlimit⟩ := hf
  obtain ⟨hle, hlt⟩ := hl.wellFormed.bounds node hnode
  obtain ⟨a, ha⟩ := hl.wellFormed.aligned node hnode
  obtain ⟨b, hb⟩ := hl.limits node hnode
  have hfits : blockSize 1 ≤ node.data.size := by
    rw [MemRange.size_eq hle hlt, blockSize_one]
    rw [kernelFrameSize_eq] at *
    omega
  obtain ⟨r, hr⟩ := exists_takeFirst (cutBegining (blockSize 1)) hnode hfits
  refine ⟨([r.1 / kernelFrameSize], r.2), ?_⟩
  unfold takeFrames
  rw [show Memory.getBlock list 1 .begining = some r from hr]
  rfl

theorem Descending.whole (hl : Descending list) : WholeFrames list := ⟨hl.wellFormed, hl.limits⟩

theorem frame_of_block {x : ℕ} (hle : f * kernelFrameSize ≤ x) (hlt : x < f * kernelFrameSize + blockSize 1) :
    x / kernelFrameSize = f := by
  rw [blockSize_one] at hlt
  rw [kernelFrameSize_eq] at *
  omega

/-- A frame that is free already cannot be given back. -/
theorem Descending.addBlock_isFree (hl : Descending list) (hf : IsFree list f) :
    Memory.addBlock list (f * kernelFrameSize) 1 = none := by
  have hbound := hl.whole.bound hf
  obtain ⟨node, hnode, hbase, hlimit⟩ := hf
  obtain ⟨k, hk⟩ := hl.limits node hnode
  have hend : f * kernelFrameSize + kernelFrameSize ≤ node.data.limit := by
    rw [kernelFrameSize_eq] at *
    omega
  have hne : node.data.base ≠ f * kernelFrameSize + kernelFrameSize := by
    rw [kernelFrameSize_eq] at *
    omega
  have hsize : f * kernelFrameSize + blockSize 1 < 2 ^ 32 := hbound
  have hpanics : mergeBlock (f * kernelFrameSize) (f * kernelFrameSize + kernelFrameSize) list = .panics :=
    hl.mergeBlock_inside hnode hbase hne hlimit hend
  rw [addBlock_eq hsize, blockSize_one, hpanics]

/-- What giving back a frame leaves, if it can be given back. -/
theorem Descending.addBlock_one (hl : Descending list) (hbound : f * kernelFrameSize + kernelFrameSize < 2 ^ 32)
    (h : Memory.addBlock list (f * kernelFrameSize) 1 = some list') :
    ¬ IsFree list f ∧ Descending list' ∧ ∀ g, IsFree list' g ↔ IsFree list g ∨ g = f := by
  have hf : ¬ IsFree list f := by
    intro hf
    rw [hl.addBlock_isFree hf] at h
    cases h
  have hout : ∀ x, f * kernelFrameSize ≤ x → x < f * kernelFrameSize + blockSize 1 → ¬ Covers list x :=
    fun x hle hlt hcovers => hf (frame_of_block hle hlt ▸ hl.wellFormed.covers_frame hcovers)
  have hpos : 0 < blockSize 1 := by decide
  obtain ⟨list'', hadd, hdesc, hcovers⟩ := hl.addBlock (Nat.dvd_mul_left kernelFrameSize f) hpos
    (by rwa [blockSize_one]) hout
  obtain rfl : list'' = list' := Option.some.inj (hadd.symm.trans h)
  refine ⟨hf, hdesc, fun g => ?_⟩
  unfold IsFree
  rw [hcovers, blockSize_one, kernelFrameSize_eq]
  refine or_congr_right ?_
  omega

/-- A frame that is not free can be given back. -/
theorem Descending.exists_addBlock (hl : Descending list) (hbound : f * kernelFrameSize + kernelFrameSize < 2 ^ 32)
    (hf : ¬ IsFree list f) : ∃ list', Memory.addBlock list (f * kernelFrameSize) 1 = some list' := by
  have hpos : 0 < blockSize 1 := by decide
  obtain ⟨list', hadd, -⟩ := hl.addBlock (Nat.dvd_mul_left kernelFrameSize f) hpos (by rwa [blockSize_one])
    fun x hle hlt hcovers => hf (frame_of_block hle hlt ▸ hl.wellFormed.covers_frame hcovers)
  exact ⟨list', hadd⟩

namespace MemState

variable {s s' : MemState}

/-- The processes, the pages of the kernel and the current page directory are the same. -/
structure SameRest (s s' : MemState) : Prop where
  processes : s'.processes = s.processes
  kernelPages : s'.freeKernelPages = s.freeKernelPages
  current : s'.current = s.current
  cr3 : s'.cr3 = s.cr3

theorem SameRest.refl (s : MemState) : SameRest s s := ⟨rfl, rfl, rfl, rfl⟩

theorem SameRest.trans {s1 : MemState} (h : SameRest s s1) (h' : SameRest s1 s') : SameRest s s' :=
  ⟨h'.processes.trans h.processes, h'.kernelPages.trans h.kernelPages, h'.current.trans h.current,
    h'.cr3.trans h.cr3⟩

/-! ## One frame -/

/-- The frame was free, and the others still are. -/
structure Allocated (f : ℕ) (s s' : MemState) : Prop where
  rest : SameRest s s'
  mem : s'.mem = s.mem
  frameRef : s'.frameRef = s.frameRef
  whole : WholeFrames s'.freeMemoryMap
  wasFree : IsFree s.freeMemoryMap f
  free : ∀ g, IsFree s'.freeMemoryMap g ↔ IsFree s.freeMemoryMap g ∧ g ≠ f

/-- The frame is free and has no reference, and the others are as they were. -/
structure Released (f : ℕ) (s s' : MemState) : Prop where
  rest : SameRest s s'
  mem : s'.mem = s.mem
  frameRef : ∀ g, s'.frameRef g = if g = f then (s.frameRef f).map fun r => { r with count := 0 }
    else s.frameRef g
  whole : WholeFrames s'.freeMemoryMap
  free : ∀ g, IsFree s'.freeMemoryMap g ↔ IsFree s.freeMemoryMap g ∨ g = f

theorem allocated_of_memoryAllocFrames (hl : WholeFrames s.freeMemoryMap)
    (h : s.memoryAllocFrames 1 = some (f, s')) : Allocated f s s' := by
  unfold memoryAllocFrames at h
  obtain ⟨⟨addr, list⟩, hget, heq⟩ := Option.map_eq_some_iff.mp h
  cases heq
  obtain ⟨hfree, hwhole, hrest⟩ := hl.getBlock_one hget
  exact ⟨⟨rfl, rfl, rfl, rfl⟩, rfl, rfl, hwhole, hfree, hrest⟩

theorem memoryFreeFrames_one_eq_some (h : s.memoryFreeFrames f 1 = some s') :
    ∃ list r, s.frameRef f = some r ∧ s' = { s with freeMemoryMap := list }.setRef f { r with count := 0 } := by
  unfold memoryFreeFrames memoryFreeFramesAt at h
  obtain ⟨list, -, hbody⟩ := Option.bind_eq_some_iff.mp h
  rw [if_neg one_ne_zero, Nat.mul_div_cancel _ (by decide)] at hbody
  obtain ⟨r, hr, rfl⟩ := Option.map_eq_some_iff.mp hbody
  exact ⟨list, r, hr, rfl⟩

theorem takeFrames_of_memoryAllocFrames (h : s.memoryAllocFrames 1 = some (f, s')) :
    takeFrames 1 s.freeMemoryMap = some ([f], s'.freeMemoryMap) := by
  obtain ⟨r, hr, heq⟩ := Option.map_eq_some_iff.mp h
  cases heq
  unfold takeFrames
  rw [hr]
  rfl

/-- A run of frames goes back to the list; the count that is set is that of the first one. -/
theorem memoryFreeFrames_run (hl : WholeFrames s.freeMemoryMap) {first n : ℕ} (hpos : 0 < n)
    (hbound : first * kernelFrameSize + n * kernelFrameSize < 2 ^ 32)
    (htaken : ∀ g, first ≤ g → g < first + n → ¬ IsFree s.freeMemoryMap g) {r : FrameRef} (hr : s.frameRef first = some r) :
    ∃ list, s.memoryFreeFrames first n = some ({ s with freeMemoryMap := list }.setRef first { r with count := 0 }) ∧
      WholeFrames list ∧ ∀ g, IsFree list g ↔ IsFree s.freeMemoryMap g ∨ (first ≤ g ∧ g < first + n) := by
  have hsize : blockSize n = n * kernelFrameSize := blockSize_of_lt (lt_of_le_of_lt (Nat.le_add_left _ _) hbound)
  have hout : ∀ x, first * kernelFrameSize ≤ x → x < first * kernelFrameSize + blockSize n →
      ¬ Covers s.freeMemoryMap x := by
    intro x hle hlt hcovers
    rw [hsize] at hlt
    rw [kernelFrameSize_eq] at hle hlt
    refine htaken (x / kernelFrameSize) ?_ ?_ (hl.wellFormed.covers_frame hcovers) <;> rw [kernelFrameSize_eq] <;> omega
  obtain ⟨list, hadd, hwhole, hcovers⟩ := hl.addBlock (Nat.dvd_mul_left kernelFrameSize first)
    (by rw [hsize, kernelFrameSize_eq]; omega) (by rwa [hsize]) hout
  refine ⟨list, ?_, hwhole, fun g => ?_⟩
  · unfold memoryFreeFrames memoryFreeFramesAt
    rw [hadd, Option.bind_some, if_neg (by omega), Nat.mul_div_cancel _ (by decide)]
    unfold memorySetRefCount
    dsimp only
    rw [hr, Option.map_some]
  · unfold IsFree
    rw [hcovers, hsize, kernelFrameSize_eq]
    refine or_congr_right ?_
    omega

theorem exists_memoryFreeFrames (hl : WholeFrames s.freeMemoryMap) (hf : ¬ IsFree s.freeMemoryMap f)
    (hbound : f * kernelFrameSize + kernelFrameSize < 2 ^ 32) {r : FrameRef} (hr : s.frameRef f = some r) :
    ∃ s', s.memoryFreeFrames f 1 = some s' ∧ Released f s s' := by
  have hone : ∀ g, f ≤ g ∧ g < f + 1 ↔ g = f := fun g => by omega
  obtain ⟨list, hfreed, hwhole, hfree⟩ := memoryFreeFrames_run hl one_pos (by rwa [Nat.one_mul])
    (fun g hle hlt => by rwa [(hone g).mp ⟨hle, hlt⟩]) hr
  refine ⟨_, hfreed, ⟨⟨rfl, rfl, rfl, rfl⟩, rfl, fun g => ?_, hwhole, fun g => ?_⟩⟩
  · show Function.update s.frameRef f _ g = _
    by_cases hg : g = f
    · rw [if_pos hg, hg, Function.update_self, hr]
      rfl
    · rw [if_neg hg, Function.update_of_ne hg]
  · rw [← hone]
    exact hfree g

end MemState

end UtkKernel.Memory
