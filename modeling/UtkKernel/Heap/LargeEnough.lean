import UtkKernel.Heap.System

/-! # Blocks that are large enough

A size that wraps when it is rounded up to the alignment gets a chunk of the smallest size. -/

namespace UtkKernel.Heap
open Foundations Code Cell
set_option autoImplicit false

/-- The heap that a call finds: a process tries to initialise it first. -/
def Allocator.heapOf (calls : HeapCalls) (m : Store) : Allocator → Store
  | kernel => m
  | process processHeapSize => if m .init = 0 then ((userHeapInit processHeapSize calls).run m).2 else m

/-- There is no block and the heap is as it was, or the block has room for what was asked for. -/
def LargeEnough (m : Store) (size ptr : ℕ) (m' : Store) : Prop :=
  ptr = 0 ∧ m' = m ∨ ptr ≠ 0 ∧ size ≤ usable m' (ptr - headerSize)

/-- The free lists are empty. -/
def NoFree (m : Store) : Prop := ∀ n, 0 ≤ n → n < numSizes → m (.freeChunk n) = 0

variable {r : HeapRegion} {s : HeapState} {alloc : Allocator} {calls : HeapCalls} {m m' : Store}
variable {first last a c size ptr : ℕ} {chunks : List ℕ}

/-! ## Sizes that wrap -/

theorem roundedSize_of_wrap (hsize : size < 2 ^ 32) (hwrap : ¬size + align - 1 < 2 ^ 32) : roundedSize size = minSize := by
  unfold roundedSize uint align minSize at *
  rw [if_pos]
  omega

/-- A chunk has room for a free node, so its slot is one of those that are searched. -/
theorem Inside.slot_ge (h : Inside m a) : memoryChunkSlot (minSize - 1) + 1 ≤ memoryChunkSlot (usable m a) := by
  have hle := h.le_usable
  have hlog : Nat.log 2 minSize ≤ Nat.log 2 (usable m a) := Nat.log_mono_right hle
  have h7 : Nat.log 2 (minSize - 1) = 2 := by decide
  have h8 : Nat.log 2 minSize = 3 := by decide
  rw [memoryChunkSlot_eq (by decide), memoryChunkSlot_eq (lt_of_lt_of_le (by decide) hle)]
  omega

theorem HeapInv.full_iff (h : HeapInv m first chunks last) (hsize : size < 2 ^ 32)
    (hwrap : ¬size + align - 1 < 2 ^ 32) : Full m size ↔ NoFree m := by
  obtain ⟨free, hlisted⟩ := h.arrangement.listed
  unfold Full
  rw [roundedSize_of_wrap hsize hwrap]
  constructor
  · intro hfull n h0 hn
    by_contra hhead
    rw [(hlisted.slots n h0 hn).head] at hhead
    cases hfree : free n with
    | nil =>
      rw [hfree] at hhead
      exact hhead rfl
    | cons c l =>
      obtain ⟨hc, hslot⟩ := (hlisted.mem n c).mp (hfree ▸ List.mem_cons_self)
      have hge := (h.arrangement.inside c hc).2.slot_ge
      rw [hslot] at hge
      have hzero := hfull n hge hn
      rw [(hlisted.slots n h0 hn).head, hfree] at hzero
      exact h.arrangement.tiled.ne_zero (h.arrangement.mem hc) hzero
  · intro hnone k hk hlt
    have h7 : (0 : ℤ) ≤ memoryChunkSlot (minSize - 1) + 1 := by decide
    exact hnone k (h7.trans hk) hlt

/-- A free chunk is in a list. -/
theorem HeapInv.not_noFree (h : HeapInv m first chunks last) (hc : IsFree m chunks c) : ¬NoFree m := by
  obtain ⟨free, hlisted⟩ := h.arrangement.listed
  obtain ⟨h0, hn⟩ := (h.inside hc.1).slot
  have hmem := (hlisted.mem _ c).mpr ⟨hc, rfl⟩
  intro hnone
  have hhead := hnone _ h0 hn
  rw [(hlisted.slots _ h0 hn).head] at hhead
  cases hfree : free (memoryChunkSlot (usable m c)) with
  | nil =>
    rw [hfree] at hmem
    exact nomatch hmem
  | cons d l =>
    rw [hfree] at hhead
    obtain ⟨hd, -⟩ := (hlisted.mem _ d).mp (hfree ▸ List.mem_cons_self)
    exact h.arrangement.tiled.ne_zero (h.arrangement.mem hd) hhead

/-- No chunk has room for a size that wraps. -/
theorem HeapInv.usable_lt_of_wrap (h : HeapInv m first chunks last) (hc : c ∈ chunks)
    (hwrap : ¬size + align - 1 < 2 ^ 32) : usable m c < size := by
  have hbound := (h.inside hc).2
  have hpos := (h.arrangement.tiled.bounded c (mem_all hc)).1
  unfold usable headerSize align at *
  omega

/-! ## Calls -/

theorem Outcome.largeEnough_iff (hinv : HeapInv m r.first chunks r.last) (hout : Outcome r m chunks size ptr m')
    (hsize : size < 2 ^ 32) : LargeEnough m size ptr m' ↔ size + align - 1 < 2 ^ 32 ∨ NoFree m := by
  obtain ⟨rfl, rfl, hwhy⟩ | ⟨c, chunks', rfl, hfree, hallocated, -⟩ := hout
  · refine iff_of_true (.inl ⟨rfl, rfl⟩) (or_iff_not_imp_left.mpr fun hwrap => ?_)
    obtain rfl | hfull := hwhy
    · exact absurd (show 0 + align - 1 < 2 ^ 32 by decide) hwrap
    · exact (hinv.full_iff hsize hwrap).mp hfull
  · have hne : c + headerSize ≠ 0 := Nat.succ_ne_zero _
    have hc := ((hallocated.taken c).mpr (.inr rfl)).1
    unfold LargeEnough
    rw [Nat.add_sub_cancel, or_iff_left (hinv.not_noFree hfree)]
    constructor
    · rintro (⟨hzero, -⟩ | ⟨-, hle⟩)
      · exact absurd hzero hne
      · by_contra hwrap
        exact (hallocated.inv.usable_lt_of_wrap hc hwrap).not_ge hle
    · intro hfits
      exact .inr ⟨hne, (request_le_roundedSize hfits).trans hallocated.room⟩

theorem Allocator.heapOf_of_init (hinit : m .init ≠ 0) : alloc.heapOf calls m = m := by
  cases alloc with
  | kernel => rfl
  | process processHeapSize =>
    unfold heapOf
    dsimp only
    rw [if_neg hinit]

/-- The first call of a process. -/
theorem Idle.largeEnough_iff {processHeapSize : ℕ} (h : Idle s) (hsize : size < 2 ^ 32)
    (hserves : (Allocator.process processHeapSize).Serves r calls)
    (hcall : (malloc processHeapSize calls size).run s.store = (some ptr, m')) :
    LargeEnough ((Allocator.process processHeapSize).heapOf calls s.store) size ptr m' ↔
      size + align - 1 < 2 ^ 32 ∨ NoFree ((Allocator.process processHeapSize).heapOf calls s.store) := by
  unfold Allocator.heapOf
  dsimp only
  rw [if_pos h.init]
  obtain ⟨hsame, rfl, rfl⟩ | ⟨hstarted, hlocked⟩ := malloc_idle h.init h.slots hserves hcall
  · rw [hsame]
    exact iff_of_true (.inl ⟨rfl, rfl⟩) (.inr h.slots)
  · obtain ⟨hinUse, -⟩ := InUse.started (s := ⟨_, s.live⟩) h.slots rfl h.live
    rw [hstarted]
    exact (lockedMalloc_run hinUse.inv hinUse.fixed hlocked).largeEnough_iff hinUse.inv hsize

/-- A block is large enough exactly if the size does not wrap or there is no chunk to give. -/
theorem alloc_largeEnough_iff (alloc : Allocator) (r : HeapRegion) (s : HeapState) (calls : HeapCalls) (size ptr : ℕ)
    (m' : Store) (hrun : Reachable (fun s => alloc.Started r s) (alloc.Step r) s) (hsize : size < 2 ^ 32)
    (hserves : alloc.Serves r calls) (hcall : (alloc.alloc calls size).run s.store = (some ptr, m')) :
    LargeEnough (alloc.heapOf calls s.store) size ptr m' ↔
      size + align - 1 < 2 ^ 32 ∨ NoFree (alloc.heapOf calls s.store) := by
  obtain ⟨hidle, hne⟩ | ⟨chunks, hinUse⟩ := inUse_of_run hrun
  · cases alloc with
    | kernel => exact absurd rfl hne
    | process processHeapSize => exact hidle.largeEnough_iff hsize hserves hcall
  · rw [Allocator.heapOf_of_init hinUse.fixed.init]
    exact (Allocator.alloc_run hinUse.inv hinUse.fixed hcall).largeEnough_iff hinUse.inv hsize

/-- The first `kmalloc`. -/
theorem alloc_largeEnough_first : LargeEnough (booted smallRegion).store 100
    ((kmalloc 100).run (booted smallRegion).store).1 ((kmalloc 100).run (booted smallRegion).store).2 :=
  (alloc_largeEnough_iff .kernel smallRegion _ noCalls 100 _ _ (.start (booted_started _)) (by decide) trivial
    (kernel_alloc_run ..)).mpr (.inl (by decide))

/-- The largest size gets eight bytes. -/
theorem kmalloc_wraps : ¬∀ (s : HeapState) (size : ℕ),
    Reachable (fun s => Allocator.kernel.Started smallRegion s) (Allocator.kernel.Step smallRegion) s →
    size < 2 ^ 32 → LargeEnough s.store size ((kmalloc size).run s.store).1 ((kmalloc size).run s.store).2 := by
  intro hall
  have hptr : ((kmalloc (2 ^ 32 - 1)).run (booted smallRegion).store).1 = 4128 := by decide +kernel
  have husable : usable ((kmalloc (2 ^ 32 - 1)).run (booted smallRegion).store).2 (4128 - headerSize) = 8 := by
    decide +kernel
  have hbad := hall (booted smallRegion) (2 ^ 32 - 1) (.start (booted_started _)) (by decide)
  rw [hptr] at hbad
  obtain ⟨hzero, -⟩ | ⟨-, hle⟩ := hbad
  · exact nomatch hzero
  · rw [husable] at hle
    exact absurd hle (by decide)

end UtkKernel.Heap
