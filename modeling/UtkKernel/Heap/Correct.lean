import UtkKernel.Heap.System

/-! # The kernel heap is a heap

What any run of `kmalloc` and `kfree` leaves is a row of chunks and their free lists, with the live blocks in it. -/

namespace UtkKernel.Heap
open Foundations Code Cell
set_option autoImplicit false

/-- The chunks between the first and the last one, and the free lists. -/
structure CorrectHeap (r : HeapRegion) (s : HeapState) (chunks : List ℕ) (free : ℤ → List ℕ) : Prop where
  firstChunk : s.store .firstChunk = r.first
  lastChunk : s.store .lastChunk = r.last
  tiles : (r.first :: (chunks ++ [r.last])).IsChain fun a b =>
    s.store (next a) = b ∧ s.store (prev b) = a ∧ a + chunkSize ≤ b
  ends : s.store (used r.first) ≠ 0 ∧ s.store (used r.last) ≠ 0
  coalesced : chunks.IsChain fun a b => s.store (used a) ≠ 0 ∨ s.store (used b) ≠ 0
  slots : ∀ n, 0 ≤ n → n < numSizes → InSlot s.store n (free n)
  nodup : ∀ n, (free n).Nodup
  listed : ∀ n c, c ∈ free n ↔ (c ∈ chunks ∧ s.store (used c) = 0) ∧ memoryChunkSlot (usable s.store c) = n
  slot : ∀ c ∈ chunks, 0 ≤ memoryChunkSlot (usable s.store c) ∧ memoryChunkSlot (usable s.store c) < numSizes
  blocks : ∀ b ∈ s.live, align ∣ b.1 ∧ b.2 ≤ usable s.store (b.1 - headerSize) ∧
    ∃ c ∈ chunks, s.store (used c) ≠ 0 ∧ b.1 = c + headerSize
  apart : s.live.Pairwise fun b b' => b.1 + usable s.store (b.1 - headerSize) ≤ b'.1 ∨
    b'.1 + usable s.store (b'.1 - headerSize) ≤ b.1
  whole : s.live = [] → chunks = [r.second] ∧ s.store (used r.second) = 0 ∧ s.store (next r.second) = r.last

/-- The rounding up of a size that is asked for does not wrap. -/
def Fits (_ : HeapState) : HeapAct → Prop
  | .alloc _ size => size + align - 1 < 2 ^ 32
  | _ => True

variable {r : HeapRegion} {s s' : HeapState} {m : Store} {first last a b : ℕ} {chunks : List ℕ} {act : HeapAct}
  {alloc : Allocator}

theorem HeapInv.tiles (h : HeapInv m first chunks last) :
    (first :: (chunks ++ [last])).IsChain fun a b => m (next a) = b ∧ m (prev b) = a ∧ a + chunkSize ≤ b := by
  rw [List.isChain_iff_forall_rel_of_append_cons_cons]
  intro a b l1 l2 hlist
  have htiled := h.arrangement.tiled
  rw [hlist] at htiled
  have hinside := htiled.inside
  rw [Inside, htiled.next_eq] at hinside
  exact ⟨htiled.next_eq, htiled.prev_eq, hinside.1⟩

/-- Two chunks have no data in common. -/
theorem HeapInv.data_apart (h : HeapInv m first chunks last) (ha : a ∈ chunks) (hb : b ∈ chunks) (hne : a ≠ b) :
    a + headerSize + usable m a ≤ b + headerSize ∨ b + headerSize + usable m b ≤ a + headerSize := by
  have hina := h.inside ha
  have hinb := h.inside hb
  unfold Inside at hina hinb
  unfold usable
  rcases lt_or_gt_of_ne hne with hlt | hgt
  · have hle := h.arrangement.tiled.next_le (mem_all ha) (mem_all hb) hlt
    unfold chunkSize headerSize at *
    omega
  · have hle := h.arrangement.tiled.next_le (mem_all hb) (mem_all ha) hgt
    unfold chunkSize headerSize at *
    omega

/-- When no chunk is taken there is only one. -/
theorem HeapInv.whole (h : HeapInv m first chunks last) (hnone : ∀ c, ¬Taken m chunks c) :
    chunks = [first + chunkSize] ∧ m (used (first + chunkSize)) = 0 ∧ m (next (first + chunkSize)) = last := by
  have hfree : ∀ c ∈ chunks, m (used c) = 0 := fun c hc => by
    by_contra hused
    exact hnone c ⟨hc, hused⟩
  have hcoalesced := h.coalesced
  have hhead := h.head
  cases chunks with
  | nil => exact nomatch hhead
  | cons c rest =>
    obtain rfl : c = first + chunkSize := Option.some.inj hhead
    cases rest with
    | nil =>
      have htiled : Tiled m ([first] ++ (first + chunkSize) :: last :: []) := h.arrangement.tiled
      exact ⟨rfl, hfree _ List.mem_cons_self, htiled.next_eq⟩
    | cons d rest =>
      obtain hc | hd := (List.isChain_cons_cons.mp hcoalesced).1
      · exact absurd (hfree _ List.mem_cons_self) hc
      · exact absurd (hfree d (List.mem_cons_of_mem _ List.mem_cons_self)) hd

/-- A heap in use whose blocks were asked for without a wrap. -/
theorem InUse.correct (h : InUse r s chunks) (hfits : ∀ b ∈ s.live, b.2 + align - 1 < 2 ^ 32) :
    ∃ free, CorrectHeap r s chunks free := by
  obtain ⟨free, hlisted⟩ := h.inv.arrangement.listed
  have hblock : ∀ b ∈ s.live, ∃ c, Taken s.store chunks c ∧ b.1 = c + headerSize :=
    fun b hb => (h.live b.1).mp ⟨b.2, hb⟩
  refine ⟨free, ?_, ?_, h.inv.tiles, ⟨h.inv.usedFirst, h.inv.usedLast⟩, h.inv.coalesced, hlisted.slots, hlisted.nodup,
    hlisted.mem, fun c hc => (h.inv.inside hc).slot, fun b hb => ?_, ?_, fun hempty => h.inv.whole fun c hc => ?_⟩
  · exact h.fixed.firstChunk
  · exact h.fixed.lastChunk
  · obtain ⟨c, hc, hptr⟩ := hblock b hb
    refine ⟨?_, (request_le_roundedSize (hfits b hb)).trans (h.room b hb), c, hc.1, hc.2, hptr⟩
    rw [hptr]
    exact Nat.dvd_add (h.inv.arrangement.tiled.aligned c (mem_all hc.1)) (by decide)
  · have hnodup := List.pairwise_map.mp h.nodup
    refine hnodup.imp_of_mem fun hb hb' hne => ?_
    obtain ⟨c, hc, hptr⟩ := hblock _ hb
    obtain ⟨c', hc', hptr'⟩ := hblock _ hb'
    rw [hptr, hptr', Nat.add_sub_cancel, Nat.add_sub_cancel]
    refine h.inv.data_apart hc.1 hc'.1 fun he => hne ?_
    rw [hptr, hptr', he]
  · obtain ⟨size, hmem⟩ := (h.live (c + headerSize)).mpr ⟨c, hc, rfl⟩
    rw [hempty] at hmem
    exact nomatch hmem

/-- What a step adds to the live blocks was asked for without a wrap. -/
theorem Allocator.Step.fits (hstep : alloc.Step r s act s') (hguard : Fits s act)
    (h : ∀ b ∈ s.live, b.2 + align - 1 < 2 ^ 32) : ∀ b ∈ s'.live, b.2 + align - 1 < 2 ^ 32 := by
  cases act with
  | alloc calls size =>
    obtain ⟨-, -, ptr, -, hlive⟩ := hstep
    intro b hb
    rw [hlive] at hb
    by_cases hptr : ptr = 0
    · rw [if_pos hptr] at hb
      exact h b hb
    · rw [if_neg hptr] at hb
      rcases List.mem_cons.mp hb with rfl | hb
      · exact hguard
      · exact h b hb
  | free calls ptr =>
    obtain ⟨-, -, hlive⟩ := hstep
    rw [hlive]
    exact fun b hb => h b (List.mem_filter.mp hb).1
  | write addr value =>
    obtain ⟨-, -, hlive⟩ := hstep
    rw [hlive]
    exact h

/-- After any calls of `kmalloc` and `kfree` the heap is one. -/
theorem kheap_correct (r : HeapRegion) (s : HeapState)
    (hrun : Guarded (fun s => Allocator.kernel.Started r s) (Allocator.kernel.Step r) Fits s) :
    ∃ chunks free, CorrectHeap r s chunks free := by
  have hinv := hrun.invariant
    (fun s => (∃ chunks, InUse r s chunks) ∧ ∀ b ∈ s.live, b.2 + align - 1 < 2 ^ 32) ?_ ?_
  · obtain ⟨⟨chunks, hinUse⟩, hfits⟩ := hinv
    exact ⟨chunks, hinUse.correct hfits⟩
  · rintro s ⟨⟨m, hslots, hstore⟩, hlive⟩
    rw [kheapInit_run] at hstore
    refine ⟨⟨_, (InUse.started hslots hstore hlive).1⟩, ?_⟩
    rw [hlive]
    exact fun b hb => nomatch hb
  · rintro s act s' ⟨⟨chunks, hinUse⟩, hfits⟩ hguard hstep
    obtain ⟨chunks', hinUse', -⟩ := hinUse.step hstep
    exact ⟨⟨chunks', hinUse'⟩, hstep.fits hguard hfits⟩

/-- After the first `kmalloc`. -/
theorem kheap_correct_first :
    ∃ chunks free, CorrectHeap smallRegion ((booted smallRegion).kmalloc 100) chunks free := by
  have hfits : Fits (booted smallRegion) (.alloc noCalls 100) := show (100 : ℕ) + align - 1 < 2 ^ 32 by decide
  exact kheap_correct smallRegion _ (.next (.start (booted_started _)) hfits (kmalloc_step _ (by decide) noCalls))

end UtkKernel.Heap
