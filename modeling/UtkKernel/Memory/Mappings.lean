import UtkKernel.Memory.Spaces

/-! # Pages mapped over a state

The states that mapping and unmapping of pages go through, as what they add to the state before: the pages of a
set, with the page tables made for them. Each step of `kernel_mmap_internal` and `memory_munmap` adds or takes
one page or one page table. -/

namespace UtkKernel.Memory
open Structures Foundations
set_option autoImplicit false

namespace MemState

/-- The frame is neither the current page directory nor one of its page tables. -/
def Plain (s : MemState) (f : ℕ) : Prop :=
  f ≠ s.cr3 ∧ ∀ i e, i < kernelPgdirSize - 1 → s.dirEntry i = some e → e.frame ≠ f

/-- The pages that map a frame. -/
def mappers (word : ℕ → Word) (R : Finset ℕ) (f : ℕ) : Finset ℕ := R.filter fun p => (word p).frame = f

theorem mappers_erase (word : ℕ → Word) (R : Finset ℕ) (p f : ℕ) :
    mappers word (R.erase p) f = (mappers word R f).erase p := by
  unfold mappers
  rw [Finset.filter_erase]

/-- `s` is `s0` with the pages of `R` mapped by the words `word`, with new page tables in the frames `new` for
the entries of `D`. The frames of `freed` were not free in `s0` and are now; those of `dropped` have been page
tables in between. -/
structure Over (s0 : MemState) (new : ℕ → ℕ) (word : ℕ → Word) (freed dropped D R : Finset ℕ) (s : MemState) :
    Prop where
  rest : SameRest s0 s
  dir : ∀ i < kernelPgdirSize - 1, s.dirEntry i = if i ∈ D then some (Word.pgDir (new i)) else s0.dirEntry i
  entry : ∀ q < windowPage, s.entry s.cr3 q = if q ∈ R then some (word q) else s0.entry s0.cr3 q
  mem : ∀ f, ¬ IsFree s0.freeMemoryMap f → s0.Plain f → s.mem f = s0.mem f
  window : ∀ k, kernelPgdirSize - 1 ≤ k → s.mem s0.cr3 k = s0.mem s0.cr3 k
  whole : WholeFrames s.freeMemoryMap
  free : ∀ f, IsFree s.freeMemoryMap f ↔
    (IsFree s0.freeMemoryMap f ∧ ∀ i ∈ D, f ≠ new i) ∨ f ∈ freed
  refs : ∀ f, s.frameRef f = (s0.frameRef f).map fun r =>
    { r with count := if f ∈ dropped then 0 else r.count + (mappers word R f).card }
  made : ∀ i ∈ D, i < kernelPgdirSize - 1 ∧ s0.dirEntry i = none ∧ IsFree s0.freeMemoryMap (new i)
  madeInj : ∀ i ∈ D, ∀ j ∈ D, new i = new j → i = j
  mapped : ∀ p ∈ R, p < windowPage ∧ (word p).present = true
  wasFree : ∀ f ∈ dropped, IsFree s0.freeMemoryMap f
  wasUsed : ∀ f ∈ freed, ¬ IsFree s0.freeMemoryMap f ∧ s0.Plain f ∧ ∀ p ∈ R, (word p).frame ≠ f

/-- The memory manager is in order: the free ranges are, their frames are managed, and the page directory and the
page tables of the process lie in frames of their own. -/
structure InOrder (s : MemState) : Prop where
  apart : Apart s
  whole : WholeFrames s.freeMemoryMap
  managed : ∀ f, IsFree s.freeMemoryMap f → s.frameRef f ≠ none

variable {s0 s s' : MemState} {new : ℕ → ℕ} {word : ℕ → Word} {freed dropped D R : Finset ℕ} {p i f : ℕ} {e : Word}

theorem Over.start (h : InOrder s0) (new : ℕ → ℕ) (word : ℕ → Word) : Over s0 new word ∅ ∅ ∅ ∅ s0 := by
  refine ⟨SameRest.refl s0, fun _ _ => rfl, fun _ _ => rfl, fun _ _ _ => rfl, fun _ _ => rfl, h.whole,
    fun f => ?_, fun f => ?_, by simp, by simp, by simp, by simp, by simp⟩
  · simp
  · simp [mappers]

/-- The page tables of the state are those that were there and the new ones. -/
theorem Over.apart (h : Over s0 new word freed dropped D R s) (h0 : Apart s0) : Apart s := by
  have hdir : ∀ i e, i < kernelPgdirSize - 1 → s.dirEntry i = some e →
      (i ∈ D ∧ e.frame = new i) ∨ s0.dirEntry i = some e := by
    intro i e hi he
    rw [h.dir i hi] at he
    split_ifs at he with hD
    · cases he
      exact .inl ⟨hD, rfl⟩
    · exact .inr he
  have hnew : ∀ i ∈ D, ∀ j e, j < kernelPgdirSize - 1 → s0.dirEntry j = some e → e.frame ≠ new i :=
    fun i hi j e hj he hc => h0.tableUsed j e hj he (hc ▸ (h.made i hi).2.2)
  refine ⟨fun i j e e' hi hj he he' heq => ?_, fun i e hi he => ?_, fun hfree => ?_, fun i e hi he hfree => ?_⟩
  · obtain ⟨hD, hframe⟩ | hold := hdir i e hi he
    · obtain ⟨hD', hframe'⟩ | hold' := hdir j e' hj he'
      · exact h.madeInj i hD j hD' (hframe.symm.trans (heq.trans hframe'))
      · exact absurd (heq.symm.trans hframe) (hnew i hD j e' hj hold')
    · obtain ⟨hD', hframe'⟩ | hold' := hdir j e' hj he'
      · exact absurd (heq.trans hframe') (hnew j hD' i e hi hold)
      · exact h0.inj i j e e' hi hj hold hold' heq
  · rw [h.rest.cr3]
    obtain ⟨hD, hframe⟩ | hold := hdir i e hi he
    · rw [hframe]
      exact fun hc => h0.dirUsed (hc ▸ (h.made i hD).2.2)
    · exact h0.dir i e hi hold
  · rw [h.rest.cr3, h.free] at hfree
    obtain ⟨hfree, -⟩ | hfreed := hfree
    · exact h0.dirUsed hfree
    · exact (h.wasUsed _ hfreed).2.1.1 rfl
  · obtain ⟨hD, hframe⟩ | hold := hdir i e hi he
    · rw [hframe, h.free] at hfree
      obtain ⟨-, hne⟩ | hfreed := hfree
      · exact hne i hD rfl
      · exact (h.wasUsed _ hfreed).1 (h.made i hD).2.2
    · rw [h.free] at hfree
      obtain ⟨hfree, -⟩ | hfreed := hfree
      · exact h0.tableUsed i e hi hold hfree
      · exact (h.wasUsed _ hfreed).2.1.2 i e hi hold rfl

/-! ## Page tables -/

/-- A page table is made in a frame that was free at the start. -/
theorem Over.createTable (h : Over s0 new word ∅ dropped D R s) (h0 : Apart s0) (hi : i < kernelPgdirSize - 1)
    (hD : i ∉ D) (hnone : s0.dirEntry i = none) (hcreate : s.createTable i = some s') :
    ∃ t, Over s0 (Function.update new i t) word ∅ dropped (insert i D) R s' ∧
      takeFrames 1 s.freeMemoryMap = some ([t], s'.freeMemoryMap) := by
  have hdir : s.dirEntry i = none := by
    rw [h.dir i hi, if_neg hD, hnone]
  obtain ⟨t, hfree, hred, href, hwhole, htake, hlist⟩ := (h.apart h0).createTable h.whole hi hdir hcreate
  have ht := (h.free t).mp hfree
  rw [or_iff_left (Finset.notMem_empty t)] at ht
  have hne : ∀ j ∈ D, j ≠ i := fun j hj hc => hD (hc ▸ hj)
  have hnew : ∀ j ∈ D, Function.update new i t j = new j := fun j hj => Function.update_of_ne (hne j hj) ..
  refine ⟨t, ⟨h.rest.trans hred.rest, fun k hk => ?_, fun q hq => ?_, fun f hf hplain => ?_, fun k hk => ?_,
    hwhole, fun g => ?_, fun g => ?_, fun j hj => ?_, fun j hj k hk heq => ?_, h.mapped, h.wasFree, h.wasUsed⟩,
    htake⟩
  · rw [hred.dir k hk]
    by_cases hki : k = i
    · rw [if_pos hki, if_pos (hki ▸ Finset.mem_insert_self ..), hki, Function.update_self]
    · rw [if_neg hki, h.dir k hk, Function.update_of_ne hki]
      simp only [Finset.mem_insert, hki, false_or]
  · rw [hred.entry q hq, h.entry q hq]
  · rw [hred.mem f (h.rest.cr3 ▸ hplain.1), h.mem f hf hplain]
    rintro e he rfl
    cases he
    exact hf ht.1
  · rw [← h.rest.cr3, hred.window k hk, h.rest.cr3, h.window k hk]
  · rw [hlist, h.free]
    simp only [Finset.notMem_empty, or_false, Finset.forall_mem_insert, Function.update_self]
    constructor
    · rintro ⟨⟨hg, hold⟩, hgt⟩
      exact ⟨hg, hgt, fun j hj => by rw [hnew j hj]; exact hold j hj⟩
    · rintro ⟨hg, hgt, hold⟩
      exact ⟨⟨hg, fun j hj => by rw [← hnew j hj]; exact hold j hj⟩, hgt⟩
  · rw [href, h.refs]
  · obtain rfl | hj := Finset.mem_insert.mp hj
    · rw [Function.update_self]
      exact ⟨hi, hnone, ht.1⟩
    · rw [hnew j hj]
      exact h.made j hj
  · obtain hji | hjD := Finset.mem_insert.mp hj
    · obtain hki | hkD := Finset.mem_insert.mp hk
      · rw [hji, hki]
      · rw [hji, Function.update_self, hnew k hkD] at heq
        exact absurd heq (ht.2 k hkD)
    · obtain hki | hkD := Finset.mem_insert.mp hk
      · rw [hnew j hjD, hki, Function.update_self] at heq
        exact absurd heq.symm (ht.2 j hjD)
      · rw [hnew j hjD, hnew k hkD] at heq
        exact h.madeInj j hjD k hkD heq

/-- A new page table that maps nothing any more is dropped. -/
theorem Over.dropTable (h : Over s0 new word freed dropped D R s) (h0 : InOrder s0) (hD : i ∈ D)
    (hempty : ∀ q ∈ R, pgdirEntry q ≠ i) : ∃ s', s.dropTable i = some s' ∧
      Over s0 new word freed (insert (new i) dropped) (D.erase i) R s' := by
  obtain ⟨hi, hnone, hfree⟩ := h.made i hD
  have hdir : s.dirEntry i = some (Word.pgDir (new i)) := by
    rw [h.dir i hi, if_pos hD]
  have hunmapped : ∀ q < windowPage, pgdirEntry q = i → s.entry s.cr3 q = none := by
    intro q hq hqi
    rw [h.entry q hq, if_neg fun hR => hempty q hR hqi, entry_eq, hqi, hnone]
    rfl
  obtain ⟨r, hr⟩ := Option.ne_none_iff_exists'.mp (h0.managed _ hfree)
  have href := h.refs (new i)
  rw [hr, Option.map_some] at href
  obtain ⟨s1, s', hdrop, hrel, href', hfree', hred⟩ :=
    (h.apart h0.apart).dropTable h.whole hi hdir hunmapped (h0.whole.bound hfree) href
  rw [pgDir_frame] at hrel
  refine ⟨s', hdrop, h.rest.trans hred.rest, fun k hk => ?_, fun q hq => ?_, fun f hf hplain => ?_,
    fun k hk => ?_, hfree' ▸ hrel.whole, fun g => ?_, fun g => ?_, fun j hj => ?_, fun j hj k hk heq => ?_,
    h.mapped, fun g hg => ?_, h.wasUsed⟩
  · rw [hred.dir k hk]
    by_cases hki : k = i
    · rw [if_pos hki, if_neg (hki ▸ Finset.notMem_erase k D), hki, hnone]
    · rw [if_neg hki, h.dir k hk]
      simp only [Finset.mem_erase, ne_eq, hki, not_false_eq_true, true_and]
  · rw [hred.entry q hq, h.entry q hq]
  · rw [hred.mem f (h.rest.cr3 ▸ hplain.1) nofun, h.mem f hf hplain]
  · rw [← h.rest.cr3, hred.window k hk, h.rest.cr3, h.window k hk]
  · rw [hfree', hrel.free, h.free]
    have hother : ∀ j ∈ D.erase i, new i ≠ new j := fun j hj hc =>
      Finset.ne_of_mem_erase hj (h.madeInj i hD j (Finset.mem_of_mem_erase hj) hc).symm
    by_cases hg : g = new i
    · rw [hg]
      exact iff_of_true (.inr rfl) (.inl ⟨hfree, hother⟩)
    · rw [or_iff_left hg]
      refine or_congr_left (and_congr_right fun _ => ?_)
      constructor
      · exact fun hall j hj => hall j (Finset.mem_of_mem_erase hj)
      · intro hall j hj
        by_cases hji : j = i
        · rwa [hji]
        · exact hall j (Finset.mem_erase.mpr ⟨hji, hj⟩)
  · rw [href', hrel.frameRef]
    by_cases hg : g = new i
    · rw [if_pos hg, href, hg, hr, Option.map_some, Option.map_some, if_pos (Finset.mem_insert_self ..)]
    · rw [if_neg hg, h.refs]
      simp only [Finset.mem_insert, hg, false_or]
  · exact h.made j (Finset.mem_of_mem_erase hj)
  · exact h.madeInj j (Finset.mem_of_mem_erase hj) k (Finset.mem_of_mem_erase hk) heq
  · obtain rfl | hg := Finset.mem_insert.mp hg
    · exact hfree
    · exact h.wasFree g hg

/-! ## Pages -/

/-- The page tables of the state are not among the other frames that were used at the start. -/
theorem Over.frame_ne (h : Over s0 new word freed dropped D R s) (hi : i < kernelPgdirSize - 1)
    (he : s.dirEntry i = some e) (hf : ¬ IsFree s0.freeMemoryMap f) (hplain : s0.Plain f) : e.frame ≠ f := by
  rw [h.dir i hi] at he
  split_ifs at he with hD
  · cases he
    rintro rfl
    exact hf (h.made i hD).2.2
  · exact hplain.2 i e hi he

/-- An entry of a page table is written. -/
theorem Over.setWord_frame (h : Over s0 new word freed dropped D R s) (h0 : Apart s0) (hp : p < windowPage)
    (he : s.dirEntry (pgdirEntry p) = some e) (w : Word) :
    (∀ k < kernelPgdirSize - 1, (s.setWord e.frame (pgtableEntry p) w).dirEntry k =
      if k ∈ D then some (Word.pgDir (new k)) else s0.dirEntry k) ∧
    (∀ f, ¬ IsFree s0.freeMemoryMap f → s0.Plain f → (s.setWord e.frame (pgtableEntry p) w).mem f = s0.mem f) ∧
    (∀ k, kernelPgdirSize - 1 ≤ k → (s.setWord e.frame (pgtableEntry p) w).mem s0.cr3 k = s0.mem s0.cr3 k) := by
  have hi := pgdirEntry_lt_of_lt hp
  have hapart := h.apart h0
  refine ⟨fun k hk => ?_, fun f hf hplain => ?_, fun k hk => ?_⟩
  · rw [hapart.dirEntry_setWord hi he, h.dir k hk]
  · funext j
    rw [mem_setWord, if_neg fun hc => h.frame_ne hi he hf hplain hc.1.symm, h.mem f hf hplain]
  · rw [mem_setWord, if_neg, h.window k hk]
    rintro ⟨hc, -⟩
    exact hapart.dir _ e hi he (hc.symm.trans h.rest.cr3.symm)

theorem memoryAcquireRef_eq_some (h : s.memoryAcquireRef f = some s') :
    ∃ r, s.frameRef f = some r ∧ s' = s.setRef f { r with count := r.count + 1 } := by
  unfold memoryAcquireRef at h
  obtain ⟨r, hr, hbody⟩ := Option.bind_eq_some_iff.mp h
  split_ifs at hbody
  exact ⟨r, hr, (Option.some.inj hbody).symm⟩

theorem frameRef_setRef (r : FrameRef) (g : ℕ) :
    (s.setRef f r).frameRef g = if g = f then some r else s.frameRef g := by
  show Function.update s.frameRef f (some r) g = _
  by_cases hg : g = f
  · rw [hg, Function.update_self, if_pos rfl]
  · rw [Function.update_of_ne hg, if_neg hg]

/-- A page is mapped in a page table that is there. -/
theorem Over.mapEntry (h : Over s0 new word ∅ dropped D R s) (h0 : Apart s0) (hp : p < windowPage) (hpR : p ∉ R)
    (he : s.dirEntry (pgdirEntry p) = some e) (hpresent : (word p).present = true)
    (hkept : (word p).frame ∉ dropped)
    (hmap : (s.setWord e.frame (pgtableEntry p) (word p)).memoryAcquireRef (word p).frame = some s') :
    Over s0 new word ∅ dropped D (insert p R) s' := by
  obtain ⟨r, hr, rfl⟩ := memoryAcquireRef_eq_some hmap
  obtain ⟨hdir, hmem, hwindow⟩ := h.setWord_frame h0 hp he (word p)
  have hrest := h.rest
  refine ⟨⟨hrest.processes, hrest.kernelPages, hrest.current, hrest.cr3⟩, hdir, fun q hq => ?_, hmem, hwindow,
    h.whole, h.free, fun g => ?_, h.made, h.madeInj, fun q hq => ?_, h.wasFree, by simp⟩
  · refine ((h.apart h0).entry_setWord hp he (word p) hq).trans ?_
    by_cases hqp : q = p
    · rw [if_pos hqp, if_pos (hqp ▸ Finset.mem_insert_self ..), Word.seen_of_present hpresent, hqp]
    · rw [if_neg hqp, h.entry q hq]
      simp only [Finset.mem_insert, hqp, false_or]
  · change s.frameRef _ = some r at hr
    have hold := h.refs g
    rw [frameRef_setRef, mappers, Finset.filter_insert]
    by_cases hg : g = (word p).frame
    · subst hg
      simp only [hkept, if_false, if_true] at hold ⊢
      rw [Finset.card_insert_of_notMem fun hc => hpR (Finset.mem_filter.mp hc).1]
      rw [hr] at hold
      obtain ⟨r0, hr0, hrr⟩ := Option.map_eq_some_iff.mp hold.symm
      rw [hr0, ← hrr]
      rfl
    · rw [if_neg hg, if_neg (Ne.symm hg)]
      exact hold
  · obtain rfl | hq := Finset.mem_insert.mp hq
    · exact ⟨hp, hpresent⟩
    · exact h.mapped q hq

/-- A frame that no page has been mapped to, outside of the page directory and the page tables. -/
structure Unreferenced (s : MemState) (f : ℕ) : Prop where
  used : ¬ IsFree s.freeMemoryMap f
  plain : s.Plain f
  bound : f * kernelFrameSize + kernelFrameSize < 2 ^ 32

/-- The frames that are free once a page is unmapped: its own, if it has no other reference and is no
hardware. -/
def freedBy (s0 : MemState) (word : ℕ → Word) (freed R : Finset ℕ) (p : ℕ) : Finset ℕ :=
  if s0.frameRef (word p).frame = some ⟨false, 0⟩ ∧ ∀ q ∈ R.erase p, (word q).frame ≠ (word p).frame then
    insert (word p).frame freed
  else freed

theorem memoryReleaseRef_of_shared {r : FrameRef} (hr : s.frameRef f = some r) (hpos : 0 < r.count)
    (hshared : ¬(r.count - 1 = 0 ∧ r.isHw = false)) :
    s.memoryReleaseRef f = some (s.setRef f { r with count := r.count - 1 }) := by
  unfold memoryReleaseRef
  rw [hr, Option.bind_some, if_neg hpos.ne', if_neg hshared]

theorem memoryReleaseRef_of_last {r : FrameRef} (hr : s.frameRef f = some r) (hcount : r.count = 1)
    (hhw : r.isHw = false) :
    s.memoryReleaseRef f = (s.setRef f { r with count := 0 }).memoryFreeFrames f 1 := by
  unfold memoryReleaseRef
  rw [hr, Option.bind_some, hcount, if_neg one_ne_zero, if_pos ⟨rfl, hhw⟩]

/-- A frame has one reference less. Without any it is free, unless it is hardware. -/
structure ReleasedOne (f : ℕ) (r : FrameRef) (s s' : MemState) : Prop where
  rest : SameRest s s'
  mem : s'.mem = s.mem
  frameRef : ∀ g, s'.frameRef g = if g = f then some { r with count := r.count - 1 } else s.frameRef g
  whole : WholeFrames s'.freeMemoryMap
  free : ∀ g, IsFree s'.freeMemoryMap g ↔ IsFree s.freeMemoryMap g ∨ (g = f ∧ r.count = 1 ∧ r.isHw = false)

theorem exists_memoryReleaseRef (hl : WholeFrames s.freeMemoryMap) {r : FrameRef} (hr : s.frameRef f = some r)
    (hpos : 0 < r.count) (hlast : r.count = 1 → r.isHw = false →
      ¬ IsFree s.freeMemoryMap f ∧ f * kernelFrameSize + kernelFrameSize < 2 ^ 32) :
    ∃ s', s.memoryReleaseRef f = some s' ∧ ReleasedOne f r s s' := by
  by_cases hfreed : r.count = 1 ∧ r.isHw = false
  · obtain ⟨hcount, hhw⟩ := hfreed
    obtain ⟨hnot, hbound⟩ := hlast hcount hhw
    obtain ⟨s', hs', hrel⟩ := exists_memoryFreeFrames (s := s.setRef f { r with count := 0 }) hl hnot hbound
      (frameRef_setRef _ _ |>.trans (if_pos rfl))
    have hrest := hrel.rest
    refine ⟨s', (memoryReleaseRef_of_last hr hcount hhw).trans hs',
      ⟨⟨hrest.processes, hrest.kernelPages, hrest.current, hrest.cr3⟩, hrel.mem, fun g => ?_, hrel.whole, fun g => ?_⟩⟩
    · rw [hrel.frameRef, frameRef_setRef, frameRef_setRef, if_pos rfl, hcount]
      by_cases hg : g = f
      · rw [if_pos hg, if_pos hg]
        rfl
      · rw [if_neg hg, if_neg hg]
    · rw [hrel.free]
      exact or_congr_right (iff_self_and.mpr fun _ => ⟨hcount, hhw⟩)
  · have hshared : ¬(r.count - 1 = 0 ∧ r.isHw = false) := fun hc => hfreed ⟨by omega, hc.2⟩
    refine ⟨_, memoryReleaseRef_of_shared hr hpos hshared,
      ⟨⟨rfl, rfl, rfl, rfl⟩, rfl, fun g => frameRef_setRef _ _, hl, fun g => ?_⟩⟩
    exact (or_iff_left fun hc => hfreed hc.2).symm

/-- The reference of a mapped page is released. -/
theorem Over.releaseRef (h : Over s0 new word freed dropped D R s) (hpR : p ∈ R)
    (hmanaged : s0.frameRef (word p).frame ≠ none) (hkept : (word p).frame ∉ dropped)
    (hframe : s0.frameRef (word p).frame = some ⟨false, 0⟩ → Unreferenced s0 (word p).frame) :
    ∃ s1, s.memoryReleaseRef (word p).frame = some s1 ∧ SameRest s s1 ∧ s1.mem = s.mem ∧
      WholeFrames s1.freeMemoryMap ∧
      (∀ g, IsFree s1.freeMemoryMap g ↔
        (IsFree s0.freeMemoryMap g ∧ ∀ i ∈ D, g ≠ new i) ∨ g ∈ freedBy s0 word freed R p) ∧
      ∀ g, s1.frameRef g = (s0.frameRef g).map fun r =>
        { r with count := if g ∈ dropped then 0 else r.count + (mappers word (R.erase p) g).card } := by
  obtain ⟨r0, hr0⟩ := Option.ne_none_iff_exists'.mp hmanaged
  have hmem : p ∈ mappers word R (word p).frame := Finset.mem_filter.mpr ⟨hpR, rfl⟩
  have hcard : (mappers word R (word p).frame).card = (mappers word (R.erase p) (word p).frame).card + 1 := by
    rw [mappers_erase, Finset.card_erase_add_one hmem]
  have hother : ∀ g, g ≠ (word p).frame → mappers word (R.erase p) g = mappers word R g := by
    intro g hg
    rw [mappers_erase, Finset.erase_eq_of_notMem fun hc => hg (Finset.mem_filter.mp hc).2.symm]
  have hr : s.frameRef (word p).frame =
      some { r0 with count := r0.count + (mappers word (R.erase p) (word p).frame).card + 1 } := by
    rw [h.refs, hr0, Option.map_some, if_neg hkept, hcard]
    rfl
  have hlast : (r0.count + (mappers word (R.erase p) (word p).frame).card + 1 = 1 ∧ r0.isHw = false) ↔
      s0.frameRef (word p).frame = some ⟨false, 0⟩ ∧ ∀ q ∈ R.erase p, (word q).frame ≠ (word p).frame := by
    have hnone : (∀ q ∈ R.erase p, (word q).frame ≠ (word p).frame) ↔
        (mappers word (R.erase p) (word p).frame).card = 0 := by
      rw [Finset.card_eq_zero, mappers, Finset.filter_eq_empty_iff]
    obtain ⟨isHw, count⟩ := r0
    rw [hnone, hr0, Option.some.injEq, FrameRef.mk.injEq]
    constructor
    · rintro ⟨hcount, hhw⟩
      dsimp only at hcount
      exact ⟨⟨hhw, by omega⟩, by omega⟩
    · rintro ⟨⟨hhw, hcount⟩, hzero⟩
      exact ⟨by dsimp only; omega, hhw⟩
  obtain ⟨s1, hs1, hrel⟩ := exists_memoryReleaseRef h.whole hr (Nat.succ_pos _) fun hcount hhw => by
    have hzero := hframe (hlast.mp ⟨hcount, hhw⟩).1
    refine ⟨?_, hzero.bound⟩
    rw [h.free]
    rintro (⟨hfree, -⟩ | hin)
    · exact hzero.used hfree
    · exact (h.wasUsed _ hin).2.2 p hpR rfl
  refine ⟨s1, hs1, hrel.rest, hrel.mem, hrel.whole, fun g => ?_, fun g => ?_⟩
  · rw [hrel.free, h.free, or_assoc]
    dsimp only
    rw [hlast]
    refine or_congr_right ?_
    unfold freedBy
    split_ifs with hfreed
    · rw [Finset.mem_insert, or_comm, and_iff_left hfreed]
    · exact or_iff_left fun hc => hfreed hc.2
  · rw [hrel.frameRef]
    by_cases hg : g = (word p).frame
    · rw [if_pos hg, hg, hr0, Option.map_some, if_neg hkept]
      rfl
    · rw [if_neg hg, h.refs, hother g hg]

/-- A page is unmapped, and its page table stays. -/
theorem Over.unmapEntry (h : Over s0 new word freed dropped D R s) (h0 : Apart s0) (hpR : p ∈ R)
    (hnone : s0.entry s0.cr3 p = none) (he : s.dirEntry (pgdirEntry p) = some e)
    (hmanaged : s0.frameRef (word p).frame ≠ none) (hkept : (word p).frame ∉ dropped)
    (hframe : s0.frameRef (word p).frame = some ⟨false, 0⟩ → Unreferenced s0 (word p).frame) :
    ∃ s1, s.memoryReleaseRef (word p).frame = some s1 ∧
      Over s0 new word (freedBy s0 word freed R p) dropped D (R.erase p)
        (s1.setWord e.frame (pgtableEntry p) Word.zero) := by
  obtain ⟨s1, hs1, hrest1, hmem1, hwhole1, hfree1, href1⟩ := h.releaseRef hpR hmanaged hkept hframe
  have hp := (h.mapped p hpR).1
  obtain ⟨hdir, hmem, hwindow⟩ := h.setWord_frame h0 hp he Word.zero
  have hsame : (s1.setWord e.frame (pgtableEntry p) Word.zero).mem =
      (s.setWord e.frame (pgtableEntry p) Word.zero).mem := by
    funext g j
    rw [mem_setWord, mem_setWord, hmem1]
  have hrest : SameRest s0 (s1.setWord e.frame (pgtableEntry p) Word.zero) := by
    have hall := h.rest.trans hrest1
    exact ⟨hall.processes, hall.kernelPages, hall.current, hall.cr3⟩
  refine ⟨s1, hs1, hrest, fun k hk => ?_, fun q hq => ?_, fun f hf hplain => ?_, fun k hk => ?_, hwhole1, hfree1,
    href1, h.made, h.madeInj, fun q hq => h.mapped q (Finset.mem_of_mem_erase hq), h.wasFree, fun f hf => ?_⟩
  · unfold dirEntry at hdir ⊢
    rw [hsame]
    show ((s.setWord e.frame (pgtableEntry p) Word.zero).mem s1.cr3 k).seen = _
    rw [hrest1.cr3]
    exact hdir k hk
  · rw [entry_of_mem hsame]
    show (s.setWord e.frame (pgtableEntry p) Word.zero).entry s1.cr3 q = _
    rw [hrest1.cr3, (h.apart h0).entry_setWord hp he Word.zero hq]
    by_cases hqp : q = p
    · rw [if_pos hqp, if_neg fun hc => Finset.ne_of_mem_erase hc hqp, hqp, hnone, Word.seen_zero]
    · rw [if_neg hqp]
      refine (h.entry q hq).trans ?_
      simp only [Finset.mem_erase, ne_eq, hqp, not_false_eq_true, true_and]
  · rw [hsame, hmem f hf hplain]
  · rw [hsame, hwindow k hk]
  · unfold freedBy at hf
    split_ifs at hf with hlast
    · obtain rfl | hf := Finset.mem_insert.mp hf
      · exact ⟨(hframe hlast.1).used, (hframe hlast.1).plain, hlast.2⟩
      · obtain ⟨hused, hplain, hall⟩ := h.wasUsed f hf
        exact ⟨hused, hplain, fun q hq => hall q (Finset.mem_of_mem_erase hq)⟩
    · obtain ⟨hused, hplain, hall⟩ := h.wasUsed f hf
      exact ⟨hused, hplain, fun q hq => hall q (Finset.mem_of_mem_erase hq)⟩

/-! ## Single pages -/

/-- The entries of the page directory that the pages of a set need a new page table for. -/
def madeBy (s0 : MemState) (R : Finset ℕ) : Finset ℕ :=
  (R.image pgdirEntry).filter fun i => s0.dirEntry i = none

theorem mem_madeBy : i ∈ madeBy s0 R ↔ (∃ q ∈ R, pgdirEntry q = i) ∧ s0.dirEntry i = none := by
  unfold madeBy
  rw [Finset.mem_filter, Finset.mem_image]

theorem mapPage_eq (hp : p < windowPage) (frame : ℕ) (flags : BitVec 12) : s.mapPage p frame flags =
    (s.createTable (pgdirEntry p)).bind fun s1 =>
      (s1.setWord (s1.mem s1.cr3 (pgdirEntry p)).frame (pgtableEntry p)
        (Word.page frame flags)).memoryAcquireRef frame := by
  unfold mapPage
  rw [if_neg (pgdirEntry_lt_of_lt hp).ne]

/-- The new page tables are the frames that were taken from the free ones, one after the other. -/
def Taken (s0 : MemState) (new : ℕ → ℕ) (D : Finset ℕ) (s : MemState) : Prop :=
  ∃ frames, takeFrames D.card s0.freeMemoryMap = some (frames, s.freeMemoryMap) ∧
    ∀ f, f ∈ frames ↔ ∃ i ∈ D, new i = f

theorem Taken.insert {t : ℕ} (h : Taken s0 new D s) (hD : i ∉ D)
    (ht : takeFrames 1 s.freeMemoryMap = some ([t], s'.freeMemoryMap)) :
    Taken s0 (Function.update new i t) (insert i D) s' := by
  obtain ⟨frames, hframes, hmem⟩ := h
  refine ⟨frames ++ [t], ?_, fun f => ?_⟩
  · rw [Finset.card_insert_of_notMem hD, takeFrames_add, hframes, Option.bind_some, ht]
    rfl
  · rw [List.mem_append, List.mem_singleton, hmem, Finset.exists_mem_insert, Function.update_self, or_comm,
      eq_comm]
    refine or_congr_right (exists_congr fun j => and_congr_right fun hj => ?_)
    have hne : j ≠ i := fun hc => hD (hc ▸ hj)
    rw [Function.update_of_ne hne]

theorem page_present (frame : ℕ) (flags : BitVec 12) : (Word.page frame flags).present = true := by
  show ((flags ||| pageFlagPresent) &&& pageFlagPresent != 0#12) = true
  rw [bne_iff_ne]
  intro hzero
  have hbit := congrArg (fun b : BitVec 12 => b.getLsbD 0) hzero
  simp [pageFlagPresent] at hbit

/-- One turn of the loop of `kernel_mmap_internal`. -/
theorem Over.mapPage {frame : ℕ} {flags : BitVec 12} (h : Over s0 new word ∅ dropped (madeBy s0 R) R s)
    (h0 : Apart s0) (hp : p < windowPage) (hpR : p ∉ R) (hword : word p = Word.page frame flags)
    (hkept : frame ∉ dropped) (hmap : s.mapPage p frame flags = some s') :
    ∃ new', Over s0 new' word ∅ dropped (madeBy s0 (insert p R)) (insert p R) s' ∧
      (∀ i ∈ madeBy s0 R, new' i = new i) ∧
      (Taken s0 new (madeBy s0 R) s → Taken s0 new' (madeBy s0 (insert p R)) s') := by
  rw [mapPage_eq hp] at hmap
  obtain ⟨s1, hcreate, hacquire⟩ := Option.bind_eq_some_iff.mp hmap
  have hi := pgdirEntry_lt_of_lt hp
  have hpresent : (word p).present = true := hword ▸ page_present frame flags
  have hstep : ∃ new' e, Over s0 new' word ∅ dropped (madeBy s0 (insert p R)) R s1 ∧
      (∀ i ∈ madeBy s0 R, new' i = new i) ∧
      (Taken s0 new (madeBy s0 R) s → Taken s0 new' (madeBy s0 (insert p R)) s1) ∧
      s1.dirEntry (pgdirEntry p) = some e := by
    by_cases hmake : s0.dirEntry (pgdirEntry p) = none ∧ pgdirEntry p ∉ madeBy s0 R
    · obtain ⟨hnone, hnot⟩ := hmake
      obtain ⟨t, hover, htake⟩ := h.createTable h0 hi hnot hnone hcreate
      have hkeeps : ∀ j ∈ madeBy s0 R, Function.update new (pgdirEntry p) t j = new j :=
        fun j hj => Function.update_of_ne (fun hc => hnot (by rwa [← hc])) ..
      have hinsert : insert (pgdirEntry p) (madeBy s0 R) = madeBy s0 (insert p R) := by
        ext k
        rw [Finset.mem_insert, mem_madeBy, mem_madeBy]
        constructor
        · rintro (rfl | ⟨⟨q, hq, hqk⟩, hk⟩)
          · exact ⟨⟨p, Finset.mem_insert_self .., rfl⟩, hnone⟩
          · exact ⟨⟨q, Finset.mem_insert_of_mem hq, hqk⟩, hk⟩
        · rintro ⟨⟨q, hq, hqk⟩, hk⟩
          obtain rfl | hq := Finset.mem_insert.mp hq
          · exact .inl hqk.symm
          · exact .inr ⟨⟨q, hq, hqk⟩, hk⟩
      refine ⟨_, Word.pgDir t, hinsert ▸ hover, hkeeps, fun htaken => hinsert ▸ htaken.insert hnot htake, ?_⟩
      rw [hover.dir _ hi, if_pos (Finset.mem_insert_self ..), Function.update_self]
    · have hsome : ∃ e, s.dirEntry (pgdirEntry p) = some e := by
        rw [h.dir _ hi]
        split_ifs with hD
        · exact ⟨_, rfl⟩
        · exact Option.ne_none_iff_exists'.mp fun hnone => hmake ⟨hnone, hD⟩
      obtain ⟨e, he⟩ := hsome
      rw [createTable_of_present he] at hcreate
      cases hcreate
      have hsame : madeBy s0 (insert p R) = madeBy s0 R := by
        ext k
        rw [mem_madeBy, mem_madeBy]
        refine and_congr_left fun hk => ⟨?_, ?_⟩
        · rintro ⟨q, hq, hqk⟩
          obtain rfl | hq := Finset.mem_insert.mp hq
          · have hin : pgdirEntry q ∈ madeBy s0 R := by
              by_contra hnot
              exact hmake ⟨hqk ▸ hk, hnot⟩
            rw [← hqk]
            exact (mem_madeBy.mp hin).1
          · exact ⟨q, hq, hqk⟩
        · rintro ⟨q, hq, hqk⟩
          exact ⟨q, Finset.mem_insert_of_mem hq, hqk⟩
      exact ⟨new, e, hsame.symm ▸ h, fun _ _ => rfl, fun htaken => hsame.symm ▸ htaken, he⟩
  obtain ⟨new', e, hover, hkeeps, htaken', he⟩ := hstep
  rw [(dirEntry_eq_some he).2, ← hword] at hacquire
  have hacquire' : (s1.setWord e.frame (pgtableEntry p) (word p)).memoryAcquireRef (word p).frame = some s' := by
    rw [hword] at hacquire ⊢
    exact hacquire
  have hkept' : (word p).frame ∉ dropped := by
    rw [hword]
    exact hkept
  refine ⟨new', hover.mapEntry h0 hp hpR he hpresent hkept' hacquire', hkeeps, ?_⟩
  obtain ⟨r, -, rfl⟩ := memoryAcquireRef_eq_some hacquire'
  exact htaken'

theorem frameRef_createTable (h : s.createTable i = some s') : s'.frameRef = s.frameRef := by
  unfold createTable at h
  split_ifs at h
  · cases h
    rfl
  · obtain ⟨⟨t, s1⟩, halloc, rfl⟩ := Option.map_eq_some_iff.mp h
    obtain ⟨r, -, heq⟩ := Option.map_eq_some_iff.mp halloc
    cases heq
    rfl

/-- A page can be mapped if there is room for its page table and its frame can take a reference. -/
theorem Over.exists_mapPage {frame : ℕ} (flags : BitVec 12) (h : Over s0 new word freed dropped (madeBy s0 R) R s)
    (hp : p < windowPage)
    (hroom : s0.dirEntry (pgdirEntry p) = none → pgdirEntry p ∉ madeBy s0 R →
      ∃ r, takeFrames 1 s.freeMemoryMap = some r)
    (hkept : frame ∉ dropped) (hcount : ∃ r, s0.frameRef frame = some r ∧
      r.count + (mappers word R frame).card + 1 ≠ frameRefCountMask) :
    ∃ s', s.mapPage p frame flags = some s' := by
  rw [mapPage_eq hp]
  have hcreate : ∃ s1, s.createTable (pgdirEntry p) = some s1 := by
    cases hdir : s.dirEntry (pgdirEntry p) with
    | some e => exact ⟨s, createTable_of_present hdir⟩
    | none =>
      have hs := h.dir _ (pgdirEntry_lt_of_lt hp)
      rw [hdir] at hs
      split_ifs at hs with hD
      obtain ⟨r, hr⟩ := hroom hs.symm hD
      obtain ⟨block, hblock, -⟩ := Option.bind_eq_some_iff.mp hr
      rw [createTable_of_absent hdir]
      unfold memoryAllocFrames
      rw [hblock]
      exact ⟨_, rfl⟩
  obtain ⟨s1, hs1⟩ := hcreate
  obtain ⟨r, hr, hroom⟩ := hcount
  have href : s1.frameRef frame = some { r with count := r.count + (mappers word R frame).card } := by
    rw [frameRef_createTable hs1, h.refs, hr, Option.map_some, if_neg hkept]
  rw [hs1, Option.bind_some]
  unfold memoryAcquireRef
  change ∃ s', (s1.frameRef frame).bind _ = some s'
  rw [href, Option.bind_some, if_neg hroom]
  exact ⟨_, rfl⟩

theorem dropTable_of_mapped {q : ℕ} (hq : q < windowPage) (he : s.dirEntry (pgdirEntry q) = some e)
    (hmapped : s.entry s.cr3 q ≠ none) : s.dropTable (pgdirEntry q) = some s := by
  unfold MemState.dropTable
  rw [(dirEntry_eq_some he).2, if_neg]
  intro hempty
  exact hmapped ((tableEmpty_iff (pgdirEntry_lt_of_lt hq) he).mp hempty q hq rfl)

/-- The frames that were page tables in between, once a page is unmapped. -/
def droppedBy (s0 : MemState) (new : ℕ → ℕ) (dropped R : Finset ℕ) (p : ℕ) : Finset ℕ :=
  if pgdirEntry p ∈ madeBy s0 R ∧ ∀ q ∈ R.erase p, pgdirEntry q ≠ pgdirEntry p then
    insert (new (pgdirEntry p)) dropped
  else dropped

/-- One turn of the loop of `memory_munmap`, at a page that was mapped after the start. -/
theorem Over.unmapPage (h : Over s0 new word freed dropped (madeBy s0 R) R s) (h0 : InOrder s0) (hpR : p ∈ R)
    (hnone : s0.entry s0.cr3 p = none)
    (hfull : s0.dirEntry (pgdirEntry p) ≠ none →
      ∃ q < windowPage, pgdirEntry q = pgdirEntry p ∧ s0.entry s0.cr3 q ≠ none)
    (hmanaged : s0.frameRef (word p).frame ≠ none) (hkept : (word p).frame ∉ dropped)
    (hframe : s0.frameRef (word p).frame = some ⟨false, 0⟩ → Unreferenced s0 (word p).frame) :
    ∃ s', s.unmapPage p = some s' ∧ Over s0 new word (freedBy s0 word freed R p)
      (droppedBy s0 new dropped R p) (madeBy s0 (R.erase p)) (R.erase p) s' := by
  obtain ⟨hp, hpresent⟩ := h.mapped p hpR
  have hi := pgdirEntry_lt_of_lt hp
  have hsome : ∃ e, s.dirEntry (pgdirEntry p) = some e := by
    rw [h.dir _ hi]
    split_ifs with hD
    · exact ⟨_, rfl⟩
    · exact Option.ne_none_iff_exists'.mp fun hnone => hD (mem_madeBy.mpr ⟨⟨p, hpR, rfl⟩, hnone⟩)
  obtain ⟨e, he⟩ := hsome
  have hentry := h.entry p hp
  rw [if_pos hpR, entry_eq, he, Option.bind_some] at hentry
  obtain ⟨hwp, hw⟩ := Word.seen_eq_some hentry
  obtain ⟨s1, hrelease, hover⟩ := h.unmapEntry h0.apart hpR hnone he hmanaged hkept hframe
  obtain ⟨hdirPresent, hdirWord⟩ := dirEntry_eq_some he
  have hunmap : s.unmapPage p = (s1.setWord e.frame (pgtableEntry p) Word.zero).dropTable (pgdirEntry p) := by
    unfold MemState.unmapPage
    rw [if_neg hi.ne, if_pos hdirPresent, hdirWord]
    dsimp only
    rw [if_pos hwp, hw, hrelease, Option.bind_some]
  rw [hunmap]
  generalize s1.setWord e.frame (pgtableEntry p) Word.zero = s2 at hover
  unfold droppedBy
  split_ifs with hlast
  · obtain ⟨hD, hempty⟩ := hlast
    obtain ⟨s', hdrop, hover'⟩ := hover.dropTable h0 hD hempty
    have herase : (madeBy s0 R).erase (pgdirEntry p) = madeBy s0 (R.erase p) := by
      ext k
      rw [Finset.mem_erase, mem_madeBy, mem_madeBy]
      constructor
      · rintro ⟨hk, ⟨q, hq, rfl⟩, hnone⟩
        exact ⟨⟨q, Finset.mem_erase.mpr ⟨fun hc => hk (hc ▸ rfl), hq⟩, rfl⟩, hnone⟩
      · rintro ⟨⟨q, hq, rfl⟩, hnone⟩
        exact ⟨hempty q hq, ⟨q, Finset.mem_of_mem_erase hq, rfl⟩, hnone⟩
    exact ⟨s', hdrop, herase ▸ hover'⟩
  · have hsame : madeBy s0 R = madeBy s0 (R.erase p) := by
      ext k
      rw [mem_madeBy, mem_madeBy]
      refine and_congr_left fun hk => ⟨?_, ?_⟩
      · rintro ⟨q, hq, hqk⟩
        by_cases hqp : q = p
        · have hD : pgdirEntry p ∈ madeBy s0 R := mem_madeBy.mpr ⟨⟨p, hpR, rfl⟩, hqp ▸ hqk ▸ hk⟩
          by_contra hno
          refine hlast ⟨hD, fun q' hq' hc => hno ⟨q', hq', ?_⟩⟩
          rw [hc, ← hqk, hqp]
        · exact ⟨q, Finset.mem_erase.mpr ⟨hqp, hq⟩, hqk⟩
      · rintro ⟨q, hq, hqk⟩
        exact ⟨q, Finset.mem_of_mem_erase hq, hqk⟩
    have hmapped : ∃ q < windowPage, pgdirEntry q = pgdirEntry p ∧ s2.entry s2.cr3 q ≠ none := by
      by_cases hdir0 : s0.dirEntry (pgdirEntry p) = none
      · have hD : pgdirEntry p ∈ madeBy s0 R := mem_madeBy.mpr ⟨⟨p, hpR, rfl⟩, hdir0⟩
        by_contra hno
        refine hlast ⟨hD, fun q hq hc => hno ⟨q, (h.mapped q (Finset.mem_of_mem_erase hq)).1, hc, ?_⟩⟩
        rw [hover.entry q (h.mapped q (Finset.mem_of_mem_erase hq)).1, if_pos hq]
        nofun
      · obtain ⟨q, hq, hqi, hq0⟩ := hfull hdir0
        refine ⟨q, hq, hqi, ?_⟩
        rw [hover.entry q hq]
        split_ifs
        · nofun
        · exact hq0
    obtain ⟨q, hq, hqi, hq2⟩ := hmapped
    have he2 : ∃ e2, s2.dirEntry (pgdirEntry q) = some e2 := by
      by_contra hno
      rw [not_exists] at hno
      have hnone2 := Option.eq_none_iff_forall_ne_some.mpr hno
      rw [entry_eq, hnone2] at hq2
      exact hq2 rfl
    obtain ⟨e2, he2⟩ := he2
    refine ⟨s2, hqi ▸ dropTable_of_mapped hq he2 hq2, hsame ▸ hover⟩

end MemState

end UtkKernel.Memory
