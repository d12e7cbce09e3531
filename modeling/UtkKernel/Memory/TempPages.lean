import UtkKernel.Memory.Fork
import UtkKernel.Memory.Mappings

/-! # Pages that are mapped for a while

A function that works on the memory of another process maps its frames at free pages of the kernel. Here is
what stays true of two states, one of which has temporary pages, while both change in the same way outside of
the current address space. -/

namespace UtkKernel.Memory
open Structures Foundations
set_option autoImplicit false

namespace MemState

variable {s0 s s' : MemState} {new : ℕ → ℕ} {word : ℕ → Word} {freed dropped D R : Finset ℕ} {p f g i : ℕ}

/-- A frame in use outside of the current address space. -/
structure Elsewhere (s : MemState) (f : ℕ) : Prop where
  used : ¬ IsFree s.freeMemoryMap f
  plain : s.Plain f
  bound : f * kernelFrameSize + kernelFrameSize < 2 ^ 32
  managed : s.frameRef f ≠ none

/-- A page that can be mapped and unmapped again. -/
structure Spare (s : MemState) (p : ℕ) : Prop where
  lt : p < windowPage
  unmapped : s.entry s.cr3 p = none
  full : s.dirEntry (pgdirEntry p) ≠ none →
    ∃ q < windowPage, pgdirEntry q = pgdirEntry p ∧ s.entry s.cr3 q ≠ none

/-! ## Changes to both states -/

theorem dirEntry_of_mem (hmem : s'.mem = s.mem) (hcr3 : s'.cr3 = s.cr3) : s'.dirEntry i = s.dirEntry i := by
  unfold dirEntry
  rw [hmem, hcr3]

theorem plain_congr (hcr3 : s'.cr3 = s.cr3) (hdir : ∀ i, s'.dirEntry i = s.dirEntry i) : s'.Plain f ↔ s.Plain f := by
  unfold Plain
  rw [hcr3]
  simp only [hdir]

theorem Over.not_free (h : Over s0 new word ∅ dropped D R s) (hf : ¬ IsFree s0.freeMemoryMap f) :
    ¬ IsFree s.freeMemoryMap f := by
  rw [h.free]
  rintro (⟨hfree, -⟩ | hc)
  · exact hf hfree
  · exact Finset.notMem_empty f hc

/-- A frame that no temporary page maps has the same references. -/
theorem Over.frameRef_eq (h : Over s0 new word freed dropped D R s) (hf : ¬ IsFree s0.freeMemoryMap f)
    (hR : ∀ p ∈ R, (word p).frame ≠ f) : s.frameRef f = s0.frameRef f := by
  have hkept : f ∉ dropped := fun hc => hf (h.wasFree f hc)
  have hnone : mappers word R f = ∅ := Finset.filter_eq_empty_iff.mpr fun p hp => hR p hp
  rw [h.refs]
  simp only [hkept, if_false, hnone, Finset.card_empty, Nat.add_zero]
  exact Option.map_id'

theorem Over.memoryReleaseRef (h : Over s0 new word ∅ dropped D R s) (h0 : WholeFrames s0.freeMemoryMap)
    (hg : s0.Elsewhere g) (hR : ∀ p ∈ R, (word p).frame ≠ g) {r : FrameRef} (hr : s0.frameRef g = some r)
    (hpos : 0 < r.count) : ∃ t t', s0.memoryReleaseRef g = some t ∧ s.memoryReleaseRef g = some t' ∧
      ReleasedOne g r s0 t ∧ ReleasedOne g r s t' ∧ Over t new word ∅ dropped D R t' := by
  have hr' : s.frameRef g = some r := (h.frameRef_eq hg.used hR).trans hr
  have hnew : ∀ i ∈ D, g ≠ new i := fun i hi hc => hg.used (hc ▸ (h.made i hi).2.2)
  obtain ⟨t, ht, hrel⟩ := exists_memoryReleaseRef h0 hr hpos fun _ _ => ⟨hg.used, hg.bound⟩
  obtain ⟨t', ht', hrel'⟩ := exists_memoryReleaseRef h.whole hr' hpos fun _ _ => ⟨h.not_free hg.used, hg.bound⟩
  have hdir : ∀ i, t.dirEntry i = s0.dirEntry i := fun i => dirEntry_of_mem hrel.mem hrel.rest.cr3
  have hdir' : ∀ i, t'.dirEntry i = s.dirEntry i := fun i => dirEntry_of_mem hrel'.mem hrel'.rest.cr3
  have hmono : ∀ f, IsFree s0.freeMemoryMap f → IsFree t.freeMemoryMap f := fun f hf => (hrel.free f).mpr (.inl hf)
  have hrest := hrel.rest
  have hrest' := hrel'.rest
  refine ⟨t, t', ht, ht', hrel, hrel', ⟨⟨?_, ?_, ?_, ?_⟩, fun i hi => ?_, fun q hq => ?_,
    fun f hf hplain => ?_, fun k hk => ?_, hrel'.whole, fun f => ?_, fun f => ?_, fun i hi => ?_, h.madeInj, h.mapped,
    fun f hf => hmono f (h.wasFree f hf), by simp⟩⟩
  · rw [hrest'.processes, h.rest.processes, hrest.processes]
  · rw [hrest'.kernelPages, h.rest.kernelPages, hrest.kernelPages]
  · rw [hrest'.current, h.rest.current, hrest.current]
  · rw [hrest'.cr3, h.rest.cr3, hrest.cr3]
  · rw [hdir', hdir, h.dir i hi]
  · rw [entry_of_mem hrel'.mem, hrest'.cr3, entry_of_mem hrel.mem, hrest.cr3, h.entry q hq]
  · rw [hrel'.mem, hrel.mem]
    exact h.mem f (fun hc => hf (hmono f hc)) ((plain_congr hrest.cr3 hdir).mp hplain)
  · rw [hrel'.mem, hrel.mem, hrest.cr3, h.window k hk]
  · rw [hrel'.free, hrel.free, h.free]
    simp only [Finset.notMem_empty, or_false]
    constructor
    · rintro (⟨hfree, hne⟩ | ⟨rfl, hlast⟩)
      · exact ⟨.inl hfree, hne⟩
      · exact ⟨.inr ⟨rfl, hlast⟩, hnew⟩
    · rintro ⟨hfree | hlast, hne⟩
      · exact .inl ⟨hfree, hne⟩
      · exact .inr hlast
  · rw [hrel'.frameRef, hrel.frameRef]
    by_cases hf : f = g
    · have hkept : f ∉ dropped := fun hc => hg.used (hf ▸ h.wasFree f hc)
      have hnone : mappers word R f = ∅ := Finset.filter_eq_empty_iff.mpr fun p hp => hf ▸ hR p hp
      rw [if_pos hf, if_pos hf, Option.map_some, if_neg hkept, hnone]
      rfl
    · rw [if_neg hf, if_neg hf, h.refs]
  · rw [hdir]
    exact ⟨(h.made i hi).1, (h.made i hi).2.1, hmono _ (h.made i hi).2.2⟩

/-- A word outside of the current address space is written. -/
theorem Plain.dirEntry_setWord (hf : s.Plain f) (j : ℕ) (w : Word) : (s.setWord f j w).dirEntry i = s.dirEntry i := by
  unfold dirEntry
  show ((s.setWord f j w).mem s.cr3 i).seen = _
  rw [mem_setWord, if_neg fun hc => hf.1 hc.1.symm]

theorem Plain.entry_setWord (hf : s.Plain f) (j : ℕ) (w : Word) {q : ℕ} (hq : q < windowPage) :
    (s.setWord f j w).entry s.cr3 q = s.entry s.cr3 q := by
  refine (entry_eq (s.setWord f j w) q).trans ?_
  rw [hf.dirEntry_setWord, entry_eq]
  cases he : s.dirEntry (pgdirEntry q) with
  | none => rfl
  | some e =>
    have hne : e.frame ≠ f := hf.2 _ e (pgdirEntry_lt_of_lt hq) he
    rw [Option.bind_some, Option.bind_some, mem_setWord, if_neg fun hc => hne hc.1]

theorem Over.plain (h : Over s0 new word freed dropped D R s) (hf : ¬ IsFree s0.freeMemoryMap f) (hplain : s0.Plain f) :
    s.Plain f :=
  ⟨fun hc => hplain.1 (hc.trans h.rest.cr3), fun _ _ hi he => h.frame_ne hi he hf hplain⟩

theorem Over.setWord (h : Over s0 new word freed dropped D R s) (hf : ¬ IsFree s0.freeMemoryMap f) (hplain : s0.Plain f)
    (j : ℕ) (w : Word) : Over (s0.setWord f j w) new word freed dropped D R (s.setWord f j w) := by
  have hplain' := h.plain hf hplain
  have hdir : ∀ i, (s0.setWord f j w).dirEntry i = s0.dirEntry i := fun i => hplain.dirEntry_setWord j w
  have hsame : ∀ g, (s0.setWord f j w).Plain g ↔ s0.Plain g := fun g => plain_congr rfl hdir
  have hrest := h.rest
  refine ⟨⟨hrest.processes, hrest.kernelPages, hrest.current, hrest.cr3⟩, fun i hi => ?_, fun q hq => ?_,
    fun g hg hg' => ?_, fun k hk => ?_, h.whole, h.free, h.refs, fun i hi => ?_, h.madeInj, h.mapped, h.wasFree,
    fun g hg => ?_⟩
  · rw [hplain'.dirEntry_setWord, hdir, h.dir i hi]
  · refine (hplain'.entry_setWord j w hq).trans ((h.entry q hq).trans ?_)
    split_ifs
    · rfl
    · exact (hplain.entry_setWord j w hq).symm
  · funext k
    rw [mem_setWord, mem_setWord, h.mem g hg ((hsame g).mp hg')]
  · show (s.setWord f j w).mem s0.cr3 k = (s0.setWord f j w).mem s0.cr3 k
    rw [mem_setWord, mem_setWord, h.window k hk]
  · rw [hdir]
    exact h.made i hi
  · rw [hsame]
    exact h.wasUsed g hg

/-- Pages go back to a process. -/
theorem Over.freePagesTo (h : Over s0 new word freed dropped D R s) {pid addr count : ℕ} {t : MemState}
    (ht : s0.freePagesTo pid addr count = some t) :
    ∃ t', s.freePagesTo pid addr count = some t' ∧ Over t new word freed dropped D R t' := by
  unfold MemState.freePagesTo at ht ⊢
  obtain ⟨p, hp, hadd⟩ := Option.bind_eq_some_iff.mp ht
  obtain ⟨list, hlist, rfl⟩ := Option.map_eq_some_iff.mp hadd
  rw [h.rest.processes, hp, Option.bind_some, hlist]
  exact ⟨_, rfl, ⟨⟨rfl, h.rest.kernelPages, h.rest.current, h.rest.cr3⟩, h.dir, h.entry, h.mem, h.window, h.whole,
    h.free, h.refs, h.made, h.madeInj, h.mapped, h.wasFree, h.wasUsed⟩⟩

/-! ## Temporary pages -/

theorem madeBy_congr (hdir : ∀ i, s'.dirEntry i = s.dirEntry i) : madeBy s' R = madeBy s R := by
  unfold madeBy
  simp only [hdir]

/-- The words of other pages do not matter. -/
theorem Over.congr_word {word' : ℕ → Word} (h : Over s0 new word freed dropped D R s)
    (hword : ∀ p ∈ R, word' p = word p) : Over s0 new word' freed dropped D R s := by
  have hmappers : ∀ f, mappers word' R f = mappers word R f := fun f =>
    Finset.filter_congr fun p hp => by rw [hword p hp]
  refine ⟨h.rest, h.dir, fun q hq => ?_, h.mem, h.window, h.whole, h.free, fun f => ?_, h.made, h.madeInj,
    fun p hp => ?_, h.wasFree, fun f hf => ?_⟩
  · rw [h.entry q hq]
    split_ifs with hR
    · rw [hword q hR]
    · rfl
  · rw [h.refs, hmappers]
  · rw [hword p hp]
    exact h.mapped p hp
  · obtain ⟨hused, hplain, hall⟩ := h.wasUsed f hf
    exact ⟨hused, hplain, fun p hp => by rw [hword p hp]; exact hall p hp⟩

theorem Over.congr_new {new' : ℕ → ℕ} (h : Over s0 new word freed dropped D R s) (hnew : ∀ i ∈ D, new' i = new i) :
    Over s0 new' word freed dropped D R s := by
  refine ⟨h.rest, fun i hi => ?_, h.entry, h.mem, h.window, h.whole, fun f => ?_, h.refs, fun i hi => ?_,
    fun i hi j hj heq => ?_, h.mapped, h.wasFree, h.wasUsed⟩
  · rw [h.dir i hi]
    split_ifs with hD
    · rw [hnew i hD]
    · rfl
  · rw [h.free]
    refine or_congr_left (and_congr_right fun _ => forall₂_congr fun i hi => ?_)
    rw [hnew i hi]
  · rw [hnew i hi]
    exact h.made i hi
  · rw [hnew i hi, hnew j hj] at heq
    exact h.madeInj i hi j hj heq

/-- The flags of a temporary page. -/
def tempFlags : BitVec 12 := mmapFlags false true false

theorem mapTempOrPanic_eq (h : s.entry s.cr3 p = none) : s.mapTempOrPanic p f = s.mapPage p f tempFlags := by
  have hmapped : s.isMapped p 1 = false := by
    unfold isMapped
    rw [List.range_one, List.any_cons, List.any_nil, Nat.add_zero, h]
    rfl
  unfold mapTempOrPanic mapTemp kernelMmapInternal
  rw [hmapped]
  show ((MemState.mapPages tempFlags p f 1 s).map _).bind _ = _
  unfold MemState.mapPages
  cases s.mapPage p f tempFlags with
  | none => rfl
  | some s1 => rfl

/-- A frame is mapped at a page that was not mapped; it had room for another reference. -/
theorem Over.mapTempOrPanic (h : Over s0 new word ∅ dropped (madeBy s0 R) R s) (h0 : InOrder s0) (hp : Spare s0 p)
    (hpR : p ∉ R) (hf : ¬ IsFree s0.freeMemoryMap f) (hR : ∀ q ∈ R, (word q).frame ≠ f)
    (hword : word p = Word.page f tempFlags) (hmap : s.mapTempOrPanic p f = some s') :
    (∃ new', Over s0 new' word ∅ dropped (madeBy s0 (insert p R)) (insert p R) s' ∧
      ∀ i ∈ madeBy s0 R, new' i = new i) ∧
    ∃ r, s0.frameRef f = some r ∧ r.count + 1 ≠ frameRefCountMask := by
  have hnone : s.entry s.cr3 p = none := by
    rw [h.entry p hp.lt, if_neg hpR, hp.unmapped]
  rw [mapTempOrPanic_eq hnone] at hmap
  refine ⟨?_, ?_⟩
  · obtain ⟨new', hover, hnew, -⟩ := h.mapPage h0.apart hp.lt hpR hword (fun hc => hf (h.wasFree f hc)) hmap
    exact ⟨new', hover, hnew⟩
  · rw [mapPage_eq hp.lt] at hmap
    obtain ⟨s1, hcreate, hacquire⟩ := Option.bind_eq_some_iff.mp hmap
    unfold memoryAcquireRef at hacquire
    obtain ⟨r, hr, hbody⟩ := Option.bind_eq_some_iff.mp hacquire
    refine ⟨r, ?_, fun hfull => ?_⟩
    · rw [← h.frameRef_eq hf hR, ← frameRef_createTable hcreate]
      exact hr
    · rw [if_pos hfull] at hbody
      cases hbody

/-- Frames that are free without the temporary pages are enough for their page tables. -/
theorem Over.exists_takeFrames (h : Over s0 new word freed dropped D R s) {F : Finset ℕ}
    (hF : ∀ f ∈ F, IsFree s0.freeMemoryMap f) (hcard : D.card < F.card) : ∃ r, takeFrames 1 s.freeMemoryMap = some r := by
  obtain ⟨f, hf, hnew⟩ : ∃ f ∈ F, f ∉ D.image new := by
    by_contra hall
    push Not at hall
    exact absurd (Finset.card_le_card hall) (not_le.mpr (lt_of_le_of_lt Finset.card_image_le hcard))
  refine h.whole.exists_takeFrames ((h.free f).mpr (.inl ⟨hF f hf, fun i hi hc => hnew ?_⟩))
  rw [hc]
  exact Finset.mem_image_of_mem new hi

theorem Over.exists_mapTempOrPanic (h : Over s0 new word ∅ dropped (madeBy s0 R) R s) (hp : Spare s0 p)
    (hpR : p ∉ R) (hf : ¬ IsFree s0.freeMemoryMap f) (hR : ∀ q ∈ R, (word q).frame ≠ f) {F : Finset ℕ}
    (hF : ∀ f ∈ F, IsFree s0.freeMemoryMap f) (hcard : (madeBy s0 (insert p R)).card ≤ F.card)
    (hcount : ∃ r, s0.frameRef f = some r ∧ r.count + 1 ≠ frameRefCountMask) :
    ∃ s', s.mapTempOrPanic p f = some s' := by
  have hnone : s.entry s.cr3 p = none := by
    rw [h.entry p hp.lt, if_neg hpR, hp.unmapped]
  rw [mapTempOrPanic_eq hnone]
  refine h.exists_mapPage tempFlags hp.lt (fun hdir hmade => ?_) (fun hc => hf (h.wasFree f hc)) ?_
  · have hmore : madeBy s0 R ⊂ madeBy s0 (insert p R) := by
      refine ⟨fun i hi => ?_, fun hc => hmade (hc ?_)⟩
      · obtain ⟨⟨q, hq, hqi⟩, hi⟩ := mem_madeBy.mp hi
        exact mem_madeBy.mpr ⟨⟨q, Finset.mem_insert_of_mem hq, hqi⟩, hi⟩
      · exact mem_madeBy.mpr ⟨⟨p, Finset.mem_insert_self .., rfl⟩, hdir⟩
    exact h.exists_takeFrames hF (lt_of_lt_of_le (Finset.card_lt_card hmore) hcard)
  · obtain ⟨r, hr, hroom⟩ := hcount
    have hzero : mappers word R f = ∅ := Finset.filter_eq_empty_iff.mpr fun q hq => hR q hq
    refine ⟨r, hr, ?_⟩
    rwa [hzero]

/-! ## The order of the free frames -/

theorem descending_memoryFreeFrames (hd : Descending s.freeMemoryMap)
    (hbound : f * kernelFrameSize + kernelFrameSize < 2 ^ 32) (h : s.memoryFreeFrames f 1 = some s') :
    ¬ IsFree s.freeMemoryMap f ∧ Descending s'.freeMemoryMap ∧
      ∀ g, IsFree s'.freeMemoryMap g ↔ IsFree s.freeMemoryMap g ∨ g = f := by
  unfold memoryFreeFrames memoryFreeFramesAt at h
  obtain ⟨list, hlist, hbody⟩ := Option.bind_eq_some_iff.mp h
  obtain ⟨hf, hdesc, hfree⟩ := hd.addBlock_one hbound hlist
  rw [if_neg one_ne_zero] at hbody
  obtain ⟨r, -, rfl⟩ := Option.map_eq_some_iff.mp hbody
  exact ⟨hf, hdesc, hfree⟩

theorem rest_memoryReleaseRef (h : s.memoryReleaseRef f = some s') : SameRest s s' ∧ s'.mem = s.mem := by
  unfold MemState.memoryReleaseRef at h
  obtain ⟨r, hr, hbody⟩ := Option.bind_eq_some_iff.mp h
  split_ifs at hbody
  · obtain ⟨list, r', -, rfl⟩ := memoryFreeFrames_one_eq_some hbody
    exact ⟨⟨rfl, rfl, rfl, rfl⟩, rfl⟩
  · cases hbody
    exact ⟨⟨rfl, rfl, rfl, rfl⟩, rfl⟩

theorem rest_mapPage {flags : BitVec 12} (h : s.mapPage p f flags = some s') : SameRest s s' := by
  unfold MemState.mapPage at h
  split_ifs at h
  obtain ⟨s1, hcreate, hacquire⟩ := Option.bind_eq_some_iff.mp h
  obtain ⟨r, -, rfl⟩ := memoryAcquireRef_eq_some hacquire
  unfold MemState.createTable at hcreate
  split_ifs at hcreate
  · cases hcreate
    exact ⟨rfl, rfl, rfl, rfl⟩
  · obtain ⟨⟨t, s2⟩, halloc, rfl⟩ := Option.map_eq_some_iff.mp hcreate
    obtain ⟨r, -, heq⟩ := Option.map_eq_some_iff.mp halloc
    cases heq
    exact ⟨rfl, rfl, rfl, rfl⟩

theorem rest_dropTable (h : s.dropTable i = some s') : SameRest s s' := by
  unfold MemState.dropTable at h
  split_ifs at h
  · obtain ⟨s1, hs1, rfl⟩ := Option.map_eq_some_iff.mp h
    obtain ⟨list, r, -, rfl⟩ := memoryFreeFrames_one_eq_some hs1
    exact ⟨rfl, rfl, rfl, rfl⟩
  · cases h
    exact SameRest.refl s

theorem rest_unmapPage (h : s.unmapPage p = some s') : SameRest s s' := by
  unfold MemState.unmapPage at h
  dsimp only at h
  split_ifs at h
  · obtain ⟨s1, hrelease, hdrop⟩ := Option.bind_eq_some_iff.mp h
    have hrest := (rest_memoryReleaseRef hrelease).1
    have hdropped := rest_dropTable hdrop
    exact ⟨hdropped.processes.trans hrest.processes, hdropped.kernelPages.trans hrest.kernelPages,
      hdropped.current.trans hrest.current, hdropped.cr3.trans hrest.cr3⟩
  · exact rest_dropTable h
  · cases h
    exact SameRest.refl s

theorem memoryFreeFrames_isFree (hd : Descending s.freeMemoryMap) (hf : IsFree s.freeMemoryMap f) :
    s.memoryFreeFrames f 1 = none := by
  unfold memoryFreeFrames memoryFreeFramesAt
  rw [hd.addBlock_isFree hf]
  rfl

theorem descending_memoryReleaseRef (hd : Descending s.freeMemoryMap)
    (hbound : f * kernelFrameSize + kernelFrameSize < 2 ^ 32) (h : s.memoryReleaseRef f = some s') :
    Descending s'.freeMemoryMap := by
  unfold MemState.memoryReleaseRef at h
  obtain ⟨r, hr, hbody⟩ := Option.bind_eq_some_iff.mp h
  split_ifs at hbody
  · have hd' : Descending (s.setRef f { r with count := r.count - 1 }).freeMemoryMap := hd
    exact (descending_memoryFreeFrames hd' hbound hbody).2.1
  · cases hbody
    exact hd

theorem descending_createTable (hd : Descending s.freeMemoryMap) (h : s.createTable i = some s') :
    Descending s'.freeMemoryMap := by
  unfold MemState.createTable at h
  split_ifs at h
  · cases h
    exact hd
  · obtain ⟨⟨t, s1⟩, halloc, rfl⟩ := Option.map_eq_some_iff.mp h
    obtain ⟨r, hget, heq⟩ := Option.map_eq_some_iff.mp halloc
    cases heq
    exact hd.getBlock (by decide) hget

theorem descending_mapPage {flags : BitVec 12} (hd : Descending s.freeMemoryMap) (hp : p < windowPage)
    (h : s.mapPage p f flags = some s') : Descending s'.freeMemoryMap := by
  rw [mapPage_eq hp] at h
  obtain ⟨s1, hcreate, hacquire⟩ := Option.bind_eq_some_iff.mp h
  obtain ⟨r, -, rfl⟩ := memoryAcquireRef_eq_some hacquire
  have hd' : Descending s1.freeMemoryMap := descending_createTable hd hcreate
  exact hd'

theorem descending_dropTable (hd : Descending s.freeMemoryMap)
    (hbound : (s.mem s.cr3 i).frame * kernelFrameSize + kernelFrameSize < 2 ^ 32) (h : s.dropTable i = some s') :
    Descending s'.freeMemoryMap := by
  unfold MemState.dropTable at h
  split_ifs at h
  · obtain ⟨s1, hs1, rfl⟩ := Option.map_eq_some_iff.mp h
    exact (descending_memoryFreeFrames hd hbound hs1).2.1
  · cases h
    exact hd

theorem descending_unmapPage (hd : Descending s.freeMemoryMap) (hp : p < windowPage)
    (hframe : ∀ e, s.entry s.cr3 p = some e → e.frame * kernelFrameSize + kernelFrameSize < 2 ^ 32)
    (htable : ∀ e, s.dirEntry (pgdirEntry p) = some e →
      e.frame * kernelFrameSize + kernelFrameSize < 2 ^ 32 ∧ e.frame ≠ s.cr3)
    (h : s.unmapPage p = some s') : Descending s'.freeMemoryMap := by
  unfold MemState.unmapPage at h
  rw [if_neg (pgdirEntry_lt_of_lt hp).ne] at h
  cases hdir : s.dirEntry (pgdirEntry p) with
  | none =>
    have habsent := Word.seen_eq_none hdir
    rw [if_neg (by rw [habsent]; exact Bool.false_ne_true)] at h
    cases h
    exact hd
  | some e =>
    obtain ⟨hpresent, hword⟩ := dirEntry_eq_some hdir
    obtain ⟨hbound, hne⟩ := htable e hdir
    rw [if_pos hpresent, hword] at h
    dsimp only at h
    split_ifs at h with hmapped
    · obtain ⟨s1, hrelease, hdrop⟩ := Option.bind_eq_some_iff.mp h
      obtain ⟨hrest, hmem⟩ := rest_memoryReleaseRef hrelease
      have hentry : s.entry s.cr3 p = some (s.mem e.frame (pgtableEntry p)) := by
        rw [entry_eq, hdir, Option.bind_some, Word.seen_of_present hmapped]
      have hd1 : Descending s1.freeMemoryMap := descending_memoryReleaseRef hd (hframe _ hentry) hrelease
      have hsame : (s1.setWord e.frame (pgtableEntry p) Word.zero).mem s1.cr3 (pgdirEntry p) = e := by
        rw [mem_setWord, if_neg fun hc => hne (hc.1.symm.trans hrest.cr3), hmem, hrest.cr3, hword]
      have hbound1 : ((s1.setWord e.frame (pgtableEntry p) Word.zero).mem s1.cr3 (pgdirEntry p)).frame *
          kernelFrameSize + kernelFrameSize < 2 ^ 32 := by rwa [hsame]
      have hd2 : Descending (s1.setWord e.frame (pgtableEntry p) Word.zero).freeMemoryMap := hd1
      exact descending_dropTable hd2 hbound1 hdrop
    · exact descending_dropTable hd (by rwa [hword]) h

end MemState

end UtkKernel.Memory
