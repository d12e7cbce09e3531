import UtkKernel.Memory.Mappings
import UtkKernel.Memory.System

/-! # Mapping a range and unmapping it again

The loops of `kernel_mmap_internal` and `memory_munmap` over a range of pages, and what one after the other
leaves. -/

namespace UtkKernel.Memory
open Structures Foundations
set_option autoImplicit false

namespace MemState

variable {s0 s s' : MemState} {new : ℕ → ℕ} {word : ℕ → Word} {freed dropped : Finset ℕ}
  {page frame count k : ℕ} {flags : BitVec 12}

/-! ## Mapping -/

/-- The entries that map the pages from `page` on to the frames from `frame` on. -/
def direct (page frame : ℕ) (flags : BitVec 12) (q : ℕ) : Word := Word.page (frame + (q - page)) flags

theorem direct_frame (q : ℕ) : (direct page frame flags q).frame = frame + (q - page) := rfl

theorem direct_add : direct page frame flags (page + k) = Word.page (frame + k) flags := by
  unfold direct
  rw [Nat.add_sub_cancel_left]

/-- Frames are mapped once. -/
theorem mappers_direct : mappers (direct page frame flags) (Finset.Ico page (page + k)) (frame + k) = ∅ := by
  unfold mappers
  refine Finset.filter_eq_empty_iff.mpr fun q hq hc => ?_
  rw [Finset.mem_Ico] at hq
  rw [direct_frame] at hc
  omega

theorem Ico_add_one (page k : ℕ) :
    Finset.Ico page (page + (k + 1)) = insert (page + k) (Finset.Ico page (page + k)) := by
  ext q
  simp only [Finset.mem_insert, Finset.mem_Ico]
  omega

theorem exists_frameRef_of_mapPage {p : ℕ} (hp : p < windowPage) (h : s.mapPage p frame flags = some s') :
    ∃ r, s.frameRef frame = some r ∧ r.count + 1 ≠ frameRefCountMask := by
  rw [mapPage_eq hp] at h
  obtain ⟨s1, hcreate, hacquire⟩ := Option.bind_eq_some_iff.mp h
  unfold memoryAcquireRef at hacquire
  obtain ⟨r, hr, hbody⟩ := Option.bind_eq_some_iff.mp hacquire
  refine ⟨r, ?_, fun hfull => ?_⟩
  · rw [← frameRef_createTable hcreate]
    exact hr
  · rw [if_pos hfull] at hbody
    cases hbody

/-- The loop of `kernel_mmap_internal`. -/
theorem Over.mapPages
    (h : Over s0 new (direct page frame flags) ∅ ∅ (madeBy s0 (Finset.Ico page (page + k)))
      (Finset.Ico page (page + k)) s)
    (htaken : Taken s0 new (madeBy s0 (Finset.Ico page (page + k))) s) (h0 : Apart s0)
    (hlimit : page + (k + count) ≤ windowPage)
    (hmap : MemState.mapPages flags (page + k) (frame + k) count s = some s') :
    (∃ new', Over s0 new' (direct page frame flags) ∅ ∅ (madeBy s0 (Finset.Ico page (page + (k + count))))
      (Finset.Ico page (page + (k + count))) s' ∧
      Taken s0 new' (madeBy s0 (Finset.Ico page (page + (k + count)))) s') ∧
    ∀ j < count, ∃ r, s0.frameRef (frame + (k + j)) = some r ∧ r.count + 1 ≠ frameRefCountMask := by
  induction count generalizing k s new with
  | zero =>
    cases hmap
    exact ⟨⟨new, h, htaken⟩, nofun⟩
  | succ count ih =>
    obtain ⟨s1, hmap1, hrest⟩ := Option.bind_eq_some_iff.mp hmap
    have hp : page + k < windowPage := by omega
    obtain ⟨r, hr, hfull⟩ := exists_frameRef_of_mapPage hp hmap1
    have href := h.refs (frame + k)
    rw [hr, mappers_direct] at href
    obtain ⟨new1, h1, -, htaken1⟩ := h.mapPage h0 hp (by simp) direct_add (Finset.notMem_empty _) hmap1
    rw [← Ico_add_one] at h1 htaken1
    have hcount : k + 1 + count = k + (count + 1) := by omega
    obtain ⟨hover, hrefs⟩ := ih h1 (htaken1 htaken) (hcount ▸ hlimit) hrest
    rw [hcount] at hover
    refine ⟨hover, fun j hj => ?_⟩
    cases j with
    | zero =>
      obtain ⟨r0, hr0, rfl⟩ := Option.map_eq_some_iff.mp href.symm
      exact ⟨r0, hr0, by simpa using hfull⟩
    | succ j =>
      obtain hall := hrefs j (Nat.lt_of_succ_lt_succ hj)
      rwa [show k + 1 + j = k + (j + 1) by omega] at hall

theorem Taken.exists_takeFrames {D : Finset ℕ} (h : Taken s0 new D s) {m : ℕ} (hm : D.card < m)
    {r : List ℕ × List Block} (hr : takeFrames m s0.freeMemoryMap = some r) :
    ∃ r', takeFrames 1 s.freeMemoryMap = some r' := by
  obtain ⟨frames, hframes, -⟩ := h
  obtain ⟨n, rfl⟩ : ∃ n, m = D.card + (1 + n) := ⟨m - D.card - 1, by omega⟩
  rw [takeFrames_add, hframes, Option.bind_some, takeFrames_add] at hr
  obtain ⟨t, ht, -⟩ := Option.map_eq_some_iff.mp hr
  obtain ⟨r', hr', -⟩ := Option.bind_eq_some_iff.mp ht
  exact ⟨r', hr'⟩

theorem madeBy_mono {R R' : Finset ℕ} (h : R ⊆ R') : madeBy s0 R ⊆ madeBy s0 R' := by
  intro i hi
  obtain ⟨⟨q, hq, hqi⟩, hnone⟩ := mem_madeBy.mp hi
  exact mem_madeBy.mpr ⟨⟨q, h hq, hqi⟩, hnone⟩

theorem Over.exists_mapPages
    (h : Over s0 new (direct page frame flags) ∅ ∅ (madeBy s0 (Finset.Ico page (page + k)))
      (Finset.Ico page (page + k)) s)
    (htaken : Taken s0 new (madeBy s0 (Finset.Ico page (page + k))) s) (h0 : Apart s0)
    (hlimit : page + (k + count) ≤ windowPage) {r : List ℕ × List Block}
    (hr : takeFrames (madeBy s0 (Finset.Ico page (page + (k + count)))).card s0.freeMemoryMap = some r)
    (hrefs : ∀ j < count, ∃ r, s0.frameRef (frame + (k + j)) = some r ∧ r.count + 1 ≠ frameRefCountMask) :
    ∃ s', MemState.mapPages flags (page + k) (frame + k) count s = some s' := by
  induction count generalizing k s new with
  | zero => exact ⟨s, rfl⟩
  | succ count ih =>
    have hp : page + k < windowPage := by omega
    have hroom : s0.dirEntry (pgdirEntry (page + k)) = none →
        pgdirEntry (page + k) ∉ madeBy s0 (Finset.Ico page (page + k)) →
          ∃ r, takeFrames 1 s.freeMemoryMap = some r := by
      intro hnone hnot
      have hin : pgdirEntry (page + k) ∈ madeBy s0 (Finset.Ico page (page + (k + (count + 1)))) :=
        mem_madeBy.mpr ⟨⟨page + k, by simp, rfl⟩, hnone⟩
      have hsub : madeBy s0 (Finset.Ico page (page + k)) ⊆
          madeBy s0 (Finset.Ico page (page + (k + (count + 1)))) :=
        madeBy_mono (Finset.Ico_subset_Ico_right (by omega))
      exact htaken.exists_takeFrames (Finset.card_lt_card ⟨hsub, fun hc => hnot (hc hin)⟩) hr
    obtain ⟨r0, hr0, hfull⟩ := hrefs 0 (Nat.succ_pos _)
    obtain ⟨s1, hs1⟩ := h.exists_mapPage flags hp hroom (Finset.notMem_empty (frame + k))
      ⟨r0, hr0, by rwa [mappers_direct]⟩
    obtain ⟨new1, h1, -, htaken1⟩ := h.mapPage h0 hp (by simp) direct_add (Finset.notMem_empty _) hs1
    rw [← Ico_add_one] at h1 htaken1
    have hcount : k + 1 + count = k + (count + 1) := by omega
    obtain ⟨s', hs'⟩ := ih h1 (htaken1 htaken) (hcount ▸ hlimit) (hcount ▸ hr) fun j hj => by
      rw [show k + 1 + j = k + (j + 1) by omega]
      exact hrefs (j + 1) (Nat.succ_lt_succ hj)
    refine ⟨s', ?_⟩
    show (s.mapPage (page + k) (frame + k) flags).bind _ = some s'
    rw [hs1]
    exact hs'

/-! ## Unmapping -/

/-- What unmapping a page asks of the state before it was mapped. -/
structure Unmappable (s0 : MemState) (word : ℕ → Word) (p : ℕ) : Prop where
  unmapped : s0.entry s0.cr3 p = none
  full : s0.dirEntry (pgdirEntry p) ≠ none →
    ∃ q < windowPage, pgdirEntry q = pgdirEntry p ∧ s0.entry s0.cr3 q ≠ none
  managed : s0.frameRef (word p).frame ≠ none
  unreferenced : s0.frameRef (word p).frame = some ⟨false, 0⟩ → Unreferenced s0 (word p).frame

/-- The frames of the pages that had no reference before they were mapped. -/
def FreedOf (s0 : MemState) (word : ℕ → Word) (R : Finset ℕ) (f : ℕ) : Prop :=
  s0.frameRef f = some ⟨false, 0⟩ ∧ ∃ p ∈ R, (word p).frame = f

theorem Ico_erase_left (page count : ℕ) :
    (Finset.Ico page (page + (count + 1))).erase page = Finset.Ico (page + 1) (page + 1 + count) := by
  ext q
  simp only [Finset.mem_erase, Finset.mem_Ico]
  omega

theorem freedOf_erase {R : Finset ℕ} {p f : ℕ} (hp : p ∈ R) :
    f ∈ freedBy s0 word freed R p ∨ FreedOf s0 word (R.erase p) f ↔ f ∈ freed ∨ FreedOf s0 word R f := by
  have hfirst : f ∈ freedBy s0 word freed R p ↔ f ∈ freed ∨
      (s0.frameRef f = some ⟨false, 0⟩ ∧ (word p).frame = f ∧ ∀ q ∈ R.erase p, (word q).frame ≠ f) := by
    unfold freedBy
    split_ifs with hlast
    · rw [Finset.mem_insert, or_comm]
      refine or_congr_right ⟨?_, fun h => h.2.1.symm⟩
      rintro rfl
      exact ⟨hlast.1, rfl, hlast.2⟩
    · refine (or_iff_left ?_).symm
      rintro ⟨hzero, rfl, hall⟩
      exact hlast ⟨hzero, hall⟩
  rw [hfirst, or_assoc]
  refine or_congr_right ⟨?_, ?_⟩
  · rintro (⟨hzero, hframe, -⟩ | ⟨hzero, q, hq, hframe⟩)
    · exact ⟨hzero, p, hp, hframe⟩
    · exact ⟨hzero, q, Finset.mem_of_mem_erase hq, hframe⟩
  · rintro ⟨hzero, q, hq, hframe⟩
    by_cases hall : ∀ q ∈ R.erase p, (word q).frame ≠ f
    · obtain rfl : q = p := by
        by_contra hne
        exact hall q (Finset.mem_erase.mpr ⟨hne, hq⟩) hframe
      exact .inl ⟨hzero, hframe, hall⟩
    · push Not at hall
      obtain ⟨q', hq', hframe'⟩ := hall
      exact .inr ⟨hzero, q', hq', hframe'⟩

/-- The loop of `memory_munmap`, over pages that were mapped after the start. -/
theorem Over.unmapPages
    (h : Over s0 new word freed dropped (madeBy s0 (Finset.Ico page (page + count)))
      (Finset.Ico page (page + count)) s) (h0 : InOrder s0)
    (hpages : ∀ p, page ≤ p → p < page + count → Unmappable s0 word p)
    (hkept : ∀ p, page ≤ p → p < page + count → (word p).frame ∉ dropped ∧
      ∀ i ∈ madeBy s0 (Finset.Ico page (page + count)), (word p).frame ≠ new i) :
    ∃ s' freed' dropped', MemState.unmapPages page count s = some s' ∧
      Over s0 new word freed' dropped' ∅ ∅ s' ∧
      (∀ f, f ∈ freed' ↔ f ∈ freed ∨ FreedOf s0 word (Finset.Ico page (page + count)) f) ∧
      ∀ f ∈ dropped', f ∈ dropped ∨ ∃ i ∈ madeBy s0 (Finset.Ico page (page + count)), f = new i := by
  induction count generalizing page s freed dropped with
  | zero =>
    rw [Nat.add_zero, Finset.Ico_self] at h ⊢
    have hnone : madeBy s0 ∅ = ∅ := by simp [madeBy]
    rw [hnone] at h ⊢
    exact ⟨s, freed, dropped, rfl, h, fun f => by simp [FreedOf], fun f hf => .inl hf⟩
  | succ count ih =>
    have hin : page ∈ Finset.Ico page (page + (count + 1)) := by simp
    have hpage := hpages page le_rfl (by omega)
    obtain ⟨s1, hs1, h1⟩ := h.unmapPage h0 hin hpage.unmapped hpage.full hpage.managed
      (hkept page le_rfl (by omega)).1 hpage.unreferenced
    have hdropped : ∀ f ∈ droppedBy s0 new dropped (Finset.Ico page (page + (count + 1))) page,
        f ∈ dropped ∨ ∃ i ∈ madeBy s0 (Finset.Ico page (page + (count + 1))), f = new i := by
      intro f hf
      unfold droppedBy at hf
      split_ifs at hf with hlast
      · obtain hnew | hf := Finset.mem_insert.mp hf
        · exact .inr ⟨_, hlast.1, hnew⟩
        · exact .inl hf
      · exact .inl hf
    have hmade : madeBy s0 (Finset.Ico (page + 1) (page + 1 + count)) ⊆
        madeBy s0 (Finset.Ico page (page + (count + 1))) :=
      madeBy_mono (Finset.Ico_subset_Ico (Nat.le_succ page) (by omega))
    have hfreed := fun f => @freedOf_erase s0 word freed _ _ f hin
    rw [Ico_erase_left] at h1 hfreed
    obtain ⟨s', freed', dropped', hs', h', hfreed', hdropped'⟩ := ih h1
      (fun p hle hlt => hpages p (by omega) (by omega)) fun p hle hlt => by
        obtain ⟨hold, hnew⟩ := hkept p (by omega) (by omega)
        refine ⟨fun hc => ?_, fun i hi => hnew i (hmade hi)⟩
        obtain hc | ⟨i, hi, hc⟩ := hdropped _ hc
        · exact hold hc
        · exact hnew i hi hc
    refine ⟨s', freed', dropped', ?_, h', fun f => ?_, fun f hf => ?_⟩
    · show (s.unmapPage page).bind _ = some s'
      rw [hs1]
      exact hs'
    · rw [hfreed', hfreed]
    · obtain hf | ⟨i, hi, hf⟩ := hdropped' f hf
      · exact hdropped f hf
      · exact .inr ⟨i, hmade hi, hf⟩

/-! ## A page table that is dropped -/

/-- The frame of a page table loses its count when the page table leaves the directory. -/
structure Doomed (i f : ℕ) (s : MemState) : Prop where
  apart : ∀ k e, k < kernelPgdirSize - 1 → s.dirEntry k = some e → e.frame ≠ s.cr3
  table : s.dirEntry i = some (Word.pgDir f) ∨ ∃ r, s.frameRef f = some r ∧ r.count = 0

section
variable {i f g : ℕ}

/-- The page directory is the same, and a count of zero stays. -/
theorem Doomed.of_same (h : Doomed i f s) (hmem : s'.mem s.cr3 = s.mem s.cr3) (hcr3 : s'.cr3 = s.cr3)
    (hcount : (∃ r, s.frameRef f = some r ∧ r.count = 0) → ∃ r, s'.frameRef f = some r ∧ r.count = 0) :
    Doomed i f s' := by
  have hdir : ∀ k, s'.dirEntry k = s.dirEntry k := by
    intro k
    unfold dirEntry
    rw [hcr3, hmem]
  refine ⟨fun k e hk he => ?_, ?_⟩
  · rw [hdir] at he
    rw [hcr3]
    exact h.apart k e hk he
  · rw [hdir]
    exact h.table.imp_right hcount

theorem Doomed.memoryFreeFrames (h : Doomed i f s) (hfree : s.memoryFreeFrames g 1 = some s') :
    Doomed i f s' ∧ ∃ r, s'.frameRef g = some r ∧ r.count = 0 := by
  obtain ⟨list, r, hr, rfl⟩ := memoryFreeFrames_one_eq_some hfree
  refine ⟨h.of_same rfl rfl fun hzero => ?_, { r with count := 0 }, ?_, rfl⟩
  · rw [frameRef_setRef]
    split_ifs
    · exact ⟨_, rfl, rfl⟩
    · exact hzero
  · rw [frameRef_setRef, if_pos rfl]

theorem Doomed.memoryReleaseRef (h : Doomed i f s) (hrelease : s.memoryReleaseRef g = some s') :
    Doomed i f s' := by
  unfold MemState.memoryReleaseRef at hrelease
  obtain ⟨r, hr, hbody⟩ := Option.bind_eq_some_iff.mp hrelease
  split_ifs at hbody with hzero hlast
  · have hlowered : Doomed i f (s.setRef g { r with count := r.count - 1 }) := by
      refine h.of_same rfl rfl ?_
      rintro ⟨r', hr', hcount⟩
      rw [frameRef_setRef]
      split_ifs
      · exact ⟨_, rfl, hlast.1⟩
      · exact ⟨r', hr', hcount⟩
    exact (hlowered.memoryFreeFrames hbody).1
  · cases hbody
    refine h.of_same rfl rfl ?_
    rintro ⟨r', hr', hcount⟩
    rw [frameRef_setRef, if_neg]
    · exact ⟨r', hr', hcount⟩
    · rintro rfl
      rw [hr] at hr'
      cases hr'
      exact hzero hcount

theorem Doomed.dropTable (h : Doomed i f s) (hdrop : s.dropTable k = some s') : Doomed i f s' := by
  unfold MemState.dropTable at hdrop
  split_ifs at hdrop with hempty
  · obtain ⟨s1, hs1, rfl⟩ := Option.map_eq_some_iff.mp hdrop
    obtain ⟨h1, hzero⟩ := h.memoryFreeFrames hs1
    have hsame : s1.dirEntry i = s.dirEntry i := by
      obtain ⟨list, r, -, rfl⟩ := memoryFreeFrames_one_eq_some hs1
      rfl
    have hdir : ∀ j, (s1.setWord s1.cr3 k Word.zero).dirEntry j = if j = k then none else s1.dirEntry j := by
      intro j
      show ((s1.setWord s1.cr3 k Word.zero).mem s1.cr3 j).seen = _
      rw [mem_setWord]
      by_cases hj : j = k
      · rw [if_pos ⟨rfl, hj⟩, if_pos hj, Word.seen_zero]
      · rw [if_neg fun hc => hj hc.2, if_neg hj]
        rfl
    refine ⟨fun j e hj he => ?_, ?_⟩
    · rw [hdir] at he
      split_ifs at he
      exact h1.apart j e hj he
    · rw [hdir]
      split_ifs with hik
      · right
        obtain htable | hcount := h1.table
        · rw [hsame] at htable
          rw [← hik, (dirEntry_eq_some htable).2, pgDir_frame] at hzero
          exact hzero
        · exact hcount
      · exact h1.table
  · cases hdrop
    exact h

theorem Doomed.unmapPage {p : ℕ} (h : Doomed i f s) (hp : p < windowPage) (hunmap : s.unmapPage p = some s') :
    Doomed i f s' := by
  unfold MemState.unmapPage at hunmap
  dsimp only at hunmap
  split_ifs at hunmap with hwindow hpresent hpage
  · obtain ⟨s1, hs1, hdrop⟩ := Option.bind_eq_some_iff.mp hunmap
    have h1 := h.memoryReleaseRef hs1
    have hcr3 : s1.cr3 = s.cr3 := by
      unfold MemState.memoryReleaseRef at hs1
      obtain ⟨r, -, hbody⟩ := Option.bind_eq_some_iff.mp hs1
      split_ifs at hbody
      · obtain ⟨list, r', -, rfl⟩ := memoryFreeFrames_one_eq_some hbody
        rfl
      · cases hbody
        rfl
    have htable : (s.mem s.cr3 (pgdirEntry p)).frame ≠ s1.cr3 := by
      rw [hcr3]
      exact h.apart (pgdirEntry p) _ (pgdirEntry_lt_of_lt hp) (Word.seen_of_present hpresent)
    have hdir : (s1.setWord (s.mem s.cr3 (pgdirEntry p)).frame (pgtableEntry p) Word.zero).mem s1.cr3 =
        s1.mem s1.cr3 := by
      funext j
      rw [mem_setWord, if_neg fun hc => htable hc.1.symm]
    exact (h1.of_same hdir rfl id).dropTable hdrop
  · exact h.dropTable hunmap
  · cases hunmap
    exact h

theorem Doomed.unmapPages (h : Doomed i f s) (hlimit : page + count ≤ windowPage)
    (hunmap : MemState.unmapPages page count s = some s') : Doomed i f s' := by
  induction count generalizing page s with
  | zero =>
    cases hunmap
    exact h
  | succ count ih =>
    obtain ⟨s1, hs1, hrest⟩ := Option.bind_eq_some_iff.mp hunmap
    exact ih (h.unmapPage (by omega) hs1) (by omega) hrest

end

/-! ## One after the other -/

/-- The page directories, the page tables, the references and the free frames are as before. -/
structure Restored (s s' : MemState) : Prop where
  rest : SameRest s s'
  tables : ∀ f, ¬ IsFree s.freeMemoryMap f → ∀ j < kernelPgdirSize, (s'.mem f j).seen = (s.mem f j).seen
  refs : s'.frameRef = s.frameRef
  free : ∀ f, IsFree s'.freeMemoryMap f ↔ IsFree s.freeMemoryMap f

/-- Exactly the pages of the range are mapped, each to its own frame, and nothing else has changed. -/
structure MappedTo (page frame count : ℕ) (flags : BitVec 12) (s s' : MemState) : Prop where
  rest : SameRest s s'
  entry : ∀ q < windowPage, s'.entry s'.cr3 q =
    if page ≤ q ∧ q < page + count then some (Word.page (frame + (q - page)) flags) else s.entry s.cr3 q
  others : ∀ f, ¬ IsFree s.freeMemoryMap f → s.Plain f → s'.mem f = s.mem f
  window : ∀ k, kernelPgdirSize - 1 ≤ k → s'.mem s.cr3 k = s.mem s.cr3 k

/-- `memory_mmap_direct` and then `memory_munmap` of the same range. -/
def RoundTrip (s : MemState) (virtAddr physAddr size : ℕ) (readOnly cacheEnabled isHw : Bool) : Prop :=
  ∃ s1 s2, s.memoryMmapDirect virtAddr physAddr size readOnly cacheEnabled isHw = some (s1, .osNoErr) ∧
    MappedTo (virtAddr / kernelFrameSize) (physAddr / kernelFrameSize) (pageCount size)
      (mmapFlags readOnly cacheEnabled isHw) s s1 ∧
    s1.memoryMunmap virtAddr size = some s2 ∧ Restored s s2

/-- A range of pages below the window that is not mapped and touches no empty page table, and a range of
frames that are managed and have references. -/
structure Mappable (s : MemState) (virtAddr physAddr size : ℕ) : Prop where
  virtAligned : kernelFrameSize ∣ virtAddr
  physAligned : kernelFrameSize ∣ physAddr
  positive : 0 < size
  window : virtAddr + size ≤ windowPage * kernelFrameSize
  unmapped : ∀ q, virtAddr / kernelFrameSize ≤ q → q < virtAddr / kernelFrameSize + pageCount size →
    s.entry s.cr3 q = none
  full : ∀ q, virtAddr / kernelFrameSize ≤ q → q < virtAddr / kernelFrameSize + pageCount size →
    s.dirEntry (pgdirEntry q) ≠ none →
      ∃ q' < windowPage, pgdirEntry q' = pgdirEntry q ∧ s.entry s.cr3 q' ≠ none
  managed : ∀ j < pageCount size, ∃ r, s.frameRef (physAddr / kernelFrameSize + j) = some r ∧ r.count ≠ 0

/-- The number of page tables that a range of pages still needs. -/
def tablesFor (s : MemState) (page count : ℕ) : ℕ := (madeBy s (Finset.Ico page (page + count))).card

/-! ## The calls -/

section
variable {virtAddr physAddr size : ℕ} {readOnly cacheEnabled isHw : Bool}

theorem isMapped_eq_false (h : ∀ q, page ≤ q → q < page + count → s.entry s.cr3 q = none) :
    s.isMapped page count = false := by
  unfold isMapped
  rw [List.any_eq_false]
  intro j hj
  rw [h (page + j) (Nat.le_add_right ..) (Nat.add_lt_add_left (List.mem_range.mp hj) page)]
  exact Bool.false_ne_true

theorem Mappable.limit (hm : Mappable s virtAddr physAddr size) :
    virtAddr / kernelFrameSize + pageCount size ≤ windowPage := by
  obtain ⟨k, hk⟩ := hm.virtAligned
  have hwindow := hm.window
  unfold pageCount
  rw [kernelFrameSize_eq] at hk hwindow ⊢
  rw [windowPage_eq] at hwindow ⊢
  omega

theorem Mappable.memoryMmapDirect_eq (hm : Mappable s virtAddr physAddr size) :
    s.memoryMmapDirect virtAddr physAddr size readOnly cacheEnabled isHw =
      (MemState.mapPages (mmapFlags readOnly cacheEnabled isHw) (virtAddr / kernelFrameSize)
        (physAddr / kernelFrameSize) (pageCount size) s).map fun s' => (s', .osNoErr) := by
  have hwindow := hm.window
  have hbytes : (size + pageOffset virtAddr) % 2 ^ 32 = size := by
    unfold pageOffset
    rw [Nat.mod_eq_zero_of_dvd hm.virtAligned, Nat.add_zero]
    rw [windowPage_eq, kernelFrameSize_eq] at hwindow
    omega
  unfold memoryMmapDirect kernelMmapInternal
  rw [hbytes, isMapped_eq_false hm.unmapped, if_neg Bool.false_ne_true]

theorem Mappable.memoryMunmap_eq (hm : Mappable s virtAddr physAddr size) (s1 : MemState) :
    s1.memoryMunmap virtAddr size =
      MemState.unmapPages (virtAddr / kernelFrameSize) (pageCount size) s1 := by
  obtain ⟨k, hk⟩ := hm.virtAligned
  have hwindow := hm.window
  unfold memoryMunmap
  dsimp only
  congr 1
  unfold pageOffset pageCount
  rw [kernelFrameSize_eq] at hk hwindow ⊢
  rw [windowPage_eq] at hwindow
  split_ifs
  · omega
  · omega

/-- The pages of the range can be unmapped again. -/
theorem Mappable.unmappable (hm : Mappable s virtAddr physAddr size) {p : ℕ}
    (hle : virtAddr / kernelFrameSize ≤ p) (hlt : p < virtAddr / kernelFrameSize + pageCount size) :
    Unmappable s (direct (virtAddr / kernelFrameSize) (physAddr / kernelFrameSize) flags) p := by
  obtain ⟨r, hr, hcount⟩ := hm.managed (p - virtAddr / kernelFrameSize) (by omega)
  refine ⟨hm.unmapped p hle hlt, hm.full p hle hlt, ?_, fun hzero => ?_⟩
  · rw [direct_frame, hr]
    nofun
  · rw [direct_frame, hr] at hzero
    cases hzero
    exact absurd rfl hcount

/-- What is left when every page has been unmapped again. -/
theorem Over.restored {freed dropped : Finset ℕ} (h : Over s0 new word freed dropped ∅ ∅ s)
    (hfreed : freed = ∅) (hdropped : ∀ f ∈ dropped, ∀ r, s0.frameRef f = some r → r.count = 0) :
    Restored s0 s := by
  refine ⟨h.rest, fun f hused j hj => ?_, ?_, fun f => ?_⟩
  · by_cases hcr3 : f = s0.cr3
    · rw [hcr3]
      by_cases hlow : j < kernelPgdirSize - 1
      · have hdir := h.dir j hlow
        rw [if_neg (Finset.notMem_empty j)] at hdir
        unfold dirEntry at hdir
        rwa [h.rest.cr3] at hdir
      · rw [h.window j (not_lt.mp hlow)]
    · by_cases hplain : s0.Plain f
      · rw [h.mem f hused hplain]
      · obtain ⟨i, e, hi, he, hframe⟩ : ∃ i e, i < kernelPgdirSize - 1 ∧ s0.dirEntry i = some e ∧
            e.frame = f := by
          by_contra hno
          exact hplain ⟨hcr3, fun i e hi he hc => hno ⟨i, e, hi, he, hc⟩⟩
        obtain ⟨p, hp, rfl, rfl⟩ := exists_page hi hj
        have hentry := h.entry p hp
        have hdir := h.dir _ hi
        rw [if_neg (Finset.notMem_empty _), he] at hdir
        rwa [if_neg (Finset.notMem_empty p), entry_eq, entry_eq, hdir, he, Option.bind_some,
          Option.bind_some, hframe] at hentry
  · funext f
    rw [h.refs]
    cases hr : s0.frameRef f with
    | none => rfl
    | some r =>
      rw [Option.map_some]
      split_ifs with hf
      · rw [← hdropped f hf r hr]
      · rfl
  · rw [h.free, hfreed]
    simp

/-- Nothing is mapped at the beginning of a loop. -/
theorem Over.start_Ico (h0 : InOrder s) (page : ℕ) (word : ℕ → Word) :
    Over s (fun _ => 0) word ∅ ∅ (madeBy s (Finset.Ico page (page + 0))) (Finset.Ico page (page + 0)) s ∧
      Taken s (fun _ => 0) (madeBy s (Finset.Ico page (page + 0))) s := by
  have hnone : madeBy s ∅ = ∅ := by simp [madeBy]
  rw [Nat.add_zero, Finset.Ico_self, hnone]
  exact ⟨Over.start h0 _ _, [], rfl, by simp⟩

/-- A round trip that restores everything has taken frames without a reference for its page tables, and has
had room in every count. -/
theorem RoundTrip.taken (h0 : InOrder s) (hm : Mappable s virtAddr physAddr size)
    (h : RoundTrip s virtAddr physAddr size readOnly cacheEnabled isHw) :
    (∃ frames list, takeFrames (s.tablesFor (virtAddr / kernelFrameSize) (pageCount size))
        s.freeMemoryMap = some (frames, list) ∧
      ∀ f ∈ frames, ∀ r, s.frameRef f = some r → r.count = 0) ∧
    ∀ j < pageCount size, ∀ r, s.frameRef (physAddr / kernelFrameSize + j) = some r →
      r.count + 1 ≠ frameRefCountMask := by
  obtain ⟨s1, s2, hmap, -, hunmap, hrestored⟩ := h
  rw [hm.memoryMmapDirect_eq] at hmap
  rw [hm.memoryMunmap_eq] at hunmap
  have hlimit := hm.limit
  unfold tablesFor
  generalize virtAddr / kernelFrameSize = page at *
  generalize physAddr / kernelFrameSize = frame at *
  generalize pageCount size = count at *
  obtain ⟨s1', hmap, heq⟩ := Option.map_eq_some_iff.mp hmap
  cases heq
  have hzero : 0 + count = count := Nat.zero_add count
  obtain ⟨hstart, htaken⟩ := Over.start_Ico h0 page (direct page frame (mmapFlags readOnly cacheEnabled isHw))
  obtain ⟨⟨new, hover, frames, hframes, hnew⟩, hroom⟩ :=
    hstart.mapPages htaken h0.apart (by rwa [hzero]) hmap
  rw [hzero] at hover hframes hnew
  refine ⟨⟨frames, _, hframes, fun f hf r hr => ?_⟩, fun j hj r hr => ?_⟩
  · obtain ⟨i, hi, rfl⟩ := (hnew f).mp hf
    obtain ⟨hilow, hnone, -⟩ := hover.made i hi
    have hapart := hover.apart h0.apart
    have hdoomed : Doomed i (new i) s1 := by
      refine ⟨fun k e hk he => hapart.dir k e hk he, .inl ?_⟩
      rw [hover.dir i hilow, if_pos hi]
    -- The table has left the directory again, so its count is zero.
    obtain hdir | ⟨r', hr', hcount'⟩ := (hdoomed.unmapPages hlimit hunmap).table
    · have hback := hrestored.tables s.cr3 h0.apart.dirUsed i (by
        rw [show kernelPgdirSize = 1024 from rfl] at hilow ⊢
        omega)
      unfold dirEntry at hdir hnone
      rw [hrestored.rest.cr3, hback, hnone] at hdir
      cases hdir
    · rw [hrestored.refs, hr] at hr'
      cases hr'
      exact hcount'
  · obtain ⟨r', hr', hfull⟩ := hroom j hj
    rw [Nat.zero_add, hr] at hr'
    cases hr'
    exact hfull

/-- With frames without a reference for the page tables and room in the counts, everything is restored. -/
theorem Mappable.roundTrip (h0 : InOrder s) (hm : Mappable s virtAddr physAddr size)
    (htables : ∃ frames list, takeFrames (s.tablesFor (virtAddr / kernelFrameSize) (pageCount size))
        s.freeMemoryMap = some (frames, list) ∧
      ∀ f ∈ frames, ∀ r, s.frameRef f = some r → r.count = 0)
    (hroom : ∀ j < pageCount size, ∀ r, s.frameRef (physAddr / kernelFrameSize + j) = some r →
      r.count + 1 ≠ frameRefCountMask) :
    RoundTrip s virtAddr physAddr size readOnly cacheEnabled isHw := by
  have hlimit := hm.limit
  have hmunmap := hm.memoryMunmap_eq
  unfold RoundTrip
  unfold tablesFor at htables
  rw [hm.memoryMmapDirect_eq]
  generalize mmapFlags readOnly cacheEnabled isHw = flags
  have hpages := fun p hle hlt => @Mappable.unmappable s flags virtAddr physAddr size hm p hle hlt
  have hrefs := hm.managed
  generalize virtAddr / kernelFrameSize = page at *
  generalize physAddr / kernelFrameSize = frame at *
  generalize pageCount size = count at *
  obtain ⟨frames, list, hframes, hunused⟩ := htables
  have hzero : 0 + count = count := Nat.zero_add count
  obtain ⟨hstart, htaken⟩ := Over.start_Ico h0 page (direct page frame flags)
  have hcounts : ∀ j < count, ∃ r, s.frameRef (frame + (0 + j)) = some r ∧ r.count + 1 ≠ frameRefCountMask := by
    intro j hj
    obtain ⟨r, hr, -⟩ := hrefs j hj
    rw [Nat.zero_add]
    exact ⟨r, hr, hroom j hj r hr⟩
  obtain ⟨s1, hs1⟩ := hstart.exists_mapPages htaken h0.apart (by rwa [hzero]) (by rwa [hzero]) hcounts
  obtain ⟨⟨new, hover, frames', hframes', hnew⟩, -⟩ :=
    hstart.mapPages htaken h0.apart (by rwa [hzero]) hs1
  rw [hzero] at hover hframes' hnew
  rw [hframes] at hframes'
  cases hframes'
  have htable : ∀ i ∈ madeBy s (Finset.Ico page (page + count)), ∀ r, s.frameRef (new i) = some r →
      r.count = 0 := fun i hi => hunused _ ((hnew _).mpr ⟨i, hi, rfl⟩)
  obtain ⟨s2, freed, dropped, hs2, hback, hfreed, hdropped⟩ := hover.unmapPages h0 hpages
    fun p hle hlt => by
      refine ⟨Finset.notMem_empty _, fun i hi hc => ?_⟩
      obtain ⟨r, hr, hused⟩ := hrefs (p - page) (by omega)
      rw [direct_frame] at hc
      exact hused (htable i hi r (hc ▸ hr))
  have hnone : freed = ∅ := by
    refine Finset.eq_empty_of_forall_notMem fun f hf => ?_
    obtain hf | ⟨hzero, p, hp, rfl⟩ := (hfreed f).mp hf
    · exact Finset.notMem_empty f hf
    · rw [Finset.mem_Ico] at hp
      obtain ⟨r, hr, hused⟩ := hrefs (p - page) (by omega)
      rw [direct_frame, hr] at hzero
      cases hzero
      exact hused rfl
  refine ⟨s1, s2, ?_, ⟨hover.rest, fun q hq => ?_, hover.mem, hover.window⟩, ?_, ?_⟩
  · rw [show MemState.mapPages flags page frame count s = some s1 from hs1, Option.map_some]
  · rw [hover.entry q hq]
    simp only [Finset.mem_Ico]
    rfl
  · rw [hmunmap, hs2]
  · refine hback.restored hnone fun f hf r hr => ?_
    obtain hf | ⟨i, hi, rfl⟩ := hdropped f hf
    · exact absurd hf (Finset.notMem_empty f)
    · exact htable i hi r hr

/-- In a state in order, a round trip restores everything exactly when there are free frames for the new page
tables, those that are taken have no reference, and no reference count is full. -/
theorem roundTrip_iff (h0 : InOrder s) (hm : Mappable s virtAddr physAddr size) :
    RoundTrip s virtAddr physAddr size readOnly cacheEnabled isHw ↔
      (∃ frames list, takeFrames (s.tablesFor (virtAddr / kernelFrameSize) (pageCount size))
          s.freeMemoryMap = some (frames, list) ∧
        ∀ f ∈ frames, ∀ r, s.frameRef f = some r → r.count = 0) ∧
      ∀ j < pageCount size, ∀ r, s.frameRef (physAddr / kernelFrameSize + j) = some r →
        r.count + 1 ≠ frameRefCountMask := by
  constructor
  · exact fun h => h.taken h0 hm
  · rintro ⟨htables, hroom⟩
    exact hm.roundTrip h0 htables hroom

end

/-! ### The first call of a machine -/

/-- The state the small machine starts in. -/
structure SmallStart (s : MemState) : Prop where
  mem : s.mem = pagingInit smallBoot
  cr3 : s.cr3 = 0x210
  process : s.processes s.current = some ⟨0x210, memoryCreateFreePageTable⟩
  free : s.freeMemoryMap = [⟨⟨0xE38000, 0x1000000⟩, 0x100000⟩]
  first : s.frameRef 0xE38 = some ⟨false, 1⟩
  kernel : s.frameRef 0x200 = some ⟨false, 1⟩
  managed : ∀ f, 0xE38 ≤ f → f < 0x1000 → s.frameRef f ≠ none

theorem exists_small : ∃ s, smallRun [] = some s ∧ SmallStart s := by
  have hfree : setupMemTable (detectMemory smallBoot.entries).2 =
      some [⟨⟨0xE38000, 0x1000000⟩, 0x100000⟩] := by decide +kernel
  have hrefs : (initFrameRefTable (detectMemory smallBoot.entries).1 freeMemHead).map (fun refs =>
      (refs 0xE38, refs 0x200, (List.range' 0xE38 0x1C8).all fun f => (refs f).isSome)) =
        some (some ⟨false, 1⟩, some ⟨false, 1⟩, true) := by decide +kernel
  obtain ⟨refs, hinit, hval⟩ := Option.map_eq_some_iff.mp hrefs
  simp only [Prod.mk.injEq] at hval
  obtain ⟨hfirst, hkernel, hall⟩ := hval
  have hstart : smallRun [] = (memoryManagerInit smallBoot).bind fun s => some s := rfl
  unfold memoryManagerInit at hstart
  rw [hfree, Option.bind_some, hinit, Option.map_some, Option.bind_some] at hstart
  refine ⟨_, hstart, rfl, rfl, rfl, rfl, hfirst, hkernel, fun f hle hlt => ?_⟩
  have hsome := List.all_eq_true.mp hall f (List.mem_range'_1.mpr ⟨hle, by omega⟩)
  exact Option.ne_none_iff_isSome.mpr hsome

/-- It has four page tables, for its own sections. -/
theorem dirEntry_small : ∀ i < kernelPgdirSize - 1, (pagingInit smallBoot 0x210 i).seen =
    if 896 ≤ i ∧ i < 900 then some (Word.pgDir (0x211 + (i - 896))) else none := by
  decide +kernel

theorem SmallStart.inOrder (h : SmallStart s) : InOrder s := by
  obtain ⟨hmem, hcr3, -, hfree, -, -, hrefs⟩ := h
  have hisFree : ∀ f, IsFree s.freeMemoryMap f ↔ 0xE38 ≤ f ∧ f < 0x1000 := by
    intro f
    unfold IsFree Covers
    rw [hfree]
    simp only [List.mem_singleton, exists_eq_left, kernelFrameSize_eq]
    omega
  have hdir : ∀ i e, i < kernelPgdirSize - 1 → s.dirEntry i = some e →
      (896 ≤ i ∧ i < 900) ∧ e.frame = 0x211 + (i - 896) := by
    intro i e hi he
    unfold dirEntry at he
    rw [hmem, hcr3, dirEntry_small i hi] at he
    split_ifs at he with hin
    rw [← Option.some.inj he, pgDir_frame]
    exact ⟨hin, rfl⟩
  refine ⟨⟨fun i j e e' hi hj he he' heq => ?_, fun i e hi he => ?_, ?_, fun i e hi he => ?_⟩, ⟨?_, ?_⟩,
    fun f hf => ?_⟩
  · obtain ⟨hin, hframe⟩ := hdir i e hi he
    obtain ⟨hin', hframe'⟩ := hdir j e' hj he'
    omega
  · obtain ⟨hin, hframe⟩ := hdir i e hi he
    omega
  · rw [hisFree, hcr3]
    omega
  · rw [hisFree]
    obtain ⟨hin, hframe⟩ := hdir i e hi he
    omega
  · rw [hfree]
    refine ⟨?_, ?_, List.pairwise_singleton ..⟩
    · simp only [List.mem_singleton, forall_eq, kernelFrameSize_eq]
      exact ⟨0xE38, rfl⟩
    · simp only [List.mem_singleton, forall_eq]
      omega
  · rw [hfree]
    simp only [List.mem_singleton, forall_eq, kernelFrameSize_eq]
    exact ⟨0x1000, rfl⟩
  · exact hrefs f ((hisFree f).mp hf).1 ((hisFree f).mp hf).2

/-- A page of the region of the kernel's last page table that is not mapped, and one of a region without a page
table. -/
theorem SmallStart.mappable (h : SmallStart s) :
    Mappable s 0xE0E38000 0x200000 0x1000 ∧ Mappable s 0x100000 0x200000 0x1000 := by
  obtain ⟨hmem, hcr3, -, -, -, href, -⟩ := h
  have hcount : pageCount 0x1000 = 1 := rfl
  have hentry : ∀ q, s.entry s.cr3 q = ((pagingInit smallBoot 0x210 (pgdirEntry q)).seen.bind fun e =>
      (pagingInit smallBoot e.frame (pgtableEntry q)).seen) := by
    intro q
    rw [entry_eq]
    unfold dirEntry
    rw [hmem, hcr3]
  have hframe : ∀ j < pageCount 0x1000, ∃ r, s.frameRef (0x200000 / kernelFrameSize + j) = some r ∧ r.count ≠ 0 := by
    intro j hj
    obtain rfl : j = 0 := by omega
    exact ⟨_, href, one_ne_zero⟩
  refine ⟨⟨⟨0xE0E38, rfl⟩, ⟨0x200, rfl⟩, by decide, by decide, fun q hle hlt => ?_, fun q hle hlt _ => ?_, hframe⟩,
    ⟨⟨0x100, rfl⟩, ⟨0x200, rfl⟩, by decide, by decide, fun q hle hlt => ?_, fun q hle hlt hdir => ?_, hframe⟩⟩
  all_goals rw [hcount, kernelFrameSize_eq] at hlt; rw [kernelFrameSize_eq] at hle
  · obtain rfl : q = 0xE0E38 := by omega
    rw [hentry]
    decide +kernel
  · obtain rfl : q = 0xE0E38 := by omega
    refine ⟨0xE0E37, by decide, by decide, ?_⟩
    rw [hentry]
    decide +kernel
  · obtain rfl : q = 0x100 := by omega
    rw [hentry]
    decide +kernel
  · obtain rfl : q = 0x100 := by omega
    unfold dirEntry at hdir
    rw [hmem, hcr3] at hdir
    exact absurd (by decide +kernel) hdir

theorem roundTrip_kernel_page : ∃ s, Reachable Started Step s ∧ RoundTrip s 0xE0E38000 0x200000 0x1000 false true false := by
  obtain ⟨s, hrun, hs⟩ := exists_small
  have hm := hs.mappable.1
  refine ⟨s, reachable_of_smallRun hrun, (roundTrip_iff hs.inOrder hm).mpr ⟨⟨[], s.freeMemoryMap, ?_, by simp⟩, ?_⟩⟩
  · have hnone : s.tablesFor (0xE0E38000 / kernelFrameSize) (pageCount 0x1000) = 0 := by
      unfold tablesFor
      rw [Finset.card_eq_zero]
      refine Finset.eq_empty_of_forall_notMem fun i hi => ?_
      obtain ⟨⟨q, hq, rfl⟩, hnone⟩ := mem_madeBy.mp hi
      rw [Finset.mem_Ico, show pageCount 0x1000 = 1 from rfl, kernelFrameSize_eq] at hq
      obtain rfl : q = 0xE0E38 := by omega
      unfold dirEntry at hnone
      rw [hs.mem, hs.cr3] at hnone
      revert hnone
      decide +kernel
    rw [hnone]
    rfl
  · intro j hj r hr
    obtain rfl : j = 0 := by
      rw [show pageCount 0x1000 = 1 from rfl] at hj
      omega
    rw [show 0x200000 / kernelFrameSize + 0 = 0x200 from rfl, hs.kernel] at hr
    cases hr
    decide

/-- The first page table is made in the frame behind the kernel, which is free and has a reference: its count
is lost when the page table is dropped. -/
theorem roundTrip_loses_count : ¬ ∀ s virtAddr physAddr size readOnly cacheEnabled isHw,
    Reachable Started Step s → Mappable s virtAddr physAddr size →
      RoundTrip s virtAddr physAddr size readOnly cacheEnabled isHw := by
  intro hclaim
  obtain ⟨s, hrun, hs⟩ := exists_small
  have hm := hs.mappable.2
  have htrip := hclaim s 0x100000 0x200000 0x1000 false true false (reachable_of_smallRun hrun) hm
  obtain ⟨⟨frames, list, hframes, hunused⟩, -⟩ := htrip.taken hs.inOrder hm
  have hone : s.tablesFor (0x100000 / kernelFrameSize) (pageCount 0x1000) = 1 := by
    unfold tablesFor
    rw [Finset.card_eq_one]
    refine ⟨0, Finset.ext fun i => ?_⟩
    rw [mem_madeBy, Finset.mem_singleton]
    constructor
    · rintro ⟨⟨q, hq, rfl⟩, -⟩
      rw [Finset.mem_Ico, show pageCount 0x1000 = 1 from rfl, kernelFrameSize_eq] at hq
      obtain rfl : q = 0x100 := by omega
      rfl
    · rintro rfl
      refine ⟨⟨0x100, by decide, by decide⟩, ?_⟩
      unfold dirEntry
      rw [hs.mem, hs.cr3]
      decide +kernel
  rw [hone, hs.free] at hframes
  have hfirstTaken : takeFrames 1 [⟨⟨0xE38000, 0x1000000⟩, 0x100000⟩] =
      some ([0xE38], [⟨⟨0xE39000, 0x1000000⟩, 0xE39000⟩]) := by decide +kernel
  rw [hfirstTaken] at hframes
  cases hframes
  exact absurd (hunused 0xE38 (List.mem_singleton_self _) _ hs.first) one_ne_zero

end MemState

end UtkKernel.Memory
