import Mathlib.Order.Interval.Finset.Nat
import UtkKernel.Memory.TempPages

/-! # The pages of a range of bytes

The pages that `memory_free_process_data` should free, those that it walks over, and what the walk does to the
free pages of the process, whatever it finds there. -/

namespace UtkKernel.Memory
open Structures Foundations
set_option autoImplicit false

namespace MemState

variable {s s' : MemState} {pid dir d t q : ℕ} {virtAddr size : ℕ} {p : Process}

/-! ## Touched and walked pages -/

/-- The pages that the bytes from an address on lie in. -/
def touchedPages (virtAddr size : ℕ) : Finset ℕ := (Finset.Ico virtAddr (virtAddr + size)).image (· / kernelFrameSize)

theorem touchedPages_zero : touchedPages virtAddr 0 = ∅ := by
  unfold touchedPages
  rw [Nat.add_zero, Finset.Ico_self, Finset.image_empty]

theorem touchedPages_eq (h : 0 < size) : touchedPages virtAddr size =
    Finset.Ico (virtAddr / kernelFrameSize) ((virtAddr + size - 1) / kernelFrameSize + 1) := by
  ext q
  unfold touchedPages
  simp only [Finset.mem_image, Finset.mem_Ico]
  rw [kernelFrameSize_eq]
  constructor
  · rintro ⟨a, ⟨hle, hlt⟩, rfl⟩
    omega
  · rintro ⟨hle, hlt⟩
    by_cases hq : q * 4096 ≤ virtAddr
    · exact ⟨virtAddr, by omega, by omega⟩
    · exact ⟨q * 4096, by omega, by omega⟩

theorem card_touchedPages (h : 0 < size) : (touchedPages virtAddr size).card =
    (virtAddr + size - 1) / kernelFrameSize + 1 - virtAddr / kernelFrameSize := by
  rw [touchedPages_eq h, Nat.card_Ico]

/-- The range ends below the window in which the page tables are mapped. -/
theorem walkedPages_eq (hlimit : virtAddr + size ≤ windowPage * kernelFrameSize) :
    walkedPages virtAddr size = pageCount (size + 2 * pageOffset virtAddr) := by
  unfold walkedPages pageOffset pageCount
  rw [windowPage_eq, kernelFrameSize_eq] at hlimit
  rw [kernelFrameSize_eq, Nat.mod_eq_of_lt (by omega)]
  congr 2
  omega

/-- The walk goes over the touched pages and no other exactly if the distances of the first and of the last byte
from the pages they are in are less than a page together. -/
theorem walkedPages_eq_card_iff (hlimit : virtAddr + size ≤ windowPage * kernelFrameSize) :
    walkedPages virtAddr size = (touchedPages virtAddr size).card ↔
      (size = 0 → pageOffset virtAddr = 0) ∧
        pageOffset virtAddr + pageOffset (virtAddr + size - 1) < kernelFrameSize := by
  rw [walkedPages_eq hlimit]
  obtain rfl | hpos := Nat.eq_zero_or_pos size
  · rw [touchedPages_zero, Finset.card_empty]
    unfold pageCount pageOffset
    rw [kernelFrameSize_eq]
    omega
  · rw [card_touchedPages hpos]
    unfold pageCount pageOffset
    rw [kernelFrameSize_eq]
    omega

theorem card_le_walkedPages (hlimit : virtAddr + size ≤ windowPage * kernelFrameSize) :
    (touchedPages virtAddr size).card ≤ walkedPages virtAddr size := by
  rw [walkedPages_eq hlimit]
  obtain rfl | hpos := Nat.eq_zero_or_pos size
  · rw [touchedPages_zero, Finset.card_empty]
    exact Nat.zero_le _
  · rw [card_touchedPages hpos]
    unfold pageCount pageOffset
    rw [kernelFrameSize_eq]
    omega

/-- The touched pages are the first ones of the walk. -/
theorem touchedPages_eq_Ico : touchedPages virtAddr size = Finset.Ico (virtAddr / kernelFrameSize)
    (virtAddr / kernelFrameSize + (touchedPages virtAddr size).card) := by
  obtain rfl | hpos := Nat.eq_zero_or_pos size
  · rw [touchedPages_zero, Finset.card_empty, Nat.add_zero, Finset.Ico_self]
  · rw [card_touchedPages hpos, touchedPages_eq hpos]
    congr 1
    have hle : virtAddr / kernelFrameSize ≤ (virtAddr + size - 1) / kernelFrameSize :=
      Nat.div_le_div_right (by omega)
    omega

/-! ## The free pages of the process -/

theorem rest_mapTempOrPanic {page f : ℕ} (h : s.mapTempOrPanic page f = some s') : SameRest s s' := by
  unfold mapTempOrPanic mapTemp kernelMmapInternal at h
  obtain ⟨⟨s1, err⟩, hmap, hbody⟩ := Option.bind_eq_some_iff.mp h
  split_ifs at hmap with hmapped
  · cases hmap
    cases hbody
  · obtain ⟨s2, hpages, heq⟩ := Option.map_eq_some_iff.mp hmap
    cases heq
    obtain ⟨s3, hpage, hlast⟩ := Option.bind_eq_some_iff.mp hpages
    cases hlast
    cases hbody
    exact rest_mapPage hpage

/-- One turn of the walk adds its page to the free pages of the process. -/
theorem processes_freeDataPage (h : freeDataPage pid dir t s q = some s') (hp : s.processes pid = some p) :
    ∃ list, addBlock p.freePageTable (q * kernelFrameSize) 1 = some list ∧
      s'.processes = Function.update s.processes pid (some { p with freePageTable := list }) := by
  unfold freeDataPage at h
  split_ifs at h
  obtain ⟨s1, hmap, h⟩ := Option.bind_eq_some_iff.mp h
  split_ifs at h
  obtain ⟨s2, hrelease, h⟩ := Option.bind_eq_some_iff.mp h
  obtain ⟨s3, hfree, hunmap⟩ := Option.bind_eq_some_iff.mp h
  have hsame : s2.processes = s.processes :=
    (rest_memoryReleaseRef hrelease).1.processes.trans (rest_mapTempOrPanic hmap).processes
  unfold MemState.freePagesTo at hfree
  obtain ⟨k, hk, hadd⟩ := Option.bind_eq_some_iff.mp hfree
  obtain ⟨list, hlist, rfl⟩ := Option.map_eq_some_iff.mp hadd
  change s2.processes pid = some k at hk
  rw [hsame, hp, Option.some.injEq] at hk
  subst hk
  refine ⟨list, hlist, (rest_unmapPage hunmap).processes.trans ?_⟩
  show Function.update s2.processes pid _ = _
  rw [hsame]

/-- A whole walk adds all its pages. -/
theorem processes_walk {pages : List ℕ} (h : pages.foldlM (freeDataPage pid dir t) s = some s')
    (hp : s.processes pid = some p) (hdesc : Descending p.freePageTable)
    (hbound : ∀ q ∈ pages, q * kernelFrameSize + kernelFrameSize < 2 ^ 32) :
    ∃ list, s'.processes = Function.update s.processes pid (some { p with freePageTable := list }) ∧
      (∀ q ∈ pages, ¬ IsFree p.freePageTable q) ∧ ∀ x, IsFree list x ↔ IsFree p.freePageTable x ∨ x ∈ pages := by
  induction pages generalizing s p with
  | nil =>
    cases h
    refine ⟨p.freePageTable, (Function.update_eq_self_iff.mpr hp.symm).symm, by simp, by simp⟩
  | cons q rest ih =>
    obtain ⟨s1, hs1, hrest⟩ := Option.bind_eq_some_iff.mp (List.foldlM_cons.symm.trans h)
    obtain ⟨list1, hadd, hprocesses⟩ := processes_freeDataPage hs1 hp
    obtain ⟨hnot, hdesc1, hfree1⟩ := hdesc.addBlock_one (hbound q (List.mem_cons_self ..)) hadd
    have hp1 : s1.processes pid = some { p with freePageTable := list1 } := by
      rw [hprocesses, Function.update_self]
    obtain ⟨list, hprocesses', hall, hfree⟩ := ih hrest hp1 hdesc1 fun x hx => hbound x (List.mem_cons_of_mem q hx)
    refine ⟨list, ?_, fun x hx => ?_, fun x => ?_⟩
    · rw [hprocesses', hprocesses, Function.update_idem]
    · obtain rfl | hx := List.mem_cons.mp hx
      · exact hnot
      · exact fun hc => hall x hx ((hfree1 x).mpr (.inl hc))
    · rw [hfree, hfree1, List.mem_cons, or_assoc]

/-! ## The steps of the function -/

theorem takeFrames_two_iff {list : List Block} {r : List ℕ × List Block} : takeFrames 2 list = some r ↔
    ∃ a b, getBlock list 1 .begining = some a ∧ getBlock a.2 1 .begining = some b ∧
      r = ([a.1 / kernelFrameSize, b.1 / kernelFrameSize], b.2) := by
  constructor
  · intro h
    obtain ⟨a, ha, hmap⟩ := Option.bind_eq_some_iff.mp h
    obtain ⟨r1, hr1, rfl⟩ := Option.map_eq_some_iff.mp hmap
    obtain ⟨b, hb, hmap1⟩ := Option.bind_eq_some_iff.mp hr1
    obtain ⟨r0, hr0, rfl⟩ := Option.map_eq_some_iff.mp hmap1
    cases hr0
    exact ⟨a, b, ha, hb, rfl⟩
  · rintro ⟨a, b, ha, hb, rfl⟩
    unfold takeFrames takeFrames takeFrames
    rw [ha, Option.bind_some, hb]
    rfl

/-- The free kernel pages are those of the list. -/
def setKernelPages (s : MemState) (list : List Block) : MemState := { s with freeKernelPages := list }

/-- The function takes two pages of the kernel, maps the page directory at the first one and walks with the
second one; it gives both back. -/
theorem memoryFreeProcessData_eq_some (hp : s.processes pid = some p) (hother : pid ≠ s.current) :
    s.memoryFreeProcessData virtAddr size pid = some s' ↔
      ∃ d t list s1 s2 s3, takeFrames 2 s.freeKernelPages = some ([d, t], list) ∧
        (s.setKernelPages list).mapTempOrPanic d p.pageDir = some s1 ∧
        (List.range' (virtAddr / kernelFrameSize) (walkedPages virtAddr size)).foldlM
          (freeDataPage pid p.pageDir t) s1 = some s2 ∧
        s2.unmapPage d = some s3 ∧
        (s3.freeKernelPagesTo d 1).bind (fun s4 => s4.freeKernelPagesTo t 1) = some s' := by
  unfold memoryFreeProcessData
  rw [if_neg hother, hp, Option.bind_some]
  constructor
  · intro h
    obtain ⟨⟨d, sd⟩, hd, h⟩ := Option.bind_eq_some_iff.mp h
    obtain ⟨⟨t, st⟩, ht, h⟩ := Option.bind_eq_some_iff.mp h
    obtain ⟨s1, hs1, h⟩ := Option.bind_eq_some_iff.mp h
    obtain ⟨s2, hs2, h⟩ := Option.bind_eq_some_iff.mp h
    obtain ⟨s3, hs3, h⟩ := Option.bind_eq_some_iff.mp h
    obtain ⟨a, ha, heq⟩ := Option.map_eq_some_iff.mp hd
    cases heq
    obtain ⟨b, hb, heq⟩ := Option.map_eq_some_iff.mp ht
    cases heq
    exact ⟨_, _, _, s1, s2, s3, takeFrames_two_iff.mpr ⟨a, b, ha, hb, rfl⟩, hs1, hs2, hs3, h⟩
  · rintro ⟨d, t, list, s1, s2, s3, htake, hs1, hs2, hs3, h⟩
    obtain ⟨a, b, ha, hb, heq⟩ := takeFrames_two_iff.mp htake
    cases heq
    have hd : s.allocKernelPages 1 = some (a.1 / kernelFrameSize, s.setKernelPages a.2) := by
      unfold allocKernelPages
      rw [ha]
      rfl
    have ht : (s.setKernelPages a.2).allocKernelPages 1 = some (b.1 / kernelFrameSize, s.setKernelPages b.2) := by
      unfold allocKernelPages
      change (getBlock a.2 1 .begining).map _ = _
      rw [hb]
      rfl
    rw [hd, Option.bind_some, ht, Option.bind_some, hs1, Option.bind_some, hs2, Option.bind_some, hs3, Option.bind_some, h]

/-- The two pages were free, and the others still are. -/
theorem kernelPages_taken {list list' : List Block} (hl : Descending list) (h : takeFrames 2 list = some ([d, t], list')) :
    IsFree list d ∧ IsFree list t ∧ t ≠ d ∧ Descending list' ∧ ∀ x, IsFree list' x ↔ IsFree list x ∧ x ≠ d ∧ x ≠ t := by
  obtain ⟨a, b, ha, hb, heq⟩ := takeFrames_two_iff.mp h
  cases heq
  have hpos : 0 < blockSize 1 := by decide
  obtain ⟨hd, -, hfree⟩ := hl.whole.getBlock_one ha
  have hdesc1 := hl.getBlock hpos ha
  obtain ⟨ht, -, hfree'⟩ := hdesc1.whole.getBlock_one hb
  refine ⟨hd, ((hfree _).mp ht).1, ((hfree _).mp ht).2, hdesc1.getBlock hpos hb, fun x => ?_⟩
  rw [hfree', hfree, and_assoc]

/-- The pages go back to the kernel. -/
theorem exists_freeKernelPages (list : List Block) (hl : Descending s.freeKernelPages)
    (hd : d * kernelFrameSize + kernelFrameSize < 2 ^ 32) (ht : t * kernelFrameSize + kernelFrameSize < 2 ^ 32)
    (hne : t ≠ d) (hfree : ∀ x, IsFree s.freeKernelPages x ↔ IsFree list x ∧ x ≠ d ∧ x ≠ t) (hdl : IsFree list d)
    (htl : IsFree list t) : ∃ list', (s.freeKernelPagesTo d 1).bind (fun s4 => s4.freeKernelPagesTo t 1) =
      some (s.setKernelPages list') ∧ ∀ x, IsFree list' x ↔ IsFree list x := by
  have hnotD : ¬ IsFree s.freeKernelPages d := fun hc => ((hfree d).mp hc).2.1 rfl
  obtain ⟨list1, hlist1⟩ := hl.exists_addBlock hd hnotD
  obtain ⟨-, hdesc1, hfree1⟩ := hl.addBlock_one hd hlist1
  have hnotT : ¬ IsFree list1 t := by
    rw [hfree1]
    rintro (hc | hc)
    · exact ((hfree t).mp hc).2.2 rfl
    · exact hne hc
  obtain ⟨list2, hlist2⟩ := hdesc1.exists_addBlock ht hnotT
  obtain ⟨-, -, hfree2⟩ := hdesc1.addBlock_one ht hlist2
  refine ⟨list2, ?_, fun x => ?_⟩
  · unfold freeKernelPagesTo
    rw [hlist1, Option.map_some, Option.bind_some]
    change (addBlock list1 _ 1).map _ = _
    rw [hlist2]
    rfl
  · rw [hfree2, hfree1, hfree]
    constructor
    · rintro ((⟨hx, -⟩ | rfl) | rfl)
      · exact hx
      · exact hdl
      · exact htl
    · intro hx
      by_cases hxd : x = d
      · exact .inl (.inr hxd)
      · by_cases hxt : x = t
        · exact .inr hxt
        · exact .inl (.inl ⟨hx, hxd, hxt⟩)

end MemState

end UtkKernel.Memory
