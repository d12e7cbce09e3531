import UtkKernel.Memory.DataPages
import UtkKernel.Memory.DataWalk

/-! # Freeing the memory of another process

What `memory_free_process_data` should do to the pages of a range, and when it does so. -/

namespace UtkKernel.Memory
open Structures Foundations
set_option autoImplicit false

namespace MemState

variable {s s' : MemState} {pid virtAddr size d t q : ℕ} {p : Process} {W F : Finset ℕ}

/-! ## The process and its pages -/

/-- The memory manager is in order, and so is a process that is not the current one: it has the same kernel pages,
its own pages lie in frames of their own that are counted for it, and none of `W` is among its free pages. -/
structure Kept (s : MemState) (pid : ℕ) (p : Process) (W : Finset ℕ) : Prop where
  inOrder : InOrder s
  descending : Descending s.freeMemoryMap
  bounded : Bounded s
  process : s.processes pid = some p
  other : pid ≠ s.current
  kernel : ∀ i, kernelFirstPgdirEntry ≤ i → i < kernelPgdirSize - 1 → (s.mem p.pageDir i).seen = s.dirEntry i
  holds : s.Holds p.pageDir (W.filter fun q => q < kernelPage)
  frames : ∀ q ∈ W, (s.pageWord p.pageDir q).frame ≠ p.pageDir
  pages : Descending p.freePageTable
  notFree : ∀ q ∈ W, ¬ IsFree p.freePageTable q
  kernelPages : Descending s.freeKernelPages
  spare : ∀ x, IsFree s.freeKernelPages x → Spare s x

/-- The pages of `W` are unmapped in the process, with one reference less of each of their frames, and are free in
it. The rest is as it was. -/
structure Unmapped (s : MemState) (pid : ℕ) (p : Process) (W : Finset ℕ) (s' : MemState) : Prop where
  current : s'.current = s.current
  cr3 : s'.cr3 = s.cr3
  unmapped : ∀ q ∈ W, s'.entry p.pageDir q = none
  entry : ∀ q < kernelPage, q ∉ W → s'.entry p.pageDir q = s.entry p.pageDir q
  mem : ∀ f j, ¬ IsFree s'.freeMemoryMap f → s.Plain f → s'.mem f j =
    if ∃ q ∈ W, f = s.tableAt p.pageDir q ∧ j = pgtableEntry q then Word.zero else s.mem f j
  currentDir : ∀ i < kernelPgdirSize - 1, s'.dirEntry i = s.dirEntry i
  currentEntry : ∀ q < windowPage, s'.entry s'.cr3 q = s.entry s.cr3 q
  frameRef : ∀ f, ¬ IsFree s.freeMemoryMap f → s'.frameRef f = (s.frameRef f).map fun r =>
    { r with count := r.count - (mappers (s.pageWord p.pageDir) W f).card }
  free : ∀ f, IsFree s'.freeMemoryMap f ↔ IsFree s.freeMemoryMap f ∨ s.Spent p.pageDir W f
  kernelPages : ∀ x, IsFree s'.freeKernelPages x ↔ IsFree s.freeKernelPages x
  processes : ∃ list, s'.processes = Function.update s.processes pid (some { p with freePageTable := list }) ∧
    ∀ x, IsFree list x ↔ IsFree p.freePageTable x ∨ x ∈ W

/-- `memory_free_process_data` frees the pages that the range touches, and nothing else. -/
def FreesExactly (s : MemState) (virtAddr size pid : ℕ) (p : Process) : Prop :=
  ∃ s', s.memoryFreeProcessData virtAddr size pid = some s' ∧ s.Unmapped pid p (touchedPages virtAddr size) s'

/-- The range lies below the kernel; the distances of its first and last byte from their pages are less than a page
together; there are two free pages of the kernel, and frames for their page tables; the page directory and the page
tables of the range have a reference of their own, and take one more. -/
structure Freeable (s : MemState) (p : Process) (virtAddr size : ℕ) : Prop where
  user : ∀ q ∈ touchedPages virtAddr size, q < kernelPage
  empty : size = 0 → pageOffset virtAddr = 0
  offsets : pageOffset virtAddr + pageOffset (virtAddr + size - 1) < kernelFrameSize
  room : ∃ d t list, takeFrames 2 s.freeKernelPages = some ([d, t], list) ∧
    ∃ G : Finset ℕ, (∀ f ∈ G, IsFree s.freeMemoryMap f) ∧
      (madeBy s (if touchedPages virtAddr size = ∅ then {d} else {t, d})).card ≤ G.card
  referenced : ∀ f ∈ insert p.pageDir ((touchedPages virtAddr size).image (s.tableAt p.pageDir)),
    s.Referable f ∧ s.frameRef f ≠ some ⟨false, 0⟩

theorem entry_seen (s : MemState) (dir q : ℕ) : s.entry dir q =
    (s.mem dir (pgdirEntry q)).seen.bind fun e => (s.mem e.frame (pgtableEntry q)).seen := by
  unfold entry Word.seen
  by_cases hdir : (s.mem dir (pgdirEntry q)).present = true
  · rw [if_pos hdir, if_pos hdir]
    rfl
  · rw [if_neg hdir, if_neg hdir]
    rfl

/-! ## Two pages of the kernel are taken -/

theorem InOrder.setKernelPages (h : InOrder s) (list : List Block) : InOrder (s.setKernelPages list) :=
  ⟨⟨h.apart.inj, h.apart.dir, h.apart.dirUsed, h.apart.tableUsed⟩, h.whole, h.managed⟩

theorem Elsewhere.setKernelPages {f : ℕ} (h : s.Elsewhere f) (list : List Block) : (s.setKernelPages list).Elsewhere f :=
  ⟨h.used, h.plain, h.bound, h.managed⟩

theorem Spare.setKernelPages (h : Spare s q) (list : List Block) : Spare (s.setKernelPages list) q :=
  ⟨h.lt, h.unmapped, h.full⟩

theorem Holds.setKernelPages {dir : ℕ} (h : s.Holds dir W) (list : List Block) : (s.setKernelPages list).Holds dir W := by
  refine ⟨⟨h.own.elsewhere.setKernelPages list, fun i hi hpresent => ?_, h.own.inj⟩, h.user, h.mapped,
    fun q hq => ?_, h.counted⟩
  · obtain ⟨helse, hne⟩ := h.own.table i hi hpresent
    exact ⟨helse.setKernelPages list, hne⟩
  · obtain ⟨helse, hrest⟩ := h.frame q hq
    exact ⟨helse.setKernelPages list, hrest⟩

theorem Kept.holds_setKernelPages (hk : Kept s pid p W) (huser : ∀ q ∈ W, q < kernelPage) (list : List Block) :
    (s.setKernelPages list).Holds p.pageDir W := by
  have hH := hk.holds
  rw [Finset.filter_true_of_mem huser] at hH
  exact hH.setKernelPages list

theorem Kept.not_free (hk : Kept s pid p W) : ∀ q ∈ W, ∀ k, s.processes pid = some k → ¬ IsFree k.freePageTable q := by
  intro q hq k hkp
  obtain rfl : p = k := Option.some.inj (hk.process.symm.trans hkp)
  exact hk.notFree q hq

/-! ## The start and the end of the walk -/

/-- The page directory is mapped. -/
theorem Holds.start {s1 : MemState} (h0 : InOrder s) (hH : s.Holds p.pageDir W) (hp : s.processes pid = some p)
    (hpages : Descending p.freePageTable) (hd : Spare s d) (hmap : s.mapTempOrPanic d p.pageDir = some s1) :
    Walked s pid p.pageDir d W ∅ ∅ ∅ s1 ∧ Referable s p.pageDir ∧
      ∃ G : Finset ℕ, (∀ f ∈ G, IsFree s.freeMemoryMap f) ∧ (madeBy s {d}).card ≤ G.card := by
  have hstart : Over s (fun _ => 0) (fun _ => Word.page p.pageDir tempFlags) ∅ ∅ (madeBy s ∅) ∅ s :=
    Over.start h0 _ _
  obtain ⟨⟨new, hover, -⟩, hroom⟩ := hstart.mapTempOrPanic h0 hd (Finset.notMem_empty d) hH.own.elsewhere.used (by simp)
    rfl hmap
  rw [insert_empty_eq] at hover
  exact ⟨⟨s, new, ∅, FreedBy.start h0 hH hp hpages, hover⟩, hroom, hover.exists_free⟩

theorem Holds.exists_start (h0 : InOrder s) (hH : s.Holds p.pageDir W) (hd : Spare s d) (hroom : Referable s p.pageDir)
    {G : Finset ℕ} (hG : ∀ f ∈ G, IsFree s.freeMemoryMap f) (hcard : (madeBy s {d}).card ≤ G.card) :
    ∃ s1, s.mapTempOrPanic d p.pageDir = some s1 := by
  have hstart : Over s (fun _ => 0) (fun _ => Word.page p.pageDir tempFlags) ∅ ∅ (madeBy s ∅) ∅ s :=
    Over.start h0 _ _
  exact hstart.exists_mapTempOrPanic hd (Finset.notMem_empty d) hH.own.elsewhere.used (by simp) hG hcard hroom

/-- The page directory is unmapped. -/
theorem Walked.finish {dir : ℕ} {R : Finset ℕ} (h : Walked s pid dir d W F R ∅ s') (h0 : InOrder s) (hd : Spare s d) :
    ∃ s3 z new dropped, s'.unmapPage d = some s3 ∧ FreedBy s pid dir W F R z ∧
      Over z new (fun _ => Word.page dir tempFlags) (s.loose dir) dropped ∅ ∅ s3 := by
  obtain ⟨z, new, dropped, hz, hover⟩ := h
  have hdir : z.Elsewhere dir := hz.elsewhere_dir
  have hspare := hz.spare hd
  obtain ⟨s3, hs3, hover3⟩ := hover.unmapPage (hz.inOrder h0) (Finset.mem_singleton_self d) hspare.unmapped hspare.full
    hdir.managed (fun hc => hdir.used (hover.wasFree _ hc)) fun _ => ⟨hdir.used, hdir.plain, hdir.bound⟩
  have hnone : mappers (s.pageWord dir) R dir = ∅ :=
    Finset.filter_eq_empty_iff.mpr fun q hq => (hz.holds.frame q (hz.sub hq)).2.1
  have href : z.frameRef dir = s.frameRef dir := by
    rw [hz.refs]
    simp only [hnone, Finset.card_empty, Nat.sub_zero]
    exact Option.map_id'
  have herase : ({d} : Finset ℕ).erase d = ∅ := Finset.erase_singleton d
  have hloose : freedBy z (fun _ => Word.page dir tempFlags) ∅ {d} d = s.loose dir := by
    unfold freedBy loose
    simp only [herase, Finset.notMem_empty, false_imp_iff, implies_true, and_true, insert_empty_eq]
    rw [← href]
    rfl
  rw [hloose, herase] at hover3
  exact ⟨s3, z, new, _, hs3, hz, hover3⟩

/-! ## What is left -/

theorem not_spent {dir f : ℕ} (hf : ∀ q ∈ W, (s.pageWord dir q).frame ≠ f) : ¬ s.Spent dir W f := by
  intro hc
  obtain ⟨q, hq, hqf⟩ := hc.exists_page
  exact hf q hq hqf

/-- A walk that freed no page table leaves what it should. -/
theorem FreedBy.unmapped {z : MemState} {new : ℕ → ℕ} {word : ℕ → Word} {dropped : Finset ℕ} {list : List Block}
    (h : FreedBy s pid p.pageDir W ∅ W z) (hp : s.processes pid = some p) (hover : Over z new word ∅ dropped ∅ ∅ s')
    {orig : List Block} (hlist : ∀ x, IsFree list x ↔ IsFree orig x) :
    Unmapped (s.setKernelPages orig) pid p W (s'.setKernelPages list) := by
  have hfree : ∀ f, IsFree s'.freeMemoryMap f ↔ IsFree s.freeMemoryMap f ∨ s.Spent p.pageDir W f := by
    intro f
    rw [hover.free, h.free]
    simp
  have hmem : ∀ f j, ¬ IsFree s'.freeMemoryMap f → s.Plain f → s'.mem f j =
      if ∃ q ∈ W, f = s.tableAt p.pageDir q ∧ j = pgtableEntry q then Word.zero else s.mem f j := by
    intro f j hused hplain
    have husedZ : ¬ IsFree z.freeMemoryMap f := by
      rw [h.free]
      rw [hfree] at hused
      rintro (hc | hc | hc)
      · exact hused (.inl hc)
      · exact Finset.notMem_empty f hc
      · exact hused (.inr hc)
    rw [hover.mem f husedZ (h.plain_iff.mpr hplain)]
    split_ifs with hq
    · obtain ⟨q, hq, rfl, rfl⟩ := hq
      exact h.cleared q hq
    · exact h.kept f j fun q hqW hc => hq ⟨q, hqW, hc⟩
  have hdirUsed : ¬ IsFree s'.freeMemoryMap p.pageDir := by
    rw [hfree, not_or]
    exact ⟨h.holds.own.elsewhere.used, not_spent fun q hq => (h.holds.frame q hq).2.1⟩
  have hdir : s'.mem p.pageDir = s.mem p.pageDir := by
    funext j
    rw [hmem _ j hdirUsed h.holds.own.elsewhere.plain, if_neg]
    rintro ⟨q, hq, hc, -⟩
    exact (h.holds.table hq).2 hc.symm
  have htableUsed : ∀ i < kernelFirstPgdirEntry, (s.mem p.pageDir i).present = true →
      ¬ IsFree s'.freeMemoryMap (s.mem p.pageDir i).frame := by
    intro i hi hpresent
    rw [hfree, not_or]
    exact ⟨(h.holds.own.table i hi hpresent).1.used,
      not_spent fun q hq hc => (h.holds.frame q hq).2.2 i hi hpresent hc.symm⟩
  obtain ⟨k, free, hk, hprocesses, -, hfreeList⟩ := h.pages
  obtain rfl : p = k := Option.some.inj (hp.symm.trans hk)
  refine ⟨?_, ?_, fun q hq => ?_, fun q hq hqW => ?_, hmem, fun i hi => ?_, fun q hq => ?_, fun f hf => ?_, hfree,
    hlist, free, hover.rest.processes.trans hprocesses, hfreeList⟩
  · exact hover.rest.current.trans h.current
  · exact hover.rest.cr3.trans h.cr3
  · have hpresent := (present_of_entry (h.holds.mapped q hq)).1
    have hi := pgdirEntry_of_user (h.holds.user q hq)
    show s'.entry p.pageDir q = none
    rw [entry_seen, hdir, Word.seen_of_present hpresent, Option.bind_some,
      hmem _ _ (htableUsed _ hi hpresent) (h.holds.table hq).1.plain, if_pos ⟨q, hq, rfl, rfl⟩]
    rfl
  · show s'.entry p.pageDir q = s.entry p.pageDir q
    rw [entry_seen, entry_seen, hdir]
    cases he : (s.mem p.pageDir (pgdirEntry q)).seen with
    | none => rfl
    | some e =>
      obtain ⟨hpresent, rfl⟩ := Word.seen_eq_some he
      have hi := pgdirEntry_of_user hq
      rw [Option.bind_some, Option.bind_some, hmem _ _ (htableUsed _ hi hpresent) (h.holds.own.table _ hi hpresent).1.plain,
        if_neg]
      rintro ⟨x, hx, htable, hentry⟩
      have hxi := h.holds.own.inj _ hi _ (pgdirEntry_of_user (h.holds.user x hx)) hpresent
        (present_of_entry (h.holds.mapped x hx)).1 htable
      rw [page_ext (lt_windowPage_of_user hq) (lt_windowPage_of_user (h.holds.user x hx)) hxi hentry] at hqW
      exact hqW hx
  · show s'.dirEntry i = s.dirEntry i
    rw [hover.dir i hi, if_neg (Finset.notMem_empty i), h.dirEntry_eq]
  · show s'.entry s'.cr3 q = s.entry s.cr3 q
    rw [hover.entry q hq, if_neg (Finset.notMem_empty q), h.entry_eq hq]
  · show s'.frameRef f = (s.frameRef f).map fun r =>
      { r with count := r.count - (mappers (s.pageWord p.pageDir) W f).card }
    rw [hover.refs, h.refs, Option.map_map]
    cases hr : s.frameRef f with
    | none => rfl
    | some r =>
      have hzero : mappers word ∅ f = ∅ := Finset.filter_empty _
      simp only [Option.map_some, Function.comp_apply, hzero, Finset.card_empty, Nat.add_zero]
      split_ifs with hdropped
      · have hspent := (h.free f).mp (hover.wasFree f hdropped)
        obtain hc | hc | ⟨r', hr', -, -, hcount⟩ := hspent
        · exact absurd hc hf
        · exact absurd hc (Finset.notMem_empty f)
        · obtain rfl : r = r' := Option.some.inj (hr.symm.trans hr')
          rw [← hcount, Nat.sub_self]
      · rfl

/-! ## What it takes -/

/-- A page of the kernel is never unmapped: the current process has it too. -/
theorem Unmapped.user (h : s.Unmapped pid p W s') (hk : Kept s pid p W) (hwindow : ∀ q ∈ W, q < windowPage)
    (hmapped : ∀ q ∈ W, s.entry p.pageDir q ≠ none) : ∀ q ∈ W, q < kernelPage := by
  intro q hq
  by_contra hkernel
  have hentry : ∀ x, kernelPage ≤ x → kernelFirstPgdirEntry ≤ pgdirEntry x ∨ windowPage ≤ x := by
    intro x hx
    rw [kernelPage_eq] at hx
    rw [windowPage_eq]
    unfold pgdirEntry
    rw [show kernelPgdirSize = 1024 from rfl, show kernelFirstPgdirEntry = 896 from rfl]
    omega
  have hkernelDir : ∀ x ∈ W, kernelPage ≤ x → (s.mem p.pageDir (pgdirEntry x)).seen = s.dirEntry (pgdirEntry x) :=
    fun x hx hxk => hk.kernel _ ((hentry x hxk).resolve_right (not_le.mpr (hwindow x hx)))
      (pgdirEntry_lt_of_lt (hwindow x hx))
  have hown := hk.holds.own.elsewhere
  have htable : ∀ x ∈ W, p.pageDir ≠ s.tableAt p.pageDir x := by
    intro x hx hc
    by_cases hxk : x < kernelPage
    · exact (hk.holds.table (Finset.mem_filter.mpr ⟨hx, hxk⟩)).2 hc.symm
    · have hseen := hkernelDir x hx (not_lt.mp hxk)
      rw [Word.seen_of_present (present_of_entry (hmapped x hx)).1] at hseen
      exact hown.plain.2 _ _ (pgdirEntry_lt_of_lt (hwindow x hx)) hseen.symm hc.symm
  have hused : ¬ IsFree s'.freeMemoryMap p.pageDir := by
    rw [h.free, not_or]
    exact ⟨hown.used, not_spent hk.frames⟩
  have hdir : s'.mem p.pageDir (pgdirEntry q) = s.mem p.pageDir (pgdirEntry q) := by
    rw [h.mem _ _ hused hown.plain, if_neg]
    rintro ⟨x, hx, hc, -⟩
    exact htable x hx hc
  have hseen := hkernelDir q hq (not_lt.mp hkernel)
  have hsame : s'.entry p.pageDir q = s'.entry s'.cr3 q := by
    rw [entry_seen, entry_eq, hdir, hseen, h.currentDir _ (pgdirEntry_lt_of_lt (hwindow q hq))]
  have hbefore : s.entry s.cr3 q = s.entry p.pageDir q := by
    rw [entry_seen s p.pageDir, entry_eq, hseen]
  refine hmapped q hq ?_
  rw [← hbefore, ← h.currentEntry q (hwindow q hq), ← hsame, h.unmapped q hq]

/-- The pages of the walk become free pages of the process, so they are those of `W`. -/
theorem Unmapped.walked {pages : List ℕ} {s1 s2 : MemState} (h : s.Unmapped pid p W s')
    (hk : Kept s pid p W) (hstart : s1.processes = s.processes)
    (hrun : pages.foldlM (freeDataPage pid p.pageDir t) s1 = some s2) (hlast : s'.processes = s2.processes)
    (hbound : ∀ q ∈ pages, q * kernelFrameSize + kernelFrameSize < 2 ^ 32) : ∀ q ∈ pages, q ∈ W := by
  obtain ⟨list, hprocesses, hnot, hfree⟩ := processes_walk hrun (hstart ▸ hk.process) hk.pages hbound
  obtain ⟨list', hprocesses', hfree'⟩ := h.processes
  have hsame : list = list' := by
    have hget := congrFun (hlast.trans hprocesses) pid
    rw [hprocesses', Function.update_self, Function.update_self, Option.some.injEq, Process.mk.injEq] at hget
    exact hget.2.symm
  subst hsame
  intro q hq
  exact ((hfree' q).mp ((hfree q).mpr (.inr hq))).resolve_left (hnot q hq)

theorem processes_freeKernelPages {s4 : MemState}
    (h : (s.freeKernelPagesTo d 1).bind (fun s4 => s4.freeKernelPagesTo t 1) = some s4) :
    ∃ list, s4 = s.setKernelPages list := by
  obtain ⟨s5, h5, h6⟩ := Option.bind_eq_some_iff.mp h
  obtain ⟨list5, -, rfl⟩ := Option.map_eq_some_iff.mp h5
  obtain ⟨list6, -, rfl⟩ := Option.map_eq_some_iff.mp h6
  exact ⟨list6, rfl⟩

/-- The pages of the walk lie below the end of the address space. -/
theorem walkedPage_bound (hlimit : virtAddr + size ≤ windowPage * kernelFrameSize)
    (hq : q ∈ List.range' (virtAddr / kernelFrameSize) (walkedPages virtAddr size)) :
    q * kernelFrameSize + kernelFrameSize < 2 ^ 32 := by
  rw [List.mem_range'_1, walkedPages_eq hlimit] at hq
  unfold pageCount pageOffset at hq
  rw [windowPage_eq] at hlimit
  rw [kernelFrameSize_eq] at *
  omega

theorem FreesExactly.freeable (h : s.FreesExactly virtAddr size pid p)
    (hk : Kept s pid p (touchedPages virtAddr size)) (hlimit : virtAddr + size ≤ windowPage * kernelFrameSize)
    (hmapped : ∀ q ∈ touchedPages virtAddr size, s.entry p.pageDir q ≠ none) : s.Freeable p virtAddr size := by
  obtain ⟨s', hrun, hU⟩ := h
  have hwindow : ∀ q ∈ touchedPages virtAddr size, q < windowPage := by
    intro q hq
    obtain ⟨a, ha, rfl⟩ := Finset.mem_image.mp hq
    rw [Finset.mem_Ico] at ha
    exact Nat.div_lt_of_lt_mul (by rw [Nat.mul_comm]; omega)
  have huser := hU.user hk hwindow hmapped
  obtain ⟨d, t, list, s1, s2, s3, htake, hs1, hs2, hs3, hlast⟩ :=
    (memoryFreeProcessData_eq_some hk.process hk.other).mp hrun
  obtain ⟨list', rfl⟩ := processes_freeKernelPages hlast
  obtain ⟨hdFree, htFree, hne, hdesc, hfree⟩ := kernelPages_taken hk.kernelPages htake
  have hstart : s1.processes = s.processes := (rest_mapTempOrPanic hs1).processes
  have hsub := hU.walked hk hstart hs2 (rest_unmapPage hs3).processes fun q hq => walkedPage_bound hlimit hq
  have hturns : walkedPages virtAddr size = (touchedPages virtAddr size).card := by
    refine le_antisymm ?_ (card_le_walkedPages hlimit)
    have hcard : (List.range' (virtAddr / kernelFrameSize) (walkedPages virtAddr size)).toFinset ⊆
        touchedPages virtAddr size := fun q hq => hsub q (List.mem_toFinset.mp hq)
    have hle := Finset.card_le_card hcard
    rwa [List.toFinset_range'_1, Nat.card_Ico, Nat.add_sub_cancel_left] at hle
  obtain ⟨hempty, hoffsets⟩ := (walkedPages_eq_card_iff hlimit).mp hturns
  -- the walk, from the state without the two pages
  have hH := hk.holds_setKernelPages huser list
  have h0 := hk.inOrder.setKernelPages list
  have hd := (hk.spare d hdFree).setKernelPages list
  have ht := (hk.spare t htFree).setKernelPages list
  obtain ⟨hwalk1, hroomDir, hG⟩ := hH.start h0 hk.process hk.pages hd hs1
  have hd1 : Descending s1.freeMemoryMap := by
    have hdesc0 : Descending (s.setKernelPages list).freeMemoryMap := hk.descending
    rw [mapTempOrPanic_eq hd.unmapped] at hs1
    exact descending_mapPage hdesc0 hd.lt hs1
  have hpagesSet : (List.range' (virtAddr / kernelFrameSize) (walkedPages virtAddr size)).toFinset =
      touchedPages virtAddr size := by
    rw [List.toFinset_range'_1, hturns, ← touchedPages_eq_Ico]
  obtain ⟨F', hwalk2, -, hbad, hroom, hGt⟩ := hwalk1.walk h0 hk.bounded ht hne hk.not_free hd1
    (List.pairwise_lt_range' 1) hsub hs2
  rw [hpagesSet] at hwalk2
  obtain ⟨s3', z, new, dropped, hs3', hz, hover⟩ := hwalk2.finish h0 hd
  obtain rfl : s3 = s3' := Option.some.inj (hs3.symm.trans hs3')
  have hused : ∀ f, (s.setKernelPages list).Elsewhere f → (∀ q ∈ touchedPages virtAddr size,
      (s.pageWord p.pageDir q).frame ≠ f) → ¬ IsFree s3.freeMemoryMap f := by
    intro f helse hframes hc
    exact ((hU.free f).mp hc).elim helse.used (not_spent hframes)
  have hmem : ∀ q, q ∈ List.range' (virtAddr / kernelFrameSize) (walkedPages virtAddr size) ↔
      q ∈ touchedPages virtAddr size := fun q => by rw [← hpagesSet, List.mem_toFinset]
  refine ⟨huser, hempty, hoffsets, ⟨d, t, list, htake, ?_⟩, fun f hf => ?_⟩
  · by_cases hnone : touchedPages virtAddr size = ∅
    · rw [if_pos hnone]
      exact hG
    · rw [if_neg hnone]
      obtain ⟨q, hq⟩ := Finset.nonempty_of_ne_empty hnone
      exact hGt (List.ne_nil_of_mem ((hmem q).mpr hq))
  · obtain rfl | hf := Finset.mem_insert.mp hf
    · refine ⟨hroomDir, fun hr => hused _ hH.own.elsewhere (fun q hq => (hH.frame q hq).2.1) ?_⟩
      exact (hover.free _).mpr (.inr (mem_loose.mpr ⟨hr, rfl⟩))
    · obtain ⟨q, hq, rfl⟩ := Finset.mem_image.mp hf
      refine ⟨hroom q ((hmem q).mpr hq), fun hr => ?_⟩
      refine hused _ (hH.table hq).1 (fun x hx => (hH.frame_ne_table hx hq).symm) ?_
      refine (hover.free _).mpr (.inl ⟨(hz.free _).mpr (.inr (.inl (hbad q ((hmem q).mpr hq) hr))), ?_⟩)
      simp

/-! ## What is enough -/

theorem Freeable.freesExactly (h : s.Freeable p virtAddr size) (hk : Kept s pid p (touchedPages virtAddr size))
    (hlimit : virtAddr + size ≤ windowPage * kernelFrameSize) : s.FreesExactly virtAddr size pid p := by
  obtain ⟨huser, hempty, hoffsets, ⟨d, t, list, htake, G, hG, hcard⟩, hreferenced⟩ := h
  have hturns := (walkedPages_eq_card_iff hlimit).mpr ⟨hempty, hoffsets⟩
  obtain ⟨hdFree, htFree, hne, hdesc, hfree⟩ := kernelPages_taken hk.kernelPages htake
  have hH := hk.holds_setKernelPages huser list
  have h0 := hk.inOrder.setKernelPages list
  have hd := (hk.spare d hdFree).setKernelPages list
  have ht := (hk.spare t htFree).setKernelPages list
  have hpagesSet : (List.range' (virtAddr / kernelFrameSize) (walkedPages virtAddr size)).toFinset =
      touchedPages virtAddr size := by
    rw [List.toFinset_range'_1, hturns, ← touchedPages_eq_Ico]
  have hmem : ∀ q, q ∈ List.range' (virtAddr / kernelFrameSize) (walkedPages virtAddr size) ↔
      q ∈ touchedPages virtAddr size := fun q => by rw [← hpagesSet, List.mem_toFinset]
  have hcardDir : (madeBy (s.setKernelPages list) {d}).card ≤ G.card := by
    refine le_trans (Finset.card_le_card ?_) hcard
    intro i hi
    obtain ⟨⟨q, hq, hqi⟩, hnone⟩ := mem_madeBy.mp hi
    refine mem_madeBy.mpr ⟨⟨q, ?_, hqi⟩, hnone⟩
    split_ifs
    · exact hq
    · exact Finset.mem_insert_of_mem hq
  obtain ⟨hroomDir, hgoodDir⟩ := hreferenced _ (Finset.mem_insert_self ..)
  obtain ⟨s1, hs1⟩ := hH.exists_start h0 hd hroomDir hG hcardDir
  obtain ⟨hwalk1, -⟩ := hH.start h0 hk.process hk.pages hd hs1
  have hgood : ∀ q ∈ List.range' (virtAddr / kernelFrameSize) (walkedPages virtAddr size),
      Referable s (s.tableAt p.pageDir q) ∧ s.frameRef (s.tableAt p.pageDir q) ≠ some ⟨false, 0⟩ := fun q hq =>
    hreferenced _ (Finset.mem_insert_of_mem (Finset.mem_image_of_mem _ ((hmem q).mp hq)))
  obtain ⟨s2, hs2, hwalk2⟩ := hwalk1.exists_walk h0 ht hne hk.not_free (List.nodup_range' 1)
    (fun q hq => ⟨(hmem q).mp hq, Finset.notMem_empty q⟩) hgood hG fun hnil => by
      rw [if_neg] at hcard
      · exact hcard
      · intro hnone
        rw [hnone, Finset.card_empty] at hturns
        exact hnil (by rw [hturns]; rfl)
  rw [Finset.empty_union, hpagesSet] at hwalk2
  obtain ⟨s3, z, new, dropped, hs3, hz, hover⟩ := hwalk2.finish h0 hd
  have hloose : (s.setKernelPages list).loose p.pageDir = ∅ := if_neg hgoodDir
  rw [hloose] at hover
  have hkernel3 : s3.freeKernelPages = list := hover.rest.kernelPages.trans hz.kernelPages
  have hboundOf : ∀ x, x < windowPage → x * kernelFrameSize + kernelFrameSize < 2 ^ 32 := by
    intro x hx
    rw [windowPage_eq] at hx
    rw [kernelFrameSize_eq]
    omega
  obtain ⟨list', hlast, hlist'⟩ := exists_freeKernelPages (s := s3) s.freeKernelPages (hkernel3 ▸ hdesc)
    (hboundOf d hd.lt) (hboundOf t ht.lt) hne (hkernel3 ▸ hfree) hdFree htFree
  refine ⟨s3.setKernelPages list', ?_, hz.unmapped hk.process hover hlist'⟩
  exact (memoryFreeProcessData_eq_some hk.process hk.other).mpr ⟨d, t, list, s1, s2, s3, htake, hs1, hs2, hs3, hlast⟩

/-- The page directories of two processes, in the frames 1 and 4, with one page table of the kernel, and the page
table of two pages of the second process. -/
def pairWords (f j : ℕ) : Word :=
  if f = 1 ∧ j = 896 then Word.pgDir 2
  else if f = 2 ∧ j = 0 then Word.page 3 tempFlags
  else if f = 4 ∧ j = 0 then Word.pgDir 5
  else if f = 4 ∧ j = 896 then Word.pgDir 2
  else if f = 5 ∧ j = 0 then Word.page 6 tempFlags
  else if f = 5 ∧ j = 1 then Word.page 7 tempFlags
  else Word.zero

def pairChild : Process := ⟨4, []⟩

def pairState : MemState where
  mem := pairWords
  frameRef f := if f < 8 then some ⟨false, 1⟩ else none
  freeMemoryMap := []
  freeKernelPages := [⟨⟨0xE0001000, 0xE0003000⟩, 0xE0001000⟩]
  processes pid := if pid = 0 then some ⟨1, []⟩ else if pid = 1 then some pairChild else none
  current := 0
  cr3 := 1

theorem pair_dirEntry (i : ℕ) : pairState.dirEntry i = if i = 896 then some (Word.pgDir 2) else none := by
  show (pairWords 1 i).seen = _
  unfold pairWords
  split_ifs <;> first | rfl | omega

theorem pair_childDir {i : ℕ} (hi : i < kernelFirstPgdirEntry) :
    pairState.mem 4 i = if i = 0 then Word.pgDir 5 else Word.zero := by
  rw [show kernelFirstPgdirEntry = 896 from rfl] at hi
  show pairWords 4 i = _
  unfold pairWords
  split_ifs <;> first | rfl | omega

theorem pair_childEntry {i : ℕ} (hi : i < kernelFirstPgdirEntry) (h : (pairState.mem 4 i).present = true) :
    i = 0 ∧ (pairState.mem 4 i).frame = 5 := by
  rw [pair_childDir hi] at h ⊢
  split_ifs at h ⊢ with h0
  · exact ⟨h0, rfl⟩
  · cases h

theorem pair_elsewhere {f : ℕ} (hlow : 3 < f) (hhigh : f < 8) : pairState.Elsewhere f := by
  refine ⟨not_covers_nil, ⟨fun hc => ?_, fun i e _ he hc => ?_⟩, ?_, ?_⟩
  · change f = 1 at hc
    omega
  · rw [pair_dirEntry] at he
    split_ifs at he
    cases he
    change 2 = f at hc
    omega
  · rw [kernelFrameSize_eq]
    omega
  · show (if f < 8 then some (⟨false, 1⟩ : FrameRef) else none) ≠ none
    rw [if_pos hhigh]
    simp

theorem pair_inOrder : InOrder pairState := by
  refine ⟨⟨fun i j e e' _ _ he he' _ => ?_, fun i e _ he hc => ?_, not_covers_nil, fun _ _ _ _ => not_covers_nil⟩,
    descending_nil.whole, fun f hf => absurd hf not_covers_nil⟩
  · rw [pair_dirEntry] at he he'
    split_ifs at he he' with hi hj
    rw [hi, hj]
  · rw [pair_dirEntry] at he
    split_ifs at he
    cases he
    change 2 = 1 at hc
    omega

theorem pair_holds : pairState.Holds 4 {0} := by
  refine ⟨⟨pair_elsewhere (by decide) (by decide), fun i hi hpresent => ?_, fun i hi j hj hpi hpj _ => ?_⟩, ?_, ?_, ?_,
    fun f r hr => ?_⟩
  · rw [(pair_childEntry hi hpresent).2]
    exact ⟨pair_elsewhere (by decide) (by decide), by decide⟩
  · rw [(pair_childEntry hi hpi).1, (pair_childEntry hj hpj).1]
  · decide
  · intro q hq
    rw [Finset.mem_singleton.mp hq]
    decide
  · intro q hq
    rw [Finset.mem_singleton.mp hq]
    refine ⟨pair_elsewhere (by decide) (by decide), by decide, fun i hi hpresent => ?_⟩
    rw [(pair_childEntry hi hpresent).2]
    decide
  · change (if f < 8 then some (⟨false, 1⟩ : FrameRef) else none) = some r at hr
    split_ifs at hr
    cases hr
    exact le_trans (Finset.card_filter_le _ _) (by decide)

theorem pair_spare {x : ℕ} (hx : IsFree pairState.freeKernelPages x) : Spare pairState x := by
  have hcases : x = 917505 ∨ x = 917506 := by
    obtain ⟨node, hnode, hbase, hlimit⟩ := hx
    rw [List.mem_singleton.mp hnode, kernelFrameSize_eq] at hbase hlimit
    dsimp only at hbase hlimit
    omega
  have hfull : pgdirEntry x = 896 := by
    obtain rfl | rfl := hcases
    · rfl
    · rfl
  refine ⟨?_, ?_, fun _ => ⟨917504, by decide, hfull.symm, by decide⟩⟩
  · rw [windowPage_eq]
    omega
  · obtain rfl | rfl := hcases
    · rfl
    · rfl

theorem pair_kept : Kept pairState 1 pairChild {0} := by
  refine ⟨pair_inOrder, descending_nil, fun i e _ he => ?_, rfl, by decide, fun i hi hlt => ?_, pair_holds, ?_,
    descending_nil, fun _ _ => not_covers_nil, ⟨⟨?_, ?_, ?_⟩, ?_, ?_, ?_⟩, fun x hx => pair_spare hx⟩
  · rw [pair_dirEntry] at he
    split_ifs at he
    cases he
    decide
  · rw [pair_dirEntry]
    rw [show kernelFirstPgdirEntry = 896 from rfl] at hi
    show (pairWords 4 i).seen = _
    unfold pairWords
    split_ifs <;> first | rfl | omega
  all_goals decide

theorem pair_touched : touchedPages 0 4096 = {0} ∧ touchedPages 2048 2048 = {0} := by
  rw [touchedPages_eq (by decide), touchedPages_eq (by decide)]
  decide

end MemState

end UtkKernel.Memory
