import UtkKernel.Memory.RoundTrip

/-! # Frames taken and pages mapped

`memory_mmap` and `memory_alloc_page` take a run of frames and map a run of pages to it. The first counts frames
and pages with different roundings; the second multiplies the count with the page size in 32 bits. -/

namespace UtkKernel.Memory
open Structures Foundations
set_option autoImplicit false

/-! ## Runs of frames -/

section
variable {list list' : List Block} {addr length f : ℕ} {start : MemAllocStart}

theorem blockSize_eq (length : ℕ) : blockSize length = length % 2 ^ 20 * kernelFrameSize := by
  unfold blockSize
  rw [kernelFrameSize_eq]
  omega

theorem cutAt_zero (start : MemAllocStart) {node : Block} (hlimit : node.data.base < 2 ^ 32 ∧ node.data.limit < 2 ^ 32) :
    (cutAt start 0 node).2.data = node.data ∧
      ((cutAt start 0 node).1 = node.data.base ∨ (cutAt start 0 node).1 = node.data.limit) := by
  obtain ⟨⟨base, limit⟩, priority⟩ := node
  dsimp only at hlimit
  cases start with
  | begining =>
    obtain ⟨b, rfl, hcut⟩ := cutAt_begining 0 ⟨⟨base, limit⟩, priority⟩
    rw [hcut]
    dsimp only
    rw [Nat.add_zero, uintptr_of_lt hlimit.1]
    exact ⟨rfl, .inl rfl⟩
  | last =>
    obtain ⟨l, rfl, hcut⟩ := cutAt_last 0 ⟨⟨base, limit⟩, priority⟩
    rw [hcut]
    dsimp only
    have hsame : uintptr (limit + 2 ^ 32 - 0) = limit := by
      unfold uintptr
      omega
    rw [hsame]
    exact ⟨rfl, .inr rfl⟩

/-- Nothing is taken: the ranges are the same. -/
theorem WholeFrames.takeNone (hl : WholeFrames list) (hzero : blockSize length = 0)
    (h : Memory.getBlock list length start = some (addr, list')) :
    WholeFrames list' ∧ ∀ x, Covers list' x ↔ Covers list x := by
  obtain ⟨before, node, after, rfl, -, -, rfl⟩ := getBlock_eq_some h
  obtain ⟨hbase, hlimit⟩ := hl.wellFormed.bounds node (by simp)
  rw [hzero]
  obtain ⟨hdata, -⟩ := cutAt_zero start ⟨hbase.trans hlimit, hlimit⟩
  generalize (cutAt start 0 node).2 = cut at hdata
  have hleft : leftOf cut = [cut] := by
    unfold leftOf
    rw [hdata, if_neg hbase.ne]
  rw [hleft, List.singleton_append]
  have hmem : ∀ n ∈ before ++ cut :: after, ∃ n' ∈ before ++ node :: after, n'.data = n.data := by
    intro n hn
    simp only [List.mem_append, List.mem_cons] at hn ⊢
    obtain hn | rfl | hn := hn
    · exact ⟨n, .inl hn, rfl⟩
    · exact ⟨node, .inr (.inl rfl), hdata.symm⟩
    · exact ⟨n, .inr (.inr hn), rfl⟩
  refine ⟨⟨⟨fun n hn => ?_, fun n hn => ?_, ?_⟩, fun n hn => ?_⟩, fun x => ?_⟩
  · obtain ⟨n', hn', hsame⟩ := hmem n hn
    exact hsame ▸ hl.wellFormed.aligned n' hn'
  · obtain ⟨n', hn', hsame⟩ := hmem n hn
    exact hsame ▸ hl.wellFormed.bounds n' hn'
  · refine pairwise_replace [node] hl.wellFormed.disjoint (fun n _ hn => ?_) fun n _ hn => ?_
    · rw [hdata]
      exact hn node (List.mem_singleton_self _)
    · rw [hdata]
      exact hn node (List.mem_singleton_self _)
  · obtain ⟨n', hn', hsame⟩ := hmem n hn
    exact hsame ▸ hl.limits n' hn'
  · rw [covers_append, covers_append, covers_cons, covers_cons, hdata]

/-- The run of frames that `get_block` takes: the length counts modulo the number of frames in 32 bits. -/
structure TakesRun (list list' : List Block) (first count : ℕ) : Prop where
  whole : WholeFrames list'
  wasFree : ∀ f, first ≤ f → f < first + count → IsFree list f
  free : ∀ f, IsFree list' f ↔ IsFree list f ∧ ¬(first ≤ f ∧ f < first + count)

theorem WholeFrames.takeRun (hl : WholeFrames list)
    (h : Memory.getBlock list length start = some (addr, list')) :
    kernelFrameSize ∣ addr ∧ addr < 2 ^ 32 ∧
      TakesRun list list' (addr / kernelFrameSize) (length % 2 ^ 20) := by
  have hsize := blockSize_eq length
  have haddr : kernelFrameSize ∣ addr := by
    obtain ⟨before, node, after, rfl, -, rfl, -⟩ := getBlock_eq_some h
    exact cutAt_addr (hl.wellFormed.aligned node (by simp)) (hl.limits node (by simp))
  by_cases hzero : blockSize length = 0
  · obtain ⟨hwhole, hcovers⟩ := hl.takeNone hzero h
    have hnone : length % 2 ^ 20 = 0 := by
      rw [hsize] at hzero
      exact (Nat.mul_eq_zero.mp hzero).resolve_right (by decide)
    refine ⟨haddr, ?_, hwhole, fun f hle hlt => by omega, fun f => ?_⟩
    · obtain ⟨before, node, after, rfl, -, rfl, -⟩ := getBlock_eq_some h
      obtain ⟨hbase, hlimit⟩ := hl.wellFormed.bounds node (by simp)
      rw [hzero]
      obtain ⟨-, hedge | hedge⟩ := cutAt_zero start ⟨hbase.trans hlimit, hlimit⟩
      · rw [hedge]
        exact hbase.trans hlimit
      · rwa [hedge]
    · unfold IsFree
      rw [hcovers]
      refine (and_iff_left ?_).symm
      omega
  · obtain ⟨hbound, hfree, hrest⟩ := getBlock_covers hl.wellFormed (Nat.pos_of_ne_zero hzero) h
    obtain ⟨k, rfl⟩ := haddr
    rw [Nat.mul_div_cancel_left k (by decide)]
    rw [hsize] at hbound hfree hrest
    generalize length % 2 ^ 20 = n at hbound hfree hrest
    refine ⟨Nat.dvd_mul_right .., ?_, hl.getBlock (Nat.pos_of_ne_zero hzero) h, fun f hle hlt => ?_, fun f => ?_⟩
    · exact lt_of_le_of_lt (Nat.le_add_right ..) hbound
    · refine hfree _ ?_ ?_
      · rw [kernelFrameSize_eq]
        omega
      · rw [kernelFrameSize_eq]
        omega
    · unfold IsFree
      rw [hrest, kernelFrameSize_eq]
      refine and_congr_right fun _ => ?_
      omega

/-- The run is given back. -/
theorem TakesRun.addBlock {first count : ℕ} (hl : WholeFrames list) (h : TakesRun list list' first count)
    (hpos : 0 < count) (hcount : length % 2 ^ 20 = count) {list'' : List Block}
    (hadd : Memory.addBlock list' (first * kernelFrameSize) length = some list'') :
    WholeFrames list'' ∧ ∀ f, IsFree list'' f ↔ IsFree list f := by
  have hsize := blockSize_eq length
  rw [hcount] at hsize
  have hlast := hl.bound (h.wasFree (first + count - 1) (by omega) (by omega))
  have hlimit : first * kernelFrameSize + blockSize length < 2 ^ 32 := by
    calc first * kernelFrameSize + blockSize length
        = (first + count) * kernelFrameSize := by rw [hsize, Nat.add_mul]
      _ = (first + count - 1 + 1) * kernelFrameSize := by rw [Nat.sub_add_cancel (by omega)]
      _ < 2 ^ 32 := by rwa [Nat.add_mul, Nat.one_mul]
  have hout : ∀ x, first * kernelFrameSize ≤ x → x < first * kernelFrameSize + blockSize length →
      ¬ Covers list' x := by
    intro x hle hlt hcovers
    have hfree := (h.free _).mp (h.whole.wellFormed.covers_frame hcovers)
    refine hfree.2 ⟨?_, ?_⟩
    · rw [kernelFrameSize_eq] at hle ⊢
      omega
    · rw [hsize, kernelFrameSize_eq] at hlt
      rw [kernelFrameSize_eq]
      omega
  have hblock : 0 < blockSize length := by
    rw [hsize]
    exact Nat.mul_pos hpos (by decide)
  obtain ⟨l, hl', hwhole, hcovers⟩ := h.whole.addBlock (Nat.dvd_mul_left kernelFrameSize first) hblock hlimit hout
  rw [hadd] at hl'
  cases hl'
  refine ⟨hwhole, fun f => ?_⟩
  have hstep : IsFree list'' f ↔ IsFree list' f ∨ (first ≤ f ∧ f < first + count) := by
    unfold IsFree
    rw [hcovers, hsize, kernelFrameSize_eq]
    refine or_congr_right ?_
    omega
  rw [hstep, h.free]
  constructor
  · rintro (⟨hfree, -⟩ | ⟨hle, hlt⟩)
    · exact hfree
    · exact h.wasFree f hle hlt
  · intro hfree
    by_cases hin : first ≤ f ∧ f < first + count
    · exact .inr hin
    · exact .inl ⟨hfree, hin⟩

/-- Nothing is taken from the first range and given back. -/
theorem WholeFrames.addNone (hl : WholeFrames list) (hzero : blockSize length = 0)
    (h : Memory.getBlock list length .begining = some (addr, list')) {list'' : List Block}
    (hadd : Memory.addBlock list' addr length = some list'') (f : ℕ) : IsFree list'' f ↔ IsFree list f := by
  obtain ⟨hwhole, hcovers⟩ := hl.takeNone hzero h
  unfold IsFree
  rw [← hcovers]
  cases list with
  | nil => cases h
  | cons node list =>
    obtain ⟨hbase, hlimit⟩ := hl.wellFormed.bounds node (List.mem_cons_self ..)
    unfold Memory.getBlock takeFirst at h
    rw [hzero] at h
    dsimp only at h
    obtain ⟨hdata, -⟩ := cutAt_zero .begining ⟨hbase.trans hlimit, hlimit⟩
    change (cutBegining 0 node).2.data = node.data at hdata
    rw [if_pos (Nat.zero_le _), hdata, if_neg hbase.ne] at h
    cases h
    generalize (cutBegining 0 node).2 = cut at hdata hadd hwhole hcovers
    change Memory.addBlock (cut :: list) node.data.base length = some list'' at hadd
    have hpair := hwhole.wellFormed.disjoint
    have hbounds := hwhole.wellFormed.bounds
    rw [addBlock_eq (by omega), hzero, Nat.add_zero] at hadd
    unfold mergeBlock at hadd
    rw [hdata, if_pos rfl] at hadd
    cases list with
    | nil =>
      cases hadd
      rw [covers_cons, covers_cons, hdata]
    | cons next rest =>
      dsimp only at hadd
      have hnext := hbounds next (by simp)
      split_ifs at hadd with htouch
      · cases hadd
        rw [covers_cons, covers_cons, covers_cons, hdata, ← or_assoc]
        refine or_congr_left ?_
        dsimp only
        omega
      · cases hadd
        rw [covers_cons, covers_cons, covers_cons, covers_cons, hdata]

end

namespace MemState

variable {s s1 s' : MemState} {page frame count taken f : ℕ} {flags : BitVec 12}

/-! ## Mapping what was taken -/

theorem InOrder.mono (h : InOrder s) (hmem : s1.mem = s.mem) (hcr3 : s1.cr3 = s.cr3)
    (href : s1.frameRef = s.frameRef) (hwhole : WholeFrames s1.freeMemoryMap)
    (hfree : ∀ f, IsFree s1.freeMemoryMap f → IsFree s.freeMemoryMap f) : InOrder s1 := by
  have hdir : ∀ i, s1.dirEntry i = s.dirEntry i := by
    intro i
    unfold dirEntry
    rw [hmem, hcr3]
  refine ⟨⟨fun i j e e' hi hj he he' heq => ?_, fun i e hi he => ?_, fun hc => ?_, fun i e hi he hc => ?_⟩,
    hwhole, fun f hf => ?_⟩
  · rw [hdir] at he he'
    exact h.apart.inj i j e e' hi hj he he' heq
  · rw [hdir] at he
    rw [hcr3]
    exact h.apart.dir i e hi he
  · rw [hcr3] at hc
    exact h.apart.dirUsed (hfree _ hc)
  · rw [hdir] at he
    exact h.apart.tableUsed i e hi he (hfree _ hc)
  · rw [href]
    exact h.managed f (hfree f hf)

/-- The frame of a page table that the current page directory has got. -/
def NewTable (s s' : MemState) (f : ℕ) : Prop :=
  ∃ i e, i < kernelPgdirSize - 1 ∧ s.dirEntry i = none ∧ s'.dirEntry i = some e ∧ e.frame = f

/-- The run of `taken` frames from `frame` on is not free any more, and the `count` pages from `page` on are
mapped to the frames from `frame` on. Apart from new page tables nothing else has changed. -/
structure MapsRun (page frame count taken : ℕ) (flags : BitVec 12) (s s' : MemState) : Prop where
  cr3 : s'.cr3 = s.cr3
  limit : 0 < count → page + count ≤ windowPage
  unmapped : ∀ q, page ≤ q → q < page + count → s.entry s.cr3 q = none
  entry : ∀ q < windowPage, s'.entry s'.cr3 q =
    if page ≤ q ∧ q < page + count then some (Word.page (frame + (q - page)) flags) else s.entry s.cr3 q
  others : ∀ f, ¬ IsFree s.freeMemoryMap f → s.Plain f → s'.mem f = s.mem f
  window : ∀ k, kernelPgdirSize - 1 ≤ k → s'.mem s.cr3 k = s.mem s.cr3 k
  wasFree : ∀ f, frame ≤ f → f < frame + taken → IsFree s.freeMemoryMap f
  free : ∀ f, IsFree s'.freeMemoryMap f ↔
    IsFree s.freeMemoryMap f ∧ ¬(frame ≤ f ∧ f < frame + taken) ∧ ¬ NewTable s s' f
  tables : ∀ f, NewTable s s' f → IsFree s.freeMemoryMap f ∧ ¬(frame ≤ f ∧ f < frame + taken)

/-- Pages of the window are never mapped. -/
theorem limit_of_mapPages (hmap : MemState.mapPages flags page frame count s = some s') (hpage : page < 2 ^ 20)
    (hpos : 0 < count) : page + count ≤ windowPage := by
  induction count generalizing page frame s with
  | zero => cases hpos
  | succ count ih =>
    obtain ⟨s1, hmap1, hrest⟩ := Option.bind_eq_some_iff.mp hmap
    have hlow : page < windowPage := by
      by_contra hhigh
      unfold MemState.mapPage at hmap1
      rw [if_pos] at hmap1
      · cases hmap1
      · unfold pgdirEntry
        rw [windowPage_eq] at hhigh
        rw [show kernelPgdirSize = 1024 from rfl]
        omega
    cases count with
    | zero => exact hlow
    | succ count =>
      rw [windowPage_eq] at hlow
      have hnext := ih hrest (by omega) (Nat.succ_pos _)
      omega

/-- The loop of `kernel_mmap_internal` after a run of frames has been taken. -/
theorem mapsRun_of_mapPages (h0 : InOrder s) (hmem : s1.mem = s.mem) (hcr3 : s1.cr3 = s.cr3)
    (href : s1.frameRef = s.frameRef) (hrun : TakesRun s.freeMemoryMap s1.freeMemoryMap frame taken)
    (hpage : page < 2 ^ 20) (hunmapped : s1.isMapped page count = false)
    (hmap : MemState.mapPages flags page frame count s1 = some s') :
    MapsRun page frame count taken flags s s' ∧ SameRest s1 s' := by
  have h1 : InOrder s1 := h0.mono hmem hcr3 href hrun.whole fun f hf => ((hrun.free f).mp hf).1
  have hdir : ∀ i, s1.dirEntry i = s.dirEntry i := by
    intro i
    unfold dirEntry
    rw [hmem, hcr3]
  have hentry : ∀ q, s1.entry s1.cr3 q = s.entry s.cr3 q := by
    intro q
    rw [hcr3, entry_of_mem hmem]
  have hplain : ∀ f, s.Plain f → s1.Plain f := by
    rintro f ⟨hne, htables⟩
    refine ⟨hcr3 ▸ hne, fun i e hi he => htables i e hi ?_⟩
    rwa [hdir] at he
  have hlimit : 0 < count → page + count ≤ windowPage := limit_of_mapPages hmap hpage
  have hnone : ∀ q, page ≤ q → q < page + count → s.entry s.cr3 q = none := by
    intro q hle hlt
    unfold isMapped at hunmapped
    rw [List.any_eq_false] at hunmapped
    have hq := hunmapped (q - page) (List.mem_range.mpr (by omega))
    rw [Nat.add_sub_cancel' hle, hentry] at hq
    exact Option.not_isSome_iff_eq_none.mp hq
  have hover : ∃ new D, Over s1 new (direct page frame flags) ∅ ∅ D (Finset.Ico page (page + count)) s' := by
    obtain ⟨hstart, htaken⟩ := Over.start_Ico h1 page (direct page frame flags)
    by_cases hpos : 0 < count
    · have hzero : 0 + count = count := Nat.zero_add count
      obtain ⟨⟨new, hover, -⟩, -⟩ := hstart.mapPages htaken h1.apart (hzero.symm ▸ hlimit hpos) hmap
      rw [hzero] at hover
      exact ⟨new, _, hover⟩
    · obtain rfl := Nat.eq_zero_of_not_pos hpos
      cases hmap
      exact ⟨_, _, hstart⟩
  obtain ⟨new, D, hover⟩ := hover
  have htable : ∀ f, NewTable s s' f ↔ ∃ i ∈ D, f = new i := by
    intro f
    constructor
    · rintro ⟨i, e, hi, hold, hnew, rfl⟩
      rw [hover.dir i hi] at hnew
      split_ifs at hnew with hD
      · cases hnew
        exact ⟨i, hD, rfl⟩
      · rw [hdir, hold] at hnew
        cases hnew
    · rintro ⟨i, hD, rfl⟩
      obtain ⟨hi, hold, -⟩ := hover.made i hD
      refine ⟨i, Word.pgDir (new i), hi, hdir i ▸ hold, ?_, rfl⟩
      rw [hover.dir i hi, if_pos hD]
  refine ⟨⟨hover.rest.cr3.trans hcr3, hlimit, hnone, fun q hq => ?_, fun f hused hp => ?_, fun k hk => ?_,
    hrun.wasFree, fun f => ?_, fun f hf => ?_⟩, hover.rest⟩
  · rw [hover.entry q hq, hentry]
    simp only [Finset.mem_Ico]
    rfl
  · rw [hover.mem f (fun hc => hused ((hrun.free f).mp hc).1) (hplain f hp), hmem]
  · rw [← hcr3, hover.window k hk, hmem]
  · rw [hover.free, or_iff_left (Finset.notMem_empty f), hrun.free, and_assoc, htable]
    simp only [not_exists, not_and]
  · obtain ⟨i, hD, rfl⟩ := (htable f).mp hf
    obtain ⟨-, -, hfree⟩ := hover.made i hD
    exact (hrun.free _).mp hfree

/-! ## `memory_mmap` -/

/-- As many frames are taken as pages are mapped, the frames of new page tables apart, and each of these pages
is backed by one of these frames. -/
structure Backs (s s' : MemState) : Prop where
  count : {f | IsFree s.freeMemoryMap f ∧ ¬ IsFree s'.freeMemoryMap f ∧ ¬ NewTable s s' f}.ncard =
    {q | q < windowPage ∧ s.entry s.cr3 q = none ∧ s'.entry s'.cr3 q ≠ none}.ncard
  backed : ∀ q < windowPage, s.entry s.cr3 q = none → ∀ e, s'.entry s'.cr3 q = some e →
    IsFree s.freeMemoryMap e.frame ∧ ¬ IsFree s'.freeMemoryMap e.frame ∧ ¬ NewTable s s' e.frame

theorem MapsRun.taken_eq (h : MapsRun page frame count taken flags s s') :
    {f | IsFree s.freeMemoryMap f ∧ ¬ IsFree s'.freeMemoryMap f ∧ ¬ NewTable s s' f} =
      (Finset.Ico frame (frame + taken) : Set ℕ) := by
  ext f
  rw [Set.mem_ofPred_eq, Finset.coe_Ico, Set.mem_Ico]
  constructor
  · rintro ⟨hfree, hused, hno⟩
    by_contra hout
    exact hused ((h.free f).mpr ⟨hfree, hout, hno⟩)
  · intro hin
    have hfree := h.wasFree f hin.1 hin.2
    refine ⟨hfree, fun hc => ((h.free f).mp hc).2.1 hin, fun hc => (h.tables f hc).2 hin⟩

theorem MapsRun.mapped_eq (h : MapsRun page frame count taken flags s s') :
    {q | q < windowPage ∧ s.entry s.cr3 q = none ∧ s'.entry s'.cr3 q ≠ none} =
      (Finset.Ico page (page + count) : Set ℕ) := by
  ext q
  rw [Set.mem_ofPred_eq, Finset.coe_Ico, Set.mem_Ico]
  constructor
  · rintro ⟨hq, hnone, hsome⟩
    by_contra hout
    rw [h.entry q hq, if_neg hout] at hsome
    exact hsome hnone
  · rintro ⟨hle, hlt⟩
    have hlimit := h.limit (by omega)
    have hq : q < windowPage := lt_of_lt_of_le hlt hlimit
    refine ⟨hq, h.unmapped q hle hlt, ?_⟩
    rw [h.entry q hq, if_pos ⟨hle, hlt⟩]
    nofun

theorem MapsRun.backs_iff (h : MapsRun page frame count taken flags s s') : Backs s s' ↔ taken = count := by
  have hframes := h.taken_eq
  have hpages := h.mapped_eq
  constructor
  · rintro ⟨hcount, -⟩
    rw [hframes, hpages, Set.ncard_coe_finset, Set.ncard_coe_finset, Nat.card_Ico, Nat.card_Ico] at hcount
    omega
  · rintro rfl
    refine ⟨?_, fun q hq hnone e he => ?_⟩
    · rw [hframes, hpages, Set.ncard_coe_finset, Set.ncard_coe_finset, Nat.card_Ico, Nat.card_Ico]
      omega
    · rw [h.entry q hq, hnone] at he
      split_ifs at he with hin
      cases he
      have hmem : frame + (q - page) ∈ (Finset.Ico frame (frame + taken) : Set ℕ) := by
        rw [Finset.coe_Ico, Set.mem_Ico]
        omega
      rw [← hframes] at hmem
      exact hmem

/-- No frame is taken and nothing in memory changes. -/
structure Untouched (s s' : MemState) : Prop where
  mem : s'.mem = s.mem
  cr3 : s'.cr3 = s.cr3
  processes : s'.processes = s.processes
  free : ∀ f, IsFree s'.freeMemoryMap f ↔ IsFree s.freeMemoryMap f

theorem kernelMmapInternal_eq_some {err : OsReturnE}
    (h : s.kernelMmapInternal page frame count flags = some (s', err)) :
    (err = .osNoErr ∧ s.isMapped page count = false ∧
      MemState.mapPages flags page frame count s = some s') ∨
    (err = .osErrMappingAlreadyExists ∧ s.isMapped page count = true ∧ s' = s) := by
  unfold kernelMmapInternal at h
  split_ifs at h with hmapped
  · cases h
    exact .inr ⟨rfl, hmapped, rfl⟩
  · obtain ⟨s1, hmap, heq⟩ := Option.map_eq_some_iff.mp h
    cases heq
    exact .inl ⟨rfl, Bool.not_eq_true _ ▸ hmapped, hmap⟩

theorem memoryAllocFrames_eq_some {first : ℕ} (h : s.memoryAllocFrames count = some (first, s1)) :
    ∃ addr list, Memory.getBlock s.freeMemoryMap count .begining = some (addr, list) ∧
      first = addr / kernelFrameSize ∧ s1 = { s with freeMemoryMap := list } := by
  obtain ⟨⟨addr, list⟩, hget, heq⟩ := Option.map_eq_some_iff.mp h
  cases heq
  exact ⟨addr, list, hget, rfl, rfl⟩

theorem memoryFreeFrames_eq_some (h : s.memoryFreeFrames f count = some s') :
    Memory.addBlock s.freeMemoryMap (f * kernelFrameSize) count = some s'.freeMemoryMap ∧ s'.mem = s.mem ∧
      s'.cr3 = s.cr3 ∧ s'.processes = s.processes ∧ s'.current = s.current := by
  unfold memoryFreeFrames memoryFreeFramesAt at h
  obtain ⟨list, hadd, hbody⟩ := Option.bind_eq_some_iff.mp h
  split_ifs at hbody
  · cases hbody
    exact ⟨hadd, rfl, rfl, rfl, rfl⟩
  · obtain ⟨r, -, rfl⟩ := Option.map_eq_some_iff.mp hbody
    exact ⟨hadd, rfl, rfl, rfl, rfl⟩

/-- What `memory_mmap` counts as frames and what it maps as pages. -/
theorem mmap_counts (virtAddr size : ℕ) :
    (size + pageOffset virtAddr) % 2 ^ 32 / kernelFrameSize =
      pageCount (((size + pageOffset virtAddr) % 2 ^ 32 + pageOffset virtAddr) % 2 ^ 32) ↔
        kernelFrameSize ∣ virtAddr ∧ kernelFrameSize ∣ size := by
  rw [Nat.dvd_iff_mod_eq_zero, Nat.dvd_iff_mod_eq_zero]
  unfold pageCount pageOffset
  rw [kernelFrameSize_eq]
  omega

/-- A `memory_mmap` that succeeds takes as many frames as it maps pages exactly for an address and a size that
are multiples of the page size, and one that fails leaves the free frames and the memory as they were. -/
theorem memoryMmap_backs_iff {virtAddr size : ℕ} {readOnly : Bool} {err : OsReturnE} (h0 : InOrder s)
    (hvirt : virtAddr < 2 ^ 32)
    (h : s.memoryMmap virtAddr size readOnly = some (s', err)) :
    (err = .osNoErr → (Backs s s' ↔ kernelFrameSize ∣ virtAddr ∧ kernelFrameSize ∣ size)) ∧
      (err ≠ .osNoErr → Untouched s s') := by
  have hcounts := mmap_counts virtAddr size
  have hbytes : (size + pageOffset virtAddr) % 2 ^ 32 < 2 ^ 32 := Nat.mod_lt _ (by decide)
  unfold memoryMmap at h
  dsimp only at h
  generalize (size + pageOffset virtAddr) % 2 ^ 32 = toMap at *
  obtain ⟨⟨first, s1⟩, halloc, h⟩ := Option.bind_eq_some_iff.mp h
  obtain ⟨addr, list, hget, rfl, rfl⟩ := memoryAllocFrames_eq_some halloc
  obtain ⟨⟨s2, err'⟩, hmap, h⟩ := Option.bind_eq_some_iff.mp h
  dsimp only at h hmap
  obtain ⟨hdvd, -, hrun⟩ := h0.whole.takeRun hget
  have hframes : toMap / kernelFrameSize % 2 ^ 20 = toMap / kernelFrameSize := by
    rw [kernelFrameSize_eq]
    omega
  obtain ⟨rfl, hunmapped, hmap⟩ | ⟨rfl, -, rfl⟩ := kernelMmapInternal_eq_some hmap
  · rw [if_neg (by simp)] at h
    cases h
    have hpage : virtAddr / kernelFrameSize < 2 ^ 20 := by
      rw [kernelFrameSize_eq]
      omega
    obtain ⟨hmaps, -⟩ := @mapsRun_of_mapPages s { s with freeMemoryMap := list } s' _ _ _ _ _ h0 rfl rfl rfl hrun
      hpage hunmapped hmap
    refine ⟨fun _ => ?_, fun hne => absurd rfl hne⟩
    rw [hmaps.backs_iff, hframes, hcounts]
  · rw [if_pos (by simp)] at h
    obtain ⟨s3, hfree, heq⟩ := Option.map_eq_some_iff.mp h
    cases heq
    refine ⟨nofun, fun _ => ?_⟩
    obtain ⟨hadd, hmem, hcr3, hprocesses, -⟩ := memoryFreeFrames_eq_some hfree
    refine ⟨hmem, hcr3, hprocesses, ?_⟩
    by_cases hpos : 0 < toMap / kernelFrameSize
    · exact (hrun.addBlock h0.whole (by rwa [hframes]) rfl hadd).2
    · have hzero := Nat.eq_zero_of_not_pos hpos
      rw [hzero] at hget hadd
      rw [Nat.div_mul_cancel hdvd] at hadd
      exact h0.whole.addNone rfl hget hadd

/-- One page behind the kernel gets the first free frame. -/
theorem memoryMmap_backs_page : ∃ s s', Reachable Started Step s ∧
    s.memoryMmap 0xE0E38000 0x1000 false = some (s', .osNoErr) ∧ Backs s s' := by
  obtain ⟨s, hrun, hs⟩ := exists_small
  have hval : (smallRun []).bind (fun s => (s.memoryMmap 0xE0E38000 0x1000 false).map Prod.snd) =
      some .osNoErr := by decide +kernel
  rw [hrun, Option.bind_some] at hval
  obtain ⟨⟨s', err⟩, hmap, heq⟩ := Option.map_eq_some_iff.mp hval
  cases heq
  have hdvd : kernelFrameSize ∣ 0xE0E38000 ∧ kernelFrameSize ∣ 0x1000 := ⟨⟨0xE0E38, rfl⟩, ⟨1, rfl⟩⟩
  exact ⟨s, s', reachable_of_smallRun hrun, hmap,
    ((memoryMmap_backs_iff hs.inOrder (by decide) hmap).1 rfl).mpr hdvd⟩

/-- For a single byte no frame is taken, and its page is mapped to a frame that is still free. -/
theorem memoryMmap_byte : ∃ s s', Reachable Started Step s ∧
    s.memoryMmap 0xE0E38000 1 false = some (s', .osNoErr) ∧ ¬ Backs s s' := by
  obtain ⟨s, hrun, -⟩ := exists_small
  have hval : (smallRun []).bind (fun s => (s.memoryMmap 0xE0E38000 1 false).map fun r =>
      (r.2, s.entry s.cr3 0xE0E38, (r.1.entry r.1.cr3 0xE0E38).map Word.frame, r.1.freeMemoryMap)) =
        some (.osNoErr, none, some 0xE38, [⟨⟨0xE38000, 0x1000000⟩, 0xE38000⟩]) := by decide +kernel
  rw [hrun, Option.bind_some] at hval
  obtain ⟨⟨s', err⟩, hmap, heq⟩ := Option.map_eq_some_iff.mp hval
  simp only [Prod.mk.injEq] at heq
  obtain ⟨rfl, hbefore, hafter, hfree⟩ := heq
  refine ⟨s, s', reachable_of_smallRun hrun, hmap, fun hbacks => ?_⟩
  obtain ⟨e, he, hframe⟩ := Option.map_eq_some_iff.mp hafter
  refine (hbacks.backed 0xE0E38 (by decide) hbefore e he).2.1 ?_
  rw [hframe, hfree]
  exact ⟨_, List.mem_singleton_self _, by decide, by decide⟩

/-! ## `memory_alloc_page` -/

/-- Exactly the `count` pages from `page` on are no free pages of the process any more, and each is mapped to a
frame of its own that was free. New page tables apart, nothing else has changed. -/
structure Allocates (page count : ℕ) (p : Process) (s s' : MemState) : Prop where
  cr3 : s'.cr3 = s.cr3
  pages : ∃ p', s'.processes = Function.update s.processes s.current (some p') ∧ p'.pageDir = p.pageDir ∧
    (∀ q, page ≤ q → q < page + count → IsFree p.freePageTable q) ∧
    ∀ q, IsFree p'.freePageTable q ↔ IsFree p.freePageTable q ∧ ¬(page ≤ q ∧ q < page + count)
  mapped : ∃ frame : ℕ → ℕ, Set.InjOn frame (Set.Ico page (page + count)) ∧
    (∀ q, page ≤ q → q < page + count → IsFree s.freeMemoryMap (frame q) ∧ ¬ NewTable s s' (frame q) ∧
      s.entry s.cr3 q = none ∧ ∃ e, s'.entry s'.cr3 q = some e ∧ e.frame = frame q) ∧
    ∀ f, IsFree s'.freeMemoryMap f ↔ IsFree s.freeMemoryMap f ∧
      (∀ q, page ≤ q → q < page + count → f ≠ frame q) ∧ ¬ NewTable s s' f
  translations : ∀ q < windowPage, ¬(page ≤ q ∧ q < page + count) → s'.entry s'.cr3 q = s.entry s.cr3 q
  others : ∀ f, ¬ IsFree s.freeMemoryMap f → s.Plain f → s'.mem f = s.mem f
  window : ∀ k, kernelPgdirSize - 1 ≤ k → s'.mem s.cr3 k = s.mem s.cr3 k

/-- The free pages, the free frames and the memory are as they were. -/
structure Returned (p : Process) (s s' : MemState) : Prop where
  mem : s'.mem = s.mem
  cr3 : s'.cr3 = s.cr3
  pages : ∃ p', s'.processes = Function.update s.processes s.current (some p') ∧ p'.pageDir = p.pageDir ∧
    ∀ q, IsFree p'.freePageTable q ↔ IsFree p.freePageTable q
  free : ∀ f, IsFree s'.freeMemoryMap f ↔ IsFree s.freeMemoryMap f

theorem allocPagesFrom_eq_some {start : MemAllocStart} {p : Process} (hp : s.processes s.current = some p)
    {first : ℕ} (h : s.allocPagesFrom s.current count start = some (first, s1)) :
    ∃ addr list, Memory.getBlock p.freePageTable count start = some (addr, list) ∧
      first = addr / kernelFrameSize ∧ s1 = { s with
        processes := Function.update s.processes s.current (some { p with freePageTable := list }) } := by
  unfold allocPagesFrom at h
  rw [hp, Option.bind_some] at h
  obtain ⟨⟨addr, list⟩, hget, heq⟩ := Option.map_eq_some_iff.mp h
  cases heq
  exact ⟨addr, list, hget, rfl, rfl⟩

theorem freePagesTo_eq_some {p : Process} (hp : s.processes s.current = some p) {addr : ℕ}
    (h : s.freePagesTo s.current addr count = some s') :
    ∃ list, Memory.addBlock p.freePageTable addr count = some list ∧ s' = { s with
      processes := Function.update s.processes s.current (some { p with freePageTable := list }) } := by
  unfold freePagesTo at h
  rw [hp, Option.bind_some] at h
  obtain ⟨list, hadd, rfl⟩ := Option.map_eq_some_iff.mp h
  exact ⟨list, hadd, rfl⟩

theorem pageCount_blockSize (count : ℕ) : pageCount (blockSize count) = count % 2 ^ 20 := by
  unfold pageCount
  rw [blockSize_eq, kernelFrameSize_eq]
  omega

/-- A list of whole frames in 32 bits has no run of 2^20 frames. -/
theorem not_run_of_le {list : List Block} (hl : WholeFrames list) (hcount : 2 ^ 20 ≤ count) :
    ¬ ∀ q, page ≤ q → q < page + count → IsFree list q := by
  intro hall
  have hlast := hl.bound (hall (page + 2 ^ 20 - 1) (by omega) (by omega))
  rw [kernelFrameSize_eq] at hlast
  omega

/-- The pages and frames that `memory_alloc_page` has taken and mapped are those of the count modulo 2^20. -/
theorem MapsRun.allocates {p : Process} {list : List Block} (hcount : count < 2 ^ 20)
    (h : MapsRun page frame count count flags s s') (hpages : TakesRun p.freePageTable list page count)
    (hprocesses : s'.processes = Function.update s.processes s.current (some { p with freePageTable := list })) :
    Allocates page count p s s' := by
  refine ⟨h.cr3, ⟨_, hprocesses, rfl, hpages.wasFree, hpages.free⟩,
    ⟨fun q => frame + (q - page), ?_, fun q hle hlt => ?_, fun f => ?_⟩, fun q hq hout => ?_, h.others, h.window⟩
  · intro q hq q' hq' heq
    rw [Set.mem_Ico] at hq hq'
    dsimp only at heq
    omega
  · have hlimit := h.limit (by omega)
    have hq : q < windowPage := lt_of_lt_of_le hlt hlimit
    have hin : frame ≤ frame + (q - page) ∧ frame + (q - page) < frame + count := by omega
    have hentry := h.entry q hq
    rw [if_pos ⟨hle, hlt⟩] at hentry
    exact ⟨h.wasFree _ hin.1 hin.2, fun hc => (h.tables _ hc).2 hin, h.unmapped q hle hlt, _, hentry, rfl⟩
  · rw [h.free]
    refine and_congr_right fun _ => and_congr_left fun _ => ?_
    constructor
    · rintro hout q hle hlt rfl
      dsimp only at hout
      exact hout ⟨by omega, by omega⟩
    · rintro hall ⟨hle, hlt⟩
      have hne := hall (page + (f - frame)) (by omega) (by omega)
      dsimp only at hne
      omega
  · rw [h.entry q hq, if_neg hout]

/-- A `memory_alloc_page` that succeeds allocates exactly the number of pages asked for if that number is below
2^20, and one that fails leaves everything as it was. -/
theorem memoryAllocPage_exact {p : Process} (h0 : InOrder s) (hp : s.processes s.current = some p)
    (hpages : WholeFrames p.freePageTable) {result : Option ℕ}
    (h : s.memoryAllocPage count = some (s', result)) :
    (∀ page, result = some page → (Allocates page count p s s' ↔ count < 2 ^ 20)) ∧
      (result = none → Returned p s s') := by
  unfold memoryAllocPage at h
  obtain ⟨⟨first, s1⟩, halloc, h⟩ := Option.bind_eq_some_iff.mp h
  obtain ⟨addr, list, hget, rfl, rfl⟩ := memoryAllocFrames_eq_some halloc
  obtain ⟨⟨page, s2⟩, hallocPages, h⟩ := Option.bind_eq_some_iff.mp h
  obtain ⟨addr', list', hget', rfl, rfl⟩ :=
    @allocPagesFrom_eq_some { s with freeMemoryMap := list } _ _ _ p hp _ hallocPages
  obtain ⟨⟨s3, err⟩, hmap, h⟩ := Option.bind_eq_some_iff.mp h
  dsimp only at h hmap
  rw [pageCount_blockSize] at hmap
  obtain ⟨hdvd, -, hrun⟩ := h0.whole.takeRun hget
  obtain ⟨hdvd', hbound', hrun'⟩ := hpages.takeRun hget'
  obtain ⟨rfl, hunmapped, hmap⟩ | ⟨rfl, hmapped, rfl⟩ := kernelMmapInternal_eq_some hmap
  · rw [if_neg (by simp)] at h
    cases h
    have hpage : addr' / kernelFrameSize < 2 ^ 20 := by
      rw [kernelFrameSize_eq]
      omega
    obtain ⟨hmaps, hrest⟩ := @mapsRun_of_mapPages s { s with
      freeMemoryMap := list
      processes := Function.update s.processes s.current (some { p with freePageTable := list' }) } s' _ _ _ _ _ h0
        rfl rfl rfl hrun hpage hunmapped hmap
    refine ⟨fun q hq => ?_, nofun⟩
    cases hq
    constructor
    · rintro ⟨-, ⟨p', -, -, hall, -⟩, -⟩
      by_contra hlarge
      exact not_run_of_le hpages (not_lt.mp hlarge) hall
    · intro hcount
      rw [Nat.mod_eq_of_lt hcount] at hmaps hrun'
      exact hmaps.allocates hcount hrun' hrest.processes
  · rw [if_pos (by simp)] at h
    obtain ⟨s4, hfree, h⟩ := Option.bind_eq_some_iff.mp h
    obtain ⟨s5, hfreePages, heq⟩ := Option.map_eq_some_iff.mp h
    cases heq
    refine ⟨nofun, fun _ => ?_⟩
    obtain ⟨hadd, hmem, hcr3, hprocesses, hcurrent⟩ := memoryFreeFrames_eq_some hfree
    have hproc : s4.processes s4.current = some { p with freePageTable := list' } := by
      rw [hprocesses, hcurrent]
      exact Function.update_self ..
    rw [← hcurrent] at hfreePages
    obtain ⟨list'', hadd', rfl⟩ := freePagesTo_eq_some hproc hfreePages
    have hpos : 0 < count % 2 ^ 20 := by
      by_contra hzero
      rw [Nat.eq_zero_of_not_pos hzero] at hmapped
      cases hmapped
    refine ⟨hmem, hcr3, ⟨{ p with freePageTable := list'' }, ?_, rfl, (hrun'.addBlock hpages hpos rfl hadd').2⟩,
      (hrun.addBlock h0.whole hpos rfl hadd).2⟩
    dsimp only
    rw [hprocesses, hcurrent, Function.update_idem]

theorem wholeFrames_freePageTable : WholeFrames memoryCreateFreePageTable := by
  unfold memoryCreateFreePageTable
  refine ⟨⟨?_, ?_, List.pairwise_singleton ..⟩, ?_⟩
  · simp only [List.mem_singleton, forall_eq, kernelFrameSize_eq]
    exact ⟨0x100, rfl⟩
  · simp only [List.mem_singleton, forall_eq]
    decide
  · simp only [List.mem_singleton, forall_eq, kernelFrameSize_eq]
    exact ⟨0xE0000, rfl⟩

/-- One page of the main process. -/
theorem memoryAllocPage_one : ∃ s s' p, Reachable Started Step s ∧
    s.memoryAllocPage 1 = some (s', some 0x100) ∧ Allocates 0x100 1 p s s' := by
  obtain ⟨s, hrun, hs⟩ := exists_small
  have hval : (smallRun []).bind (fun s => (s.memoryAllocPage 1).map Prod.snd) = some (some 0x100) := by
    decide +kernel
  rw [hrun, Option.bind_some] at hval
  obtain ⟨⟨s', result⟩, halloc, heq⟩ := Option.map_eq_some_iff.mp hval
  cases heq
  exact ⟨s, s', _, reachable_of_smallRun hrun, halloc,
    ((memoryAllocPage_exact hs.inOrder hs.process wholeFrames_freePageTable halloc).1 0x100 rfl).mpr (by decide)⟩

/-- For 2^20 pages no page is taken and none is mapped, and the call reports success. -/
theorem memoryAllocPage_wraps : ∃ s s' p, Reachable Started Step s ∧ s.processes s.current = some p ∧
    s.memoryAllocPage (2 ^ 20) = some (s', some 0x100) ∧ ¬ Allocates 0x100 (2 ^ 20) p s s' := by
  obtain ⟨s, hrun, hs⟩ := exists_small
  have hval : (smallRun []).bind (fun s => (s.memoryAllocPage (2 ^ 20)).map Prod.snd) = some (some 0x100) := by
    decide +kernel
  rw [hrun, Option.bind_some] at hval
  obtain ⟨⟨s', result⟩, halloc, heq⟩ := Option.map_eq_some_iff.mp hval
  cases heq
  refine ⟨s, s', _, reachable_of_smallRun hrun, hs.process, halloc, ?_⟩
  rintro ⟨-, ⟨p', -, -, hall, -⟩, -⟩
  exact not_run_of_le wholeFrames_freePageTable le_rfl hall

end MemState

end UtkKernel.Memory
