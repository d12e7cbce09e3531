import UtkKernel.Memory.FrameRefs

/-! # The memory map at boot (`arch/cpu/i386/src/memmgt.c`)

`detect_memory` and `setup_mem_table` for any end of the kernel image. The queue of free ranges has the
highest range at its head. `setup_mem_table` checks that the kernel is in the range at the tail, and takes
the kernel from the one at the head. -/

namespace UtkKernel.Memory
open Structures Foundations
set_option autoImplicit false

/-- `free_mem_head` of `setup_mem_table`. From an end that is not aligned only its offset in the page is
kept. -/
def freeMemHeadOf (kernelEnd : ℕ) : ℕ :=
  let head := kernelEnd - kernelMemOffset
  if head % kernelFrameSize ≠ 0 then head % kernelFrameSize + kernelFrameSize else head

/-- What `detect_memory` adds to `available_memory`. -/
def detectAvailable (entries : List MultibootMemoryMap) : ℕ :=
  entries.foldl (fun available e =>
    if e.addr > 0xFFFFFFFF then available
    else if e.type = multibootMemoryAvailable ∧ e.addr ≥ kernelMemStart then uintptr (available + e.len)
    else available) 0

/-- What `setup_mem_table` makes of the free memory map for a first free address. -/
def setupMemTableAt (freeHead : ℕ) : List Block → Option (List Block)
  | [] => none
  | head :: list =>
    match (head :: list).getLast? with
    | none => none
    | some first =>
      if first.data.base ≤ freeHead ∧ freeHead ≤ first.data.limit ∧ freeHead ≤ head.data.limit then
        some (⟨⟨freeHead, head.data.limit⟩, head.priority⟩ :: list)
      else none

/-- The memory tables that the boot leaves. -/
structure BootTables where
  freeMemoryMap : List Block
  frameRef : ℕ → Option FrameRef
  availableMemory : ℕ

/-- `detect_memory` and `setup_mem_table` -/
def bootTables (kernelEnd : ℕ) (entries : List MultibootMemoryMap) : Option BootTables :=
  (setupMemTableAt (freeMemHeadOf kernelEnd) (detectMemory entries).2).bind fun free =>
    (initFrameRefTable (detectMemory entries).1 (freeMemHeadOf kernelEnd)).map fun refs =>
      ⟨free, refs,
        uintptr (detectAvailable entries + 2 ^ 32 - (freeMemHeadOf kernelEnd - kernelMemStart))⟩

theorem setupMemTableAt_freeMemHead : setupMemTableAt freeMemHead = setupMemTable := by
  funext list
  cases list <;> rfl

/-- For the end that the linker file gives, these are the tables of the machine. -/
theorem bootTables_memoryManagerInit (b : Boot) :
    (bootTables kernelMemoryEnd b.entries).map (fun t => (t.freeMemoryMap, t.frameRef)) =
      (memoryManagerInit b).map fun s => (s.freeMemoryMap, s.frameRef) := by
  have hhead : freeMemHeadOf kernelMemoryEnd = freeMemHead := rfl
  unfold bootTables memoryManagerInit
  rw [hhead, setupMemTableAt_freeMemHead]
  cases setupMemTable (detectMemory b.entries).2 with
  | none => rfl
  | some free => cases initFrameRefTable (detectMemory b.entries).1 freeMemHead <;> rfl

/-! ## What is detected -/

namespace MultibootMemoryMap

/-- The entry as a range of 32-bit addresses. -/
def range (e : MultibootMemoryMap) : MemRange := ⟨e.addr, (e.addr + e.len) % 2 ^ 32⟩

def Holds (e : MultibootMemoryMap) (x : ℕ) : Prop := e.addr ≤ x ∧ x < e.addr + e.len

/-- The entries have no address in common. -/
def Apart (a b : MultibootMemoryMap) : Prop := ∀ x, ¬ (a.Holds x ∧ b.Holds x)

instance : Std.Symm Apart := ⟨fun _ _ hab x hx => hab x hx.symm⟩

def available (e : MultibootMemoryMap) : Bool := e.type == multibootMemoryAvailable

/-- An entry that gets in the free memory map. -/
def usable (e : MultibootMemoryMap) : Bool :=
  e.addr ≤ 0xFFFFFFFF && e.available && kernelMemStart ≤ e.addr

def hwNode (e : MultibootMemoryMap) : KqueueNode (MemRange × ℕ) := ⟨(e.range, e.type), e.addr⟩

def block (e : MultibootMemoryMap) : Block := ⟨e.range, e.addr⟩

end MultibootMemoryMap

open MultibootMemoryMap

theorem detectEntry_eq (maps : List (KqueueNode (MemRange × ℕ)) × List Block)
    (e : MultibootMemoryMap) : detectEntry maps e =
      (if e.addr ≤ 0xFFFFFFFF then kqueuePushPrio (hwNode e) maps.1 else maps.1,
        if usable e then kqueuePushPrio (block e) maps.2 else maps.2) := by
  unfold detectEntry
  by_cases hlow : e.addr ≤ 0xFFFFFFFF
  · rw [if_neg (by omega), if_pos hlow]
    by_cases hfree : e.type = multibootMemoryAvailable ∧ e.addr ≥ kernelMemStart
    · have husable : usable e = true := by simp [usable, available, hlow, hfree.1, hfree.2]
      dsimp only
      rw [if_pos hfree, if_pos husable]
      rfl
    · have husable : ¬ usable e = true := by
        simp only [usable, available, Bool.and_eq_true, beq_iff_eq, decide_eq_true_eq]
        exact fun hc => hfree ⟨hc.1.2, hc.2⟩
      dsimp only
      rw [if_neg hfree, if_neg husable]
      rfl
  · have husable : ¬ usable e = true := by simp [usable, hlow]
    rw [if_pos (by omega), if_neg hlow, if_neg husable]

theorem detectMemory_fold (entries : List MultibootMemoryMap)
    (maps : List (KqueueNode (MemRange × ℕ)) × List Block) :
    entries.foldl detectEntry maps =
      (kqueuePushAll ((entries.filter fun e => e.addr ≤ 0xFFFFFFFF).map hwNode) maps.1,
        kqueuePushAll ((entries.filter usable).map block) maps.2) := by
  induction entries generalizing maps with
  | nil => rfl
  | cons e entries ih =>
    rw [List.foldl_cons, ih, detectEntry_eq]
    simp only [List.filter_cons, decide_eq_true_eq]
    split_ifs <;> rfl

theorem detectMemory_hw (entries : List MultibootMemoryMap) : (detectMemory entries).1 =
    kqueuePushAll ((entries.filter fun e => e.addr ≤ 0xFFFFFFFF).map hwNode) [] := by
  rw [detectMemory, detectMemory_fold]

theorem detectMemory_free (entries : List MultibootMemoryMap) : (detectMemory entries).2 =
    kqueuePushAll ((entries.filter usable).map block) [] := by
  rw [detectMemory, detectMemory_fold]

theorem mem_detectMemory_hw {entries : List MultibootMemoryMap} {n : KqueueNode (MemRange × ℕ)} :
    n ∈ (detectMemory entries).1 ↔ ∃ e ∈ entries, e.addr ≤ 0xFFFFFFFF ∧ hwNode e = n := by
  rw [detectMemory_hw, (kqueuePushAll_perm _ _).mem_iff]
  simp [and_assoc]

theorem mem_detectMemory_free {entries : List MultibootMemoryMap} {n : Block} :
    n ∈ (detectMemory entries).2 ↔ ∃ e ∈ entries, usable e = true ∧ block e = n := by
  rw [detectMemory_free, (kqueuePushAll_perm _ _).mem_iff]
  simp [and_assoc]

/-! ## The reference table -/

/-- The frame is one of those that an available range enters in the reference table. -/
def NodeFrame (node : KqueueNode (MemRange × ℕ)) (f : ℕ) : Prop :=
  node.data.2 = multibootMemoryAvailable ∧ node.data.1.base / kernelFrameSize ≤ f ∧
    f < node.data.1.limit / kernelFrameSize

/-- No frame is entered before: the loop over the range does not panic. -/
theorem initFrameRange_isSome {next : ℕ} {refs : ℕ → Option FrameRef}
    {node : KqueueNode (MemRange × ℕ)} (h : ∀ f, NodeFrame node f → refs f = none) :
    ∃ refs', initFrameRange next refs node = some refs' := by
  unfold initFrameRange
  by_cases htype : node.data.2 = multibootMemoryAvailable
  · rw [if_neg (not_not.mpr htype)]
    dsimp only
    rw [if_neg]
    · exact ⟨_, rfl⟩
    · intro hany
      obtain ⟨f, hf, hsome⟩ := List.any_eq_true.mp hany
      rw [List.mem_range'_1] at hf
      rw [h f ⟨htype, hf.1, by omega⟩] at hsome
      cases hsome
  · rw [if_pos htype]
    exact ⟨refs, rfl⟩

theorem initFrameRanges_isSome {next : ℕ} {hw : List (KqueueNode (MemRange × ℕ))}
    {refs : ℕ → Option FrameRef} (hnone : ∀ node ∈ hw, ∀ f, NodeFrame node f → refs f = none)
    (hdisjoint : hw.Pairwise fun a b => ∀ f, ¬ (NodeFrame a f ∧ NodeFrame b f)) :
    ∃ refs', hw.foldlM (initFrameRange next) refs = some refs' := by
  induction hw generalizing refs with
  | nil => exact ⟨refs, rfl⟩
  | cons node hw ih =>
    obtain ⟨hnode, hhw⟩ := List.pairwise_cons.mp hdisjoint
    have hfirst : ∃ refs1, initFrameRange next refs node = some refs1 :=
      initFrameRange_isSome (hnone node (List.mem_cons_self ..))
    obtain ⟨refs1, h1⟩ := hfirst
    have hnone1 : ∀ other ∈ hw, ∀ f, NodeFrame other f → refs1 f = none := by
      intro other hother f hf
      rw [initFrameRange_ref h1]
      exact (if_neg fun hc => hnode other hother f ⟨hc, hf⟩).trans
        (hnone other (List.mem_cons_of_mem _ hother) f hf)
    rw [List.foldlM_cons, h1]
    exact ih hnone1 hhw

/-- The table has the frames of the available ranges and no others. -/
theorem initFrameRanges_ref {next : ℕ} {hw : List (KqueueNode (MemRange × ℕ))}
    {refs refs' : ℕ → Option FrameRef} (h : hw.foldlM (initFrameRange next) refs = some refs') (f : ℕ)
    (hnone : refs f = none) :
    (refs' f).isSome ↔ ∃ node ∈ hw, NodeFrame node f := by
  induction hw generalizing refs with
  | nil =>
    cases h
    simp [hnone]
  | cons node hw ih =>
    rw [List.foldlM_cons] at h
    obtain ⟨refs1, h1, h2⟩ := Option.bind_eq_some_iff.mp h
    have hval := initFrameRange_ref h1 f
    by_cases hf : NodeFrame node f
    · refine ⟨fun _ => ⟨node, List.mem_cons_self .., hf⟩, fun _ => ?_⟩
      refine foldlM_invariant (fun refs : ℕ → Option FrameRef => (refs f).isSome)
        (fun r n r' hr hstep => ?_) ?_ h2
      · rw [initFrameRange_ref hstep]
        split_ifs
        · rfl
        · exact hr
      · have hsome : refs1 f = some (initialRef next f) := hval.trans (if_pos hf)
        rw [hsome]
        rfl
    · have hnone1 : refs1 f = none := by
        rw [hval]
        exact (if_neg hf).trans hnone
      rw [ih h2 hnone1, List.exists_mem_cons_iff]
      exact (or_iff_right hf).symm

theorem MultibootMemoryMap.holds_of_frame {e : MultibootMemoryMap} {f : ℕ}
    (h : NodeFrame (hwNode e) f) : e.Holds (f * kernelFrameSize + (kernelFrameSize - 1)) := by
  obtain ⟨-, hbase, hlimit⟩ := h
  simp only [hwNode, range, kernelFrameSize_eq] at hbase hlimit
  unfold Holds
  rw [kernelFrameSize_eq]
  have hle := Nat.mod_le (e.addr + e.len) (2 ^ 32)
  omega

/-- Disjoint entries enter no frame twice, so the boot does not panic there. -/
theorem initFrameRefTable_of_disjoint {entries : List MultibootMemoryMap}
    (h : entries.Pairwise MultibootMemoryMap.Apart) (next : ℕ) :
    ∃ refs, initFrameRefTable (detectMemory entries).1 next = some refs := by
  refine initFrameRanges_isSome (fun _ _ _ _ => rfl) ?_
  rw [detectMemory_hw]
  have hframes : ((entries.filter fun e => e.addr ≤ 0xFFFFFFFF).map hwNode).Pairwise
      fun a b => ∀ f, ¬ (NodeFrame a f ∧ NodeFrame b f) := by
    rw [List.pairwise_map]
    exact (h.filter _).imp fun hab f hf => hab _ ⟨holds_of_frame hf.1, holds_of_frame hf.2⟩
  refine (kqueuePushAll_perm _ _).symm.pairwise (by rwa [List.append_nil]) ?_
  exact fun hab f hf => hab f hf.symm

/-! ## The free memory map -/

/-- The physical end of the kernel image. -/
def imageEnd (kernelEnd : ℕ) : ℕ := kernelEnd - kernelMemOffset

/-- The entries are disjoint, and the lowest available one from 1 MB on contains the kernel image. -/
structure BootEntries (kernelEnd : ℕ) (entries : List MultibootMemoryMap) : Prop where
  disjoint : entries.Pairwise MultibootMemoryMap.Apart
  loaded : kernelMemOffset + kernelMemStart < kernelEnd
  lowest : ∃ e ∈ entries, e.available = true ∧ kernelMemStart ≤ e.addr ∧
    (∀ x, kernelMemStart ≤ x → x < imageEnd kernelEnd → e.Holds x) ∧
      ∀ e' ∈ entries, e'.available = true → kernelMemStart ≤ e'.addr → e.addr ≤ e'.addr

def Available (entries : List MultibootMemoryMap) (x : ℕ) : Prop :=
  ∃ e ∈ entries, e.available = true ∧ e.Holds x

/-- The free memory map is made of the pages of available memory from 1 MB to 4 GB that the kernel
image does not use. -/
structure FreeMapRight (kernelEnd : ℕ) (entries : List MultibootMemoryMap) (t : BootTables) : Prop where
  sound : ∀ x, Covers t.freeMemoryMap x →
    Available entries x ∧ kernelMemStart ≤ x ∧ x < 2 ^ 32 ∧ imageEnd kernelEnd ≤ x
  aligned : ∀ b ∈ t.freeMemoryMap, kernelFrameSize ∣ b.data.base ∧ kernelFrameSize ∣ b.data.limit
  nonempty : ∀ b ∈ t.freeMemoryMap, b.data.base < b.data.limit
  sorted : t.freeMemoryMap.Pairwise fun a b => b.data.limit ≤ a.data.base
  complete : ∀ page, kernelFrameSize ∣ page → kernelMemStart ≤ page → imageEnd kernelEnd ≤ page →
    page + kernelFrameSize ≤ 2 ^ 32 →
    (∀ x, page ≤ x → x < page + kernelFrameSize → Available entries x) →
    ∀ x, page ≤ x → x < page + kernelFrameSize → Covers t.freeMemoryMap x
  total : t.availableMemory = (t.freeMemoryMap.map fun b => b.data.limit - b.data.base).sum

/-- One available region from 1 MB on, which is a whole number of pages, ends below 4 GB and behind the
kernel image, and an aligned end of the image. -/
def OneRegion (kernelEnd : ℕ) (entries : List MultibootMemoryMap) : Prop :=
  kernelFrameSize ∣ kernelEnd ∧ ∃ e, entries.filter usable = [e] ∧ kernelFrameSize ∣ e.len ∧
    e.addr + e.len < 2 ^ 32 ∧ imageEnd kernelEnd < e.addr + e.len

theorem kernelMemStart_eq : kernelMemStart = 0x100000 := rfl

theorem kernelMemOffset_eq : kernelMemOffset = 0xE0000000 := rfl

theorem freeMemHeadOf_aligned {kernelEnd : ℕ} (h : kernelFrameSize ∣ kernelEnd) :
    freeMemHeadOf kernelEnd = imageEnd kernelEnd ∧ kernelFrameSize ∣ imageEnd kernelEnd := by
  have hdvd : kernelFrameSize ∣ kernelEnd - kernelMemOffset :=
    Nat.dvd_sub h (by rw [kernelMemOffset_eq, kernelFrameSize_eq]; decide)
  unfold freeMemHeadOf imageEnd
  rw [if_neg (not_not.mpr (Nat.mod_eq_zero_of_dvd hdvd))]
  exact ⟨rfl, hdvd⟩

/-- An end that is not aligned gives an address in the first two pages of memory. -/
theorem freeMemHeadOf_lt {kernelEnd : ℕ} (hoffset : kernelMemOffset ≤ kernelEnd)
    (h : ¬ kernelFrameSize ∣ kernelEnd) : freeMemHeadOf kernelEnd < kernelMemStart := by
  have hmod : (kernelEnd - kernelMemOffset) % kernelFrameSize ≠ 0 := by
    rw [kernelMemOffset_eq] at hoffset ⊢
    rw [kernelFrameSize_eq] at h ⊢
    omega
  have hlt := Nat.mod_lt (kernelEnd - kernelMemOffset) (show 0 < kernelFrameSize by decide)
  unfold freeMemHeadOf
  rw [if_pos hmod]
  rw [kernelFrameSize_eq] at hlt ⊢
  rw [kernelMemStart_eq]
  omega

theorem setupMemTableAt_eq_some {freeHead : ℕ} {list free : List Block}
    (h : setupMemTableAt freeHead list = some free) : ∃ head rest first, list = head :: rest ∧
      list.getLast? = some first ∧ first.data.base ≤ freeHead ∧ freeHead ≤ first.data.limit ∧
        freeHead ≤ head.data.limit ∧ free = ⟨⟨freeHead, head.data.limit⟩, head.priority⟩ :: rest := by
  unfold setupMemTableAt at h
  split at h
  · cases h
  · next head rest =>
    split at h
    · cases h
    · next first hfirst =>
      split_ifs at h with hc
      cases h
      exact ⟨head, rest, first, rfl, hfirst, hc.1, hc.2.1, hc.2.2, rfl⟩

section
variable {kernelEnd : ℕ} {entries : List MultibootMemoryMap} {e : MultibootMemoryMap}

theorem usable_iff : usable e = true ↔
    e.addr ≤ 0xFFFFFFFF ∧ e.available = true ∧ kernelMemStart ≤ e.addr := by
  simp [usable, and_assoc]

/-- The lowest available region starts at 1 MB. -/
theorem BootEntries.first (h : BootEntries kernelEnd entries) : ∃ e ∈ entries, usable e = true ∧
    e.addr = kernelMemStart ∧ imageEnd kernelEnd ≤ e.addr + e.len := by
  obtain ⟨e, he, havail, hstart, hkernel, -⟩ := h.lowest
  have hend : kernelMemStart < imageEnd kernelEnd := by
    have := h.loaded
    unfold imageEnd
    omega
  have hfirst := (hkernel kernelMemStart le_rfl hend).1
  have hlast := (hkernel (imageEnd kernelEnd - 1) (by omega) (by omega)).2
  have haddr : e.addr = kernelMemStart := le_antisymm hfirst hstart
  refine ⟨e, he, usable_iff.mpr ⟨?_, havail, hstart⟩, haddr, by omega⟩
  rw [haddr, kernelMemStart_eq]
  decide

theorem detectMemory_falling (entries : List MultibootMemoryMap) : Falling (detectMemory entries).2 := by
  rw [detectMemory_free]
  exact Falling.pushAll List.Pairwise.nil _

/-- Where the boot goes on, the end of the kernel is aligned. -/
theorem aligned_of_setup {free : List Block} (hoffset : kernelMemOffset ≤ kernelEnd)
    (h : setupMemTableAt (freeMemHeadOf kernelEnd) (detectMemory entries).2 = some free) :
    kernelFrameSize ∣ kernelEnd := by
  by_contra hmis
  obtain ⟨head, rest, first, -, hfirst, hbase, -⟩ := setupMemTableAt_eq_some h
  obtain ⟨e, -, husable, rfl⟩ := mem_detectMemory_free.mp (List.mem_of_getLast? hfirst)
  have hlt := freeMemHeadOf_lt hoffset hmis
  have hstart := (usable_iff.mp husable).2.2
  have hle : e.addr ≤ freeMemHeadOf kernelEnd := hbase
  omega

/-- The maps after a boot: the range at the head starts at the end of the kernel image. -/
theorem bootTables_eq_some {t : BootTables} (hoffset : kernelMemOffset ≤ kernelEnd)
    (h : bootTables kernelEnd entries = some t) : ∃ head rest first,
      (detectMemory entries).2 = head :: rest ∧ (head :: rest).getLast? = some first ∧
      first.data.base ≤ imageEnd kernelEnd ∧ imageEnd kernelEnd ≤ first.data.limit ∧
      imageEnd kernelEnd ≤ head.data.limit ∧ kernelFrameSize ∣ kernelEnd ∧
      t.freeMemoryMap = ⟨⟨imageEnd kernelEnd, head.data.limit⟩, head.priority⟩ :: rest ∧
      initFrameRefTable (detectMemory entries).1 (imageEnd kernelEnd) = some t.frameRef ∧
      t.availableMemory =
        uintptr (detectAvailable entries + 2 ^ 32 - (imageEnd kernelEnd - kernelMemStart)) := by
  obtain ⟨free, hsetup, hmap⟩ := Option.bind_eq_some_iff.mp h
  obtain ⟨refs, hrefs, rfl⟩ := Option.map_eq_some_iff.mp hmap
  have hdvd := aligned_of_setup hoffset hsetup
  have hhead := (freeMemHeadOf_aligned hdvd).1
  obtain ⟨head, rest, first, hlist, hfirst, hbase, hlimit, hheadlimit, hfree⟩ :=
    setupMemTableAt_eq_some hsetup
  rw [hhead] at hbase hlimit hheadlimit hfree hrefs
  rw [hlist] at hfirst
  exact ⟨head, rest, first, hlist, hfirst, hbase, hlimit, hheadlimit, hdvd, hfree, hrefs,
    by rw [hhead]⟩

/-- With two regions the kernel image is left in the lowest one. -/
theorem BootEntries.rest_eq_nil (h : BootEntries kernelEnd entries) {t : BootTables}
    {head first : Block} {rest : List Block} (hlist : (detectMemory entries).2 = head :: rest)
    (hfirst : (head :: rest).getLast? = some first)
    (hfree : t.freeMemoryMap = ⟨⟨imageEnd kernelEnd, head.data.limit⟩, head.priority⟩ :: rest)
    (hright : FreeMapRight kernelEnd entries t) : rest = [] := by
  by_contra hne
  obtain ⟨front, last, rfl⟩ := (List.eq_nil_or_concat rest).resolve_left hne
  have hlast : last = first := by
    rw [List.concat_eq_append, ← List.cons_append, List.getLast?_concat] at hfirst
    exact Option.some.inj hfirst
  have hmem : last ∈ (detectMemory entries).2 := by
    rw [hlist]
    simp
  obtain ⟨e, -, husable, hblock⟩ := mem_detectMemory_free.mp hmem
  -- the last range is the one at 1 MB
  obtain ⟨e0, he0, husable0, haddr0, -⟩ := h.first
  have hle : last.priority ≤ kernelMemStart := by
    have hfalling := (detectMemory_falling entries).last (by rw [hlist, hfirst, ← hlast])
      (mem_detectMemory_free.mpr ⟨e0, he0, husable0, rfl⟩)
    exact haddr0 ▸ hfalling
  have hbase : last.data.base = kernelMemStart := by
    have hstart := (usable_iff.mp husable).2.2
    rw [← hblock] at hle ⊢
    exact le_antisymm hle hstart
  have hin : last ∈ t.freeMemoryMap := by
    rw [hfree]
    simp
  have hpos := hright.nonempty last hin
  have hout := (hright.sound kernelMemStart ⟨last, hin, hbase.le, by omega⟩).2.2.2
  have hloaded := h.loaded
  unfold imageEnd at hout
  omega

theorem BootEntries.oneRegion (h : BootEntries kernelEnd entries) {t : BootTables}
    (hboot : bootTables kernelEnd entries = some t) (hright : FreeMapRight kernelEnd entries t) :
    OneRegion kernelEnd entries := by
  have hoffset : kernelMemOffset ≤ kernelEnd := by
    have := h.loaded
    omega
  obtain ⟨head, rest, first, hlist, hfirst, -, -, -, hdvd, hfree, -, -⟩ :=
    bootTables_eq_some hoffset hboot
  obtain rfl := h.rest_eq_nil hlist hfirst hfree hright
  have hperm : ((entries.filter usable).map block).Perm [head] := by
    rw [← hlist, detectMemory_free]
    simpa using (kqueuePushAll_perm ((entries.filter usable).map block) []).symm
  have hone : ∃ e, entries.filter usable = [e] := by
    have hlen := hperm.length_eq
    rw [List.length_map] at hlen
    exact List.length_eq_one_iff.mp hlen
  obtain ⟨e, he⟩ := hone
  rw [he] at hperm
  obtain rfl : block e = head := by simpa using hperm
  obtain ⟨e0, he0, husable0, haddr, -⟩ := h.first
  obtain rfl : e0 = e := by
    have hmem := List.mem_filter.mpr ⟨he0, husable0⟩
    rw [he] at hmem
    exact List.mem_singleton.mp hmem
  have hmem : (⟨⟨imageEnd kernelEnd, (block e0).data.limit⟩, (block e0).priority⟩ : Block) ∈
      t.freeMemoryMap := by
    rw [hfree]
    exact List.mem_singleton_self _
  have hpos := hright.nonempty _ hmem
  have hlimit := (hright.aligned _ hmem).2
  dsimp only [block, range] at hpos hlimit
  have himage := (freeMemHeadOf_aligned hdvd).2
  have hloaded := h.loaded
  -- a region that reaches 4 GB loses at least its last page below
  have hlow : e0.addr + e0.len < 2 ^ 32 := by
    by_contra hhigh
    have hmod := Nat.mod_lt (e0.addr + e0.len) (show 2 ^ 32 > 0 by decide)
    have hbelow : imageEnd kernelEnd ≤ 2 ^ 32 - 0x1000 := by
      rw [kernelFrameSize_eq] at himage
      omega
    have hpage : ∀ x, 2 ^ 32 - 0x1000 ≤ x → x < 2 ^ 32 - 0x1000 + kernelFrameSize →
        Available entries x := by
      intro x hx hx'
      rw [kernelFrameSize_eq] at hx'
      rw [kernelMemStart_eq] at haddr
      exact ⟨e0, he0, (usable_iff.mp husable0).2.1, by omega, by omega⟩
    have hdvd' : kernelFrameSize ∣ 2 ^ 32 - 0x1000 := ⟨0xFFFFF, by norm_num [kernelFrameSize_eq]⟩
    obtain ⟨b, hb, -, hlt⟩ := hright.complete (2 ^ 32 - 0x1000) hdvd'
      (by rw [kernelMemStart_eq]; omega) hbelow (by rw [kernelFrameSize_eq]; omega) hpage (2 ^ 32 - 1)
      (by omega) (by rw [kernelFrameSize_eq]; omega)
    rw [hfree, List.mem_singleton] at hb
    rw [hb] at hlt
    have hlt' : 2 ^ 32 - 1 < (e0.addr + e0.len) % 2 ^ 32 := hlt
    omega
  rw [Nat.mod_eq_of_lt hlow] at hpos hlimit
  refine ⟨hdvd, e0, he, ?_, hlow, hpos⟩
  rw [haddr] at hlimit
  exact (Nat.dvd_add_right (by decide)).mp hlimit

theorem detectAvailable_fold (available : ℕ) : entries.foldl (fun available e =>
    if e.addr > 0xFFFFFFFF then available
    else if e.type = multibootMemoryAvailable ∧ e.addr ≥ kernelMemStart then uintptr (available + e.len)
    else available) available =
      ((entries.filter usable).map MultibootMemoryMap.len).foldl (fun a len => uintptr (a + len))
        available := by
  induction entries generalizing available with
  | nil => rfl
  | cons e entries ih =>
    rw [List.foldl_cons, ih, List.filter_cons]
    by_cases hu : usable e = true
    · obtain ⟨hlow, havail, hstart⟩ := usable_iff.mp hu
      rw [if_pos hu, if_neg (by omega), if_pos ⟨beq_iff_eq.mp havail, hstart⟩]
      rfl
    · rw [if_neg hu]
      congr 1
      split_ifs with hhigh hfree
      · rfl
      · exact absurd (usable_iff.mpr ⟨by omega, beq_iff_eq.mpr hfree.1, hfree.2⟩) hu
      · rfl

theorem OneRegion.bootTables (h : BootEntries kernelEnd entries) (hone : OneRegion kernelEnd entries) :
    ∃ t, bootTables kernelEnd entries = some t ∧ FreeMapRight kernelEnd entries t := by
  obtain ⟨hdvd, e, he, hlen, hlow, hend⟩ := hone
  obtain ⟨hhead, himage⟩ := freeMemHeadOf_aligned hdvd
  obtain ⟨e0, he0, husable, haddr, -⟩ := h.first
  obtain rfl : e0 = e := by
    have hmem := List.mem_filter.mpr ⟨he0, husable⟩
    rw [he] at hmem
    exact List.mem_singleton.mp hmem
  have hrange : e0.range = ⟨kernelMemStart, e0.addr + e0.len⟩ := by
    rw [range, Nat.mod_eq_of_lt hlow, haddr]
  have hloaded : kernelMemStart < imageEnd kernelEnd := by
    have := h.loaded
    unfold imageEnd
    omega
  have hmap : (detectMemory entries).2 = [⟨⟨kernelMemStart, e0.addr + e0.len⟩, e0.addr⟩] := by
    rw [detectMemory_free, he, ← hrange]
    rfl
  have hsetup : setupMemTableAt (imageEnd kernelEnd) (detectMemory entries).2 =
      some [⟨⟨imageEnd kernelEnd, e0.addr + e0.len⟩, e0.addr⟩] := by
    rw [hmap, setupMemTableAt, List.getLast?_singleton]
    dsimp only
    rw [if_pos ⟨hloaded.le, hend.le, hend.le⟩]
  obtain ⟨refs, hrefs⟩ := initFrameRefTable_of_disjoint h.disjoint (imageEnd kernelEnd)
  have havailable : detectAvailable entries = e0.len := by
    unfold detectAvailable
    rw [detectAvailable_fold, he]
    simp only [List.map_cons, List.map_nil, List.foldl_cons, List.foldl_nil, Nat.zero_add]
    exact uintptr_of_lt (by omega)
  have htotal : uintptr (e0.len + 2 ^ 32 - (imageEnd kernelEnd - kernelMemStart)) =
      e0.addr + e0.len - imageEnd kernelEnd := by
    unfold uintptr
    omega
  refine ⟨⟨[⟨⟨imageEnd kernelEnd, e0.addr + e0.len⟩, e0.addr⟩], refs,
    uintptr (e0.len + 2 ^ 32 - (imageEnd kernelEnd - kernelMemStart))⟩, ?_, ?_, ?_, ?_, ?_, ?_, ?_⟩
  · unfold UtkKernel.Memory.bootTables
    rw [hhead, hsetup, hrefs, havailable]
    simp only [Option.bind_some, Option.map_some]
  · rintro x ⟨b, hb, hbase, hlimit⟩
    obtain rfl := List.mem_singleton.mp hb
    dsimp only at hbase hlimit
    exact ⟨⟨e0, he0, (usable_iff.mp husable).2.1, by omega, hlimit⟩, by omega, by omega, hbase⟩
  · intro b hb
    obtain rfl := List.mem_singleton.mp hb
    refine ⟨himage, ?_⟩
    dsimp only
    rw [haddr]
    exact (Nat.dvd_add_right (by decide)).mpr hlen
  · intro b hb
    obtain rfl := List.mem_singleton.mp hb
    exact hend
  · exact List.pairwise_singleton _ _
  · intro page hpage hstart hbehind hhigh havail x hx hx'
    obtain ⟨e, hmem, hav, hholds⟩ := havail x hx hx'
    have hlast : x < e0.addr + e0.len := by
      by_cases hu : kernelMemStart ≤ e.addr
      · have hmem' := List.mem_filter.mpr ⟨hmem, usable_iff.mpr ⟨?_, hav, hu⟩⟩
        · rw [he, List.mem_singleton] at hmem'
          exact hmem' ▸ hholds.2
        · have := hholds.1
          omega
      -- an entry from below 1 MB that reaches `x` would meet the region that starts there
      · exfalso
        have hne : e ≠ e0 := fun heq => hu (by rw [heq, haddr])
        have hbelow := hholds.2
        exact h.disjoint.forall hmem he0 hne kernelMemStart
          ⟨⟨by omega, by omega⟩, by omega, by omega⟩
    exact ⟨_, List.mem_singleton_self _, by dsimp only; omega, hlast⟩
  · dsimp only
    rw [htotal, List.map_singleton, List.sum_singleton]

/-- The boot gives the right free memory map exactly for one region of whole pages below 4 GB, behind an
aligned end of the kernel image. -/
theorem free_map_right_iff (h : BootEntries kernelEnd entries) :
    (∃ t, UtkKernel.Memory.bootTables kernelEnd entries = some t ∧ FreeMapRight kernelEnd entries t) ↔
      OneRegion kernelEnd entries :=
  ⟨fun ⟨_, hboot, hright⟩ => h.oneRegion hboot hright, fun hone => hone.bootTables h⟩

end

/-! ### Machines -/

/-- 16 MiB of memory, with low memory below the first megabyte. -/
def smallEntries : List MultibootMemoryMap := [⟨0, 0x9F000, 1⟩, ⟨0x100000, 0xF00000, 1⟩]

theorem smallEntries_boot : BootEntries kernelMemoryEnd smallEntries := by
  refine ⟨?_, by decide, ⟨0x100000, 0xF00000, 1⟩, by decide, by decide, by decide, ?_, by decide⟩
  · refine List.pairwise_pair.mpr fun x hx => ?_
    simp only [Holds] at hx
    omega
  · intro x hx hx'
    unfold Holds
    have hend : imageEnd kernelMemoryEnd = 0xE38000 := rfl
    rw [kernelMemStart_eq] at hx
    rw [hend] at hx'
    exact ⟨hx, by dsimp only; omega⟩

theorem free_map_right_small : ∃ t, bootTables kernelMemoryEnd smallEntries = some t ∧
    FreeMapRight kernelMemoryEnd smallEntries t := by
  refine (free_map_right_iff smallEntries_boot).mpr ⟨by decide, ⟨0x100000, 0xF00000, 1⟩, ?_⟩
  decide

/-- A hole at 15 MiB splits the memory in two regions. -/
def holeEntries : List MultibootMemoryMap :=
  [⟨0, 0x9F000, 1⟩, ⟨0x100000, 0xE00000, 1⟩, ⟨0xF00000, 0x100000, 2⟩, ⟨0x1000000, 0x1000000, 1⟩]

theorem holeEntries_boot : BootEntries kernelMemoryEnd holeEntries := by
  refine ⟨?_, by decide, ⟨0x100000, 0xE00000, 1⟩, by decide, by decide, by decide, ?_, by decide⟩
  · simp only [holeEntries, List.pairwise_cons, Apart, Holds]
    refine ⟨?_, ?_, ?_, ?_, List.Pairwise.nil⟩ <;> intro a ha x <;>
      simp only [List.mem_cons, List.not_mem_nil, or_false] at ha <;> rcases ha with rfl | rfl | rfl <;>
      dsimp only <;> omega
  · intro x hx hx'
    unfold Holds
    have hend : imageEnd kernelMemoryEnd = 0xE38000 := rfl
    rw [kernelMemStart_eq] at hx
    rw [hend] at hx'
    exact ⟨hx, by dsimp only; omega⟩

/-- The kernel image stays in the free memory map of that machine. -/
theorem free_map_wrong_hole : ¬ ∀ kernelEnd entries, BootEntries kernelEnd entries →
    ∃ t, bootTables kernelEnd entries = some t ∧ FreeMapRight kernelEnd entries t := by
  intro hclaim
  obtain ⟨-, e, he, -⟩ := (free_map_right_iff holeEntries_boot).mp (hclaim _ _ holeEntries_boot)
  have hlen : (holeEntries.filter usable).length = 2 := by decide
  rw [he] at hlen
  cases hlen

end UtkKernel.Memory
