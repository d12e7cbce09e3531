import UtkKernel.Memory.BootMap

/-! # The reference table at boot (`arch/cpu/i386/src/memmgt.c`)

`init_frame_ref_table` walks the hardware map and gives a reference to each frame below the end of the
kernel image, rounded up to a frame. It rounds up an end that is a multiple of the frame size too, so the
first frame behind the kernel gets a reference although it is in the free memory map. -/

namespace UtkKernel.Memory
open Structures MultibootMemoryMap
set_option autoImplicit false

/-- The whole frame is in a range of the list. -/
def HasFrame (list : List Block) (f : ℕ) : Prop :=
  ∃ node ∈ list, node.data.base ≤ f * kernelFrameSize ∧ (f + 1) * kernelFrameSize ≤ node.data.limit

/-- The table and the free memory map agree: the managed frames without a reference are the free ones,
none of which is hardware, and none of which is a frame of the kernel image. -/
structure RefsRight (kernelEnd : ℕ) (t : BootTables) : Prop where
  zero : ∀ f r, t.frameRef f = some r → r.isHw = false → (r.count = 0 ↔ HasFrame t.freeMemoryMap f)
  managed : ∀ f, HasFrame t.freeMemoryMap f → ∃ r, t.frameRef f = some r ∧ r.isHw = false
  kernel : ∀ f, kernelMemStart ≤ f * kernelFrameSize → f * kernelFrameSize < imageEnd kernelEnd →
    ¬ HasFrame t.freeMemoryMap f ∧ ∀ r, t.frameRef f = some r → r.isHw = true ∨ r.count ≠ 0

/-- The frame is one of available memory, in 32 bits. -/
def Managed (entries : List MultibootMemoryMap) (f : ℕ) : Prop :=
  ∃ e ∈ entries, e.addr ≤ 0xFFFFFFFF ∧ NodeFrame (hwNode e) f

/-- The region from 1 MB on with the highest base, the last of these in the list, ends less than a frame
behind the kernel image, and the whole frames of the other regions from 1 MB on are the available frames
behind that frame. -/
def NoneBehind (kernelEnd : ℕ) (entries : List MultibootMemoryMap) : Prop :=
  ∃ before e after, entries.filter usable = before ++ e :: after ∧
    (∀ x ∈ before, x.addr ≤ e.addr) ∧ (∀ x ∈ after, x.addr < e.addr) ∧
    e.range.limit < imageEnd kernelEnd + kernelFrameSize ∧
    ∀ f, HasFrame ((before ++ after).map block) f ↔
      Managed entries f ∧ imageEnd kernelEnd / kernelFrameSize < f

section
variable {kernelEnd : ℕ} {entries : List MultibootMemoryMap} {t : BootTables} {f : ℕ} {r : FrameRef}

theorem hasFrame_cons {node : Block} {list : List Block} : HasFrame (node :: list) f ↔
    (node.data.base ≤ f * kernelFrameSize ∧ (f + 1) * kernelFrameSize ≤ node.data.limit) ∨
      HasFrame list f := by
  unfold HasFrame
  rw [List.exists_mem_cons_iff]

/-- The free list is the head's range from the end of the kernel on and those of the other regions. -/
theorem hasFrame_boot (hoffset : kernelMemOffset ≤ kernelEnd)
    (h : bootTables kernelEnd entries = some t) {before after : List MultibootMemoryMap}
    {e : MultibootMemoryMap} (hsplit : entries.filter usable = before ++ e :: after)
    (hbefore : ∀ x ∈ before, x.addr ≤ e.addr) (hafter : ∀ x ∈ after, x.addr < e.addr) :
    HasFrame t.freeMemoryMap f ↔ (imageEnd kernelEnd ≤ f * kernelFrameSize ∧
      (f + 1) * kernelFrameSize ≤ e.range.limit) ∨ HasFrame ((before ++ after).map block) f := by
  obtain ⟨head, rest, first, hlist, -, -, -, -, -, hfree, -, -⟩ := bootTables_eq_some hoffset h
  have hqueue : (detectMemory entries).2 =
      block e :: kqueuePushAll ((before ++ after).map block) [] := by
    rw [detectMemory_free, hsplit, List.map_append, List.map_cons, List.map_append]
    refine kqueuePushAll_head ?_ ?_
    · exact List.forall_mem_map.mpr hbefore
    · exact List.forall_mem_map.mpr hafter
  rw [hlist] at hqueue
  obtain ⟨rfl, rfl⟩ := List.cons.inj hqueue
  rw [hfree, hasFrame_cons]
  refine or_congr Iff.rfl (exists_congr fun node => and_congr_left fun _ => ?_)
  rw [(kqueuePushAll_perm _ _).mem_iff, List.append_nil]

theorem frameRef_isSome (hoffset : kernelMemOffset ≤ kernelEnd)
    (h : bootTables kernelEnd entries = some t) : (t.frameRef f).isSome ↔ Managed entries f := by
  obtain ⟨-, -, -, -, -, -, -, -, -, -, hrefs, -⟩ := bootTables_eq_some hoffset h
  rw [initFrameRanges_ref hrefs f rfl]
  constructor
  · rintro ⟨node, hnode, hf⟩
    obtain ⟨e, he, hlow, rfl⟩ := mem_detectMemory_hw.mp hnode
    exact ⟨e, he, hlow, hf⟩
  · rintro ⟨e, he, hlow, hf⟩
    exact ⟨hwNode e, mem_detectMemory_hw.mpr ⟨e, he, hlow, rfl⟩, hf⟩

theorem frameRef_eq (hoffset : kernelMemOffset ≤ kernelEnd)
    (h : bootTables kernelEnd entries = some t) (hr : t.frameRef f = some r) :
    r = initialRef (nextFreeMem (imageEnd kernelEnd)) f := by
  obtain ⟨-, -, -, -, -, -, -, -, -, -, hrefs, -⟩ := bootTables_eq_some hoffset h
  exact initFrameRefTable_eq hrefs hr

/-- Of the frames that are not hardware, those behind the first one after the kernel image start without
a reference. -/
theorem initialRef_behind {image : ℕ} (hdvd : kernelFrameSize ∣ image) (hstart : kernelMemStart ≤ image) :
    ((initialRef (nextFreeMem image) f).isHw = false →
      ((initialRef (nextFreeMem image) f).count = 0 ↔ image / kernelFrameSize < f)) ∧
    (image / kernelFrameSize < f → (initialRef (nextFreeMem image) f).isHw = false) := by
  obtain ⟨k, rfl⟩ := hdvd
  have hnext : nextFreeMem (kernelFrameSize * k) = kernelFrameSize * k + kernelFrameSize := by
    rw [nextFreeMem, Nat.mul_mod_right, Nat.sub_zero]
  rw [hnext, Nat.mul_div_cancel_left k (by decide)]
  rw [kernelMemStart_eq, kernelFrameSize_eq] at hstart
  unfold initialRef
  rw [kernelMemStart_eq, kernelFrameSize_eq]
  split_ifs with hhw hbelow
  · exact ⟨nofun, fun hlt => by omega⟩
  · exact ⟨fun _ => ⟨fun h => h.elim, fun hlt => by omega⟩, fun _ => rfl⟩
  · exact ⟨fun _ => ⟨fun _ => by omega, fun _ => rfl⟩, fun _ => rfl⟩

/-- The table is right exactly when the free frames are the available ones behind the first frame after
the kernel image. -/
theorem refsRight_iff (hoffset : kernelMemOffset ≤ kernelEnd)
    (h : bootTables kernelEnd entries = some t) : RefsRight kernelEnd t ↔
      ∀ f, HasFrame t.freeMemoryMap f ↔
        Managed entries f ∧ imageEnd kernelEnd / kernelFrameSize < f := by
  obtain ⟨head, rest, first, hlist, hfirst, hbase, -, -, hdvd, -, -, -⟩ := bootTables_eq_some hoffset h
  have himage := (freeMemHeadOf_aligned hdvd).2
  have hstart : kernelMemStart ≤ imageEnd kernelEnd := by
    have hmem := List.mem_of_getLast? hfirst
    rw [← hlist] at hmem
    obtain ⟨e, -, husable, rfl⟩ := mem_detectMemory_free.mp hmem
    exact (usable_iff.mp husable).2.2.trans hbase
  have hbehind := fun f => initialRef_behind (f := f) himage hstart
  constructor
  · intro hright f
    constructor
    · intro hfree
      obtain ⟨r, hr, hhw⟩ := hright.managed f hfree
      have hcount := (hright.zero f r hr hhw).mpr hfree
      obtain rfl := frameRef_eq hoffset h hr
      refine ⟨(frameRef_isSome hoffset h).mp ?_, ((hbehind f).1 hhw).mp hcount⟩
      rw [hr]
      rfl
    · rintro ⟨hman, hlt⟩
      obtain ⟨r, hr⟩ := Option.isSome_iff_exists.mp ((frameRef_isSome hoffset h).mpr hman)
      obtain rfl := frameRef_eq hoffset h hr
      have hhw := (hbehind f).2 hlt
      exact (hright.zero f _ hr hhw).mp (((hbehind f).1 hhw).mpr hlt)
  · intro hall
    refine ⟨fun f r hr hhw => ?_, fun f hfree => ?_, fun f hf hf' => ⟨fun hfree => ?_, fun r hr => ?_⟩⟩
    · obtain rfl := frameRef_eq hoffset h hr
      have hman : Managed entries f := by
        refine (frameRef_isSome hoffset h).mp ?_
        rw [hr]
        rfl
      rw [(hbehind f).1 hhw, hall f]
      exact (and_iff_right hman).symm
    · obtain ⟨hman, hlt⟩ := (hall f).mp hfree
      obtain ⟨r, hr⟩ := Option.isSome_iff_exists.mp ((frameRef_isSome hoffset h).mpr hman)
      obtain rfl := frameRef_eq hoffset h hr
      exact ⟨_, hr, (hbehind f).2 hlt⟩
    · have hlt := ((hall f).mp hfree).2
      have hle := Nat.div_mul_le_self (imageEnd kernelEnd) kernelFrameSize
      rw [Nat.div_lt_iff_lt_mul (by decide)] at hlt
      omega
    · obtain rfl := frameRef_eq hoffset h hr
      by_cases hhw : (initialRef (nextFreeMem (imageEnd kernelEnd)) f).isHw = true
      · exact .inl hhw
      · refine .inr fun hcount => ?_
        have hlt := ((hbehind f).1 (by simpa using hhw)).mp hcount
        rw [Nat.div_lt_iff_lt_mul (by decide)] at hlt
        omega

/-- On a map that the boot accepts, table and free memory map agree exactly when no memory is left behind
the kernel image but whole other regions. -/
theorem refs_right_iff (hoffset : kernelMemOffset ≤ kernelEnd)
    (h : bootTables kernelEnd entries = some t) : RefsRight kernelEnd t ↔ NoneBehind kernelEnd entries := by
  rw [refsRight_iff hoffset h]
  obtain ⟨head, rest, first, hlist, -, -, -, -, hdvd, -⟩ := bootTables_eq_some hoffset h
  have hframes := Nat.div_mul_cancel (freeMemHeadOf_aligned hdvd).2
  have hne : entries.filter usable ≠ [] := by
    intro hnil
    rw [detectMemory_free, hnil] at hlist
    cases hlist
  constructor
  · intro hall
    obtain ⟨before, e, after, hsplit, hbefore, hafter⟩ := exists_head MultibootMemoryMap.addr hne
    have hboot := fun f => hasFrame_boot (f := f) hoffset h hsplit hbefore hafter
    have hlimit : e.range.limit < imageEnd kernelEnd + kernelFrameSize := by
      by_contra hlong
      refine lt_irrefl _ ((hall _).mp ((hboot (imageEnd kernelEnd / kernelFrameSize)).mpr (.inl ?_))).2
      rw [Nat.add_mul, hframes, Nat.one_mul]
      exact ⟨le_rfl, not_lt.mp hlong⟩
    refine ⟨before, e, after, hsplit, hbefore, hafter, hlimit, fun f => ?_⟩
    rw [← hall f, hboot f]
    refine (or_iff_right fun hc => ?_).symm
    have hlast := hc.2
    rw [Nat.add_mul, Nat.one_mul] at hlast
    omega
  · rintro ⟨before, e, after, hsplit, hbefore, hafter, hlimit, hothers⟩ f
    rw [hasFrame_boot hoffset h hsplit hbefore hafter, ← hothers f]
    refine or_iff_right fun hc => ?_
    have hlast := hc.2
    rw [Nat.add_mul, Nat.one_mul] at hlast
    omega

end

/-! ### Machines -/

/-- Memory that ends with the kernel image. -/
def fullEntries : List MultibootMemoryMap := [⟨0x100000, 0xD38000, 1⟩]

theorem refs_right_full : ∃ t, bootTables kernelMemoryEnd fullEntries = some t ∧
    RefsRight kernelMemoryEnd t := by
  have hboot : (bootTables kernelMemoryEnd fullEntries).isSome := by decide +kernel
  obtain ⟨t, ht⟩ := Option.isSome_iff_exists.mp hboot
  refine ⟨t, ht, (refs_right_iff (by decide) ht).mpr
    ⟨[], ⟨0x100000, 0xD38000, 1⟩, [], by decide, by simp, by simp, by decide, fun f => ?_⟩⟩
  constructor
  · rintro ⟨node, hnode, -⟩
    cases hnode
  · rintro ⟨⟨e, he, -, -, -, hlast⟩, hlt⟩
    obtain rfl := List.mem_singleton.mp he
    have hend : imageEnd kernelMemoryEnd / kernelFrameSize = 0xE38 := by decide
    have hlimit : (hwNode ⟨0x100000, 0xD38000, 1⟩).data.1.limit / kernelFrameSize = 0xE38 := by decide
    rw [hend] at hlt
    rw [hlimit] at hlast
    omega

/-- On a machine with memory behind the kernel the first free frame has a reference. -/
theorem refs_wrong_small : ¬ ∀ kernelEnd entries t, kernelMemOffset ≤ kernelEnd →
    bootTables kernelEnd entries = some t → RefsRight kernelEnd t := by
  intro hclaim
  have hval : (bootTables kernelMemoryEnd smallEntries).map
      (fun t => (t.freeMemoryMap, t.frameRef 0xE38)) =
        some ([⟨⟨0xE38000, 0x1000000⟩, 0x100000⟩], some ⟨false, 1⟩) := by decide +kernel
  obtain ⟨t, ht, he⟩ := Option.map_eq_some_iff.mp hval
  simp only [Prod.mk.injEq] at he
  have hfree : HasFrame t.freeMemoryMap 0xE38 := by
    rw [he.1]
    exact ⟨_, List.mem_singleton_self _, by decide, by decide⟩
  have hzero := ((hclaim _ _ t (by decide) ht).zero 0xE38 _ he.2 rfl).mpr hfree
  cases hzero

end UtkKernel.Memory
