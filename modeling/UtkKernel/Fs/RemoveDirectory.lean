import UtkKernel.Fs.Edits

/-! # Removing a directory

A directory is taken for empty when the scan that goes from its own header on visits none of its items. An item whose
header stands before that of the directory is missed, as is one that the scan does not get to. -/

namespace UtkKernel.Fs
open Foundations
set_option autoImplicit false

/-- The path is a proper prefix of the name. -/
def Header.under (path : CString) (h : Header) : Prop := path.chars <+: h.block.name.chars ∧ h.block.name ≠ path

namespace Partition

variable {d : Partition} {headers : List Header} {h x : Header} {path : CString} {fuel : ℕ}

/-- Some live entry of the partition has the path of a directory as a proper prefix. -/
structure HasItems (headers : List Header) (path : CString) : Prop where
  directory : ∃ h ∈ headers, h.live = true ∧ h.block.name = path ∧ ustarToVfsType h.block.type = .dir
  item : ∃ x ∈ headers, x.live = true ∧ x.under path

/-- A remove of the directory ends; it reports no error only if the directory has no items, and if it has any it says
so and changes nothing. -/
def RemovesOnlyEmpty (d : Partition) (headers : List Header) (path : CString) : Prop :=
  ∃ n, ∀ fuel, n < fuel → ∃ err d', d.ustarRemoveFile fuel path = some (err, d') ∧
    (err = .osNoErr → ¬HasItems headers path) ∧ (HasItems headers path → err = .osErrDirNotEmpty ∧ d' = d)

/-- The scan from the header of the directory on visits an item of it, or the device itself reports a directory that is
not empty, where the search starts or where the header would be written. -/
def ReportsItems (d : Partition) (headers : List Header) (path : CString) : Prop :=
  d.fault .read 0#32 = .osErrDirNotEmpty ∨ ∃ h, (d.visible headers).find? (Header.has path) = some h ∧
    (d.Occupied headers path h ∨ d.fault .write h.id = .osErrDirNotEmpty)

theorem firstBlock_dirNotEmpty {inode : BitVec 32} :
    d.firstBlock inode = .error .osErrDirNotEmpty ↔ d.fault .read inode = .osErrDirNotEmpty := by
  unfold firstBlock readBlock
  by_cases hread : d.fault .read inode ≠ .osNoErr
  · rw [if_pos hread]
    dsimp only
    exact ⟨Except.error.inj, congrArg Except.error⟩
  · rw [if_neg hread]
    refine iff_of_false ?_ fun hc => hread (hc ▸ OsReturnE.noConfusion)
    cases d.blocks[blockIndex inode]? with
    | none => exact fun hc => nomatch Except.error.inj hc
    | some b =>
      have hcheck : ustarCheckBlock b ≠ .osErrDirNotEmpty := by
        unfold ustarCheckBlock
        split_ifs <;> exact OsReturnE.noConfusion
      dsimp only
      split_ifs
      · exact fun hc => hcheck (Except.error.inj hc)
      · exact fun hc => nomatch hc

/-- A search that finds nothing reports this error only if the device does. -/
theorem ustarSearchFile_dirNotEmpty (hwell : WellFormed d headers) (hfuel : headers.length + 2 < fuel)
    (hlength : path.chars.length ≤ ustarFilenameMaxLength) (hnone : (d.visible headers).find? (Header.has path) = none) :
    d.ustarSearchFile fuel path = some (.error .osErrDirNotEmpty) ↔ d.fault .read 0#32 = .osErrDirNotEmpty := by
  rw [ustarSearchFile_eq hwell path hfuel, hnone, ← firstBlock_dirNotEmpty, Option.some_inj]
  dsimp only
  rw [if_pos hlength]
  cases d.firstBlock 0#32 with
  | error err => exact ⟨fun hc => congrArg _ (Except.error.inj hc), fun hc => congrArg _ (Except.error.inj hc)⟩
  | ok b => exact iff_of_false (fun hc => nomatch Except.error.inj hc) fun hc => nomatch hc

/-- A blanked header differs from the live one. -/
theorem setBlock_blanked_ne (hwell : WellFormed d headers) (hmem : h ∈ headers) (hlive : h.live = true) :
    d.setBlock h.inode (blanked h.block) ≠ d := by
  intro hsame
  have hblock := setBlock_self (hwell.chain.inode_lt hmem) (blanked h.block)
  rw [hsame, hwell.chain.block_eq h hmem] at hblock
  have hnamed := Header.unnamed_of_live hlive
  rw [Option.some.inj hblock, unnamed_blanked] at hnamed
  exact nomatch hnamed

theorem ustarRemoveFile_ends (hwell : WellFormed d headers) (hfuel : headers.length + 2 < fuel) :
    ∃ r, d.ustarRemoveFile fuel path = some r := by
  cases hfind : (d.visible headers).find? (Header.has path) with
  | none =>
    obtain ⟨err, -, hsearch⟩ := ustarSearchFile_error hwell hfuel hfind
    unfold ustarRemoveFile
    rw [hsearch]
    exact ⟨_, rfl⟩
  | some h =>
    obtain ⟨-, hcall⟩ | ⟨-, hcall⟩ := ustarRemoveFile_found hwell hfuel hfind
    · exact ⟨_, hcall⟩
    · exact ⟨_, hcall⟩

/-- What a remove of a directory that has items does. -/
theorem reports_iff (hwell : WellFormed d headers) (hitems : HasItems headers path) (hfuel : headers.length + 2 < fuel) :
    ∃ err d', d.ustarRemoveFile fuel path = some (err, d') ∧
      (err = .osErrDirNotEmpty ∧ d' = d ↔ d.ReportsItems headers path) := by
  obtain ⟨dir, -, -, hname, -⟩ := hitems.directory
  have hlength : path.chars.length ≤ ustarFilenameMaxLength := hname ▸ length_name dir.block
  cases hfind : (d.visible headers).find? (Header.has path) with
  | none =>
    obtain ⟨err, -, hsearch⟩ := ustarSearchFile_error hwell hfuel hfind
    have hdevice := ustarSearchFile_dirNotEmpty hwell hfuel hlength hfind
    refine ⟨err, d, ?_, ?_⟩
    · unfold ustarRemoveFile
      rw [hsearch]
      rfl
    · rw [hsearch, Option.some_inj] at hdevice
      unfold ReportsItems
      rw [← hdevice, hfind]
      simp
  | some h =>
    obtain ⟨hmem, hlive⟩ := mem_of_visible (List.mem_of_find?_eq_some hfind)
    have hread : d.fault .read 0#32 ≠ .osErrDirNotEmpty := by
      intro hc
      have herror := firstBlock_dirNotEmpty.mpr hc
      obtain ⟨-, hempty⟩ | ⟨h', rest, -, -, hfirst, -⟩ := firstBlock_cases hwell
      · rw [hempty] at hfind
        exact nomatch hfind
      · rw [hfirst] at herror
        exact nomatch herror
    have hreports : d.ReportsItems headers path ↔
        d.Occupied headers path h ∨ d.fault .write h.id = .osErrDirNotEmpty := by
      unfold ReportsItems
      rw [hfind]
      simp [hread]
    rw [hreports]
    obtain ⟨hoccupied, hcall⟩ | ⟨hfree, hcall⟩ := ustarRemoveFile_found hwell hfuel hfind
    · exact ⟨_, _, hcall, iff_of_true ⟨rfl, rfl⟩ (.inl hoccupied)⟩
    · by_cases hfault : d.fault .write h.id ≠ .osNoErr
      · rw [if_pos hfault] at hcall
        refine ⟨_, _, hcall, ?_⟩
        simp [hfree]
      · rw [if_neg hfault] at hcall
        refine ⟨_, _, hcall, iff_of_false (fun hc => ?_) ?_⟩
        · exact setBlock_blanked_ne hwell hmem hlive hc.2
        · rintro (hoccupied | hdevice)
          · exact hfree hoccupied
          · exact hfault (hdevice ▸ OsReturnE.noConfusion)

theorem removesOnlyEmpty_of_wellFormed (hwell : WellFormed d headers) : d.RemovesOnlyEmpty headers path ↔
    (HasItems headers path → d.ReportsItems headers path) := by
  constructor
  · rintro ⟨n, hremoves⟩ hitems
    have hfuel : headers.length + 2 < max n (headers.length + 2) + 1 := by omega
    obtain ⟨err, d', hcall, -, hitems'⟩ := hremoves (max n (headers.length + 2) + 1) (by omega)
    obtain ⟨err', d'', hcall', hreports⟩ := reports_iff hwell hitems hfuel
    rw [hcall, Option.some_inj, Prod.mk.injEq] at hcall'
    obtain ⟨rfl, rfl⟩ := hcall'
    exact hreports.mp (hitems' hitems)
  · intro hreports
    refine ⟨headers.length + 2, fun fuel hfuel => ?_⟩
    by_cases hitems : HasItems headers path
    · obtain ⟨err, d', hcall, hiff⟩ := reports_iff hwell hitems hfuel
      have herr := hiff.mpr (hreports hitems)
      refine ⟨err, d', hcall, fun hnone => ?_, fun _ => herr⟩
      exact nomatch hnone.symm.trans herr.1
    · obtain ⟨r, hcall⟩ := ustarRemoveFile_ends hwell hfuel
      exact ⟨r.1, r.2, hcall, fun _ => hitems, fun hc => absurd hc hitems⟩

/-- Whatever renames and removals led to the partition. -/
theorem removesOnlyEmpty_iff (hrun : Reachable IsArchive Edit.Step d) : ∃ headers, WellFormed d headers ∧
    ∀ path, d.RemovesOnlyEmpty headers path ↔ (HasItems headers path → d.ReportsItems headers path) := by
  obtain ⟨headers, hwell⟩ := isArchive_of_run hrun
  exact ⟨headers, hwell, fun path => removesOnlyEmpty_of_wellFormed hwell⟩

/-! ## A directory with one file -/

def pathDir : CString := ⟨[0x64, 0x2F], by decide⟩
def pathItem : CString := ⟨[0x64, 0x2F, 0x61], by decide⟩

def dirBlock : UstarBlock := headerBlock pathDir.chars 0x35
def itemBlock : UstarBlock := headerBlock pathItem.chars 0x30

/-- The directory `d/` stands in front of the file `d/a`. -/
def dirFirst : Partition := ⟨[dirBlock, itemBlock], fun _ _ => .osNoErr⟩

/-- The file stands in front. -/
def itemFirst : Partition := ⟨[itemBlock, dirBlock], fun _ _ => .osNoErr⟩

theorem dirFirst_wellFormed : WellFormed dirFirst [⟨0, dirBlock⟩, ⟨1, itemBlock⟩] :=
  wellFormed_pair _ (by decide +kernel) (by decide +kernel) (by decide +kernel) (by decide +kernel)

theorem itemFirst_wellFormed : WellFormed itemFirst [⟨0, itemBlock⟩, ⟨1, dirBlock⟩] :=
  wellFormed_pair _ (by decide +kernel) (by decide +kernel) (by decide +kernel) (by decide +kernel)

theorem removesOnlyEmpty_iff_dirFirst : dirFirst.RemovesOnlyEmpty [⟨0, dirBlock⟩, ⟨1, itemBlock⟩] pathDir := by
  obtain ⟨headers, hwell, hiff⟩ := removesOnlyEmpty_iff (.start ⟨_, dirFirst_wellFormed⟩)
  obtain rfl := dirFirst_wellFormed.chain.unique hwell.chain
  refine (hiff pathDir).mpr fun _ => .inr ⟨⟨0, dirBlock⟩, by decide +kernel, .inl ⟨by decide +kernel, ?_⟩⟩
  exact ⟨⟨1, itemBlock⟩, by decide +kernel, by decide, by decide +kernel⟩

theorem itemFirst_removed : WellFormed itemFirst [⟨0, itemBlock⟩, ⟨1, dirBlock⟩] ∧
    ¬itemFirst.RemovesOnlyEmpty [⟨0, itemBlock⟩, ⟨1, dirBlock⟩] pathDir := by
  refine ⟨itemFirst_wellFormed, fun ⟨n, hremoves⟩ => ?_⟩
  have hitems : HasItems [⟨0, itemBlock⟩, ⟨1, dirBlock⟩] pathDir := by
    refine ⟨⟨⟨1, dirBlock⟩, by simp, by decide +kernel, by decide +kernel, by decide +kernel⟩, ?_⟩
    exact ⟨⟨0, itemBlock⟩, by simp, by decide +kernel, ⟨[0x61], by decide +kernel⟩, by decide +kernel⟩
  have hfind : (itemFirst.visible [⟨0, itemBlock⟩, ⟨1, dirBlock⟩]).find? (Header.has pathDir) = some ⟨1, dirBlock⟩ := by
    decide +kernel
  have hnone : ∀ x ∈ itemFirst.visible [⟨0, itemBlock⟩, ⟨1, dirBlock⟩], 1 ≤ x.inode → ¬x.inside pathDir := by
    decide +kernel
  have hfuel : [(⟨0, itemBlock⟩ : Header), ⟨1, dirBlock⟩].length + 2 < max n 4 + 1 := by
    change 4 < max n 4 + 1
    omega
  obtain ⟨err, d', hcall, -, herr⟩ := hremoves (max n 4 + 1) (by omega)
  obtain ⟨⟨-, x, hx, hle, hin⟩, -⟩ | ⟨-, hcall'⟩ := ustarRemoveFile_found itemFirst_wellFormed hfuel hfind
  · exact hnone x hx hle hin
  · rw [hcall] at hcall'
    have hsame : err = .osNoErr := (Prod.mk.inj (Option.some.inj hcall')).1
    exact nomatch hsame.symm.trans (herr hitems).1

end Partition
end UtkKernel.Fs
