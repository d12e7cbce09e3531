import UtkKernel.Foundations.Runs
import UtkKernel.Fs.RemoveFile
import UtkKernel.Fs.RenameFile

/-! # Runs of renames and removals

Both write a header that they have found, and keep what stands behind the name in it: the partition stays an archive
with the same chain, whatever the calls report. -/

namespace UtkKernel.Fs
open Foundations
set_option autoImplicit false

namespace Partition

variable {d d' : Partition} {headers : List Header} {h : Header} {b : UstarBlock} {inode : BitVec 32}
  {path oldPath newPath : CString} {fuel fuel' : ℕ} {kmalloc : ℕ → Option (List Byte)}

/-! ## More fuel -/

theorem ustarGetNextFile_mono {r : UstarBlock × BitVec 32} (hget : d.ustarGetNextFile fuel b inode = some r)
    (hle : fuel ≤ fuel') : d.ustarGetNextFile fuel' b inode = some r := by
  induction fuel generalizing b inode fuel' with
  | zero => exact nomatch hget
  | succ fuel ih =>
    obtain ⟨fuel', rfl⟩ := Nat.exists_eq_succ_of_ne_zero (Nat.ne_of_gt (Nat.lt_of_lt_of_le fuel.succ_pos hle))
    rw [ustarGetNextFile] at hget ⊢
    by_cases hcheck : ustarCheckBlock b ≠ .osNoErr
    · rw [if_pos hcheck] at hget ⊢
      exact hget
    · rw [if_neg hcheck] at hget ⊢
      cases hread : d.readBlock (nextInode b inode) with
      | error err =>
        rw [hread] at hget
        exact hget
      | ok b' =>
        rw [hread] at hget
        dsimp only at hget ⊢
        split_ifs at hget ⊢
        · exact ih hget (Nat.le_of_succ_le_succ hle)
        · exact hget

theorem searchFrom_mono {r : Except OsReturnE (UstarBlock × BitVec 32)} (hsearch : d.searchFrom path fuel b inode = some r)
    (hle : fuel ≤ fuel') : d.searchFrom path fuel' b inode = some r := by
  induction fuel generalizing b inode fuel' with
  | zero => exact nomatch hsearch
  | succ fuel ih =>
    obtain ⟨fuel', rfl⟩ := Nat.exists_eq_succ_of_ne_zero (Nat.ne_of_gt (Nat.lt_of_lt_of_le fuel.succ_pos hle))
    have hle' := Nat.le_of_succ_le_succ hle
    rw [searchFrom] at hsearch ⊢
    split_ifs at hsearch ⊢
    · exact hsearch
    · exact hsearch
    · exact hsearch
    · obtain ⟨next, hget, hrest⟩ := Option.bind_eq_some_iff.mp hsearch
      rw [ustarGetNextFile_mono hget hle', Option.bind_some]
      exact ih hrest hle'

theorem ustarSearchFile_mono {r : Except OsReturnE (UstarBlock × BitVec 32)}
    (hsearch : d.ustarSearchFile fuel path = some r) (hle : fuel ≤ fuel') : d.ustarSearchFile fuel' path = some r := by
  unfold ustarSearchFile at hsearch ⊢
  by_cases hlong : ustarFilenameMaxLength < path.chars.length
  · rw [if_pos hlong] at hsearch ⊢
    exact hsearch
  · rw [if_neg hlong] at hsearch ⊢
    cases hfirst : d.firstBlock 0#32 with
    | error err =>
      rw [hfirst] at hsearch
      exact hsearch
    | ok b =>
      rw [hfirst] at hsearch
      exact searchFrom_mono hsearch hle

/-- What a search finds, whatever the fuel. -/
theorem ustarSearchFile_found (hwell : WellFormed d headers)
    (hsearch : d.ustarSearchFile fuel path = some (.ok (b, inode))) :
    ∃ h ∈ headers, b = h.block ∧ inode = h.id := by
  have hmore := ustarSearchFile_mono hsearch (le_max_left fuel (headers.length + 3))
  rw [ustarSearchFile_eq hwell path (by omega), Option.some_inj] at hmore
  cases hfind : (d.visible headers).find? (Header.has path) with
  | none =>
    rw [hfind] at hmore
    exact nomatch hmore
  | some h =>
    rw [hfind] at hmore
    obtain ⟨hb, hinode⟩ := Prod.mk.inj (Except.ok.inj hmore)
    exact ⟨h, (mem_of_visible (List.mem_of_find?_eq_some hfind)).1, hb.symm, hinode.symm⟩

/-! ## A header is written -/

/-- The partition is an archive. -/
def IsArchive (d : Partition) : Prop := ∃ headers, WellFormed d headers

theorem IsArchive.congr (harchive : IsArchive d) (hblocks : d'.blocks = d.blocks) : IsArchive d' := by
  obtain ⟨headers, hwell⟩ := harchive
  refine ⟨headers, hwell.chain.congr (congrArg List.length hblocks) fun j _ => by rw [hblocks], ?_⟩
  rw [hblocks]
  exact hwell.bound

theorem IsArchive.writeBlock (hwell : WellFormed d headers) (hh : h ∈ headers)
    (hdrop : b.bytes.drop 101 = h.block.bytes.drop 101) : IsArchive (d.writeBlock h.id b).2 := by
  rw [writeBlock_eq (hwell.chain.inode_lt hh) hwell.bound]
  split_ifs
  · exact ⟨headers, hwell⟩
  · exact ⟨_, hwell.setBlock hh (dataBlocks_of_drop hdrop) ((check_of_drop hdrop).trans (hwell.chain.check h hh))⟩

theorem IsArchive.remove {r : OsReturnE × Partition} (harchive : IsArchive d)
    (hremove : d.ustarRemoveFile fuel path = some r) : IsArchive r.2 := by
  obtain ⟨headers, hwell⟩ := harchive
  obtain ⟨found, hsearch, hrest⟩ := Option.bind_eq_some_iff.mp hremove
  cases found with
  | error err =>
    rw [← Option.some.inj hrest]
    exact ⟨headers, hwell⟩
  | ok found =>
    obtain ⟨h, hh, hb, hinode⟩ := ustarSearchFile_found hwell hsearch
    have hwrite := IsArchive.writeBlock hwell hh (drop_blanked h.block)
    have hblank : ∀ r : OsReturnE × Partition, (let w := d.writeBlock h.id (blanked h.block)
        if w.1 ≠ .osNoErr then w else (w.2.flushBlock h.id, w.2)) = r → IsArchive r.2 := by
      rintro r rfl
      dsimp only
      split_ifs
      · exact hwrite
      · exact hwrite
    obtain ⟨b, inode⟩ := found
    obtain rfl : b = h.block := hb
    obtain rfl : inode = h.id := hinode
    dsimp only at hrest
    by_cases hdir : ustarToVfsType h.block.type = .dir
    · rw [if_pos hdir] at hrest
      obtain ⟨count, -, hcount⟩ := Option.map_eq_some_iff.mp hrest
      cases count with
      | error err =>
        rw [← hcount]
        exact ⟨headers, hwell⟩
      | ok itemCount =>
        dsimp only at hcount
        by_cases hempty : itemCount = 0
        · rw [if_neg (not_not_intro hempty)] at hcount
          exact hblank r hcount
        · rw [if_pos hempty] at hcount
          rw [← hcount]
          exact ⟨headers, hwell⟩
    · rw [if_neg hdir] at hrest
      exact hblank r (Option.some.inj hrest)

theorem IsArchive.rename {r : OsReturnE × Partition} (harchive : IsArchive d)
    (hrename : d.ustarRenameFile kmalloc fuel oldPath newPath = some r) : IsArchive r.2 := by
  induction fuel generalizing d oldPath newPath r with
  | zero => exact nomatch hrename
  | succ fuel ih =>
    have hsame : ∀ {err : OsReturnE}, some (err, d) = some r → IsArchive r.2 := by
      intro err hr
      rw [← Option.some.inj hr]
      exact harchive
    rw [ustarRenameFile] at hrename
    by_cases hlong : ustarFilenameMaxLength < newPath.chars.length
    · rw [if_pos hlong] at hrename
      exact hsame hrename
    rw [if_neg hlong] at hrename
    obtain ⟨parent, -, hrename⟩ := Option.bind_eq_some_iff.mp hrename
    by_cases hparent : parent = false
    · rw [if_pos hparent] at hrename
      exact hsame hrename
    rw [if_neg hparent] at hrename
    obtain ⟨found, hsearch, hrename⟩ := Option.bind_eq_some_iff.mp hrename
    cases found with
    | error err => exact hsame hrename
    | ok found =>
      obtain ⟨headers, hwell⟩ := harchive
      obtain ⟨h, hh, hb, hinode⟩ := ustarSearchFile_found hwell hsearch
      have hpath : newPath.chars.length ≤ ustarFilenameMaxLength := Nat.le_of_not_lt hlong
      have hwrite : IsArchive (d.writeBlock h.id (named h.block newPath)).2 :=
        IsArchive.writeBlock hwell hh (drop_named hpath h.block (Nat.lt_succ_of_le hpath))
      obtain ⟨b, inode⟩ := found
      obtain rfl : b = h.block := hb
      obtain rfl : inode = h.id := hinode
      dsimp only at hrename
      by_cases hdir : ustarToVfsType h.block.type = .dir
      · rw [if_pos hdir] at hrename
        by_cases hslash : newPath.chars.getLastD slash ≠ slash
        · rw [if_pos hslash] at hrename
          exact hsame hrename
        rw [if_neg hslash] at hrename
        obtain ⟨names, -, hrename⟩ := Option.bind_eq_some_iff.mp hrename
        cases names with
        | error err => exact hsame hrename
        | ok names =>
          dsimp only at hrename
          split_ifs at hrename with hfault
          · rw [← Option.some.inj hrename]
            exact hwrite
          · obtain ⟨d', hall, hr⟩ := Option.map_eq_some_iff.mp hrename
            rw [← hr]
            -- each item of the directory is renamed in the partition that the one before it leaves
            refine foldlM_invariant IsArchive (fun d1 name d2 hd1 hitem => ?_) hwrite hall
            obtain ⟨oldName, -, hitem⟩ := Option.bind_eq_some_iff.mp hitem
            obtain ⟨newName, -, hitem⟩ := Option.bind_eq_some_iff.mp hitem
            obtain ⟨m, hm, hitem⟩ := Option.bind_eq_some_iff.mp hitem
            split_ifs at hitem
            rw [← Option.some.inj hitem]
            exact ih hd1 hm
      · rw [if_neg hdir] at hrename
        split_ifs at hrename
        · rw [← Option.some.inj hrename]
          exact hwrite
        · rw [← Option.some.inj hrename]
          exact hwrite

/-! ## Runs -/

inductive Edit
  | remove (path : CString)
  | rename (oldPath newPath : CString)

/-- The device may report other errors to the next call. -/
def Edit.Step (d : Partition) (edit : Edit) (d' : Partition) : Prop :=
  ∃ r : OsReturnE × Partition, d'.blocks = r.2.blocks ∧
    match edit with
    | .remove path => ∃ fuel, d.ustarRemoveFile fuel path = some r
    | .rename oldPath newPath => ∃ kmalloc fuel, d.ustarRenameFile kmalloc fuel oldPath newPath = some r

theorem isArchive_of_run (hrun : Reachable IsArchive Edit.Step d) : IsArchive d := by
  refine hrun.invariant IsArchive (fun _ harchive => harchive) fun d edit d' harchive _ hstep => ?_
  obtain ⟨r, hblocks, hcall⟩ := hstep
  refine IsArchive.congr ?_ hblocks
  cases edit with
  | remove path =>
    obtain ⟨fuel, hremove⟩ := hcall
    exact harchive.remove hremove
  | rename oldPath newPath =>
    obtain ⟨kmalloc, fuel, hrename⟩ := hcall
    exact harchive.rename hrename

end Partition
end UtkKernel.Fs
