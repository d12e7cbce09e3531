import UtkKernel.Fs.Archive

/-! # Renaming a regular file

The header of the file gets the new name, whatever names the other headers have, and a terminator behind it that
falls in the next field if the name fills its own. The rename keeps the archive a map from names to files exactly when
it is not admitted, or the new name is free and leaves room for its terminator, and the flush goes well. -/

namespace UtkKernel.Fs
open Foundations
set_option autoImplicit false

/-! ## The new name in the header -/

theorem bytes_named {path : CString} (hpath : path.chars.length ≤ ustarFilenameMaxLength) (b : UstarBlock) :
    (Partition.named b path).bytes = path.chars ++ 0 :: b.bytes.drop (path.chars.length + 1) := by
  have hfits : 0 + (path.chars ++ [0]).length ≤ ustarBlockSize := by
    rw [List.length_append, Nat.zero_add]
    exact (Nat.add_le_add_right hpath 1).trans (by decide)
  unfold Partition.named UstarBlock.write
  rw [dif_pos hfits]
  simp [overwrite]

theorem cstr_take_append_nul {s : List Byte} (hs : 0 ∉ s) {n : ℕ} (hn : s.length ≤ n) (l : List Byte) :
    cstr ((s ++ 0 :: l).take n) = s := by
  obtain ⟨k, rfl⟩ := Nat.exists_eq_add_of_le hn
  rw [List.take_length_add_append]
  cases k with
  | zero => rw [List.take_zero, List.append_nil, cstr_of_notMem hs]
  | succ k => rw [List.take_succ_cons, cstr_append_nul hs]

theorem name_named {path : CString} (hpath : path.chars.length ≤ ustarFilenameMaxLength) (b : UstarBlock) :
    (Partition.named b path).name = path := by
  apply CString.ext
  change cstr ((Partition.named b path).bytes.take ustarFilenameMaxLength) = path.chars
  rw [bytes_named hpath, cstr_take_append_nul path.noNul hpath]

/-- Behind the terminator nothing changes. -/
theorem drop_named {path : CString} (hpath : path.chars.length ≤ ustarFilenameMaxLength) (b : UstarBlock) {n : ℕ}
    (hn : path.chars.length < n) : (Partition.named b path).bytes.drop n = b.bytes.drop n := by
  have hcons : path.chars ++ 0 :: b.bytes.drop (path.chars.length + 1) =
      (path.chars ++ [0]) ++ b.bytes.drop (path.chars.length + 1) := by simp
  have hlength : (path.chars ++ [0]).length = path.chars.length + 1 := by simp
  rw [bytes_named hpath, hcons, List.drop_append, List.drop_eq_nil_of_le (by omega), List.nil_append, hlength,
    List.drop_drop]
  congr 1
  omega

/-- The terminator stays in the field of the name, or a zero stood there before. -/
theorem drop_named_iff {path : CString} (hpath : path.chars.length ≤ ustarFilenameMaxLength) (b : UstarBlock) :
    (Partition.named b path).bytes.drop ustarFilenameMaxLength = b.bytes.drop ustarFilenameMaxLength ↔
      path.chars.length < ustarFilenameMaxLength ∨ b.mode.headD 0 = 0 := by
  by_cases hlt : path.chars.length < ustarFilenameMaxLength
  · exact iff_of_true (drop_named hpath b hlt) (.inl hlt)
  · have hlength : path.chars.length = ustarFilenameMaxLength := Nat.le_antisymm hpath (Nat.le_of_not_lt hlt)
    have hbound : ustarFilenameMaxLength < b.bytes.length := by
      rw [b.length_eq]
      decide
    have hmode : b.mode.headD 0 = b.bytes[ustarFilenameMaxLength] := by
      unfold UstarBlock.mode UstarBlock.field
      rw [show 100 = ustarFilenameMaxLength from rfl, List.drop_eq_getElem_cons hbound]
      rfl
    rw [bytes_named hpath, hlength, ← hlength, List.drop_left, hlength, hmode, List.drop_eq_getElem_cons hbound,
      List.cons.injEq]
    simp only [lt_self_iff_false, false_or, and_true]
    exact eq_comm

namespace Partition

variable {d d' : Partition} {headers : List Header} {h x : Header} {oldPath newPath shortPath : CString} {fuel : ℕ}
  {kmalloc : ℕ → Option (List Byte)}

/-! ## The parent -/

theorem ustarGetPath_eq_none_iff : ustarGetPath newPath = none ↔ newPath.chars.length < 2 := by
  unfold ustarGetPath
  split_ifs with hlength
  · exact iff_of_true rfl hlength
  · exact iff_of_false (by simp) hlength

/-- The new path lies in the root or in a directory that is visible. -/
def InDirectory (d : Partition) (headers : List Header) (newPath : CString) : Prop :=
  ∃ shortPath, ustarGetPath newPath = some shortPath ∧ (shortPath.chars = [] ∨
    ∃ x ∈ d.visible headers, x.block.name = shortPath ∧ ustarToVfsType x.block.type = .dir)

theorem hasParent_cases (hwell : WellFormed d headers) (hdistinct : Distinct headers)
    (hfuel : headers.length + 2 < fuel) (hlength : 2 ≤ newPath.chars.length) :
    d.hasParent fuel newPath = some true ∧ d.InDirectory headers newPath ∨
      d.hasParent fuel newPath = some false ∧ ¬d.InDirectory headers newPath := by
  obtain ⟨shortPath, hshort⟩ : ∃ shortPath, ustarGetPath newPath = some shortPath :=
    Option.ne_none_iff_exists'.mp (mt ustarGetPath_eq_none_iff.mp (Nat.not_lt.mpr hlength))
  have hdir : d.InDirectory headers newPath ↔ shortPath.chars = [] ∨
      ∃ x ∈ d.visible headers, x.block.name = shortPath ∧ ustarToVfsType x.block.type = .dir := by
    unfold InDirectory
    rw [hshort]
    simp
  unfold hasParent
  rw [hshort, Option.bind_some, hdir]
  by_cases hroot : shortPath.chars = []
  · rw [if_pos hroot]
    exact .inl ⟨rfl, .inl hroot⟩
  · rw [if_neg hroot, ustarSearchFile_eq hwell shortPath hfuel, Option.map_some]
    cases hfind : (d.visible headers).find? (Header.has shortPath) with
    | none =>
      refine .inr ⟨rfl, fun hc => ?_⟩
      obtain ⟨x, hx, hname, -⟩ := hc.resolve_left hroot
      exact List.find?_eq_none.mp hfind x hx (Header.has_iff.mpr hname)
    | some x =>
      have hx := List.mem_of_find?_eq_some hfind
      have hname : x.block.name = shortPath := Header.has_iff.mp (List.find?_some hfind)
      by_cases htype : ustarToVfsType x.block.type = .dir
      · exact .inl ⟨congrArg some (decide_eq_true htype), .inr ⟨x, hx, hname, htype⟩⟩
      · refine .inr ⟨congrArg some (decide_eq_false htype), fun hc => ?_⟩
        obtain ⟨y, hy, hname', htype'⟩ := hc.resolve_left hroot
        have hfind' := find_visible hdistinct hy hname'
        rw [hfind] at hfind'
        exact htype (Option.some.inj hfind' ▸ htype')

/-! ## The call -/

/-- The rename gets to the header of the file, and it can be written. -/
structure Admitted (d : Partition) (headers : List Header) (oldPath newPath : CString) (h : Header) : Prop where
  length : newPath.chars.length ≤ ustarFilenameMaxLength
  inDirectory : d.InDirectory headers newPath
  visible : h ∈ d.visible headers
  name : h.block.name = oldPath
  writable : d.fault .write h.id = .osNoErr

/-- A rename of a regular file: it writes the header and flushes it, or it reports an error and changes nothing. -/
theorem ustarRenameFile_cases (kmalloc : ℕ → Option (List Byte)) (hwell : WellFormed d headers) (hdistinct : Distinct headers)
    (hfile : ∀ h ∈ headers, h.block.name = oldPath → ustarToVfsType h.block.type = .file)
    (hlength : 2 ≤ newPath.chars.length) (hfuel : headers.length + 3 < fuel) :
    (∃ h, d.Admitted headers oldPath newPath h ∧ d.ustarRenameFile kmalloc fuel oldPath newPath =
      some (d.fault .flush h.id, d.setBlock h.inode (named h.block newPath))) ∨
    (¬∃ h, d.Admitted headers oldPath newPath h) ∧
      ∃ err, err ≠ .osNoErr ∧ d.ustarRenameFile kmalloc fuel oldPath newPath = some (err, d) := by
  obtain ⟨fuel, rfl⟩ := Nat.exists_eq_succ_of_ne_zero (Nat.ne_of_gt (Nat.zero_lt_of_lt hfuel))
  have hfuel' : headers.length + 2 < fuel := Nat.lt_of_succ_lt_succ hfuel
  rw [ustarRenameFile]
  by_cases hmax : ustarFilenameMaxLength < newPath.chars.length
  · rw [if_pos hmax]
    exact .inr ⟨fun ⟨h, hadmitted⟩ => Nat.not_lt.mpr hadmitted.length hmax, .osErrFileNotFound, by decide, rfl⟩
  rw [if_neg hmax]
  obtain ⟨hparent, hdir⟩ | ⟨hparent, hdir⟩ := hasParent_cases hwell hdistinct hfuel' hlength
  · rw [hparent, Option.bind_some, if_neg (by decide)]
    cases hfind : (d.visible headers).find? (Header.has oldPath) with
    | none =>
      obtain ⟨err, herr, hsearch⟩ := ustarSearchFile_error hwell hfuel' hfind
      rw [hsearch]
      refine .inr ⟨fun ⟨h, hadmitted⟩ => ?_, err, herr, rfl⟩
      exact List.find?_eq_none.mp hfind h hadmitted.visible (Header.has_iff.mpr hadmitted.name)
    | some h =>
      rw [ustarSearchFile_eq hwell oldPath hfuel', hfind, Option.bind_some]
      have hh := List.mem_of_find?_eq_some hfind
      have hname : h.block.name = oldPath := Header.has_iff.mp (List.find?_some hfind)
      have hmem := (mem_of_visible hh).1
      have hdir' : ¬ustarToVfsType h.block.type = .dir := by
        rw [hfile h hmem hname]
        decide
      dsimp only
      rw [if_neg hdir', writeBlock_eq (hwell.chain.inode_lt hmem) hwell.bound]
      by_cases hwrite : d.fault .write h.id = .osNoErr
      · refine .inl ⟨h, ⟨Nat.le_of_not_lt hmax, hdir, hh, hname, hwrite⟩, ?_⟩
        rw [if_neg (not_not_intro hwrite), if_neg (not_not_intro rfl)]
        rfl
      · refine .inr ⟨fun ⟨h', hadmitted⟩ => ?_, d.fault .write h.id, hwrite, ?_⟩
        · have hfind' := find_visible hdistinct hadmitted.visible hadmitted.name
          rw [hfind] at hfind'
          exact hwrite (Option.some.inj hfind' ▸ hadmitted.writable)
        · rw [if_pos hwrite, if_pos hwrite]
  · rw [hparent, Option.bind_some, if_pos rfl]
    exact .inr ⟨fun ⟨h, hadmitted⟩ => hdir hadmitted.inDirectory, .osErrFileNotFound, by decide, rfl⟩

/-! ## The archive behind it -/

/-- The file is reachable under its new path with the rest of its header, and not under the old one; the names are
distinct, and no other block has changed. -/
structure Renamed (d d' : Partition) (oldPath newPath : CString) (h : Header) : Prop where
  distinct : ∃ headers', WellFormed d' headers' ∧ Distinct headers'
  found : ∃ b, (∃ n, ∀ fuel, n < fuel → d'.ustarSearchFile fuel newPath = some (.ok (b, h.id))) ∧
    b.bytes.drop ustarFilenameMaxLength = h.block.bytes.drop ustarFilenameMaxLength
  lost : ∃ n, ∀ fuel, n < fuel → d'.ustarSearchFile fuel oldPath = some (.error .osErrFileNotFound)
  header : ∃ b, d'.blocks[h.inode]? = some b ∧
    b.bytes.drop ustarFilenameMaxLength = h.block.bytes.drop ustarFilenameMaxLength
  others : ∀ j, j ≠ h.inode → d'.blocks[j]? = d.blocks[j]?

/-- With enough fuel the rename ends; either it renames the file, or it reports an error and changes nothing. -/
def RenameSafe (kmalloc : ℕ → Option (List Byte)) (d : Partition) (headers : List Header) (oldPath newPath : CString) :
    Prop :=
  ∃ n, ∀ fuel, n < fuel → ∃ err d', d.ustarRenameFile kmalloc fuel oldPath newPath = some (err, d') ∧
    (err = .osNoErr → ∃ h ∈ d.visible headers, h.block.name = oldPath ∧ d.Renamed d' oldPath newPath h) ∧
    (err ≠ .osNoErr → d' = d)

/-- The new name is free and leaves room for its terminator, unless a zero is there already, and the flush goes
well. -/
structure Suits (d : Partition) (headers : List Header) (newPath : CString) (h : Header) : Prop where
  flushed : d.fault .flush h.id = .osNoErr
  terminated : newPath.chars.length < ustarFilenameMaxLength ∨ h.block.mode.headD 0 = 0
  free : ∀ x ∈ headers, x.live = true → x.block.name ≠ newPath

theorem Admitted.named_live (hadmitted : d.Admitted headers oldPath newPath h) (hnew : newPath.chars ≠ []) :
    (⟨h.inode, named h.block newPath⟩ : Header).live = true := by
  have hunnamed : (named h.block newPath).unnamed ≠ true := by
    rw [Ne, unnamed_iff, name_named hadmitted.length]
    exact hnew
  unfold Header.live
  simpa using hunnamed

section Write

variable (hadmitted : d.Admitted headers oldPath newPath h) (hwell : WellFormed d headers)
include hadmitted hwell

theorem Admitted.wellFormed : WellFormed (d.setBlock h.inode (named h.block newPath))
    (headers.map (rewritten h.inode (named h.block newPath))) := by
  have hmem := (mem_of_visible hadmitted.visible).1
  have hdrop := drop_named hadmitted.length h.block (Nat.lt_succ_of_le hadmitted.length)
  exact hwell.setBlock hmem (dataBlocks_of_drop hdrop)
    ((check_of_drop hdrop).trans (hwell.chain.check h hmem))

/-- The header of the file is the only one that changes. -/
theorem Admitted.rewritten_eq (hx : x ∈ headers) : rewritten h.inode (named h.block newPath) x =
    if x = h then ⟨h.inode, named h.block newPath⟩ else x := by
  split_ifs with hxh
  · rw [hxh, rewritten_self]
  · refine rewritten_of_ne (fun hinode => hxh ?_) _
    exact hwell.chain.eq_of_inode hx (mem_of_visible hadmitted.visible).1 hinode

theorem Admitted.rewritten_live (hnew : newPath.chars ≠ []) (hx : x ∈ headers) :
    (rewritten h.inode (named h.block newPath) x).live = x.live := by
  rw [hadmitted.rewritten_eq hwell hx]
  split_ifs with hxh
  · rw [hxh, (mem_of_visible hadmitted.visible).2]
    exact hadmitted.named_live hnew
  · rfl

theorem Admitted.visible_eq (hnew : newPath.chars ≠ []) :
    (d.setBlock h.inode (named h.block newPath)).visible
      (headers.map (rewritten h.inode (named h.block newPath))) =
    (d.visible headers).map (rewritten h.inode (named h.block newPath)) :=
  visible_map (fun _ _ => rewritten_inode ..) (fun _ hx => hadmitted.rewritten_live hwell hnew hx) rfl

/-- The names stay distinct if the new one is free. -/
theorem Admitted.distinct (hdistinct : Distinct headers) (hnew : newPath.chars ≠ [])
    (hfree : ∀ x ∈ headers, x.live = true → x.block.name ≠ newPath) :
    Distinct (headers.map (rewritten h.inode (named h.block newPath))) := by
  have hlive : ∀ x ∈ headers, (rewritten h.inode (named h.block newPath) x).live = x.live :=
    fun x hx => hadmitted.rewritten_live hwell hnew hx
  have hfilter : (headers.map (rewritten h.inode (named h.block newPath))).filter Header.live =
      (headers.filter Header.live).map (rewritten h.inode (named h.block newPath)) := by
    rw [List.filter_map]
    congr 1
    exact List.filter_congr fun x hx => hlive x hx
  unfold Distinct
  rw [hfilter, List.map_map]
  refine List.Nodup.map_on (fun x hx y hy hxy => ?_) (List.Nodup.of_map _ hdistinct)
  obtain ⟨hx, hxlive⟩ := List.mem_filter.mp hx
  obtain ⟨hy, hylive⟩ := List.mem_filter.mp hy
  simp only [Function.comp_apply, hadmitted.rewritten_eq hwell hx,
    hadmitted.rewritten_eq hwell hy] at hxy
  split_ifs at hxy with hxh hyh hyh
  · rw [hxh, hyh]
  · exact absurd (hxy.symm.trans (name_named hadmitted.length _)) (hfree y hy hylive)
  · exact absurd (hxy.trans (name_named hadmitted.length _)) (hfree x hx hxlive)
  · exact hdistinct.eq hx hxlive hy hylive hxy

/-- If the new name suits, the write renames the file. -/
theorem Admitted.renamed (hdistinct : Distinct headers) (hne : oldPath ≠ newPath) (hnew : newPath.chars ≠ [])
    (hsuits : d.Suits headers newPath h) :
    d.Renamed (d.setBlock h.inode (named h.block newPath)) oldPath newPath h := by
  have hmem := (mem_of_visible hadmitted.visible).1
  have hwell' := hadmitted.wellFormed hwell
  have hdistinct' := hadmitted.distinct hwell hdistinct hnew hsuits.free
  have hvisible := hadmitted.visible_eq hwell hnew
  have hdrop := (drop_named_iff hadmitted.length h.block).mpr hsuits.terminated
  have hfound : ⟨h.inode, named h.block newPath⟩ ∈ (d.setBlock h.inode (named h.block newPath)).visible
      (headers.map (rewritten h.inode (named h.block newPath))) := by
    rw [hvisible]
    exact List.mem_map.mpr ⟨h, hadmitted.visible, rewritten_self h _⟩
  refine ⟨⟨_, hwell', hdistinct'⟩, ⟨named h.block newPath, ⟨headers.length + 2, fun fuel hfuel => ?_⟩, hdrop⟩,
    ⟨headers.length + 2, fun fuel hfuel => ?_⟩, ⟨_, setBlock_self (hwell.chain.inode_lt hmem) _, hdrop⟩,
    fun j hj => setBlock_of_ne hj _⟩
  · rw [ustarSearchFile_eq hwell' newPath (by simpa using hfuel),
      find_visible hdistinct' hfound (name_named hadmitted.length _)]
    rfl
  · refine ustarSearchFile_none hwell' (by simpa using hfuel) (List.ne_nil_of_mem hfound) fun x hx => ?_
    rw [hvisible] at hx
    obtain ⟨y, hy, rfl⟩ := List.mem_map.mp hx
    obtain ⟨hymem, hylive⟩ := mem_of_visible hy
    rw [hadmitted.rewritten_eq hwell hymem]
    split_ifs with hyh
    · exact fun hname => hne (hname.symm.trans (name_named hadmitted.length _))
    · intro hname
      have hsame := hadmitted.name.trans hname.symm
      exact hyh (hdistinct.eq hmem (mem_of_visible hadmitted.visible).2 hymem hylive hsame).symm

/-- Only a new name that suits is one that a rename can be safe with. -/
theorem Admitted.suits (hdistinct : Distinct headers) (hne : oldPath ≠ newPath) (hnew : newPath.chars ≠ [])
    (hfile : ∀ h ∈ headers, h.block.name = oldPath → ustarToVfsType h.block.type = .file)
    (hlength : 2 ≤ newPath.chars.length) (hsafe : RenameSafe kmalloc d headers oldPath newPath) :
    d.Suits headers newPath h := by
  obtain ⟨n, hsafe⟩ := hsafe
  obtain ⟨hmem, hlive⟩ := mem_of_visible hadmitted.visible
  obtain ⟨err, d', hcall, hok, herr⟩ := hsafe (max n (headers.length + 3) + 1) (by omega)
  obtain ⟨h', hadmitted', hcall'⟩ | ⟨hnone, -⟩ := ustarRenameFile_cases kmalloc hwell hdistinct hfile hlength
    (show headers.length + 3 < max n (headers.length + 3) + 1 by omega)
  · obtain ⟨hmem', hlive'⟩ := mem_of_visible hadmitted'.visible
    obtain rfl : h' = h := hdistinct.eq hmem' hlive' hmem hlive (hadmitted'.name.trans hadmitted.name.symm)
    rw [hcall] at hcall'
    obtain ⟨rfl, rfl⟩ := Prod.mk.inj (Option.some.inj hcall')
    have hself := setBlock_self (hwell.chain.inode_lt hmem) (named h'.block newPath)
    have hflush : d.fault .flush h'.id = .osNoErr := by
      by_contra hflush
      rw [herr hflush, hwell.chain.block_eq h' hmem] at hself
      have hname := name_named hadmitted.length h'.block
      rw [← Option.some.inj hself, hadmitted.name] at hname
      exact hne hname
    obtain ⟨h1, hvisible1, hname1, hrenamed⟩ := hok hflush
    obtain ⟨hmem1, hlive1⟩ := mem_of_visible hvisible1
    obtain rfl : h1 = h' := hdistinct.eq hmem1 hlive1 hmem hlive (hname1.trans hadmitted.name.symm)
    refine ⟨hflush, ?_, fun x hx hxlive hxname => ?_⟩
    · obtain ⟨b, hb, hdrop⟩ := hrenamed.header
      rw [hself] at hb
      rw [← Option.some.inj hb] at hdrop
      exact (drop_named_iff hadmitted.length h1.block).mp hdrop
    · obtain ⟨headers', hwell', hdistinct'⟩ := hrenamed.distinct
      rw [← (hadmitted.wellFormed hwell).chain.unique hwell'.chain] at hdistinct'
      have hxh : x ≠ h1 := fun hc => hne (hadmitted.name.symm.trans (hc ▸ hxname))
      have hmap := fun y (hy : y ∈ headers) => List.mem_map_of_mem (f := rewritten h1.inode (named h1.block newPath)) hy
      have hx' := hmap x hx
      have hh' := hmap h1 hmem
      rw [hadmitted.rewritten_eq hwell hx, if_neg hxh] at hx'
      rw [rewritten_self] at hh'
      have heq := hdistinct'.eq hx' hxlive hh' (hadmitted.named_live hnew)
        (hxname.trans (name_named hadmitted.length _).symm)
      have hinode := congrArg Header.inode heq
      exact hxh (hwell.chain.eq_of_inode hx hmem hinode)
  · exact absurd ⟨h, hadmitted⟩ hnone

end Write

/-- A rename of a regular file is safe if and only if the new path has two characters and suits where the rename is
admitted. -/
theorem renameSafe_iff (hwell : WellFormed d headers) (hdistinct : Distinct headers) (hne : oldPath ≠ newPath)
    (hnew : newPath.chars ≠ [])
    (hfile : ∀ h ∈ headers, h.block.name = oldPath → ustarToVfsType h.block.type = .file) :
    RenameSafe kmalloc d headers oldPath newPath ↔
      2 ≤ newPath.chars.length ∧ ∀ h, d.Admitted headers oldPath newPath h → d.Suits headers newPath h := by
  constructor
  · intro hsafe
    have hlength : 2 ≤ newPath.chars.length := by
      by_contra hshort
      obtain ⟨n, hsafe⟩ := hsafe
      obtain ⟨err, d', hcall, -⟩ := hsafe (n + 1) (Nat.lt_succ_self n)
      have hpath := ustarGetPath_eq_none_iff.mpr (Nat.lt_of_not_le hshort)
      have hmax : ¬ustarFilenameMaxLength < newPath.chars.length := fun h => hshort (le_trans (by decide) h.le)
      rw [ustarRenameFile, if_neg hmax, hasParent, hpath] at hcall
      exact nomatch hcall
    exact ⟨hlength, fun h hadmitted => hadmitted.suits hwell hdistinct hne hnew hfile hlength hsafe⟩
  · rintro ⟨hlength, hsuits⟩
    refine ⟨headers.length + 3, fun fuel hfuel => ?_⟩
    obtain ⟨h, hadmitted, hcall⟩ | ⟨-, err, herr, hcall⟩ := ustarRenameFile_cases kmalloc hwell hdistinct hfile hlength hfuel
    · have hflush := (hsuits h hadmitted).flushed
      refine ⟨_, _, hcall, fun _ => ⟨h, hadmitted.visible, hadmitted.name, ?_⟩, fun hc => absurd hflush hc⟩
      exact hadmitted.renamed hwell hdistinct hne hnew (hsuits h hadmitted)
    · exact ⟨err, d, hcall, fun hc => absurd hc herr, fun _ => rfl⟩

/-! ## Names that are free and names that are taken -/

theorem twoFiles_admitted (hlength : newPath.chars.length ≤ ustarFilenameMaxLength)
    (hpath : (ustarGetPath newPath).map CString.chars = some []) :
    twoFiles.Admitted twoHeaders pathA newPath ⟨0, headerBlock pathA.chars 0x30⟩ := by
  obtain ⟨shortPath, hshort, hroot⟩ := Option.map_eq_some_iff.mp hpath
  exact ⟨hlength, ⟨shortPath, hshort, .inl hroot⟩, by decide +kernel, by decide +kernel, rfl⟩

/-- A rename to a name that is free. -/
theorem renameSafe_iff_free : RenameSafe (fun _ => none) twoFiles twoHeaders pathA pathC := by
  refine (renameSafe_iff twoFiles_wellFormed (by decide +kernel) (by decide) (by decide) (by decide +kernel)).mpr
    ⟨by decide, fun h hadmitted => ⟨rfl, .inl (by decide), by decide +kernel⟩⟩

/-- A rename to the name of the other file. -/
theorem taken_name_not_safe : WellFormed twoFiles twoHeaders ∧ Distinct twoHeaders ∧
    (∀ h ∈ twoHeaders, h.block.name = pathA → ustarToVfsType h.block.type = .file) ∧
    ¬RenameSafe (fun _ => none) twoFiles twoHeaders pathA pathB := by
  have hdistinct : Distinct twoHeaders := by decide +kernel
  have hfile : ∀ h ∈ twoHeaders, h.block.name = pathA → ustarToVfsType h.block.type = .file := by decide +kernel
  refine ⟨twoFiles_wellFormed, hdistinct, hfile, fun hsafe => ?_⟩
  have hadmitted : twoFiles.Admitted twoHeaders pathA pathB ⟨0, headerBlock pathA.chars 0x30⟩ :=
    twoFiles_admitted (by decide) (by decide)
  have hsuits := hadmitted.suits twoFiles_wellFormed hdistinct (by decide) (by decide) hfile (by decide) hsafe
  exact hsuits.free ⟨1, headerBlock pathB.chars 0x30⟩ (by decide +kernel) (by decide +kernel) (by decide +kernel)

end Partition
end UtkKernel.Fs
