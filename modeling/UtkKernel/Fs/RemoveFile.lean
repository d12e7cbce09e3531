import UtkKernel.Fs.Archive

/-! # Removing a file

The header of the file loses its name. A scan passes over such a header, unless it is the first one of the
partition: there it takes the header for the end of the archive, and no file is found any more. -/

namespace UtkKernel.Fs
open Foundations
set_option autoImplicit false

/-- Is the header that of an item of the directory, by the names? -/
def Header.inside (path : CString) (h : Header) : Bool :=
  decide (strncmp path.chars.length h.block.bytes path.chars = 0 ∧ (cstr h.block.bytes).length ≠ path.chars.length)

/-- `memset` of the name. -/
def blanked (b : UstarBlock) : UstarBlock := b.write 0 (List.replicate ustarFilenameMaxLength 0)

theorem bytes_blanked (b : UstarBlock) : (blanked b).bytes =
    List.replicate ustarFilenameMaxLength 0 ++ b.bytes.drop ustarFilenameMaxLength := by
  unfold blanked UstarBlock.write
  rw [dif_pos (by rw [List.length_replicate]; decide)]
  simp [overwrite]

theorem unnamed_blanked (b : UstarBlock) : (blanked b).unnamed = true := by
  unfold UstarBlock.unnamed
  rw [bytes_blanked]
  rfl

theorem drop_blanked (b : UstarBlock) : (blanked b).bytes.drop 101 = b.bytes.drop 101 := by
  rw [bytes_blanked, List.drop_append, List.length_replicate, List.drop_eq_nil_of_le (by simp [ustarFilenameMaxLength]),
    List.nil_append, List.drop_drop]
  rfl

namespace Partition

variable {d d' : Partition} {headers before rest : List Header} {h x : Header} {path q : CString} {fuel start : ℕ}
  {v : Vnode}

/-! ## Counting -/

/-- The count goes over the header and those that the scan visits behind it. -/
theorem countFrom_eq (hbound : d.blocks.length < 2 ^ 23) (hchain : Chain d h.inode (h :: rest)) (hlive : h.live = true)
    (hfuel : rest.length + 2 < fuel) (itemCount : ℕ) :
    d.countFrom path fuel h.block h.id itemCount =
      some (.ok (itemCount + (h :: d.scanned rest).countP (Header.inside path))) := by
  induction hlength : rest.length using Nat.strong_induction_on generalizing h rest fuel itemCount with
  | _ n ih =>
    obtain ⟨fuel, rfl⟩ := Nat.exists_eq_succ_of_ne_zero (Nat.ne_of_gt (Nat.zero_lt_of_lt hfuel))
    obtain ⟨-, hblock, hcheck, hrest⟩ := hchain.uncons
    have hinside : (if strncmp path.chars.length h.block.bytes path.chars = 0 ∧
        (cstr h.block.bytes).length ≠ path.chars.length then itemCount + 1 else itemCount) =
        itemCount + if h.inside path then 1 else 0 := by
      unfold Header.inside
      split_ifs with hc hc' hc' <;> simp_all
    rw [countFrom, if_neg (Bool.eq_false_iff.mp (Header.unnamed_of_live hlive)), if_neg (not_not_intro hcheck),
      List.countP_cons]
    dsimp only
    rw [hinside]
    obtain ⟨hscan, b, inode, hget, hunnamed⟩ | ⟨h', rest', hscan, hget, hlive', hchain', hlt⟩ :=
      ustarGetNextFile_cases hbound hcheck hrest (Nat.lt_of_succ_lt_succ hfuel)
    · rw [hscan, hget, List.countP_nil]
      obtain ⟨fuel, rfl⟩ := Nat.exists_eq_succ_of_ne_zero
        (Nat.ne_of_gt (Nat.zero_lt_of_lt (Nat.lt_of_succ_lt_succ hfuel)))
      rw [Option.bind_some, countFrom, if_pos hunnamed, Nat.zero_add]
    · rw [hscan, hget, Option.bind_some, ih rest'.length (hlength ▸ hlt) hchain' hlive' (by omega) _ rfl]
      congr 2
      omega

/-! ## The parts of a scan -/

theorem scanned_append (hmem : h ∈ d.scanned (before ++ h :: rest)) (hnot : h ∉ before) :
    d.scanned (before ++ h :: rest) = before.filter Header.live ++ h :: d.scanned rest := by
  unfold scanned at hmem ⊢
  rw [List.takeWhile_append] at hmem ⊢
  split_ifs at hmem ⊢ with hall
  · rw [List.filter_append] at hmem ⊢
    have hh := (List.mem_append.mp hmem).resolve_left fun hc => hnot (List.mem_filter.mp hc).1
    rw [List.takeWhile_cons] at hh ⊢
    split_ifs at hh ⊢ with hread
    · rw [List.filter_cons] at hh ⊢
      split_ifs at hh ⊢ with hlive
      · rfl
      · exact absurd (List.mem_filter.mp hh).2 hlive
    · exact nomatch hh
  · exact absurd ((List.takeWhile_sublist _).subset (List.mem_filter.mp hmem).1) hnot

theorem visible_append (hwell : WellFormed d (before ++ h :: rest)) (hmem : h ∈ d.visible (before ++ h :: rest)) :
    d.visible (before ++ h :: rest) = before.filter Header.live ++ h :: d.scanned rest := by
  have hlt : ∀ b ∈ before, b.next ≤ h.inode := fun b hb =>
    (List.pairwise_append.mp hwell.chain.apart).2.2 b hb h (List.mem_cons_self ..)
  cases before with
  | nil =>
    rw [List.nil_append, visible_cons] at hmem ⊢
    split_ifs at hmem ⊢
    · rfl
    · exact nomatch hmem
  | cons b before =>
    have hne : ∀ x ∈ b :: before, h ≠ x := by
      rintro x hx rfl
      have hnext : h.next = h.inode + 1 + h.block.dataBlocks := rfl
      have := hlt h hx
      omega
    rw [List.cons_append, visible_cons] at hmem ⊢
    split_ifs at hmem ⊢ with hb
    · have hmem' := (List.mem_cons.mp hmem).resolve_left (hne b (List.mem_cons_self ..))
      rw [scanned_append hmem' fun hc => hne h (List.mem_cons_of_mem _ hc) rfl, List.filter_cons_of_pos hb.2]
      rfl
    · exact nomatch hmem

/-- Which headers the scan visits from a visible one on. -/
theorem mem_behind_iff (hwell : WellFormed d (before ++ h :: rest)) (hmem : h ∈ d.visible (before ++ h :: rest)) :
    x ∈ h :: d.scanned rest ↔ x ∈ d.visible (before ++ h :: rest) ∧ h.inode ≤ x.inode := by
  obtain ⟨-, hapart, hlt⟩ := List.pairwise_append.mp hwell.chain.apart
  rw [visible_append hwell hmem, List.mem_append]
  constructor
  · intro hx
    refine ⟨.inr hx, ?_⟩
    rcases List.mem_cons.mp hx with rfl | hx
    · exact le_rfl
    · have hnext : h.next = h.inode + 1 + h.block.dataBlocks := rfl
      have hx' := (List.takeWhile_sublist _).subset (List.mem_filter.mp hx).1
      have := (List.pairwise_cons.mp hapart).1 x hx'
      omega
  · rintro ⟨hx | hx, hle⟩
    · have hnext : x.next = x.inode + 1 + x.block.dataBlocks := rfl
      have := hlt x (List.mem_filter.mp hx).1 h (List.mem_cons_self ..)
      omega
    · exact hx

/-! ## The call -/

/-- The remove gets to the header of the file, a directory has no items behind its header, and the device reports no
error. -/
structure Removable (d : Partition) (headers : List Header) (path : CString) (h : Header) : Prop where
  visible : h ∈ d.visible headers
  name : h.block.name = path
  empty : ustarToVfsType h.block.type = .dir → ∀ x ∈ d.visible headers, h.inode ≤ x.inode → ¬x.inside path
  writable : d.fault .write h.id = .osNoErr
  flushed : d.fault .flush h.id = .osNoErr

theorem ustarGetItemCount_eq (hwell : WellFormed d headers) (hfuel : headers.length + 2 < fuel)
    (hfind : (d.visible headers).find? (Header.has path) = some h) (hdir : ustarToVfsType h.block.type = .dir) :
    ∃ itemCount, d.ustarGetItemCount fuel path = some (.ok itemCount) ∧
      (itemCount = 0 ↔ ∀ x ∈ d.visible headers, h.inode ≤ x.inode → ¬x.inside path) := by
  have hh := List.mem_of_find?_eq_some hfind
  obtain ⟨hmem, hlive⟩ := mem_of_visible hh
  obtain ⟨before, rest, rfl⟩ := List.append_of_mem hmem
  refine ⟨(h :: d.scanned rest).countP (Header.inside path), ?_, ?_⟩
  · have hlength : rest.length + 2 < fuel := by
      rw [List.length_append, List.length_cons] at hfuel
      omega
    unfold ustarGetItemCount
    rw [ustarSearchFile_eq hwell path hfuel, hfind, Option.bind_some]
    dsimp only
    rw [if_neg (not_not_intro hdir), countFrom_eq hwell.bound hwell.chain.suffix hlive hlength, Nat.zero_add]
  · rw [List.countP_eq_zero]
    constructor
    · exact fun hnone x hx hle => hnone x ((mem_behind_iff hwell hh).mpr ⟨hx, hle⟩)
    · intro hnone x hx
      obtain ⟨hx, hle⟩ := (mem_behind_iff hwell hh).mp hx
      exact hnone x hx hle

/-- The scan of the directory visits one of its items, from the header of the directory on. -/
def Occupied (d : Partition) (headers : List Header) (path : CString) (h : Header) : Prop :=
  ustarToVfsType h.block.type = .dir ∧ ∃ x ∈ d.visible headers, h.inode ≤ x.inode ∧ x.inside path

/-- A remove of a file that a search finds. -/
theorem ustarRemoveFile_found (hwell : WellFormed d headers) (hfuel : headers.length + 2 < fuel)
    (hfind : (d.visible headers).find? (Header.has path) = some h) :
    (d.Occupied headers path h ∧ d.ustarRemoveFile fuel path = some (.osErrDirNotEmpty, d)) ∨
      ¬d.Occupied headers path h ∧ d.ustarRemoveFile fuel path =
        some (if d.fault .write h.id ≠ .osNoErr then (d.fault .write h.id, d)
          else (d.fault .flush h.id, d.setBlock h.inode (blanked h.block))) := by
  have hmem := (mem_of_visible (List.mem_of_find?_eq_some hfind)).1
  have hwrite : (let w := d.writeBlock h.id (blanked h.block)
      if w.1 ≠ .osNoErr then w else (w.2.flushBlock h.id, w.2)) =
      if d.fault .write h.id ≠ .osNoErr then (d.fault .write h.id, d)
      else (d.fault .flush h.id, d.setBlock h.inode (blanked h.block)) := by
    dsimp only
    rw [writeBlock_eq (hwell.chain.inode_lt hmem) hwell.bound]
    by_cases hfault : d.fault .write h.id ≠ .osNoErr
    · rw [if_pos hfault, if_pos hfault, if_pos hfault]
    · rw [if_neg hfault, if_neg hfault, if_neg (not_not_intro rfl)]
      rfl
  unfold ustarRemoveFile
  rw [ustarSearchFile_eq hwell path hfuel, hfind, Option.bind_some, ← hwrite]
  dsimp only
  by_cases hdir : ustarToVfsType h.block.type = .dir
  · obtain ⟨itemCount, hcount, hzero⟩ := ustarGetItemCount_eq hwell hfuel hfind hdir
    rw [if_pos hdir, hcount, Option.map_some]
    dsimp only
    by_cases hempty : itemCount = 0
    · rw [if_neg (not_not_intro hempty)]
      exact .inr ⟨fun ⟨_, x, hx, hle, hin⟩ => hzero.mp hempty x hx hle hin, rfl⟩
    · rw [if_pos hempty]
      refine .inl ⟨⟨hdir, ?_⟩, rfl⟩
      by_contra hnone
      exact hempty (hzero.mpr fun x hx hle hin => hnone ⟨x, hx, hle, hin⟩)
  · rw [if_neg hdir]
    exact .inr ⟨fun hc => hdir hc.1, rfl⟩

/-- A remove that reports no error has blanked the header of the file, and nothing else. -/
theorem ustarRemoveFile_ok_iff (hwell : WellFormed d headers) (hdistinct : Distinct headers)
    (hfuel : headers.length + 2 < fuel) : d.ustarRemoveFile fuel path = some (.osNoErr, d') ↔
      ∃ h, d.Removable headers path h ∧ d' = d.setBlock h.inode (blanked h.block) := by
  cases hfind : (d.visible headers).find? (Header.has path) with
  | none =>
    obtain ⟨err, herr, hsearch⟩ := ustarSearchFile_error hwell hfuel hfind
    unfold ustarRemoveFile
    rw [hsearch]
    refine iff_of_false (fun hc => herr ?_) ?_
    · exact (Prod.mk.inj (Option.some.inj hc)).1
    · rintro ⟨h, hremovable, -⟩
      exact List.find?_eq_none.mp hfind h hremovable.visible (Header.has_iff.mpr hremovable.name)
  | some h =>
    have hh := List.mem_of_find?_eq_some hfind
    have hname : h.block.name = path := Header.has_iff.mp (List.find?_some hfind)
    have hunique : ∀ h', d.Removable headers path h' → h' = h := by
      intro h' hremovable
      have hfind' := find_visible hdistinct hremovable.visible hremovable.name
      rw [hfind] at hfind'
      exact (Option.some.inj hfind').symm
    have hempty : (ustarToVfsType h.block.type = .dir → ∀ x ∈ d.visible headers, h.inode ≤ x.inode → ¬x.inside path) ↔
        ¬d.Occupied headers path h := by
      constructor
      · rintro hnone ⟨hdir, x, hx, hle, hin⟩
        exact hnone hdir x hx hle hin
      · exact fun hfree hdir x hx hle hin => hfree ⟨hdir, x, hx, hle, hin⟩
    have hremoves : (d.Removable headers path h ∧ d' = d.setBlock h.inode (blanked h.block)) ↔
        ∃ h', d.Removable headers path h' ∧ d' = d.setBlock h'.inode (blanked h'.block) :=
      ⟨fun hc => ⟨h, hc⟩, fun ⟨h', hremovable, heq⟩ => hunique h' hremovable ▸ ⟨hremovable, heq⟩⟩
    rw [← hremoves]
    obtain ⟨hoccupied, hcall⟩ | ⟨hfree, hcall⟩ := ustarRemoveFile_found hwell hfuel hfind
    · rw [hcall]
      refine iff_of_false (fun hc => nomatch Option.some.inj hc) fun hc => ?_
      exact hempty.mp hc.1.empty hoccupied
    · rw [hcall, Option.some_inj]
      by_cases hfault : d.fault .write h.id = .osNoErr
      · rw [if_neg (not_not_intro hfault), Prod.mk.injEq]
        constructor
        · exact fun ⟨hflush, heq⟩ => ⟨⟨hh, hname, hempty.mpr hfree, hfault, hflush⟩, heq.symm⟩
        · exact fun ⟨hremovable, heq⟩ => ⟨hremovable.flushed, heq.symm⟩
      · rw [if_pos hfault]
        exact iff_of_false (fun hc => hfault (Prod.mk.inj hc).1) fun hc => hfault hc.1.writable

/-! ## The archive behind it -/

/-- The path can be opened, with enough fuel. -/
def Opens (d : Partition) (path : CString) (v : Vnode) : Prop :=
  ∃ n, ∀ fuel, n < fuel → d.ustarOpenFile fuel path = some (.ok v)

theorem opens_iff (hwell : WellFormed d headers) (hdistinct : Distinct headers) : d.Opens q v ↔
    ∃ x ∈ d.visible headers, x.block.name = q ∧ ustarSetVnode x.block x.id q = some v := by
  have hopen : ∀ fuel, headers.length + 2 < fuel → (d.ustarOpenFile fuel q = some (.ok v) ↔
      ∃ x ∈ d.visible headers, x.block.name = q ∧ ustarSetVnode x.block x.id q = some v) := by
    intro fuel hfuel
    unfold ustarOpenFile
    cases hfind : (d.visible headers).find? (Header.has q) with
    | none =>
      obtain ⟨err, -, hsearch⟩ := ustarSearchFile_error hwell hfuel hfind
      rw [hsearch]
      refine iff_of_false (fun hc => nomatch Option.some.inj hc) ?_
      rintro ⟨x, hx, hname, -⟩
      exact List.find?_eq_none.mp hfind x hx (Header.has_iff.mpr hname)
    | some h =>
      have hh := List.mem_of_find?_eq_some hfind
      have hname : h.block.name = q := Header.has_iff.mp (List.find?_some hfind)
      rw [ustarSearchFile_eq hwell q hfuel, hfind, Option.bind_some]
      dsimp only
      constructor
      · intro hopen
        obtain ⟨v', hv, heq⟩ := Option.map_eq_some_iff.mp hopen
        exact ⟨h, hh, hname, Except.ok.inj heq ▸ hv⟩
      · rintro ⟨x, hx, hxname, hv⟩
        have hfind' := find_visible hdistinct hx hxname
        rw [hfind] at hfind'
        rw [Option.some.inj hfind', hv]
        rfl
  constructor
  · rintro ⟨n, hopens⟩
    exact (hopen (max n (headers.length + 2) + 1) (by omega)).mp (hopens _ (by omega))
  · exact fun hx => ⟨headers.length + 2, fun fuel hfuel => (hopen fuel hfuel).mpr hx⟩

theorem exists_vnode_iff (x : Header) (hlive : x.live = true) :
    (∃ v, ustarSetVnode x.block x.id x.block.name = some v) ↔ x.block.name.chars.length < ustarFilenameMaxLength := by
  have hpos : x.block.name.chars.length ≠ 0 := by
    rw [Ne, List.length_eq_zero_iff, ← unnamed_iff, Header.unnamed_of_live hlive]
    exact Bool.false_ne_true
  have hfilename : ustarGetFilename x.block.name ≠ none ↔ x.block.name.chars.length < ustarFilenameMaxLength := by
    unfold ustarGetFilename
    rw [← not_le]
    by_cases hlong : ustarFilenameMaxLength ≤ x.block.name.chars.length
    · simp [hlong]
    · rw [if_neg (not_or.mpr ⟨hpos, hlong⟩)]
      split_ifs <;> simp [hlong]
  rw [← hfilename, Option.ne_none_iff_exists']
  unfold ustarSetVnode
  simp

/-- The path cannot be opened any more; every other one that could be is opened as before, and the header and the
data of each other file that a scan found are the same. -/
structure Removed (d d' : Partition) (headers : List Header) (path : CString) : Prop where
  gone : ∀ v, ¬d'.Opens path v
  kept : ∀ q v, q ≠ path → d.Opens q v → d'.Opens q v
  content : ∀ x ∈ d.visible headers, x.block.name ≠ path → ∀ j, x.inode ≤ j → j < x.next →
    d'.blocks[j]? = d.blocks[j]?

/-- Where the remove reports no error, it removes the file and nothing else. -/
def RemoveSafe (d : Partition) (headers : List Header) (path : CString) : Prop :=
  ∃ n, ∀ fuel, n < fuel → ∀ d', d.ustarRemoveFile fuel path = some (.osNoErr, d') → d.Removed d' headers path

/-- The headers that are left live. -/
theorem filter_blanked (i : ℕ) (b : UstarBlock) (headers : List Header) :
    (headers.map (rewritten i (blanked b))).filter Header.live =
      (headers.filter Header.live).filter fun x => decide (x.inode ≠ i) := by
  induction headers with
  | nil => rfl
  | cons x headers ih =>
    rw [List.map_cons, List.filter_cons, ih, @List.filter_cons _ x]
    by_cases hx : x.inode = i
    · have hlive : ¬(rewritten i (blanked b) x).live = true := by
        rw [rewritten, if_pos hx]
        simp [Header.live, unnamed_blanked]
      rw [if_neg hlive]
      split_ifs
      · rw [List.filter_cons_of_neg (by simp [hx])]
      · rfl
    · rw [rewritten_of_ne hx]
      split_ifs
      · rw [List.filter_cons_of_pos (by simp [hx])]
      · rfl

theorem scanned_blanked (d : Partition) (i : ℕ) (b : UstarBlock) (headers : List Header) :
    (d.setBlock i (blanked b)).scanned (headers.map (rewritten i (blanked b))) =
      (d.scanned headers).filter fun x => decide (x.inode ≠ i) := by
  have hread : (d.setBlock i (blanked b)).readable ∘ rewritten i (blanked b) = d.readable := by
    funext x
    simp only [Function.comp_apply, readable, Header.id, rewritten_inode]
    rfl
  unfold scanned
  rw [List.takeWhile_map, hread, filter_blanked]

/-- A scan passes over the blanked header, but not where it starts with it. -/
theorem visible_blanked (hwell : WellFormed d headers) (hmem : h ∈ headers) :
    (d.setBlock h.inode (blanked h.block)).visible (headers.map (rewritten h.inode (blanked h.block))) =
      if h.inode = 0 then [] else (d.visible headers).filter fun x => decide (x.inode ≠ h.inode) := by
  cases headers with
  | nil => exact nomatch hmem
  | cons x rest =>
    have hx := hwell.chain.uncons.1
    rw [List.map_cons, visible_cons, visible_cons]
    by_cases hzero : h.inode = 0
    · have hlive : ¬(rewritten h.inode (blanked h.block) x).live = true := by
        rw [rewritten, if_pos (hx.trans hzero.symm)]
        simp [Header.live, unnamed_blanked]
      rw [if_pos hzero, if_neg fun hc => hlive hc.2]
    · have hne : x.inode ≠ h.inode := fun hc => hzero (hc.symm.trans hx)
      rw [if_neg hzero, rewritten_of_ne hne, scanned_blanked]
      have hread : (d.setBlock h.inode (blanked h.block)).readable x = d.readable x := rfl
      rw [hread]
      split_ifs
      · simp [hne]
      · rfl

section Blank

variable (hremovable : d.Removable headers path h) (hwell : WellFormed d headers)
include hremovable hwell

theorem Removable.wellFormed : WellFormed (d.setBlock h.inode (blanked h.block))
    (headers.map (rewritten h.inode (blanked h.block))) := by
  have hmem := (mem_of_visible hremovable.visible).1
  exact hwell.setBlock hmem (dataBlocks_of_drop (drop_blanked h.block))
    ((check_of_drop (drop_blanked h.block)).trans (hwell.chain.check h hmem))

omit hremovable hwell in
theorem Removable.distinct (hdistinct : Distinct headers) (i : ℕ) (b : UstarBlock) :
    Distinct (headers.map (rewritten i (blanked b))) := by
  unfold Distinct
  rw [filter_blanked]
  exact hdistinct.sublist (List.filter_sublist.map _)

/-- Which files a scan still finds. -/
theorem Removable.mem_visible_iff : x ∈ (d.setBlock h.inode (blanked h.block)).visible
    (headers.map (rewritten h.inode (blanked h.block))) ↔ h.inode ≠ 0 ∧ x ∈ d.visible headers ∧ x ≠ h := by
  have hmem := (mem_of_visible hremovable.visible).1
  rw [visible_blanked hwell hmem]
  by_cases hzero : h.inode = 0
  · rw [if_pos hzero]
    exact iff_of_false List.not_mem_nil fun hc => hc.1 hzero
  · rw [if_neg hzero, List.mem_filter, decide_eq_true_iff]
    refine ⟨fun ⟨hx, hne⟩ => ⟨hzero, hx, fun hc => hne (congrArg Header.inode hc)⟩, fun ⟨_, hx, hne⟩ => ⟨hx, fun hc => hne ?_⟩⟩
    exact hwell.chain.eq_of_inode (mem_of_visible hx).1 hmem hc

theorem Removable.opens_iff (hdistinct : Distinct headers) : (d.setBlock h.inode (blanked h.block)).Opens q v ↔
    h.inode ≠ 0 ∧ ∃ x ∈ d.visible headers, x ≠ h ∧ x.block.name = q ∧ ustarSetVnode x.block x.id q = some v := by
  rw [Partition.opens_iff (hremovable.wellFormed hwell) (Removable.distinct hdistinct h.inode h.block)]
  constructor
  · rintro ⟨x, hx, hv⟩
    obtain ⟨hzero, hx, hne⟩ := (hremovable.mem_visible_iff hwell).mp hx
    exact ⟨hzero, x, hx, hne, hv⟩
  · rintro ⟨hzero, x, hx, hne, hv⟩
    exact ⟨x, (hremovable.mem_visible_iff hwell).mpr ⟨hzero, hx, hne⟩, hv⟩

/-- A remove of a header that is not the first one, or of the only file that can be opened. -/
theorem Removable.removed (hdistinct : Distinct headers) (hfirst : h.inode ≠ 0 ∨
    ∀ x ∈ d.visible headers, x ≠ h → ustarFilenameMaxLength ≤ x.block.name.chars.length) :
    d.Removed (d.setBlock h.inode (blanked h.block)) headers path := by
  obtain ⟨hmem, hlive⟩ := mem_of_visible hremovable.visible
  refine ⟨fun v hv => ?_, fun q v hq hv => ?_, fun x hx hname j hle hlt => setBlock_of_ne ?_ _⟩
  · obtain ⟨-, x, hx, hne, hname, -⟩ := (hremovable.opens_iff hwell hdistinct).mp hv
    obtain ⟨hxmem, hxlive⟩ := mem_of_visible hx
    exact hne (hdistinct.eq hxmem hxlive hmem hlive (hname.trans hremovable.name.symm))
  · obtain ⟨x, hx, rfl, hv⟩ := (Partition.opens_iff hwell hdistinct).mp hv
    have hne : x ≠ h := by
      rintro rfl
      exact hq hremovable.name
    obtain hzero | hlong := hfirst
    · exact (hremovable.opens_iff hwell hdistinct).mpr ⟨hzero, x, hx, hne, rfl, hv⟩
    · exact absurd ((exists_vnode_iff x (mem_of_visible hx).2).mp ⟨v, hv⟩) (Nat.not_lt.mpr (hlong x hx hne))
  · have hne : x ≠ h := by
      rintro rfl
      exact hname hremovable.name
    have hnext : h.next = h.inode + 1 + h.block.dataBlocks := rfl
    have := hwell.chain.apart_of_ne hmem (mem_of_visible hx).1 hne
    omega

/-- Behind a remove of the first header no file can be opened. -/
theorem Removable.first (hdistinct : Distinct headers)
    (hremoved : d.Removed (d.setBlock h.inode (blanked h.block)) headers path) (hzero : h.inode = 0) :
    ∀ x ∈ d.visible headers, x ≠ h → ustarFilenameMaxLength ≤ x.block.name.chars.length := by
  intro x hx hne
  obtain ⟨hmem, hlive⟩ := mem_of_visible hremovable.visible
  obtain ⟨hxmem, hxlive⟩ := mem_of_visible hx
  by_contra hshort
  obtain ⟨v, hv⟩ := (exists_vnode_iff x hxlive).mpr (Nat.lt_of_not_le hshort)
  have hname : x.block.name ≠ path := fun hc =>
    hne (hdistinct.eq hxmem hxlive hmem hlive (hc.trans hremovable.name.symm))
  have hkept := hremoved.kept _ v hname ((Partition.opens_iff hwell hdistinct).mpr ⟨x, hx, rfl, hv⟩)
  exact ((hremovable.opens_iff hwell hdistinct).mp hkept).1 hzero

end Blank

/-- A remove is safe if and only if it does not blank the first header, or no other file could be opened. -/
theorem removeSafe_iff (hwell : WellFormed d headers) (hdistinct : Distinct headers) : RemoveSafe d headers path ↔
    ∀ h, d.Removable headers path h → h.inode ≠ 0 ∨
      ∀ x ∈ d.visible headers, x ≠ h → ustarFilenameMaxLength ≤ x.block.name.chars.length := by
  constructor
  · rintro ⟨n, hsafe⟩ h hremovable
    have hcall := (ustarRemoveFile_ok_iff hwell hdistinct
      (show headers.length + 2 < max n (headers.length + 2) + 1 by omega)).mpr ⟨h, hremovable, rfl⟩
    have hremoved := hsafe (max n (headers.length + 2) + 1) (by omega) _ hcall
    by_cases hzero : h.inode = 0
    · exact .inr (hremovable.first hwell hdistinct hremoved hzero)
    · exact .inl hzero
  · intro hfirst
    refine ⟨headers.length + 2, fun fuel hfuel d' hcall => ?_⟩
    obtain ⟨h, hremovable, rfl⟩ := (ustarRemoveFile_ok_iff hwell hdistinct hfuel).mp hcall
    exact hremovable.removed hwell hdistinct (hfirst h hremovable)

/-! ## Two empty files -/

theorem twoFiles_distinct : Distinct twoHeaders := by decide +kernel

/-- The second file is removed. -/
theorem removeSafe_iff_second : RemoveSafe twoFiles twoHeaders pathB := by
  have hfirst : ∀ h ∈ twoFiles.visible twoHeaders, h.block.name = pathB → h.inode ≠ 0 := by decide +kernel
  exact (removeSafe_iff twoFiles_wellFormed twoFiles_distinct).mpr fun h hremovable =>
    .inl (hfirst h hremovable.visible hremovable.name)

/-- The first file is removed, and with it the second one. -/
theorem first_file_not_safe : WellFormed twoFiles twoHeaders ∧ Distinct twoHeaders ∧
    ¬RemoveSafe twoFiles twoHeaders pathA := by
  have hremovable : twoFiles.Removable twoHeaders pathA ⟨0, headerBlock pathA.chars 0x30⟩ :=
    ⟨by decide +kernel, by decide +kernel, fun hdir => absurd hdir (by decide +kernel), rfl, rfl⟩
  refine ⟨twoFiles_wellFormed, twoFiles_distinct, fun ⟨n, hsafe⟩ => ?_⟩
  have hcall := (ustarRemoveFile_ok_iff twoFiles_wellFormed twoFiles_distinct
    (show twoHeaders.length + 2 < max n (twoHeaders.length + 2) + 1 by omega)).mpr ⟨_, hremovable, rfl⟩
  have hremoved := hsafe (max n (twoHeaders.length + 2) + 1) (by omega) _ hcall
  have hlong := hremovable.first twoFiles_wellFormed twoFiles_distinct hremoved rfl
    ⟨1, headerBlock pathB.chars 0x30⟩ (by decide +kernel) (by decide +kernel)
  exact absurd hlong (by decide +kernel)

end Partition
end UtkKernel.Fs
