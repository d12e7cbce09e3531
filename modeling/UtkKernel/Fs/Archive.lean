import UtkKernel.Fs.Ustar

/-! # Archives

A partition that is well formed is a chain of headers with their data. A scan visits the headers of the chain that
have a name, up to the first one that cannot be read; a search finds the first of these with the name. -/

namespace UtkKernel.Fs
open Foundations
set_option autoImplicit false

/-! ## Chains of headers -/

structure Header where
  inode : ℕ
  block : UstarBlock
  deriving DecidableEq

namespace UstarBlock

/-- The blocks of the data behind a header. -/
def dataBlocks (b : UstarBlock) : ℕ := ((oct2uint b.size (ustarFsizeFieldLength - 1)).toNat + 511) / 512

end UstarBlock

namespace Header

/-- A header without a name is what is left of a file that was removed. -/
def live (h : Header) : Bool := !h.block.unnamed

/-- Is it the header of the file at the path? -/
def has (path : CString) (h : Header) : Bool := decide (h.block.name = path)

theorem has_iff {path : CString} {h : Header} : h.has path = true ↔ h.block.name = path := decide_eq_true_iff

theorem unnamed_of_live {h : Header} (hlive : h.live = true) : h.block.unnamed = false := by
  unfold live at hlive
  simpa using hlive

theorem unnamed_of_not_live {h : Header} (hlive : ¬h.live = true) : h.block.unnamed = true := by
  unfold live at hlive
  simpa using hlive

def id (h : Header) : BitVec 32 := BitVec.ofNat 32 h.inode

/-- Where the next header starts. -/
def next (h : Header) : ℕ := h.inode + 1 + h.block.dataBlocks

end Header

/-- Both readings of a size that ends with a terminator are the same. -/
theorem oct2uint_size {b : UstarBlock} (hsize : b.size.getD 11 0 = 0) :
    oct2uint b.size ustarFsizeFieldLength = oct2uint b.size (ustarFsizeFieldLength - 1) := by
  have hcut : cstr (b.size.take (11 + 1)) = cstr (b.size.take 11) := by
    rw [List.take_add_one]
    rw [List.getD_eq_getElem?_getD] at hsize
    cases hlast : b.size[11]? with
    | none => rw [Option.toList_none, List.append_nil]
    | some c =>
      rw [hlast, Option.getD_some] at hsize
      rw [hsize, Option.toList_some, cstr_append_zero]
  unfold oct2uint ustarFsizeFieldLength
  rw [hcut]

/-- What a scan reads of a header stands behind its name. -/
theorem dataBlocks_of_drop {b b' : UstarBlock} (h : b'.bytes.drop 101 = b.bytes.drop 101) :
    b'.dataBlocks = b.dataBlocks := by
  have hsize : b'.bytes.drop 124 = b.bytes.drop 124 := by
    rw [show 124 = 101 + 23 from rfl, ← List.drop_drop, h, List.drop_drop]
  unfold UstarBlock.dataBlocks UstarBlock.size UstarBlock.field
  rw [hsize]

theorem check_of_drop {b b' : UstarBlock} (h : b'.bytes.drop 101 = b.bytes.drop 101) :
    ustarCheckBlock b' = ustarCheckBlock b := by
  have hmagic : b'.bytes.drop 257 = b.bytes.drop 257 := by
    rw [show 257 = 101 + 156 from rfl, ← List.drop_drop, h, List.drop_drop]
  unfold ustarCheckBlock UstarBlock.magic UstarBlock.field
  rw [hmagic]

theorem unnamed_iff (b : UstarBlock) : b.unnamed = true ↔ b.name.chars = [] := by
  have hcons : b.bytes = b.bytes.headD 0 :: b.bytes.tail := by
    cases hb : b.bytes with
    | nil =>
      have hlength := b.length_eq
      rw [hb] at hlength
      exact absurd hlength (by decide)
    | cons c l => rfl
  have hname : b.name.chars = cstr (b.bytes.take (99 + 1)) := rfl
  rw [hname, cstr_take_succ]
  unfold UstarBlock.unnamed
  rw [decide_eq_true_iff]
  split_ifs with h
  · exact iff_of_true h rfl
  · exact iff_of_false h fun hc => nomatch hc

namespace Partition

/-- From a block on, the partition holds these headers with their data; behind them it ends, or a block of zeros
follows. -/
inductive Chain (d : Partition) : ℕ → List Header → Prop
  | done {start : ℕ} (hlimit : start ≤ d.blocks.length)
      (hend : ∀ b, d.blocks[start]? = some b → b.unnamed = true ∧ ustarCheckBlock b ≠ .osNoErr) : Chain d start []
  | header {h : Header} {rest : List Header} (hblock : d.blocks[h.inode]? = some h.block)
      (hcheck : ustarCheckBlock h.block = .osNoErr) (hrest : Chain d h.next rest) : Chain d h.inode (h :: rest)

/-- The headers of a partition that is well formed; its size in bytes fits in 32 bits. -/
structure WellFormed (d : Partition) (headers : List Header) : Prop where
  chain : Chain d 0 headers
  bound : d.blocks.length < 2 ^ 23

/-- Can the block be read? -/
def readable (d : Partition) (h : Header) : Bool := decide (d.fault .read h.id = .osNoErr)

/-- The headers that a scan visits behind one that it has read. -/
def scanned (d : Partition) (headers : List Header) : List Header := (headers.takeWhile d.readable).filter Header.live

/-- The headers that a scan of the whole partition visits; it ends at once if the first one has no name. -/
def visible (d : Partition) : List Header → List Header
  | [] => []
  | h :: rest => if d.readable h = true ∧ h.live = true then h :: d.scanned rest else []

variable {d d' : Partition} {start i : ℕ} {headers rest : List Header} {h : Header} {b b' : UstarBlock} {path : CString}
  {fuel : ℕ}

/-! ## The chain -/

theorem Chain.le (hchain : Chain d start headers) : start ≤ d.blocks.length := by
  induction hchain with
  | done hlimit => exact hlimit
  | @header h rest hblock hcheck hrest ih =>
    have hnext : h.next = h.inode + 1 + h.block.dataBlocks := rfl
    omega

theorem Chain.start_le (hchain : Chain d start headers) : ∀ h ∈ headers, start ≤ h.inode := by
  induction hchain with
  | done => exact fun h hh => nomatch hh
  | @header h rest hblock hcheck hrest ih =>
    intro h' hmem
    have hnext : h.next = h.inode + 1 + h.block.dataBlocks := rfl
    rcases List.mem_cons.mp hmem with rfl | hmem
    · exact le_rfl
    · have := ih h' hmem
      omega

theorem Chain.block_eq (hchain : Chain d start headers) : ∀ h ∈ headers, d.blocks[h.inode]? = some h.block := by
  induction hchain with
  | done => exact fun h hh => nomatch hh
  | @header h rest hblock hcheck hrest ih =>
    intro h' hmem
    rcases List.mem_cons.mp hmem with rfl | hmem
    · exact hblock
    · exact ih h' hmem

theorem Chain.check (hchain : Chain d start headers) : ∀ h ∈ headers, ustarCheckBlock h.block = .osNoErr := by
  induction hchain with
  | done => exact fun h hh => nomatch hh
  | @header h rest hblock hcheck hrest ih =>
    intro h' hmem
    rcases List.mem_cons.mp hmem with rfl | hmem
    · exact hcheck
    · exact ih h' hmem

theorem Chain.uncons (hchain : Chain d start (h :: rest)) : h.inode = start ∧ d.blocks[h.inode]? = some h.block ∧
    ustarCheckBlock h.block = .osNoErr ∧ Chain d h.next rest := by
  cases hchain with
  | header hblock hcheck hrest => exact ⟨rfl, hblock, hcheck, hrest⟩

theorem Chain.suffix {before : List Header} (hchain : Chain d start (before ++ h :: rest)) : Chain d h.inode (h :: rest) := by
  induction before generalizing start with
  | nil =>
    obtain ⟨hinode, -⟩ := hchain.uncons
    exact hinode ▸ hchain
  | cons b before ih => exact ih hchain.uncons.2.2.2

theorem Chain.blank (hchain : Chain d start []) (hb : d.blocks[start]? = some b) :
    b.unnamed = true ∧ ustarCheckBlock b ≠ .osNoErr := by
  cases hchain with
  | done hlimit hend => exact hend b hb

/-- Each header of the chain stands behind the data of those before it. -/
theorem Chain.apart (hchain : Chain d start headers) : headers.Pairwise fun h h' => h.next ≤ h'.inode := by
  induction hchain with
  | done => exact List.Pairwise.nil
  | @header h rest hblock hcheck hrest ih =>
    exact List.pairwise_cons.mpr ⟨fun h' hmem => hrest.start_le h' hmem, ih⟩

theorem Chain.apart_of_ne (hchain : Chain d start headers) {h' : Header} (hh : h ∈ headers) (hh' : h' ∈ headers)
    (hne : h' ≠ h) : h'.next ≤ h.inode ∨ h.next ≤ h'.inode := by
  obtain ⟨before, rest, rfl⟩ := List.append_of_mem hh
  obtain ⟨-, hapart, hlt⟩ := List.pairwise_append.mp hchain.apart
  rcases List.mem_append.mp hh' with hh' | hh'
  · exact .inl (hlt h' hh' h (List.mem_cons_self ..))
  · have hmem := (List.mem_cons.mp hh').resolve_left hne
    exact .inr ((List.pairwise_cons.mp hapart).1 h' hmem)

theorem Chain.eq_of_inode (hchain : Chain d start headers) {h' : Header} (hh : h ∈ headers) (hh' : h' ∈ headers)
    (heq : h.inode = h'.inode) : h = h' := by
  have hb := hchain.block_eq h hh
  rw [heq, hchain.block_eq h' hh'] at hb
  cases h
  cases h'
  simp only at heq hb
  simp [heq, Option.some.inj hb]

theorem Chain.inode_lt (hchain : Chain d start headers) (hh : h ∈ headers) : h.inode < d.blocks.length :=
  (List.getElem?_eq_some_iff.mp (hchain.block_eq h hh)).1

/-- A chain is one of any partition with the same blocks from its start on. -/
theorem Chain.congr (hchain : Chain d start headers) (hlength : d'.blocks.length = d.blocks.length)
    (hsame : ∀ j, start ≤ j → d'.blocks[j]? = d.blocks[j]?) : Chain d' start headers := by
  induction hchain with
  | done hlimit hend =>
    refine .done (hlimit.trans_eq hlength.symm) fun b hb => hend b ?_
    rw [← hsame _ le_rfl]
    exact hb
  | @header h rest hblock hcheck hrest ih =>
    have hnext : h.next = h.inode + 1 + h.block.dataBlocks := rfl
    refine .header ((hsame _ le_rfl).trans hblock) hcheck (ih fun j hj => hsame j ?_)
    omega

/-! ## Inodes in 32 bits -/

theorem toNat_blockSize : (512#32).toNat = 512 := rfl

theorem blockIndex_ofNat (hi : i < 2 ^ 23) : blockIndex (BitVec.ofNat 32 i) = i := by
  have hinode : (BitVec.ofNat 32 i).toNat = i := by
    rw [BitVec.toNat_ofNat]
    omega
  unfold blockIndex ustarBlockSize
  rw [BitVec.toNat_mul, hinode, toNat_blockSize]
  omega

/-- How far the next header is behind a header, by the size of the data; the sum that it is computed from may wrap. -/
def nextStep (size : ℕ) : ℕ :=
  if size ≤ 2 ^ 32 - 1024 then 1 + (size + 511) / 512 else if size ≤ 2 ^ 32 - 512 then 0 else 1

theorem nextInode_add (b : UstarBlock) (inode : BitVec 32) : nextInode b inode =
    inode + BitVec.ofNat 32 (nextStep (oct2uint b.size (ustarFsizeFieldLength - 1)).toNat) := by
  unfold nextInode
  generalize oct2uint b.size (ustarFsizeFieldLength - 1) = size
  have hs := size.isLt
  have hsum : (size + 512#32).toNat = (size.toNat + 512) % 2 ^ 32 := BitVec.toNat_add ..
  have hmod : (size + 512#32) % 512#32 ≠ 0#32 ↔ size.toNat % 512 ≠ 0 := by
    rw [Ne, ← BitVec.toNat_inj, BitVec.toNat_umod, hsum, toNat_blockSize, BitVec.toNat_zero]
    omega
  dsimp only
  refine congrArg (inode + ·) (BitVec.eq_of_toNat_eq ?_)
  rw [BitVec.toNat_udiv, toNat_blockSize, BitVec.toNat_ofNat, nextStep]
  by_cases hzero : size.toNat % 512 = 0
  · rw [if_neg (mt hmod.mp (not_not_intro hzero)), hsum]
    split_ifs <;> omega
  · rw [if_pos (hmod.mpr hzero), BitVec.toNat_add, hsum, toNat_blockSize]
    split_ifs <;> omega

theorem nextInode_eq (hnext : h.next < 2 ^ 23) : nextInode h.block h.id = BitVec.ofNat 32 h.next := by
  have hs := (oct2uint h.block.size (ustarFsizeFieldLength - 1)).isLt
  unfold Header.next UstarBlock.dataBlocks at hnext ⊢
  rw [nextInode_add, Header.id, nextStep, if_pos (by omega), ← BitVec.ofNat_add, Nat.add_assoc]

/-! ## Scans -/

theorem readBlock_eq (hi : i < 2 ^ 23) (hread : d.fault .read (BitVec.ofNat 32 i) = .osNoErr)
    (hb : d.blocks[i]? = some b) : d.readBlock (BitVec.ofNat 32 i) = .ok b := by
  unfold readBlock
  rw [if_neg (not_not_intro hread), blockIndex_ofNat hi, hb]

theorem readBlock_eq_ok (hi : i < 2 ^ 23) (h : d.readBlock (BitVec.ofNat 32 i) = .ok b) : d.blocks[i]? = some b := by
  unfold readBlock at h
  rw [blockIndex_ofNat hi] at h
  split at h
  · exact nomatch h
  · split at h
    · exact nomatch h
    · rename_i hb
      rw [hb, Except.ok.inj h]

theorem readBlock_faulty {inode : BitVec 32} (hread : d.fault .read inode ≠ .osNoErr) :
    d.readBlock inode = .error (d.fault .read inode) := if_pos hread

theorem unnamed_write_nul (b : UstarBlock) : (b.write 0 [0]).unnamed = true := by
  unfold UstarBlock.write UstarBlock.unnamed
  rw [dif_pos (by decide)]
  rfl

theorem scanned_cons (d : Partition) (h : Header) (rest : List Header) : d.scanned (h :: rest) =
    if d.readable h then if h.live then h :: d.scanned rest else d.scanned rest else [] := by
  unfold scanned
  rw [List.takeWhile_cons]
  split_ifs with hread hlive
  · rw [List.filter_cons_of_pos hlive]
  · rw [List.filter_cons_of_neg hlive]
  · rfl

theorem ustarGetNextFile_succ (hnext : h.next < 2 ^ 23) (hcheck : ustarCheckBlock h.block = .osNoErr) (fuel : ℕ) :
    d.ustarGetNextFile (fuel + 1) h.block h.id =
      match d.readBlock (BitVec.ofNat 32 h.next) with
      | .error _ => some (h.block.write 0 [0], BitVec.ofNat 32 h.next)
      | .ok b =>
        if b.unnamed then d.ustarGetNextFile fuel b (BitVec.ofNat 32 h.next) else some (b, BitVec.ofNat 32 h.next) := by
  rw [← nextInode_eq hnext]
  exact if_neg (not_not_intro hcheck)

theorem visible_cons (d : Partition) (h : Header) (rest : List Header) : d.visible (h :: rest) =
    if d.readable h = true ∧ h.live = true then h :: d.scanned rest else [] := rfl

/-- Behind a header the scan goes on to the next one that it visits, or it ends. -/
theorem ustarGetNextFile_cases (hbound : d.blocks.length < 2 ^ 23) (hcheck : ustarCheckBlock h.block = .osNoErr)
    (hchain : Chain d h.next rest) (hfuel : rest.length + 1 < fuel) :
    (d.scanned rest = [] ∧ ∃ b inode, d.ustarGetNextFile fuel h.block h.id = some (b, inode) ∧ b.unnamed = true) ∨
    ∃ h' rest', d.scanned rest = h' :: d.scanned rest' ∧ d.ustarGetNextFile fuel h.block h.id = some (h'.block, h'.id) ∧
      h'.live = true ∧ Chain d h'.inode (h' :: rest') ∧ rest'.length < rest.length := by
  induction rest generalizing h fuel with
  | nil =>
    obtain ⟨fuel, rfl⟩ := Nat.exists_eq_add_of_lt hfuel
    have hnext : h.next < 2 ^ 23 := hchain.le.trans_lt hbound
    refine .inl ⟨rfl, ?_⟩
    rw [ustarGetNextFile_succ hnext hcheck]
    cases hread : d.readBlock (BitVec.ofNat 32 h.next) with
    | error err => exact ⟨_, _, rfl, unnamed_write_nul _⟩
    | ok b =>
      obtain ⟨hunnamed, hbad⟩ := hchain.blank (readBlock_eq_ok hnext hread)
      change ∃ b' inode, (if b.unnamed then d.ustarGetNextFile (0 + 1 + fuel) b (BitVec.ofNat 32 h.next) else _) = _ ∧ _
      rw [if_pos hunnamed, Nat.add_comm, ustarGetNextFile, if_pos hbad]
      exact ⟨_, _, rfl, unnamed_write_nul _⟩
  | cons h' rest ih =>
    obtain ⟨fuel, rfl⟩ := Nat.exists_eq_succ_of_ne_zero (Nat.ne_of_gt (Nat.zero_lt_of_lt hfuel))
    have hnext : h.next < 2 ^ 23 := hchain.le.trans_lt hbound
    obtain ⟨hinode, hblock, hcheck', hrest⟩ := hchain.uncons
    have hid : BitVec.ofNat 32 h.next = h'.id := congrArg _ hinode.symm
    rw [scanned_cons, ustarGetNextFile_succ hnext hcheck, hid]
    by_cases hread : d.readable h' = true
    · have hlt : h'.inode < 2 ^ 23 := hinode ▸ hnext
      rw [if_pos hread, show d.readBlock h'.id = .ok h'.block from readBlock_eq hlt (of_decide_eq_true hread) hblock]
      dsimp only
      by_cases hlive : h'.live = true
      · rw [if_pos hlive, if_neg (Bool.eq_false_iff.mp (Header.unnamed_of_live hlive))]
        exact .inr ⟨h', rest, rfl, rfl, hlive, .header hblock hcheck' hrest, Nat.lt_succ_self _⟩
      · rw [if_neg hlive, if_pos (Header.unnamed_of_not_live hlive)]
        obtain hend | ⟨h1, rest1, hscan, hget, hlive1, hchain1, hlength⟩ := ih hcheck' hrest (Nat.lt_of_succ_lt_succ hfuel)
        · exact .inl hend
        · exact .inr ⟨h1, rest1, hscan, hget, hlive1, hchain1, Nat.lt_succ_of_lt hlength⟩
    · rw [if_neg hread, readBlock_faulty (mt decide_eq_true hread)]
      exact .inl ⟨rfl, _, _, rfl, unnamed_write_nul _⟩

/-! ## Searches -/

theorem matches_iff (hpath : path.chars.length ≤ ustarFilenameMaxLength) (b : UstarBlock) :
    strncmp ustarFilenameMaxLength path.chars b.bytes = 0 ↔ b.name = path := by
  rw [strncmp_eq_zero_iff, List.take_of_length_le hpath, cstr_of_notMem path.noNul]
  exact ⟨fun h => CString.ext h.symm, fun h => congrArg CString.chars h.symm⟩

/-- From a header on, the search finds the first header that it visits and that has the name. -/
theorem searchFrom_eq (hbound : d.blocks.length < 2 ^ 23) (hpath : path.chars.length ≤ ustarFilenameMaxLength)
    (hchain : Chain d h.inode (h :: rest)) (hlive : h.live = true) (hfuel : rest.length + 2 < fuel) :
    d.searchFrom path fuel h.block h.id =
      some (match (h :: d.scanned rest).find? (Header.has path) with
        | none => .error .osErrFileNotFound
        | some h => .ok (h.block, h.id)) := by
  induction hlength : rest.length using Nat.strong_induction_on generalizing h rest fuel with
  | _ n ih =>
    obtain ⟨fuel, rfl⟩ := Nat.exists_eq_succ_of_ne_zero (Nat.ne_of_gt (Nat.zero_lt_of_lt hfuel))
    obtain ⟨-, hblock, hcheck, hrest⟩ := hchain.uncons
    have hmatch : strncmp ustarFilenameMaxLength path.chars h.block.bytes = 0 ↔ h.block.name = path :=
      matches_iff hpath h.block
    rw [searchFrom, if_neg (Bool.eq_false_iff.mp (Header.unnamed_of_live hlive))]
    by_cases hname : h.block.name = path
    · rw [if_pos (hmatch.mpr hname), if_neg (not_not_intro hcheck), List.find?_cons_of_pos (Header.has_iff.mpr hname)]
    · rw [if_neg (mt hmatch.mp hname), List.find?_cons_of_neg (mt Header.has_iff.mp hname)]
      obtain ⟨hscan, b, inode, hget, hunnamed⟩ | ⟨h', rest', hscan, hget, hlive', hchain', hlt⟩ :=
        ustarGetNextFile_cases hbound hcheck hrest (Nat.lt_of_succ_lt_succ hfuel)
      · rw [hscan, hget, List.find?_nil]
        obtain ⟨fuel, rfl⟩ := Nat.exists_eq_succ_of_ne_zero
          (Nat.ne_of_gt (Nat.zero_lt_of_lt (Nat.lt_of_succ_lt_succ hfuel)))
        change d.searchFrom path (fuel + 1) b inode = _
        rw [searchFrom, if_pos hunnamed]
      · rw [hscan, hget]
        exact ih rest'.length (hlength ▸ hlt) hchain' hlive' (by omega) rfl

theorem length_name (b : UstarBlock) : b.name.chars.length ≤ ustarFilenameMaxLength :=
  (List.takeWhile_sublist _).length_le.trans (List.length_take_le ..)

/-- The first header is in the first block. -/
theorem firstBlock_cases (hwell : WellFormed d headers) :
    ((∃ err, d.firstBlock 0#32 = .error err) ∧ d.visible headers = []) ∨
    ∃ h rest, headers = h :: rest ∧ h.inode = 0 ∧ d.firstBlock 0#32 = .ok h.block ∧
      d.visible headers = if h.live = true then h :: d.scanned rest else [] := by
  have hzero : (0 : ℕ) < 2 ^ 23 := by decide
  cases headers with
  | nil =>
    refine .inl ⟨?_, rfl⟩
    unfold firstBlock
    cases hread : d.readBlock 0#32 with
    | error err => exact ⟨err, rfl⟩
    | ok b =>
      obtain ⟨-, hbad⟩ := hwell.chain.blank (readBlock_eq_ok hzero hread)
      exact ⟨_, if_pos hbad⟩
  | cons h rest =>
    obtain ⟨hinode, hblock, hcheck, -⟩ := hwell.chain.uncons
    have hid : h.id = 0#32 := congrArg _ hinode
    unfold firstBlock visible
    by_cases hread : d.readable h = true
    · have hok : d.readBlock 0#32 = .ok h.block :=
        readBlock_eq hzero (hid ▸ of_decide_eq_true hread) (hinode ▸ hblock)
      refine .inr ⟨h, rest, rfl, hinode, ?_, ?_⟩
      · rw [hok]
        exact if_neg (not_not_intro hcheck)
      · simp [hread]
    · refine .inl ⟨?_, if_neg fun h => hread h.1⟩
      rw [readBlock_faulty (hid ▸ mt decide_eq_true hread)]
      exact ⟨_, rfl⟩

/-- A search of a partition that is well formed finds the first header that it visits and that has the name. -/
theorem ustarSearchFile_eq (hwell : WellFormed d headers) (path : CString) (hfuel : headers.length + 2 < fuel) :
    d.ustarSearchFile fuel path = some (match (d.visible headers).find? (Header.has path) with
        | none => .error (if path.chars.length ≤ ustarFilenameMaxLength then
            match d.firstBlock 0#32 with
            | .error err => err
            | .ok _ => .osErrFileNotFound
          else .osErrFileNotFound)
        | some h => .ok (h.block, h.id)) := by
  unfold ustarSearchFile
  by_cases hpath : path.chars.length ≤ ustarFilenameMaxLength
  · rw [if_neg (Nat.not_lt.mpr hpath), if_pos hpath]
    obtain ⟨⟨err, herr⟩, hvisible⟩ | ⟨h, rest, rfl, hinode, hfirst, hvisible⟩ := firstBlock_cases hwell
    · rw [herr, hvisible]
      rfl
    · rw [hfirst, hvisible]
      dsimp only
      have hid : h.id = 0#32 := congrArg _ hinode
      by_cases hlive : h.live = true
      · rw [if_pos hlive, ← hid]
        exact searchFrom_eq hwell.bound hpath (hinode ▸ hwell.chain) hlive (Nat.lt_of_succ_lt hfuel)
      · obtain ⟨fuel, rfl⟩ := Nat.exists_eq_succ_of_ne_zero (Nat.ne_of_gt (Nat.zero_lt_of_lt hfuel))
        rw [if_neg hlive, searchFrom, if_pos (Header.unnamed_of_not_live hlive)]
        rfl
  · have hnone : (d.visible headers).find? (Header.has path) = none := by
      refine List.find?_eq_none.mpr fun h _ hhas => hpath ?_
      rw [← Header.has_iff.mp hhas]
      exact length_name h.block
    rw [if_pos (Nat.lt_of_not_le hpath), hnone, if_neg hpath]

theorem firstBlock_ne {inode : BitVec 32} {err : OsReturnE} (h : d.firstBlock inode = .error err) :
    err ≠ .osNoErr := by
  unfold firstBlock readBlock at h
  split_ifs at h with hread
  · rw [← Except.error.inj h]
    exact hread
  · cases hb : d.blocks[blockIndex inode]? with
    | none =>
      rw [hb] at h
      rw [← Except.error.inj h]
      decide
    | some b =>
      rw [hb] at h
      dsimp only at h
      split_ifs at h with hcheck
      rw [← Except.error.inj h]
      exact hcheck

/-- A search that finds nothing reports an error. -/
theorem ustarSearchFile_error (hwell : WellFormed d headers) (hfuel : headers.length + 2 < fuel)
    (hnone : (d.visible headers).find? (Header.has path) = none) :
    ∃ err, err ≠ .osNoErr ∧ d.ustarSearchFile fuel path = some (.error err) := by
  rw [ustarSearchFile_eq hwell path hfuel, hnone]
  refine ⟨_, ?_, rfl⟩
  split_ifs
  · cases hfirst : d.firstBlock 0#32 with
    | error err => exact firstBlock_ne hfirst
    | ok b => exact OsReturnE.noConfusion
  · exact OsReturnE.noConfusion

/-! ## Distinct names -/

/-- No two files have the same name. -/
def Distinct (headers : List Header) : Prop := ((headers.filter Header.live).map fun h => h.block.name).Nodup

instance (headers : List Header) : Decidable (Distinct headers) := inferInstanceAs (Decidable (List.Nodup _))

theorem visible_sublist (d : Partition) (headers : List Header) :
    (d.visible headers).Sublist (headers.filter Header.live) := by
  cases headers with
  | nil => exact List.Sublist.refl _
  | cons h rest =>
    rw [visible_cons]
    split_ifs with hh
    · rw [List.filter_cons_of_pos hh.2]
      exact ((List.takeWhile_sublist _).filter _).cons_cons h
    · exact List.nil_sublist _

theorem mem_of_visible (hh : h ∈ d.visible headers) : h ∈ headers ∧ h.live = true :=
  List.mem_filter.mp ((visible_sublist d headers).subset hh)

theorem Distinct.eq {h' : Header} (hdistinct : Distinct headers) (hh : h ∈ headers) (hlive : h.live = true)
    (hh' : h' ∈ headers) (hlive' : h'.live = true) (hname : h.block.name = h'.block.name) : h = h' :=
  List.inj_on_of_nodup_map hdistinct (List.mem_filter.mpr ⟨hh, hlive⟩) (List.mem_filter.mpr ⟨hh', hlive'⟩) hname

/-- Of distinct names a search finds the one it looks for. -/
theorem find_visible (hdistinct : Distinct headers) (hh : h ∈ d.visible headers) (hname : h.block.name = path) :
    (d.visible headers).find? (Header.has path) = some h := by
  cases hfind : (d.visible headers).find? (Header.has path) with
  | none => exact absurd (Header.has_iff.mpr hname) (List.find?_eq_none.mp hfind h hh)
  | some h' =>
    obtain ⟨hmem, hlive⟩ := mem_of_visible hh
    obtain ⟨hmem', hlive'⟩ := mem_of_visible (List.mem_of_find?_eq_some hfind)
    have hname' : h'.block.name = path := Header.has_iff.mp (List.find?_some hfind)
    exact congrArg some (hdistinct.eq hmem' hlive' hmem hlive (hname'.trans hname.symm))

/-- A file that is not visible is not found, where any is visible. -/
theorem ustarSearchFile_none (hwell : WellFormed d headers) (hfuel : headers.length + 2 < fuel)
    (hvisible : d.visible headers ≠ []) (hnone : ∀ h ∈ d.visible headers, h.block.name ≠ path) :
    d.ustarSearchFile fuel path = some (.error .osErrFileNotFound) := by
  have hfind : (d.visible headers).find? (Header.has path) = none :=
    List.find?_eq_none.mpr fun h hh => mt Header.has_iff.mp (hnone h hh)
  rw [ustarSearchFile_eq hwell path hfuel, hfind]
  obtain ⟨-, hempty⟩ | ⟨h, rest, -, -, hfirst, -⟩ := firstBlock_cases hwell
  · exact absurd hempty hvisible
  · rw [hfirst]
    dsimp only
    rw [ite_self]

/-! ## A header is written -/

/-- The header with what is in a block now. -/
def rewritten (i : ℕ) (b : UstarBlock) (h : Header) : Header := if h.inode = i then ⟨i, b⟩ else h

theorem rewritten_self (h : Header) (b : UstarBlock) : rewritten h.inode b h = ⟨h.inode, b⟩ := if_pos rfl

theorem rewritten_of_ne (hne : h.inode ≠ i) (b : UstarBlock) : rewritten i b h = h := if_neg hne

@[simp] theorem rewritten_inode (i : ℕ) (b : UstarBlock) (h : Header) : (rewritten i b h).inode = h.inode := by
  unfold rewritten
  split_ifs with hi
  · exact hi.symm
  · rfl

/-- The partition with a block in the place of another one. -/
def setBlock (d : Partition) (i : ℕ) (b : UstarBlock) : Partition := { d with blocks := d.blocks.set i b }

theorem setBlock_of_ne {j : ℕ} (hne : j ≠ i) (b : UstarBlock) : (d.setBlock i b).blocks[j]? = d.blocks[j]? :=
  List.getElem?_set_ne (Ne.symm hne)

theorem setBlock_self (hi : i < d.blocks.length) (b : UstarBlock) : (d.setBlock i b).blocks[i]? = some b :=
  List.getElem?_set_self hi

theorem length_setBlock (d : Partition) (i : ℕ) (b : UstarBlock) : (d.setBlock i b).blocks.length = d.blocks.length :=
  List.length_set

theorem Chain.setBlock (hchain : Chain d start headers) (hh : h ∈ headers) (hsize : b.dataBlocks = h.block.dataBlocks)
    (hcheck : ustarCheckBlock b = .osNoErr) :
    Chain (d.setBlock h.inode b) start (headers.map (rewritten h.inode b)) := by
  induction hchain with
  | done => exact nomatch hh
  | @header h' rest hblock hcheck' hrest ih =>
    have hlt := (List.getElem?_eq_some_iff.mp hblock).1
    have hnext : h'.next = h'.inode + 1 + h'.block.dataBlocks := rfl
    rcases List.mem_cons.mp hh with rfl | hh
    · have hmap : rest.map (rewritten h.inode b) = rest := by
        refine List.map_congr_left (fun x hx => rewritten_of_ne ?_ b) |>.trans (List.map_id rest)
        have := hrest.start_le x hx
        omega
      have htail : Chain (d.setBlock h.inode b) (Header.next ⟨h.inode, b⟩) rest := by
        have hsame : Header.next ⟨h.inode, b⟩ = h.next := by
          unfold Header.next
          rw [hsize]
        rw [hsame]
        refine hrest.congr (length_setBlock ..) fun j hj => setBlock_of_ne ?_ b
        omega
      rw [List.map_cons, rewritten_self, hmap]
      exact .header (h := ⟨h.inode, b⟩) (setBlock_self hlt b) hcheck htail
    · have hne : h'.inode ≠ h.inode := by
        have := hrest.start_le h hh
        omega
      rw [List.map_cons, rewritten_of_ne hne]
      exact .header ((setBlock_of_ne hne b).trans hblock) hcheck' (ih hh)

theorem WellFormed.setBlock (hwell : WellFormed d headers) (hh : h ∈ headers)
    (hsize : b.dataBlocks = h.block.dataBlocks) (hcheck : ustarCheckBlock b = .osNoErr) :
    WellFormed (d.setBlock h.inode b) (headers.map (rewritten h.inode b)) :=
  ⟨hwell.chain.setBlock hh hsize hcheck, (length_setBlock ..).trans_lt hwell.bound⟩

theorem Chain.unique (hchain : Chain d start headers) {headers' : List Header} (hchain' : Chain d start headers') :
    headers = headers' := by
  induction hchain generalizing headers' with
  | done hlimit hend =>
    cases headers' with
    | nil => rfl
    | cons h' rest' =>
      obtain ⟨rfl, hblock, hcheck, -⟩ := hchain'.uncons
      exact absurd hcheck (hend _ hblock).2
  | @header h rest hblock hcheck hrest ih =>
    cases headers' with
    | nil => exact absurd hcheck (hchain'.blank hblock).2
    | cons h' rest' =>
      obtain ⟨hinode, hblock', -, hrest'⟩ := hchain'.uncons
      have hsame : h = h' := by
        rw [hinode, hblock] at hblock'
        cases h
        cases h'
        simp only at hinode hblock'
        simp [hinode, Option.some.inj hblock']
      rw [← hsame] at hrest' ⊢
      rw [ih hrest']

theorem writeBlock_eq (hlength : h.inode < d.blocks.length) (hbound : d.blocks.length < 2 ^ 23) (b : UstarBlock) :
    d.writeBlock h.id b =
      if d.fault .write h.id ≠ .osNoErr then (d.fault .write h.id, d) else (.osNoErr, d.setBlock h.inode b) := by
  have hindex : blockIndex h.id = h.inode := blockIndex_ofNat (hlength.trans hbound)
  unfold writeBlock
  rw [hindex, if_pos hlength]
  rfl

/-- Headers that stay live are visited in the same order. -/
theorem scanned_map {f : Header → Header} (hinode : ∀ h ∈ headers, (f h).inode = h.inode)
    (hlive : ∀ h ∈ headers, (f h).live = h.live) (hfault : d'.fault = d.fault) :
    d'.scanned (headers.map f) = (d.scanned headers).map f := by
  induction headers with
  | nil => rfl
  | cons h headers ih =>
    have hh : h ∈ h :: headers := List.mem_cons_self ..
    have hread : d'.readable (f h) = d.readable h := by
      unfold readable Header.id
      rw [hfault, hinode h hh]
    rw [List.map_cons, scanned_cons, scanned_cons, hread, hlive h hh,
      ih (fun x hx => hinode x (List.mem_cons_of_mem _ hx)) fun x hx => hlive x (List.mem_cons_of_mem _ hx)]
    split_ifs <;> rfl

theorem visible_map {f : Header → Header} (hinode : ∀ h ∈ headers, (f h).inode = h.inode)
    (hlive : ∀ h ∈ headers, (f h).live = h.live) (hfault : d'.fault = d.fault) :
    d'.visible (headers.map f) = (d.visible headers).map f := by
  cases headers with
  | nil => rfl
  | cons h rest =>
    have hh : h ∈ h :: rest := List.mem_cons_self ..
    have hread : d'.readable (f h) = d.readable h := by
      unfold readable Header.id
      rw [hfault, hinode h hh]
    rw [List.map_cons, visible_cons, visible_cons, hread, hlive h hh,
      scanned_map (fun x hx => hinode x (List.mem_cons_of_mem _ hx)) (fun x hx => hlive x (List.mem_cons_of_mem _ hx)) hfault]
    split_ifs <;> rfl

/-! ## Two empty files -/

/-- A header with digits in its numeric fields. -/
def headerBlock (name : List Byte) (type : Byte) : UstarBlock where
  bytes := strncpy 100 name ++ List.replicate 56 0x30 ++ type :: (List.replicate 100 0 ++ ustarMagic ++ List.replicate 249 0)
  length_eq := by
    simp only [List.length_append, length_strncpy, List.length_replicate, List.length_cons]
    rfl

def pathA : CString := ⟨[0x61, 0x31], by decide⟩
def pathB : CString := ⟨[0x62, 0x31], by decide⟩
def pathC : CString := ⟨[0x63, 0x31], by decide⟩

/-- The files `a1` and `b1`. -/
def twoFiles : Partition := ⟨[headerBlock pathA.chars 0x30, headerBlock pathB.chars 0x30], fun _ _ => .osNoErr⟩

def twoHeaders : List Header := [⟨0, headerBlock pathA.chars 0x30⟩, ⟨1, headerBlock pathB.chars 0x30⟩]

theorem wellFormed_pair (fault : UstarDevOp → BitVec 32 → OsReturnE) (hcheck : ustarCheckBlock b = .osNoErr)
    (hempty : b.dataBlocks = 0) (hcheck' : ustarCheckBlock b' = .osNoErr) (hempty' : b'.dataBlocks = 0) :
    WellFormed ⟨[b, b'], fault⟩ [⟨0, b⟩, ⟨1, b'⟩] := by
  have hnext : Header.next ⟨0, b⟩ = 1 := congrArg _ hempty
  have hnext' : Header.next ⟨1, b'⟩ = 2 := congrArg _ hempty'
  refine ⟨.header (h := ⟨0, b⟩) rfl hcheck ?_, (by decide : 2 < 2 ^ 23)⟩
  rw [hnext]
  refine .header (h := ⟨1, b'⟩) rfl hcheck' ?_
  rw [hnext']
  exact .done le_rfl nofun

theorem twoFiles_wellFormed : WellFormed twoFiles twoHeaders :=
  wellFormed_pair _ (by decide +kernel) (by decide +kernel) (by decide +kernel) (by decide +kernel)

end Partition
end UtkKernel.Fs
