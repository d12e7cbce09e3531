import UtkKernel.Fs.ChainEnds
import UtkKernel.Fs.Octal

/-! # Truncating a file

The header of the file gets the new size. A scan finds the next header behind as many blocks as the header says: if
they are fewer than before, it finds a block of the old data there. -/

namespace UtkKernel.Fs
open Foundations
set_option autoImplicit false

/-! ## The new size in the header -/

/-- The header with another size. -/
def resized (b : UstarBlock) (newSize : BitVec 32) : UstarBlock := b.write 124 (uint2oct newSize ustarFsizeFieldLength)

/-- The mode and the size of the header end with a terminator. -/
structure Header.Terminated (h : Header) : Prop where
  mode : 0 ∈ h.block.mode
  size : h.block.size.getD 11 0 = 0

theorem bytes_resized (b : UstarBlock) (newSize : BitVec 32) :
    (resized b newSize).bytes = b.bytes.take 124 ++ uint2oct newSize 12 ++ b.bytes.drop 136 := by
  have hfits : 124 + (uint2oct newSize 12).length ≤ ustarBlockSize := by
    rw [length_uint2oct (by decide)]
    decide
  unfold resized UstarBlock.write
  rw [show ustarFsizeFieldLength = 12 from rfl, dif_pos hfits]
  change b.bytes.take 124 ++ uint2oct newSize 12 ++ b.bytes.drop (124 + (uint2oct newSize 12).length) = _
  rw [length_uint2oct (by decide)]

theorem take_resized (b : UstarBlock) (newSize : BitVec 32) : (resized b newSize).bytes.take 124 = b.bytes.take 124 := by
  have hlength : (b.bytes.take 124).length = 124 := by
    rw [List.length_take, b.length_eq]
    rfl
  rw [bytes_resized, List.append_assoc, List.take_left' hlength]

theorem drop_resized (b : UstarBlock) (newSize : BitVec 32) : (resized b newSize).bytes.drop 136 = b.bytes.drop 136 := by
  have hlength : (b.bytes.take 124 ++ uint2oct newSize 12).length = 136 := by
    rw [List.length_append, length_uint2oct (by decide), List.length_take, b.length_eq]
    rfl
  rw [bytes_resized, List.drop_left' hlength]

theorem size_resized (b : UstarBlock) (newSize : BitVec 32) : (resized b newSize).size = uint2oct newSize 12 := by
  have hlength : (b.bytes.take 124).length = 124 := by
    rw [List.length_take, b.length_eq]
    rfl
  unfold UstarBlock.size UstarBlock.field
  rw [bytes_resized, List.append_assoc, List.drop_left' hlength, List.take_left' (length_uint2oct (by decide) newSize)]

theorem check_resized (b : UstarBlock) (newSize : BitVec 32) : ustarCheckBlock (resized b newSize) = ustarCheckBlock b := by
  have hmagic : (resized b newSize).bytes.drop 257 = b.bytes.drop 257 := by
    rw [show 257 = 136 + 121 from rfl, ← List.drop_drop, drop_resized, List.drop_drop]
  unfold ustarCheckBlock UstarBlock.magic UstarBlock.field
  rw [hmagic]

theorem type_resized (b : UstarBlock) (newSize : BitVec 32) : (resized b newSize).type = b.type := by
  have htype : ∀ b : UstarBlock, b.type = (b.bytes.drop 136).getD 20 0 := by
    intro b
    rw [UstarBlock.type, List.getD_eq_getElem?_getD, List.getD_eq_getElem?_getD, List.getElem?_drop]
  rw [htype, drop_resized, ← htype]

theorem name_resized (b : UstarBlock) (newSize : BitVec 32) : (resized b newSize).name = b.name := by
  have htake : ∀ b : UstarBlock, b.bytes.take ustarFilenameMaxLength = (b.bytes.take 124).take ustarFilenameMaxLength := by
    intro b
    rw [List.take_take]
    rfl
  unfold UstarBlock.name
  rw [htake, take_resized, ← htake]

theorem unnamed_resized (b : UstarBlock) (newSize : BitVec 32) : (resized b newSize).unnamed = b.unnamed := by
  rw [Bool.eq_iff_iff, unnamed_iff, unnamed_iff, name_resized]

theorem dataBlocks_resized (b : UstarBlock) (newSize : BitVec 32) :
    (resized b newSize).dataBlocks = (newSize.toNat + 511) / 512 := by
  unfold UstarBlock.dataBlocks
  rw [size_resized, show ustarFsizeFieldLength - 1 = 11 from rfl, oct2uint_uint2oct (by decide) newSize (.inl rfl)]

/-- The string that the name starts ends before the size. -/
theorem cstr_resized {h : Header} (hterminated : h.Terminated) (newSize : BitVec 32) :
    cstr (resized h.block newSize).bytes = cstr h.block.bytes := by
  have hnul : 0 ∈ h.block.bytes.take 124 := by
    have hmode := hterminated.mode
    unfold UstarBlock.mode UstarBlock.field at hmode
    have hsub : h.block.bytes.take 124 = h.block.bytes.take 100 ++ (h.block.bytes.drop 100).take 24 := by
      rw [← List.take_add]
    rw [hsub]
    exact List.mem_append_right _ ((List.take_sublist_take_left (by decide)).subset hmode)
  have hnul' : 0 ∈ (resized h.block newSize).bytes.take 124 := take_resized h.block newSize ▸ hnul
  rw [cstr_of_mem_take hnul', cstr_of_mem_take hnul, take_resized]

namespace Partition

variable {d d' : Partition} {headers before rest : List Header} {h x : Header} {b : UstarBlock} {path : CString}
  {fuel i j count more : ℕ} {inode size newSize : BitVec 32} {v : Vnode} {kmalloc kmalloc' : ℕ → Option (List Byte)}
  {bytes : List Byte}

/-! ## Reading from the start -/

theorem length_readBlocks (hread : d.readBlocks count inode = .ok bytes) : bytes.length = 512 * count := by
  induction count generalizing inode bytes with
  | zero => rw [← Except.ok.inj hread, List.length_nil]
  | succ count ih =>
    rw [readBlocks] at hread
    cases hb : d.readBlock inode with
    | error err =>
      rw [hb] at hread
      exact nomatch hread
    | ok b =>
      rw [hb] at hread
      cases htail : d.readBlocks count (inode + 1#32) with
      | error err =>
        rw [htail] at hread
        exact nomatch hread
      | ok tail =>
        rw [htail] at hread
        rw [← Except.ok.inj hread, List.length_append, b.length_eq, ih htail]
        unfold ustarBlockSize
        omega

/-- Of fewer blocks the device reads the first bytes. -/
theorem readBlocks_of_add (hread : d.readBlocks (count + more) inode = .ok bytes) :
    d.readBlocks count inode = .ok (bytes.take (512 * count)) := by
  induction count generalizing inode bytes with
  | zero => rfl
  | succ count ih =>
    rw [Nat.succ_add, readBlocks] at hread
    rw [readBlocks]
    cases hb : d.readBlock inode with
    | error err =>
      rw [hb] at hread
      exact nomatch hread
    | ok b =>
      rw [hb] at hread
      cases htail : d.readBlocks (count + more) (inode + 1#32) with
      | error err =>
        rw [htail] at hread
        exact nomatch hread
      | ok tail =>
        rw [htail] at hread
        dsimp only
        rw [ih htail, ← Except.ok.inj hread, show 512 * (count + 1) = b.bytes.length + 512 * count by
          rw [b.length_eq, ustarBlockSize]; omega, List.take_length_add_append]
        rfl

theorem readBlocks_setBlock (hne : ∀ k < count, blockIndex (inode + BitVec.ofNat 32 k) ≠ i) (b : UstarBlock) :
    (d.setBlock i b).readBlocks count inode = d.readBlocks count inode := by
  induction count generalizing inode with
  | zero => rfl
  | succ count ih =>
    have hhead : blockIndex inode ≠ i := by
      have := hne 0 (Nat.succ_pos count)
      rwa [BitVec.add_zero] at this
    have htail : ∀ k < count, blockIndex (inode + 1#32 + BitVec.ofNat 32 k) ≠ i := by
      intro k hk
      have := hne (k + 1) (Nat.succ_lt_succ hk)
      rwa [Nat.add_comm, BitVec.ofNat_add, ← BitVec.add_assoc] at this
    rw [readBlocks, readBlocks, readBlock_setBlock hhead, ih htail]

theorem blocksToRead_eq {w : BitVec 32} (hw : w.toNat + 511 < 2 ^ 32) :
    (if w % 512#32 ≠ 0#32 then w / 512#32 + 1#32 else w / 512#32).toNat = (w.toNat + 511) / 512 := by
  have hmod : w % 512#32 ≠ 0#32 ↔ w.toNat % 512 ≠ 0 := by
    rw [Ne, ← BitVec.toNat_inj, BitVec.toNat_umod, toNat_blockSize]
    rfl
  have hdiv : (w / 512#32).toNat = w.toNat / 512 := BitVec.toNat_udiv
  by_cases hzero : w.toNat % 512 = 0
  · rw [if_neg (mt hmod.mp (not_not_intro hzero)), hdiv]
    omega
  · rw [if_pos (hmod.mpr hzero), BitVec.toNat_add, hdiv, show (1#32).toNat = 1 from rfl]
    omega

/-- A read from the start of a file gives as many of its first bytes as it has or as are asked for. -/
theorem ustarReadFile_start (hfirst : d.firstBlock v.fsInode = .ok b) (htype : ustarToVfsType b.type = .file)
    (hbound : (oct2uint b.size ustarFsizeFieldLength).toNat + 511 < 2 ^ 32) :
    d.ustarReadFile kmalloc v 0#32 size =
      if min size.toNat (oct2uint b.size ustarFsizeFieldLength).toNat = 0 then some (.ok [])
      else
        let blocksToRead := (min size.toNat (oct2uint b.size ustarFsizeFieldLength).toNat + 511) / 512
        match kmalloc (blocksToRead * 512) with
        | none => some (.error .osErrMalloc)
        | some _ => some ((d.readBlocks blocksToRead (v.fsInode + 1#32)).map
            (List.take (min size.toNat (oct2uint b.size ustarFsizeFieldLength).toNat))) := by
  unfold ustarReadFile
  rw [hfirst]
  dsimp only
  rw [if_neg (not_not_intro htype)]
  generalize oct2uint b.size ustarFsizeFieldLength = fileSize at hbound ⊢
  have hempty : fileSize ≤ 0#32 ∨ size = 0#32 ↔ min size.toNat fileSize.toNat = 0 := by
    rw [BitVec.le_def, ← BitVec.toNat_inj, show (0#32).toNat = 0 from rfl]
    omega
  by_cases hzero : min size.toNat fileSize.toNat = 0
  · rw [if_pos (hempty.mpr hzero), if_pos hzero]
  · rw [if_neg (mt hempty.mp hzero), if_neg hzero]
    obtain ⟨w, hw⟩ : ∃ w, (if fileSize < 0#32 + size then fileSize - 0#32 else size) = w := ⟨_, rfl⟩
    have hlength : w.toNat = min size.toNat fileSize.toNat := by
      rw [← hw, BitVec.zero_add, BitVec.sub_zero]
      split_ifs with hlt
      · rw [BitVec.lt_def] at hlt
        omega
      · rw [BitVec.lt_def] at hlt
        omega
    have hwbound : w.toNat + 511 < 2 ^ 32 := by omega
    have haligned : ¬512#32 < 0#32 % 512#32 + w % 512#32 := by
      have hmod : (0#32 % 512#32 + w % 512#32).toNat = w.toNat % 512 := by
        rw [BitVec.zero_umod, BitVec.zero_add, BitVec.toNat_umod, toNat_blockSize]
      rw [BitVec.lt_def, hmod, toNat_blockSize]
      omega
    have hblocks := blocksToRead_eq hwbound
    have hbytes : ((if w % 512#32 ≠ 0#32 then w / 512#32 + 1#32 else w / 512#32) * 512#32).toNat =
        (w.toNat + 511) / 512 * 512 := by
      rw [BitVec.toNat_mul, hblocks, toNat_blockSize]
      omega
    rw [hw]
    simp only [if_neg haligned, hbytes]
    rw [show ustarBlockSize = 512 from rfl, Nat.mul_div_cancel _ (by decide), BitVec.zero_udiv, BitVec.add_zero,
      BitVec.zero_umod, ← hlength]
    cases kmalloc ((w.toNat + 511) / 512 * 512) with
    | none => rfl
    | some _ =>
      dsimp only
      cases hread : d.readBlocks ((w.toNat + 511) / 512) (v.fsInode + 1#32) with
      | error err => rfl
      | ok bytes =>
        have hfits : (0#32).toNat + w.toNat ≤ bytes.length := by
          rw [length_readBlocks hread, show (0#32).toNat = 0 from rfl]
          omega
        dsimp only
        rw [if_pos hfits]
        rfl

/-! ## The call -/

/-- The file can get the new size: it is a regular file, which is not shorter, and its header can be written. -/
structure Truncatable (d : Partition) (headers : List Header) (path : CString) (newSize : BitVec 32) (h : Header) :
    Prop where
  visible : h ∈ d.visible headers
  name : h.block.name = path
  type : ustarToVfsType h.block.type = .file
  size : newSize ≤ oct2uint h.block.size ustarFsizeFieldLength
  writable : d.fault .write h.id = .osNoErr

/-- A truncation that reports no error has written the new size in the header of the file, and nothing else. -/
theorem ustarTruncateFile_ok_iff (hwell : WellFormed d headers) (hdistinct : Distinct headers)
    (hfuel : headers.length + 2 < fuel) : d.ustarTruncateFile fuel path newSize = some (.osNoErr, d') ↔
      ∃ h, d.Truncatable headers path newSize h ∧ d' = d.setBlock h.inode (resized h.block newSize) := by
  unfold ustarTruncateFile
  cases hfind : (d.visible headers).find? (Header.has path) with
  | none =>
    obtain ⟨err, herr, hsearch⟩ := ustarSearchFile_error hwell hfuel hfind
    rw [hsearch]
    refine iff_of_false (fun hc => herr (Prod.mk.inj (Option.some.inj hc)).1) ?_
    rintro ⟨h, htruncatable, -⟩
    exact List.find?_eq_none.mp hfind h htruncatable.visible (Header.has_iff.mpr htruncatable.name)
  | some h =>
    have hh := List.mem_of_find?_eq_some hfind
    have hname : h.block.name = path := Header.has_iff.mp (List.find?_some hfind)
    have hunique : ∀ h', d.Truncatable headers path newSize h' → h' = h := by
      intro h' htruncatable
      have hfind' := find_visible hdistinct htruncatable.visible htruncatable.name
      rw [hfind] at hfind'
      exact (Option.some.inj hfind').symm
    have htruncates : (d.Truncatable headers path newSize h ∧ d' = d.setBlock h.inode (resized h.block newSize)) ↔
        ∃ h', d.Truncatable headers path newSize h' ∧ d' = d.setBlock h'.inode (resized h'.block newSize) :=
      ⟨fun hc => ⟨h, hc⟩, fun ⟨h', htruncatable, heq⟩ => hunique h' htruncatable ▸ ⟨htruncatable, heq⟩⟩
    rw [← htruncates, ustarSearchFile_eq hwell path hfuel, hfind, Option.map_some, Option.some_inj]
    dsimp only
    by_cases htype : ustarToVfsType h.block.type = .file
    · rw [if_neg (not_not_intro htype)]
      by_cases hsize : newSize ≤ oct2uint h.block.size ustarFsizeFieldLength
      · rw [if_neg (BitVec.not_lt.mpr hsize), writeBlock_eq (hwell.chain.inode_lt (mem_of_visible hh).1) hwell.bound]
        by_cases hfault : d.fault .write h.id = .osNoErr
        · rw [if_neg (not_not_intro hfault), Prod.mk.injEq]
          exact ⟨fun hc => ⟨⟨hh, hname, htype, hsize, hfault⟩, hc.2.symm⟩, fun hc => ⟨rfl, hc.2.symm⟩⟩
        · rw [if_pos hfault]
          exact iff_of_false (fun hc => hfault (Prod.mk.inj hc).1) fun hc => hfault hc.1.writable
      · rw [if_pos (BitVec.not_le.mp hsize)]
        exact iff_of_false (fun hc => nomatch (Prod.mk.inj hc).1) fun hc => hsize hc.1.size
    · rw [if_pos htype]
      exact iff_of_false (fun hc => nomatch (Prod.mk.inj hc).1) fun hc => htype hc.1.type

/-- A read of the file gives the first bytes of what it gave, and each other file that a scan found is found with the
same header and data, and each directory has the same listing. -/
structure Truncated (d d' : Partition) (headers : List Header) (path : CString) (newSize : BitVec 32) : Prop where
  file : ∀ h ∈ d.visible headers, h.block.name = path → ∃ n, ∀ fuel, n < fuel → ∃ b,
    d'.ustarSearchFile fuel path = some (.ok (b, h.id)) ∧ oct2uint b.size ustarFsizeFieldLength = newSize
  read : ∀ h ∈ d.visible headers, h.block.name = path → ∀ v, v.fsInode = h.id → ∀ kmalloc kmalloc' size bytes,
    (∀ n, kmalloc' n ≠ none) → d.ustarReadFile kmalloc v 0#32 size = some (.ok bytes) →
      d'.ustarReadFile kmalloc' v 0#32 size = some (.ok (bytes.take newSize.toNat))
  found : ∀ x ∈ d.visible headers, x.block.name ≠ path → ∃ n, ∀ fuel, n < fuel →
    d'.ustarSearchFile fuel x.block.name = some (.ok (x.block, x.id))
  listed : ∀ x ∈ d.visible headers, ustarToVfsType x.block.type = .dir → ∀ v, v.fsInode = x.id → ∀ kmalloc buffer,
    ∃ n, ∀ fuel, n < fuel → d'.ustarListDirectory kmalloc fuel v buffer = d.ustarListDirectory kmalloc fuel v buffer
  content : ∀ x ∈ d.visible headers, x.block.name ≠ path → ∀ j, x.inode ≤ j → j < x.next →
    d'.blocks[j]? = d.blocks[j]?

/-- Whatever the data of the files is, and whether or not it can be read: where the truncation reports no error, it
affects the file and nothing else. -/
def TruncateSafe (d : Partition) (headers : List Header) (path : CString) (newSize : BitVec 32) : Prop :=
  ∀ d', WellFormed d' headers → (∀ x ∈ headers, ∀ op, d'.fault op x.id = d.fault op x.id) →
    ∃ n, ∀ fuel, n < fuel → ∀ d'', d'.ustarTruncateFile fuel path newSize = some (.osNoErr, d'') →
      d'.Truncated d'' headers path newSize

section Truncate

variable (htruncatable : d.Truncatable headers path newSize h) (hwell : WellFormed d headers)
include htruncatable hwell

theorem Truncatable.inode_lt : h.inode < d.blocks.length :=
  hwell.chain.inode_lt (mem_of_visible htruncatable.visible).1

omit hwell in
/-- The file does not get more blocks. -/
theorem Truncatable.blocks_le (hterminated : h.Terminated) : (newSize.toNat + 511) / 512 ≤ h.block.dataBlocks := by
  have hsize := htruncatable.size
  rw [oct2uint_size hterminated.size, BitVec.le_def] at hsize
  unfold UstarBlock.dataBlocks
  omega

theorem Truncatable.next_le : h.next ≤ d.blocks.length := by
  obtain ⟨before, rest, rfl⟩ := List.append_of_mem (mem_of_visible htruncatable.visible).1
  exact hwell.chain.suffix.uncons.2.2.2.le

theorem Truncatable.read (hterminated : h.Terminated) (hv : v.fsInode = h.id) (hmemory : ∀ n, kmalloc' n ≠ none)
    (hread : d.ustarReadFile kmalloc v 0#32 size = some (.ok bytes)) :
    (d.setBlock h.inode (resized h.block newSize)).ustarReadFile kmalloc' v 0#32 size =
      some (.ok (bytes.take newSize.toNat)) := by
  have hmem := (mem_of_visible htruncatable.visible).1
  have hlt := htruncatable.inode_lt hwell
  have hnext := htruncatable.next_le hwell
  have hnext' : h.next = h.inode + 1 + h.block.dataBlocks := rfl
  have hsize := htruncatable.size
  have hdata : h.block.dataBlocks = ((oct2uint h.block.size ustarFsizeFieldLength).toNat + 511) / 512 := by
    rw [oct2uint_size hterminated.size]
    rfl
  have hbound := hwell.bound
  have hfirst : d.firstBlock v.fsInode = .ok h.block := by
    rw [hv]
    exact firstBlock_eq (hlt.trans hbound) (readable_of_visible htruncatable.visible) (hwell.chain.block_eq h hmem)
      (hwell.chain.check h hmem)
  have hfirst' : (d.setBlock h.inode (resized h.block newSize)).firstBlock v.fsInode =
      .ok (resized h.block newSize) := by
    rw [hv]
    exact firstBlock_eq (hlt.trans hbound) (readable_of_visible htruncatable.visible) (setBlock_self hlt _)
      ((check_resized _ _).trans (hwell.chain.check h hmem))
  have hnew : oct2uint (resized h.block newSize).size ustarFsizeFieldLength = newSize := by
    rw [size_resized]
    exact oct2uint_uint2oct (by decide) newSize (.inr rfl)
  rw [BitVec.le_def] at hsize
  rw [ustarReadFile_start hfirst htruncatable.type (by omega)] at hread
  rw [ustarReadFile_start hfirst' ((congrArg _ (type_resized _ _)).trans htruncatable.type)
    (by rw [hnew]; omega), hnew]
  generalize (oct2uint h.block.size ustarFsizeFieldLength).toNat = fileSize at hread hsize hdata
  by_cases hzero : min size.toNat newSize.toNat = 0
  · rw [if_pos hzero]
    by_cases hnone : newSize.toNat = 0
    · rw [hnone, List.take_zero]
    · rw [if_pos (by omega)] at hread
      rw [← Except.ok.inj (Option.some.inj hread), List.take_nil]
  · rw [if_neg hzero]
    rw [if_neg (by omega)] at hread
    dsimp only at hread ⊢
    obtain ⟨buffer, hbuffer⟩ := Option.ne_none_iff_exists'.mp (hmemory ((min size.toNat newSize.toNat + 511) / 512 * 512))
    rw [hbuffer]
    dsimp only
    split at hread
    · exact nomatch Option.some.inj hread
    · cases hraw : d.readBlocks ((min size.toNat fileSize + 511) / 512) (v.fsInode + 1#32) with
      | error err =>
        rw [hraw] at hread
        exact nomatch Option.some.inj hread
      | ok raw =>
        rw [hraw] at hread
        have hbytes : raw.take (min size.toNat fileSize) = bytes := Except.ok.inj (Option.some.inj hread)
        obtain ⟨more, hmore⟩ : ∃ more, (min size.toNat fileSize + 511) / 512 =
            (min size.toNat newSize.toNat + 511) / 512 + more := Nat.exists_eq_add_of_le (by omega)
        rw [hmore] at hraw
        have hdisjoint : ∀ k < (min size.toNat newSize.toNat + 511) / 512,
            blockIndex (v.fsInode + 1#32 + BitVec.ofNat 32 k) ≠ h.inode := by
          intro k hk
          rw [hv, Header.id, ← BitVec.ofNat_add, ← BitVec.ofNat_add, blockIndex_ofNat (by omega)]
          omega
        rw [readBlocks_setBlock hdisjoint, readBlocks_of_add hraw, ← hbytes]
        change some (Except.ok _) = _
        rw [List.take_take, List.take_take, Nat.min_eq_left (by omega), show min newSize.toNat (min size.toNat fileSize) =
          min size.toNat newSize.toNat by omega]

theorem Truncatable.content (hx : x ∈ d.visible headers) (hname : x.block.name ≠ path)
    (hle : x.inode ≤ j) (hlt : j < x.next) :
    (d.setBlock h.inode (resized h.block newSize)).blocks[j]? = d.blocks[j]? := by
  have hne : x ≠ h := by
    rintro rfl
    exact hname htruncatable.name
  have hnext : h.next = h.inode + 1 + h.block.dataBlocks := rfl
  have := hwell.chain.apart_of_ne (mem_of_visible htruncatable.visible).1 (mem_of_visible hx).1 hne
  exact setBlock_of_ne (by omega) _

/-! ## As many blocks as before -/

section Same

variable (hsame : (newSize.toNat + 511) / 512 = h.block.dataBlocks)
include hsame

theorem Truncatable.wellFormed : WellFormed (d.setBlock h.inode (resized h.block newSize))
    (headers.map (rewritten h.inode (resized h.block newSize))) := by
  have hmem := (mem_of_visible htruncatable.visible).1
  exact hwell.setBlock hmem ((dataBlocks_resized _ _).trans hsame) ((check_resized _ _).trans (hwell.chain.check h hmem))

omit hsame in
theorem Truncatable.rewritten_eq (hx : x ∈ headers) : rewritten h.inode (resized h.block newSize) x =
    if x = h then ⟨h.inode, resized h.block newSize⟩ else x := by
  split_ifs with heq
  · rw [heq, rewritten_self]
  · exact rewritten_of_ne (fun hc => heq (hwell.chain.eq_of_inode hx (mem_of_visible htruncatable.visible).1 hc)) _

omit hsame in
theorem Truncatable.live_rewritten (hx : x ∈ headers) :
    (rewritten h.inode (resized h.block newSize) x).live = x.live := by
  rw [htruncatable.rewritten_eq hwell hx]
  split_ifs with heq
  · rw [heq, Header.live, Header.live, unnamed_resized]
  · rfl

omit hsame in
theorem Truncatable.name_rewritten (hx : x ∈ headers) :
    (rewritten h.inode (resized h.block newSize) x).block.name = x.block.name := by
  rw [htruncatable.rewritten_eq hwell hx]
  split_ifs with heq
  · rw [heq, name_resized]
  · rfl

omit hsame in
theorem Truncatable.visible_eq : (d.setBlock h.inode (resized h.block newSize)).visible
    (headers.map (rewritten h.inode (resized h.block newSize))) =
      (d.visible headers).map (rewritten h.inode (resized h.block newSize)) :=
  visible_map (fun x _ => rewritten_inode _ _ x) (fun _ hx => htruncatable.live_rewritten hwell hx) rfl

/-- The archive with the new size has the same files. -/
theorem Truncatable.search (hdistinct : Distinct headers) (hx : x ∈ d.visible headers)
    (hfuel : headers.length + 2 < fuel) :
    (d.setBlock h.inode (resized h.block newSize)).ustarSearchFile fuel x.block.name =
      some (.ok ((rewritten h.inode (resized h.block newSize) x).block, x.id)) := by
  have hnames : ((headers.map (rewritten h.inode (resized h.block newSize))).filter Header.live).map
      (fun h => h.block.name) = (headers.filter Header.live).map fun h => h.block.name := by
    have hlive : headers.filter (Header.live ∘ rewritten h.inode (resized h.block newSize)) = headers.filter Header.live :=
      List.filter_congr fun x hx => htruncatable.live_rewritten hwell hx
    rw [List.filter_map, List.map_map, hlive]
    exact List.map_congr_left fun x hx => htruncatable.name_rewritten hwell (List.mem_of_mem_filter hx)
  have hdistinct' : Distinct (headers.map (rewritten h.inode (resized h.block newSize))) := by
    unfold Distinct
    rw [hnames]
    exact hdistinct
  have hx' : rewritten h.inode (resized h.block newSize) x ∈ (d.setBlock h.inode (resized h.block newSize)).visible
      (headers.map (rewritten h.inode (resized h.block newSize))) := by
    rw [htruncatable.visible_eq hwell]
    exact List.mem_map_of_mem hx
  rw [ustarSearchFile_eq (htruncatable.wellFormed hwell hsame) x.block.name (by rwa [List.length_map]),
    find_visible hdistinct' hx' (htruncatable.name_rewritten hwell (mem_of_visible hx).1)]
  have hid : (rewritten h.inode (resized h.block newSize) x).id = x.id :=
    congrArg (BitVec.ofNat 32) (rewritten_inode _ _ x)
  rw [← hid]

theorem Truncatable.list (hterminated : h.Terminated) (hx : x ∈ d.visible headers)
    (hdir : ustarToVfsType x.block.type = .dir) (hv : v.fsInode = x.id) (hfuel : headers.length + 2 < fuel)
    (buffer : Option (List Byte)) :
    (d.setBlock h.inode (resized h.block newSize)).ustarListDirectory kmalloc fuel v buffer =
      d.ustarListDirectory kmalloc fuel v buffer := by
  cases buffer with
  | none => rfl
  | some buffer =>
    have hmem := (mem_of_visible hx).1
    have hne : x ≠ h := by
      rintro rfl
      exact nomatch htruncatable.type.symm.trans hdir
    have hfix : rewritten h.inode (resized h.block newSize) x = x := by
      rw [htruncatable.rewritten_eq hwell hmem, if_neg hne]
    obtain ⟨before, rest, rfl⟩ := List.append_of_mem hmem
    have hwell' := htruncatable.wellFormed hwell hsame
    have hx' : x ∈ (d.setBlock h.inode (resized h.block newSize)).visible
        ((before ++ x :: rest).map (rewritten h.inode (resized h.block newSize))) := by
      rw [htruncatable.visible_eq hwell]
      exact List.mem_map.mpr ⟨x, hx, hfix⟩
    rw [List.map_append, List.map_cons, hfix] at hwell' hx'
    have hlength : rest.length + 2 < fuel := by
      rw [List.length_append, List.length_cons] at hfuel
      omega
    have hrest : ∀ y ∈ rest, y ∈ before ++ x :: rest := fun y hy => List.mem_append_right _ (List.mem_cons_of_mem _ hy)
    have hbytes : ∀ y ∈ x :: d.scanned rest,
        cstr (rewritten h.inode (resized h.block newSize) y).block.bytes = cstr y.block.bytes := by
      intro y hy
      have hy : y ∈ before ++ x :: rest := by
        rcases List.mem_cons.mp hy with rfl | hy
        · exact hmem
        · exact hrest y ((List.takeWhile_sublist _).subset (List.mem_filter.mp hy).1)
      rw [htruncatable.rewritten_eq hwell hy]
      split_ifs with heq
      · rw [heq, cstr_resized hterminated]
      · rfl
    have hscan : (d.setBlock h.inode (resized h.block newSize)).scanned
        (rest.map (rewritten h.inode (resized h.block newSize))) =
          (d.scanned rest).map (rewritten h.inode (resized h.block newSize)) :=
      scanned_map (fun y _ => rewritten_inode _ _ y) (fun y hy => htruncatable.live_rewritten hwell (hrest y hy)) rfl
    have hmap : listing kmalloc v ((x :: d.scanned rest).map _) buffer buffer.length 0 = _ :=
      listing_map hbytes buffer buffer.length 0
    rw [List.map_cons, hfix] at hmap
    rw [ustarListDirectory_eq hwell hx hdir hv hlength, ustarListDirectory_eq hwell' hx' hdir hv (by rwa [List.length_map]),
      hscan, hmap]

theorem Truncatable.truncated (hdistinct : Distinct headers) (hterminated : h.Terminated) :
    d.Truncated (d.setBlock h.inode (resized h.block newSize)) headers path newSize := by
  obtain ⟨hmem, hlive⟩ := mem_of_visible htruncatable.visible
  have hself : ∀ x ∈ d.visible headers, x.block.name = path → x = h := by
    intro x hx hname
    exact hdistinct.eq (mem_of_visible hx).1 (mem_of_visible hx).2 hmem hlive (hname.trans htruncatable.name.symm)
  refine ⟨fun x hx hname => ?_, fun x hx hname v hv kmalloc kmalloc' size bytes => ?_,
    fun x hx hname => ⟨headers.length + 2, fun fuel hfuel => ?_⟩,
    fun x hx hdir v hv kmalloc buffer => ⟨headers.length + 2, fun fuel hfuel => ?_⟩, fun x hx hname j => ?_⟩
  · obtain rfl := hself x hx hname
    refine ⟨headers.length + 2, fun fuel hfuel => ?_⟩
    have hsearch := htruncatable.search hwell hsame hdistinct hx hfuel
    rw [rewritten_self, hname] at hsearch
    refine ⟨_, hsearch, ?_⟩
    rw [size_resized]
    exact oct2uint_uint2oct (by decide) newSize (.inr rfl)
  · exact htruncatable.read hwell hterminated (hself x hx hname ▸ hv)
  · have hne : x ≠ h := by
      rintro rfl
      exact hname htruncatable.name
    rw [htruncatable.search hwell hsame hdistinct hx hfuel, htruncatable.rewritten_eq hwell (mem_of_visible hx).1,
      if_neg hne]
  · exact htruncatable.list hwell hsame hterminated hx hdir hv hfuel buffer
  · exact htruncatable.content hwell hx hname

end Same

end Truncate

/-! ## Fewer blocks -/

section Fewer

variable (htruncatable : d.Truncatable (before ++ h :: rest) path newSize h) (hwell : WellFormed d (before ++ h :: rest))
  (hstop : j = h.inode + 1 + (newSize.toNat + 511) / 512) (hlt : j < h.next)
include htruncatable hwell hstop hlt

/-- With zeros behind the data that is left the archive ends there. -/
theorem Truncatable.wellFormed_cut :
    WellFormed ((d.setBlock h.inode (resized h.block newSize)).setBlock j zeroBlock)
      (before ++ [⟨h.inode, resized h.block newSize⟩]) :=
  hwell.cut ((check_resized _ _).trans (hwell.chain.check h (mem_of_visible htruncatable.visible).1))
    (by rw [dataBlocks_resized]; exact hstop) hlt

theorem Truncatable.visible_cut :
    ((d.setBlock h.inode (resized h.block newSize)).setBlock j zeroBlock).visible
      (before ++ [⟨h.inode, resized h.block newSize⟩]) =
        before.filter Header.live ++ [⟨h.inode, resized h.block newSize⟩] := by
  have hlive : Header.live ⟨h.inode, resized h.block newSize⟩ = h.live := by
    rw [Header.live, Header.live, unnamed_resized]
  refine visible_append (htruncatable.wellFormed_cut hwell hstop hlt) ?_
  exact mem_visible_of (h := h) (fun _ _ => rfl) rfl hlive hwell.chain.notMem htruncatable.visible

omit hwell hstop hlt in
theorem Truncatable.distinct_cut (hdistinct : Distinct (before ++ h :: rest)) :
    Distinct (before ++ [⟨h.inode, resized h.block newSize⟩]) := by
  have hlive := (mem_of_visible htruncatable.visible).2
  have hlive' : Header.live ⟨h.inode, resized h.block newSize⟩ = true := by
    rw [Header.live, unnamed_resized]
    exact hlive
  unfold Distinct at hdistinct ⊢
  rw [List.filter_append, List.filter_cons_of_pos hlive, List.map_append, List.map_cons] at hdistinct
  rw [List.filter_append, List.filter_cons_of_pos hlive', List.map_append, List.map_cons, name_resized]
  exact hdistinct.sublist ((List.Sublist.refl _).append ((List.nil_sublist _).cons_cons _))

/-- The files up to this one are found, whatever the data is. -/
theorem Truncatable.search_cut (hdistinct : Distinct (before ++ h :: rest))
    (hx : x ∈ before.filter Header.live ++ [⟨h.inode, resized h.block newSize⟩]) (hfuel : before.length + 3 < fuel) :
    (d.setBlock h.inode (resized h.block newSize)).ustarSearchFile fuel x.block.name = some (.ok (x.block, x.id)) := by
  have hj : j < (d.setBlock h.inode (resized h.block newSize)).blocks.length := by
    rw [length_setBlock]
    exact hlt.trans_le (htruncatable.next_le hwell)
  have hx' := (htruncatable.visible_cut hwell hstop hlt).symm ▸ hx
  have hfuel' : (before ++ [(⟨h.inode, resized h.block newSize⟩ : Header)]).length + 2 < fuel := by
    rw [List.length_append, List.length_singleton]
    omega
  have hsearch := ustarSearchFile_eq (htruncatable.wellFormed_cut hwell hstop hlt) x.block.name hfuel'
  rw [find_visible (htruncatable.distinct_cut hdistinct) hx' rfl] at hsearch
  exact ustarSearchFile_of_zeroBlock hj (by omega) hsearch

/-- Where no file is visible behind this one, and no directory at all. -/
theorem Truncatable.truncated_cut (hdistinct : Distinct (before ++ h :: rest)) (hterminated : h.Terminated)
    (hlast : ∀ x ∈ d.visible (before ++ h :: rest), x.inode ≤ h.inode)
    (hdir : ∀ x ∈ d.visible (before ++ h :: rest), ustarToVfsType x.block.type ≠ .dir) :
    d.Truncated (d.setBlock h.inode (resized h.block newSize)) (before ++ h :: rest) path newSize := by
  obtain ⟨hmem, hlive⟩ := mem_of_visible htruncatable.visible
  have hself : ∀ x ∈ d.visible (before ++ h :: rest), x.block.name = path → x = h := by
    intro x hx hname
    exact hdistinct.eq (mem_of_visible hx).1 (mem_of_visible hx).2 hmem hlive (hname.trans htruncatable.name.symm)
  have hvisible := visible_append hwell htruncatable.visible
  refine ⟨fun x hx hname => ?_, fun x hx hname v hv kmalloc kmalloc' size bytes => ?_,
    fun x hx hname => ⟨before.length + 3, fun fuel hfuel => ?_⟩, fun x hx hc => absurd hc (hdir x hx),
    fun x hx hname j => htruncatable.content hwell hx hname⟩
  · obtain rfl := hself x hx hname
    refine ⟨before.length + 3, fun fuel hfuel => ⟨resized x.block newSize, ?_, ?_⟩⟩
    · have hsearch := htruncatable.search_cut (x := ⟨x.inode, resized x.block newSize⟩) hwell hstop hlt hdistinct
        (List.mem_append_right _ (List.mem_singleton.mpr rfl)) hfuel
      rw [← hname, ← name_resized x.block newSize]
      exact hsearch
    · rw [size_resized]
      exact oct2uint_uint2oct (by decide) newSize (.inr rfl)
  · obtain rfl := hself x hx hname
    exact htruncatable.read hwell hterminated hv
  · refine htruncatable.search_cut hwell hstop hlt hdistinct (List.mem_append_left _ ?_) hfuel
    rw [hvisible] at hx
    refine (List.mem_append.mp hx).resolve_right fun hx' => ?_
    rcases List.mem_cons.mp hx' with rfl | hx'
    · exact hname htruncatable.name
    · have hle := hlast x (hvisible ▸ hx)
      have hstart := hwell.chain.suffix.uncons.2.2.2.start_le x ((List.takeWhile_sublist _).subset (List.mem_filter.mp hx').1)
      have hnext : h.next = h.inode + 1 + h.block.dataBlocks := rfl
      omega

/-- The archive ends at zeros: a file behind this one is lost. -/
theorem Truncatable.lost (hdistinct : Distinct (before ++ h :: rest)) (hx : x ∈ d.visible (before ++ h :: rest))
    (hbehind : h.inode < x.inode) (hfuel : before.length + 3 < fuel) :
    ((d.setBlock j zeroBlock).setBlock h.inode (resized h.block newSize)).ustarSearchFile fuel x.block.name ≠
      some (.ok (x.block, x.id)) := by
  obtain ⟨hmem, hlive⟩ := mem_of_visible htruncatable.visible
  obtain ⟨hxmem, hxlive⟩ := mem_of_visible hx
  have hnone : (((d.setBlock h.inode (resized h.block newSize)).setBlock j zeroBlock).visible
      (before ++ [⟨h.inode, resized h.block newSize⟩])).find? (Header.has x.block.name) = none := by
    rw [htruncatable.visible_cut hwell hstop hlt]
    refine List.find?_eq_none.mpr fun y hy hhas => ?_
    have hname := Header.has_iff.mp hhas
    rcases List.mem_append.mp hy with hy | hy
    · obtain ⟨hymem, hylive⟩ := List.mem_filter.mp hy
      have heq := hdistinct.eq (List.mem_append_left _ hymem) hylive hxmem hxlive hname
      have hapart := (List.pairwise_append.mp hwell.chain.apart).2.2 y hymem h (List.mem_cons_self ..)
      have hnext : y.next = y.inode + 1 + y.block.dataBlocks := rfl
      rw [← heq] at hbehind
      omega
    · rw [List.mem_singleton.mp hy, name_resized] at hname
      have heq := hdistinct.eq hmem hlive hxmem hxlive hname
      exact absurd (heq ▸ hbehind) (lt_irrefl _)
  have hfuel' : (before ++ [(⟨h.inode, resized h.block newSize⟩ : Header)]).length + 2 < fuel := by
    rw [List.length_append, List.length_singleton]
    omega
  obtain ⟨err, -, hsearch⟩ := ustarSearchFile_error (htruncatable.wellFormed_cut hwell hstop hlt) hfuel' hnone
  rw [setBlock_comm (by omega), hsearch]
  exact fun hc => nomatch Option.some.inj hc

/-- Where the data goes on like a name, a directory before the file cannot be listed. -/
theorem Truncatable.spoiled (hread : d.readBlock (BitVec.ofNat 32 j) = .ok letterBlock)
    (hx : x ∈ d.visible (before ++ h :: rest)) (hbefore : x ∈ before) (hdir : ustarToVfsType x.block.type = .dir)
    (hv : v.fsInode = x.id) (hfuel : before.length + 3 < fuel) :
    (d.setBlock h.inode (resized h.block newSize)).ustarListDirectory (fun _ => none) fuel v (some []) =
      some ⟨.osErrWrongPartitionType, [], 0⟩ := by
  have hwell' := htruncatable.wellFormed_cut hwell hstop hlt
  have hvisible := htruncatable.visible_cut hwell hstop hlt
  have hxlive := (mem_of_visible hx).2
  have hapart := (List.pairwise_append.mp hwell.chain.apart).2.2 x hbefore h (List.mem_cons_self ..)
  have hnext : x.next = x.inode + 1 + x.block.dataBlocks := rfl
  have hj : j < (d.setBlock h.inode (resized h.block newSize)).blocks.length := by
    rw [length_setBlock]
    exact hlt.trans_le (htruncatable.next_le hwell)
  have hbound : (d.setBlock h.inode (resized h.block newSize)).blocks.length < 2 ^ 23 := by
    rw [length_setBlock]
    exact hwell.bound
  have hx' : x ∈ ((d.setBlock h.inode (resized h.block newSize)).setBlock j zeroBlock).visible
      (before ++ [⟨h.inode, resized h.block newSize⟩]) := by
    rw [hvisible]
    exact List.mem_append_left _ (List.mem_filter.mpr ⟨hbefore, hxlive⟩)
  have hfirst : (d.setBlock h.inode (resized h.block newSize)).firstBlock x.id = .ok x.block := by
    have hxmem := (mem_of_visible hx).1
    exact firstBlock_eq ((hwell.chain.inode_lt hxmem).trans hwell.bound) (readable_of_visible hx)
      ((setBlock_of_ne (by omega) _).trans (hwell.chain.block_eq x hxmem)) (hwell.chain.check x hxmem)
  have hread' : (d.setBlock h.inode (resized h.block newSize)).readBlock (BitVec.ofNat 32 j) = .ok letterBlock := by
    have hindex : blockIndex (BitVec.ofNat 32 j) = j := blockIndex_ofNat (by rw [length_setBlock] at hj; exact hj.trans hwell.bound)
    rw [readBlock_setBlock (by omega)]
    exact hread
  have hstop' : Header.next ⟨h.inode, resized h.block newSize⟩ = j := by
    rw [Header.next, dataBlocks_resized]
    exact hstop.symm
  obtain ⟨front, back, rfl⟩ := List.append_of_mem hbefore
  rw [List.append_assoc, List.cons_append] at hwell' hvisible hx'
  have hlast := (mem_behind_iff (x := ⟨h.inode, resized h.block newSize⟩) hwell' hx').mpr
    ⟨by rw [hvisible]; exact List.mem_append_right _ (List.mem_singleton.mpr rfl), by simp only; omega⟩
  unfold ustarListDirectory
  rw [hv, hfirst]
  dsimp only
  rw [if_neg (not_not_intro hdir)]
  refine listFrom_letterBlock hbound hj hwell'.chain.suffix hxlive hstop' hlast hread' ?_ [] 0 0
  rw [List.length_append, List.length_singleton]
  rw [List.length_append, List.length_cons] at hfuel
  omega

end Fewer

/-! ## Safe truncations -/

/-- The archive with other data behind a header, which can be read. -/
def withData (d : Partition) (j : ℕ) (b : UstarBlock) : Partition :=
  { d.setBlock j b with
    fault := fun op inode => if op = .read ∧ inode = BitVec.ofNat 32 j then .osNoErr else d.fault op inode }

theorem WellFormed.withData (hwell : WellFormed d headers) (hmem : h ∈ headers) (hle : h.inode < j) (hlt : j < h.next)
    (b : UstarBlock) : WellFormed (d.withData j b) headers :=
  ⟨(hwell.chain.setData hmem hle hlt b).congr rfl fun _ _ => rfl, (length_setBlock ..).trans_lt hwell.bound⟩

/-- No header stands in the data. -/
theorem WellFormed.fault_withData (hwell : WellFormed d headers) (hmem : h ∈ headers) (hle : h.inode < j)
    (hlt : j < h.next) (b : UstarBlock) : ∀ x ∈ headers, ∀ op, (d.withData j b).fault op x.id = d.fault op x.id := by
  intro x hx op
  have hne : x.id ≠ BitVec.ofNat 32 j := by
    intro hid
    have hxlt := (hwell.chain.inode_lt hx).trans hwell.bound
    obtain ⟨before, rest, rfl⟩ := List.append_of_mem hmem
    have hjlt := (hlt.trans_le hwell.chain.suffix.uncons.2.2.2.le).trans hwell.bound
    have hinode := congrArg BitVec.toNat hid
    rw [Header.id, BitVec.toNat_ofNat, BitVec.toNat_ofNat, Nat.mod_eq_of_lt (by omega), Nat.mod_eq_of_lt (by omega)]
      at hinode
    have hnext : x.next = x.inode + 1 + x.block.dataBlocks := rfl
    by_cases heq : x = h
    · rw [heq] at hinode
      omega
    · have := hwell.chain.apart_of_ne hmem hx heq
      omega
  exact if_neg fun hc => hne hc.2

theorem Truncatable.congr (htruncatable : d.Truncatable headers path newSize h)
    (hfault : ∀ x ∈ headers, ∀ op, d'.fault op x.id = d.fault op x.id) : d'.Truncatable headers path newSize h := by
  have hvisible : d'.visible headers = d.visible headers :=
    visible_congr fun x hx => readable_congr (hfault x hx)
  refine ⟨hvisible.symm ▸ htruncatable.visible, htruncatable.name, htruncatable.type, htruncatable.size, ?_⟩
  rw [hfault h (mem_of_visible htruncatable.visible).1]
  exact htruncatable.writable

/-- A truncation is safe if and only if the file keeps the number of its blocks, or nothing that could be found
stands behind it and there is no directory to list. -/
theorem truncateSafe_iff (hwell : WellFormed d headers) (hdistinct : Distinct headers)
    (hterminated : ∀ x ∈ headers, x.Terminated) : TruncateSafe d headers path newSize ↔
      ∀ h, d.Truncatable headers path newSize h → (newSize.toNat + 511) / 512 = h.block.dataBlocks ∨
        (∀ x ∈ d.visible headers, x.inode ≤ h.inode ∧ ustarToVfsType x.block.type ≠ .dir) := by
  constructor
  · intro hsafe h htruncatable
    obtain ⟨hmem, hlive⟩ := mem_of_visible htruncatable.visible
    have hle := htruncatable.blocks_le (hterminated h hmem)
    by_cases hsame : (newSize.toNat + 511) / 512 = h.block.dataBlocks
    · exact .inl hsame
    refine .inr fun x hx => ?_
    obtain ⟨j, hstop⟩ : ∃ j, j = h.inode + 1 + (newSize.toNat + 511) / 512 := ⟨_, rfl⟩
    have hnext : h.next = h.inode + 1 + h.block.dataBlocks := rfl
    have hj : h.inode < j := by omega
    have hlt : j < h.next := by omega
    -- the truncation of the archive with other data in the first block that the file gives up
    have hcall : ∀ b, (d.withData j b).Truncated
        ((d.withData j b).setBlock h.inode (resized h.block newSize)) headers path newSize := by
      intro b
      have hwell' := hwell.withData hmem hj hlt b
      have hfault := hwell.fault_withData hmem hj hlt b
      obtain ⟨n, hn⟩ := hsafe _ hwell' hfault
      refine hn (max n (headers.length + 2) + 1) (by omega) _ ?_
      exact (ustarTruncateFile_ok_iff hwell' hdistinct (by omega)).mpr ⟨h, htruncatable.congr hfault, rfl⟩
    have hvisible : ∀ b, (d.withData j b).visible headers = d.visible headers := fun b =>
      visible_congr fun x hx => readable_congr (hwell.fault_withData hmem hj hlt b x hx)
    have hbehind : x.inode ≤ h.inode := by
      by_contra hbehind
      have hne : x.block.name ≠ path := by
        intro hname
        have heq := hdistinct.eq (mem_of_visible hx).1 (mem_of_visible hx).2 hmem hlive
          (hname.trans htruncatable.name.symm)
        exact hbehind (heq ▸ le_rfl)
      obtain ⟨n, hfound⟩ := (hcall zeroBlock).found x ((hvisible _).symm ▸ hx) hne
      have hwell' := hwell.withData hmem hj hlt zeroBlock
      have htruncatable' := htruncatable.congr (hwell.fault_withData hmem hj hlt zeroBlock)
      obtain ⟨before, rest, rfl⟩ := List.append_of_mem hmem
      refine htruncatable'.lost hwell' hstop hlt hdistinct ((hvisible _).symm ▸ hx) (Nat.lt_of_not_le hbehind)
        (show before.length + 3 < max n (before.length + 3) + 1 by omega) ?_
      have hzero : (d.withData j zeroBlock).setBlock j zeroBlock = d.withData j zeroBlock := by
        unfold withData setBlock
        rw [List.set_set]
      rw [hzero]
      exact hfound _ (by omega)
    refine ⟨hbehind, fun hdir => ?_⟩
    have hne : x ≠ h := by
      rintro rfl
      exact nomatch htruncatable.type.symm.trans hdir
    have hx' := (hvisible letterBlock).symm ▸ hx
    have hwell' := hwell.withData hmem hj hlt letterBlock
    have htruncatable' := htruncatable.congr (hwell.fault_withData hmem hj hlt letterBlock)
    obtain ⟨n, hlisted⟩ := (hcall letterBlock).listed x hx' hdir ⟨.dir, pathA, 0#32, x.id⟩ rfl (fun _ => none) (some [])
    have hread : (d.withData j letterBlock).readBlock (BitVec.ofNat 32 j) = .ok letterBlock := by
      have hjlt := hlt.trans_le (htruncatable.next_le hwell)
      exact readBlock_eq (hjlt.trans hwell.bound) (if_pos ⟨rfl, rfl⟩) (setBlock_self hjlt _)
    have hlist : ∃ l : Listing, l.err = .osNoErr ∧ ∀ fuel, headers.length + 2 < fuel →
        (d.withData j letterBlock).ustarListDirectory (fun _ => none) fuel ⟨.dir, pathA, 0#32, x.id⟩ (some []) = some l := by
      obtain ⟨front, back, rfl⟩ := List.append_of_mem (mem_of_visible hx).1
      refine ⟨⟨.osNoErr, [], 0⟩, rfl, fun fuel hfuel => ?_⟩
      rw [List.length_append, List.length_cons] at hfuel
      rw [ustarListDirectory_eq hwell' hx' hdir rfl (by omega), listing_noMemory]
      rfl
    obtain ⟨l, hl, hlist⟩ := hlist
    obtain ⟨before, rest, rfl⟩ := List.append_of_mem hmem
    have hbefore : x ∈ before := by
      refine (List.mem_append.mp (mem_of_visible hx).1).resolve_right fun hc => ?_
      have hxrest := (List.mem_cons.mp hc).resolve_left hne
      have := hwell.chain.suffix.uncons.2.2.2.start_le x hxrest
      omega
    have hspoiled := htruncatable'.spoiled (v := ⟨.dir, pathA, 0#32, x.id⟩) hwell' hstop hlt hread hx' hbefore hdir rfl
      (show before.length + 3 < max n ((before ++ h :: rest).length + 3) + 1 by rw [List.length_append]; omega)
    rw [hlisted _ (by omega), hlist _ (by omega)] at hspoiled
    rw [Option.some.inj hspoiled] at hl
    exact nomatch hl
  · intro hcondition d' hwell' hfault
    have hvisible : d'.visible headers = d.visible headers :=
      visible_congr fun x hx => readable_congr (hfault x hx)
    refine ⟨headers.length + 2, fun fuel hfuel d'' hcall => ?_⟩
    obtain ⟨h, htruncatable, rfl⟩ := (ustarTruncateFile_ok_iff hwell' hdistinct hfuel).mp hcall
    have hmem := (mem_of_visible htruncatable.visible).1
    have hle := htruncatable.blocks_le (hterminated h hmem)
    by_cases hsame : (newSize.toNat + 511) / 512 = h.block.dataBlocks
    · exact htruncatable.truncated hwell' hsame hdistinct (hterminated h hmem)
    · have hlast := (hcondition h (htruncatable.congr fun x hx op => (hfault x hx op).symm)).resolve_left hsame
      rw [← hvisible] at hlast
      have hnext : h.next = h.inode + 1 + h.block.dataBlocks := rfl
      obtain ⟨before, rest, rfl⟩ := List.append_of_mem hmem
      exact htruncatable.truncated_cut hwell' rfl (by omega) hdistinct (hterminated h hmem)
        (fun x hx => (hlast x hx).1) fun x hx => (hlast x hx).2

/-! ## A file of one block -/

/-- A header of a file with one byte. -/
def longBlock (name : List Byte) : UstarBlock where
  bytes := strncpy 100 name ++ List.replicate 8 0 ++ List.replicate 16 0x30 ++ List.replicate 10 0x30 ++ [0x31, 0] ++
    List.replicate 20 0x30 ++ 0x30 :: (List.replicate 100 0 ++ ustarMagic ++ List.replicate 249 0)
  length_eq := by
    simp only [List.length_append, length_strncpy, List.length_replicate, List.length_cons]
    rfl

/-- The file `a1` with one byte, and `b1` behind it. -/
def longFile : Partition :=
  ⟨[longBlock pathA.chars, zeroBlock, longBlock pathB.chars, zeroBlock], fun _ _ => .osNoErr⟩

def longHeaders : List Header := [⟨0, longBlock pathA.chars⟩, ⟨2, longBlock pathB.chars⟩]

theorem longFile_wellFormed : WellFormed longFile longHeaders := by
  have hnext : Header.next ⟨0, longBlock pathA.chars⟩ = 2 := by decide +kernel
  have hnext' : Header.next ⟨2, longBlock pathB.chars⟩ = 4 := by decide +kernel
  refine ⟨.header (h := ⟨0, longBlock pathA.chars⟩) rfl (by decide +kernel) ?_, by decide⟩
  rw [hnext]
  refine .header (h := ⟨2, longBlock pathB.chars⟩) rfl (by decide +kernel) ?_
  rw [hnext']
  exact .done le_rfl nofun

theorem longHeaders_terminated : ∀ x ∈ longHeaders, x.Terminated := by
  intro x hx
  rcases List.mem_cons.mp hx with rfl | hx
  · exact ⟨by decide +kernel, by decide +kernel⟩
  · rw [List.mem_singleton.mp hx]
    exact ⟨by decide +kernel, by decide +kernel⟩

theorem longHeaders_distinct : Distinct longHeaders := by decide +kernel

/-- The file keeps its byte. -/
theorem truncateSafe_iff_same : TruncateSafe longFile longHeaders pathA 1#32 := by
  have hblocks : ∀ x ∈ longHeaders, x.block.dataBlocks = 1 := by decide +kernel
  refine (truncateSafe_iff longFile_wellFormed longHeaders_distinct longHeaders_terminated).mpr fun h htruncatable =>
    .inl ?_
  rw [hblocks h (mem_of_visible htruncatable.visible).1]
  rfl

/-- The file loses its byte, and the one behind it is lost. -/
theorem emptied_file_not_safe : WellFormed longFile longHeaders ∧ Distinct longHeaders ∧
    (∀ x ∈ longHeaders, x.Terminated) ∧ ∃ d', (∀ fuel, 4 < fuel →
      longFile.ustarTruncateFile fuel pathA 0#32 = some (.osNoErr, d')) ∧
        ¬longFile.Truncated d' longHeaders pathA 0#32 := by
  have htruncatable : longFile.Truncatable ([] ++ ⟨0, longBlock pathA.chars⟩ :: [⟨2, longBlock pathB.chars⟩]) pathA 0#32
      ⟨0, longBlock pathA.chars⟩ :=
    ⟨by decide +kernel, by decide +kernel, by decide +kernel, by decide +kernel, rfl⟩
  refine ⟨longFile_wellFormed, longHeaders_distinct, longHeaders_terminated, _, fun fuel hfuel =>
    (ustarTruncateFile_ok_iff longFile_wellFormed longHeaders_distinct hfuel).mpr ⟨_, htruncatable, rfl⟩,
    fun htruncated => ?_⟩
  obtain ⟨m, hfound⟩ := htruncated.found ⟨2, longBlock pathB.chars⟩ (by decide +kernel) (by decide +kernel)
  have hlost := htruncatable.lost (j := 1) (x := ⟨2, longBlock pathB.chars⟩) longFile_wellFormed (by decide +kernel)
    (by decide +kernel) longHeaders_distinct (by decide +kernel) (by decide +kernel)
    (show ([] : List Header).length + 3 < max m 3 + 1 by rw [List.length_nil]; omega)
  exact hlost (hfound _ (by omega))

end Partition
end UtkKernel.Fs
