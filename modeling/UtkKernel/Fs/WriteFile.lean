import UtkKernel.Fs.ReadFile

/-! # Writing a file

A write changes the first block and the last one of its slice, and writes the blocks between them as they are; the
three parts lie behind one another. What was written is read again as far as the read is right. -/

namespace UtkKernel.Fs
open Foundations
set_option autoImplicit false

/-! ## What is written -/

/-- The partition with bytes at a position of it. -/
def VfsPartition.overwritten (p : VfsPartition) (pos : ℕ) (bytes : List Byte) : VfsPartition :=
  { p with device := { p.device with bytes := overwrite p.device.bytes (p.base + pos) bytes } }

/-- A read of a slice stays in its arrays, and one without an error gives these bytes. -/
def VfsPartition.ReadsBack (p : VfsPartition) (v : Vnode) (cursor size : BitVec 32) (bytes : List Byte) : Prop :=
  ∀ (kmalloc : ℕ → Option (List Byte)) (buffer : List Byte), kmalloc 0 = none → size.toNat ≤ buffer.length →
    p.ustarReadFile kmalloc v cursor size buffer ≠ none ∧
      ∀ (buffer' : List Byte) (actualSize : BitVec 32),
        p.ustarReadFile kmalloc v cursor size buffer = some (.ok (buffer', actualSize)) →
          actualSize.toNat = bytes.length ∧ buffer' = overwrite buffer 0 bytes

/-- On every device that holds the partition, a write stays in its arrays, and one without an error reports the size of
the slice, has changed the slice and nothing else, and is read back. -/
def Partition.WritesFile (d : Partition) (v : Vnode) (h : Header) (cursor size : BitVec 32) : Prop :=
  ∀ (p : VfsPartition) (buffer : List Byte), p.Holds d → size.toNat ≤ buffer.length →
    p.ustarWriteFile v cursor size buffer ≠ none ∧
      ∀ w : Written, p.ustarWriteFile v cursor size buffer = some w → w.err = .osNoErr →
        w.actualSize.map BitVec.toNat = some (h.sliceSize cursor size) ∧
          w.partition = p.overwritten (h.dataStart + cursor.toNat) (slice buffer 0 (h.sliceSize cursor size)) ∧
          w.partition.ReadsBack v cursor size (slice buffer 0 (h.sliceSize cursor size))

variable {d : Partition} {v : Vnode} {h : Header} {p : VfsPartition} {cursor size inode offset write : BitVec 32} {i pos : ℕ}
variable {buffer bytes s t : List Byte}

namespace VfsPartition

theorem overwritten_nil (p : VfsPartition) (pos : ℕ) : p.overwritten pos [] = p := by
  unfold overwritten
  rw [overwrite_nil]

@[simp] theorem overwritten_base (p : VfsPartition) (pos : ℕ) (bytes : List Byte) : (p.overwritten pos bytes).base = p.base :=
  rfl

theorem overwritten_overwritten (hfits : p.base + pos + s.length + t.length ≤ p.device.bytes.length) :
    (p.overwritten pos s).overwritten (pos + s.length) t = p.overwritten pos (s ++ t) := by
  unfold overwritten base at *
  dsimp only
  rw [← Nat.add_assoc, overwrite_overwrite hfits]

/-- The file stays where it is when its data are written. -/
theorem FileAt.overwritten (hfile : p.FileAt v h) (pos : ℕ) (bytes : List Byte) (hlow : h.dataStart ≤ pos)
    (hhigh : pos + bytes.length ≤ 512 * h.next) :
    (p.overwritten pos bytes).FileAt v h := by
  have hinside := hfile.inside
  have hlength : (p.overwritten pos bytes).device.bytes.length = p.device.bytes.length := length_overwrite (by omega)
  unfold Header.dataStart at hlow
  refine ⟨hfile.accepted, hlength ▸ hfile.ids, hfile.inode, ?_, hfile.check, hfile.type, hfile.next, hfile.bound, ?_⟩
  · change slice (overwrite p.device.bytes (p.base + pos) bytes) (p.base + 512 * h.inode) 512 = _
    rw [slice_overwrite_of_le (by omega) (by omega), hfile.header]
  · rw [hlength]
    exact hinside

/-! ## The parts -/

theorem FileAt.writeBlocks_ok (hfile : p.FileAt v h) (hi : i < h.next)
    (hok : (p.writeBlocks (BitVec.ofNat 32 i) bytes).1 = .osNoErr) :
    (p.writeBlocks (BitVec.ofNat 32 i) bytes).2 = p.overwritten (512 * i) bytes := by
  have hpos := hfile.pos_eq hi
  unfold writeBlocks Device.writeBlocks at hok ⊢
  dsimp only at hok ⊢
  split_ifs at hok ⊢ with hfault
  · exact absurd hok hfault
  · rw [hpos]
    rfl

/-- The rest of the block is written as it was. -/
theorem FileAt.editBlock_ok (hfile : p.FileAt v h) (hi : i < h.next) {offset : ℕ} (hblock : offset + bytes.length ≤ 512)
    (hok : (p.editBlock (BitVec.ofNat 32 i) offset bytes).1 = .osNoErr) :
    (p.editBlock (BitVec.ofNat 32 i) offset bytes).2 = p.overwritten (512 * i + offset) bytes := by
  have hinside := hfile.inside
  unfold editBlock at hok ⊢
  obtain ⟨err, hread, herr⟩ | ⟨b, hread, hbytes⟩ := hfile.readBlock_cases hi
  · rw [hread] at hok
    exact absurd hok herr
  · rw [hread] at hok ⊢
    dsimp only at hok ⊢
    have hwrite : (b.write offset bytes).bytes = overwrite b.bytes offset bytes := by
      unfold UstarBlock.write
      rw [dif_pos (show offset + bytes.length ≤ ustarBlockSize from hblock)]
    rw [hfile.writeBlocks_ok hi hok]
    unfold VfsPartition.overwritten
    rw [hwrite, hbytes, overwrite_slice hblock (by omega), Nat.add_assoc]

/-- The end of a slice is written. -/
theorem FileAt.writeLast_ok (hfile : p.FileAt v h) (hhigh : 512 * i + size.toNat ≤ 512 * h.next) (hsize : size.toNat ≤ 512)
    (hbuffer : write.toNat + size.toNat ≤ buffer.length) (hok : (p.writeLast (BitVec.ofNat 32 i) size write buffer).err = .osNoErr) :
    p.writeLast (BitVec.ofNat 32 i) size write buffer =
      ⟨.osNoErr, p.overwritten (512 * i) (slice buffer write.toNat size.toNat), some (write + size)⟩ := by
  unfold writeLast at hok ⊢
  by_cases hzero : size = 0#32
  · have hnil : slice buffer write.toNat (0#32).toNat = [] := List.take_zero
    rw [hzero, if_neg (not_not.mpr rfl), hnil, overwritten_nil, BitVec.add_zero]
  · rw [if_pos hzero] at hok ⊢
    dsimp only at hok ⊢
    have hpos : 0 < size.toNat := Nat.pos_of_ne_zero fun h0 => hzero (BitVec.eq_of_toNat_eq h0)
    have hlength := length_slice hbuffer
    split_ifs at hok ⊢ with hedit
    · exact absurd hok hedit
    · rw [hfile.editBlock_ok (by omega) (by omega) (not_not.mp hedit)]
      rfl

/-- A slice is written from the start of a block on. -/
theorem FileAt.writeFull_ok (hfile : p.FileAt v h) (hlow : h.inode < i) (hhigh : 512 * i + size.toNat ≤ 512 * h.next)
    (hbuffer : write.toNat + size.toNat ≤ buffer.length) (hsum : write.toNat + size.toNat < 2 ^ 32)
    (hok : (p.writeFull (BitVec.ofNat 32 i) size write buffer).err = .osNoErr) :
    p.writeFull (BitVec.ofNat 32 i) size write buffer =
      ⟨.osNoErr, p.overwritten (512 * i) (slice buffer write.toNat size.toNat), some (write + size)⟩ := by
  have hinside := hfile.inside
  unfold writeFull at hok ⊢
  by_cases hlarge : 512#32 < size
  · have hmore : 512 < size.toNat := hlarge
    have hblocks : (size / 512#32 * 512#32).toNat = 512 * (size.toNat / 512) := by
      rw [toNat_blocks_mul, toNat_div_blockSize]
      omega
    have hlength : (slice buffer write.toNat (512 * (size.toNat / 512))).length = 512 * (size.toNat / 512) :=
      length_slice (by omega)
    have hdata : h.dataStart ≤ 512 * i := by
      unfold Header.dataStart
      omega
    rw [if_pos hlarge] at hok ⊢
    dsimp only at hok ⊢
    rw [hblocks] at hok ⊢
    split_ifs at hok ⊢ with hwrite
    · exact absurd hok hwrite
    rw [hfile.writeBlocks_ok (by omega) (not_not.mp hwrite)] at hok ⊢
    have hfile' := hfile.overwritten _ (slice buffer write.toNat (512 * (size.toNat / 512))) hdata (by omega)
    have hinode : BitVec.ofNat 32 i + size / 512#32 = BitVec.ofNat 32 (i + size.toNat / 512) := by
      refine BitVec.eq_of_toNat_eq ?_
      rw [BitVec.toNat_add, toNat_div_blockSize, BitVec.toNat_ofNat, BitVec.toNat_ofNat]
      omega
    have hrest : (size - size / 512#32 * 512#32).toNat = size.toNat % 512 := by
      rw [BitVec.toNat_sub_of_le (by rw [BitVec.le_def, hblocks]; omega), hblocks]
      omega
    have hfront : (write + size / 512#32 * 512#32).toNat = write.toNat + 512 * (size.toNat / 512) := by
      rw [BitVec.toNat_add, hblocks]
      omega
    have hall : write + size / 512#32 * 512#32 + (size - size / 512#32 * 512#32) = write + size := by
      rw [BitVec.add_assoc, BitVec.add_comm _ (size - _), BitVec.sub_add_cancel]
    rw [hinode] at hok ⊢
    rw [hfile'.writeLast_ok (by omega) (by omega) (by omega) hok, hall, hrest, hfront]
    have hpos : 512 * (i + size.toNat / 512) = 512 * i + (slice buffer write.toNat (512 * (size.toNat / 512))).length := by
      rw [hlength]
      omega
    have htail : (slice buffer (write.toNat + 512 * (size.toNat / 512)) (size.toNat % 512)).length = size.toNat % 512 :=
      length_slice (by omega)
    rw [hpos, overwritten_overwritten (by rw [hlength, htail]; omega), slice_append_slice, Nat.div_add_mod]
  · have hless : ¬512 < size.toNat := hlarge
    rw [if_neg hlarge] at hok ⊢
    exact hfile.writeLast_ok hhigh (by omega) hbuffer hok

/-- A slice is written from anywhere in a block on. -/
theorem FileAt.writeSlice_ok (hfile : p.FileAt v h) (hlow : h.inode < i) (hoffset : offset.toNat < 512)
    (hsize : 0 < size.toNat) (hhigh : 512 * i + offset.toNat + size.toNat ≤ 512 * h.next)
    (hbuffer : size.toNat ≤ buffer.length)
    (hok : (p.writeSlice (BitVec.ofNat 32 i) offset size buffer).err = .osNoErr) :
    p.writeSlice (BitVec.ofNat 32 i) offset size buffer =
      ⟨.osNoErr, p.overwritten (512 * i + offset.toNat) (slice buffer 0 size.toNat), some size⟩ := by
  have hinside := hfile.inside
  have hlt := size.isLt
  have hzero : (0#32).toNat = 0 := rfl
  unfold writeSlice at hok ⊢
  by_cases haligned : offset = 0#32
  · subst haligned
    rw [if_neg (not_not.mpr rfl)] at hok ⊢
    rw [hfile.writeFull_ok hlow (by omega) (by omega) (by omega) hok, BitVec.zero_add]
    rfl
  · have hpos : 0 < offset.toNat := Nat.pos_of_ne_zero fun h0 => haligned (BitVec.eq_of_toNat_eq h0)
    have hroom : (512#32 - offset).toNat = 512 - offset.toNat := BitVec.toNat_sub_of_le (by
      rw [BitVec.le_def]
      exact hoffset.le)
    rw [if_pos haligned] at hok ⊢
    dsimp only at hok ⊢
    -- as much as there is in the first block
    obtain ⟨write, hwrite, hwriteNat⟩ : ∃ write, (if 512#32 - offset < size then 512#32 - offset else size) = write ∧
        write.toNat = min (512 - offset.toNat) size.toNat := by
      refine ⟨_, rfl, ?_⟩
      split_ifs with hmore
      · rw [BitVec.lt_def, hroom] at hmore
        omega
      · rw [BitVec.lt_def, hroom] at hmore
        omega
    rw [hwrite] at hok ⊢
    have hlength : (slice buffer 0 write.toNat).length = write.toNat := length_slice (by omega)
    split_ifs at hok ⊢ with hedit
    · exact absurd hok hedit
    rw [hfile.editBlock_ok (by omega) (by omega) (not_not.mp hedit)] at hok ⊢
    have hdata : h.dataStart ≤ 512 * i + offset.toNat := by
      unfold Header.dataStart
      omega
    have hfile' := hfile.overwritten _ (slice buffer 0 write.toNat) hdata (by omega)
    have hinode : BitVec.ofNat 32 i + 1#32 = BitVec.ofNat 32 (i + 1) := (BitVec.ofNat_add ..).symm
    have hrest : (size - write).toNat = size.toNat - write.toNat := BitVec.toNat_sub_of_le (by
      rw [BitVec.le_def]
      omega)
    rw [hinode] at hok ⊢
    rw [hfile'.writeFull_ok (by omega) (by omega) (by omega) (by omega) hok, BitVec.add_comm write, BitVec.sub_add_cancel, hrest]
    rcases Nat.eq_zero_or_pos (size.toNat - write.toNat) with hnone | hsome
    · have hall : write.toNat = size.toNat := by omega
      have hnil : slice buffer write.toNat 0 = [] := List.take_zero
      rw [hnone, hnil, overwritten_nil, hall]
    · have hplace : 512 * (i + 1) = 512 * i + offset.toNat + (slice buffer 0 write.toNat).length := by omega
      have htail : (slice buffer write.toNat (size.toNat - write.toNat)).length = size.toNat - write.toNat :=
        length_slice (by omega)
      have hslices : slice buffer 0 write.toNat ++ slice buffer write.toNat (size.toNat - write.toNat) =
          slice buffer 0 size.toNat := by
        have happend := slice_append_slice buffer 0 write.toNat (size.toNat - write.toNat)
        rw [Nat.zero_add, Nat.add_sub_cancel' (by omega)] at happend
        exact happend
      rw [hplace, overwritten_overwritten (by omega), hslices]

/-! ## Devices without errors -/

section
variable (hroomy : p.Roomy)
include hroomy

theorem Roomy.writeBlocks_ok (inode : BitVec 32) (hlength : bytes.length ≤ 2 ^ 32) :
    (p.writeBlocks inode bytes).1 = .osNoErr ∧ (p.writeBlocks inode bytes).2.Roomy := by
  have hinside := hroomy.inside inode hlength
  unfold writeBlocks Device.writeBlocks
  rw [if_neg (not_not.mpr (hroomy.fault ..)), if_pos hinside]
  refine ⟨rfl, hroomy.fault, hroomy.blockSize, hroomy.firstBlock, ?_⟩
  exact hroomy.large.trans_eq (length_overwrite hinside).symm

theorem Roomy.editBlock_ok (inode : BitVec 32) (offset : ℕ) (bytes : List Byte) :
    (p.editBlock inode offset bytes).1 = .osNoErr ∧ (p.editBlock inode offset bytes).2.Roomy := by
  obtain ⟨b, hread⟩ := hroomy.readBlock_ok inode
  have hlength : (b.write offset bytes).bytes.length = 512 := (b.write offset bytes).length_eq
  unfold editBlock
  rw [hread]
  exact hroomy.writeBlocks_ok inode (by omega)

theorem Roomy.writeLast_ok (inode size write : BitVec 32) (buffer : List Byte) :
    (p.writeLast inode size write buffer).err = .osNoErr ∧
      (p.writeLast inode size write buffer).actualSize = some (write + size) := by
  unfold writeLast
  by_cases hzero : size = 0#32
  · rw [hzero, if_neg (not_not.mpr rfl), BitVec.add_zero]
    exact ⟨rfl, rfl⟩
  · rw [if_pos hzero, if_neg (not_not.mpr (hroomy.editBlock_ok ..).1)]
    exact ⟨rfl, rfl⟩

theorem Roomy.writeFull_ok (inode size write : BitVec 32) (buffer : List Byte) :
    (p.writeFull inode size write buffer).err = .osNoErr ∧
      (p.writeFull inode size write buffer).actualSize = some (write + size) := by
  have hlength : (slice buffer write.toNat (size / 512#32 * 512#32).toNat).length ≤ 2 ^ 32 :=
    (List.length_take_le ..).trans (BitVec.isLt _).le
  obtain ⟨hok, hroomy'⟩ := hroomy.writeBlocks_ok inode hlength
  have hall : write + size / 512#32 * 512#32 + (size - size / 512#32 * 512#32) = write + size := by
    rw [BitVec.add_assoc, BitVec.add_comm _ (size - _), BitVec.sub_add_cancel]
  unfold writeFull
  by_cases hlarge : 512#32 < size
  · rw [if_pos hlarge]
    dsimp only
    rw [if_neg (not_not.mpr hok)]
    obtain ⟨herr, hactual⟩ := hroomy'.writeLast_ok (inode + size / 512#32) (size - size / 512#32 * 512#32)
      (write + size / 512#32 * 512#32) buffer
    exact ⟨herr, hactual.trans (congrArg some hall)⟩
  · rw [if_neg hlarge]
    exact hroomy.writeLast_ok ..

/-- A slice is written, and its size is reported, wherever it lies. -/
theorem Roomy.writeSlice_ok (inode offset size : BitVec 32) (buffer : List Byte) :
    (p.writeSlice inode offset size buffer).err = .osNoErr ∧ (p.writeSlice inode offset size buffer).actualSize = some size := by
  unfold writeSlice
  by_cases haligned : offset ≠ 0#32
  · rw [if_pos haligned]
    dsimp only
    generalize (if 512#32 - offset < size then 512#32 - offset else size) = write
    obtain ⟨hok, hroomy'⟩ := hroomy.editBlock_ok inode offset.toNat (slice buffer 0 write.toNat)
    rw [if_neg (not_not.mpr hok)]
    obtain ⟨herr, hactual⟩ := hroomy'.writeFull_ok (inode + 1#32) (size - write) write buffer
    refine ⟨herr, hactual.trans ?_⟩
    rw [BitVec.add_comm, BitVec.sub_add_cancel]
  · rw [if_neg haligned]
    obtain ⟨herr, hactual⟩ := hroomy.writeFull_ok inode size 0#32 buffer
    exact ⟨herr, hactual.trans (congrArg some (BitVec.zero_add _))⟩

end

/-! ## The checks -/

section
variable (hheader : p.readHeader v.fsInode = .ok h.block) (hfile : p.FileAt v h)
include hheader hfile

theorem ustarWriteFile_nothing (hnothing : size = 0#32 ∨ h.fileSize ≤ cursor.toNat) :
    p.ustarWriteFile v cursor size buffer = some ⟨.osNoErr, p, some 0#32⟩ := by
  have hle : oct2uint h.block.size ustarFsizeFieldLength ≤ cursor ∨ size = 0#32 := hnothing.symm
  unfold ustarWriteFile
  rw [hheader]
  dsimp only
  rw [if_neg (not_not.mpr hfile.type), if_pos hle]

theorem ustarWriteFile_slice (hcursor : cursor.toNat < h.fileSize) (hsize : size ≠ 0#32)
    (hbuffer : (readSize h cursor size).toNat ≤ buffer.length) : p.ustarWriteFile v cursor size buffer =
      some (p.writeSlice (v.fsInode + 1#32 + cursor / 512#32) (cursor % 512#32) (readSize h cursor size) buffer) := by
  have hmore : ¬(oct2uint h.block.size ustarFsizeFieldLength ≤ cursor ∨ size = 0#32) :=
    not_or.mpr ⟨not_le.mpr hcursor, hsize⟩
  unfold readSize at *
  unfold ustarWriteFile
  rw [hheader]
  dsimp only
  rw [if_neg (not_not.mpr hfile.type), if_neg hmore, if_neg (not_lt.mpr hbuffer)]

end

end VfsPartition

theorem readSize_le (size : BitVec 32) (hcursor : cursor.toNat < h.fileSize) : (readSize h cursor size).toNat ≤ size.toNat := by
  rw [readSize, toNat_clampedSize hcursor]
  split_ifs
  · exact Nat.min_le_left ..
  · exact le_rfl

/-! ## Reading what was written -/

/-- There is nothing to write; or the sum of the cursor and the size does not wrap, and the slice can be read. -/
def WriteFits (h : Header) (cursor size : BitVec 32) : Prop :=
  size = 0#32 ∨ h.fileSize ≤ cursor.toNat ∨
    cursor.toNat + size.toNat < 2 ^ 32 ∧ (h.sliceSize cursor size % 512 ≠ 0 ∨ cursor.toNat % 512 = 0)

theorem WriteFits.readFits (hfits : WriteFits h cursor size) : ReadFits h cursor size := by
  rcases hfits with hsize | hcursor | hslice
  · exact .inl hsize
  · exact .inr (.inl hcursor)
  · exact .inr (.inr (.inl hslice))

/-- On a device with the file, a read that fits gives the bytes that are there. -/
theorem VfsPartition.FileAt.readsBack (hfile : p.FileAt v h) (hfits : ReadFits h cursor size)
    (hbytes : slice p.device.bytes (p.base + (h.dataStart + cursor.toNat)) (h.sliceSize cursor size) = bytes)
    (hlength : bytes.length = h.sliceSize cursor size) : p.ReadsBack v cursor size bytes := by
  intro kmalloc buffer hzero hbuffer
  obtain ⟨err, hcall⟩ | ⟨actualSize, hcall, hactual⟩ := hfile.read_right hfits hzero hbuffer
  · rw [hcall]
    exact ⟨Option.some_ne_none _, fun _ _ hok => nomatch Option.some.inj hok⟩
  · rw [hcall, hbytes]
    refine ⟨Option.some_ne_none _, fun buffer' actualSize' hok => ?_⟩
    obtain ⟨rfl, rfl⟩ := Prod.mk.inj (Except.ok.inj (Option.some.inj hok))
    exact ⟨hactual.trans hlength.symm, rfl⟩

theorem writesFile_of_fits (hfile : d.HasFile v h) (hfits : WriteFits h cursor size) : d.WritesFile v h cursor size := by
  intro p buffer hholds hbuffer
  have hat := hholds.fileAt hfile
  obtain ⟨err, hheader, herr⟩ | hheader := hat.readHeader_cases
  · have hcall : p.ustarWriteFile v cursor size buffer = some ⟨err, p, none⟩ := by
      unfold VfsPartition.ustarWriteFile
      rw [hheader]
    rw [hcall]
    refine ⟨Option.some_ne_none _, fun w hw hok => ?_⟩
    obtain rfl := Option.some.inj hw
    exact absurd hok herr
  by_cases hnothing : size = 0#32 ∨ h.fileSize ≤ cursor.toNat
  · have hslice := sliceSize_eq_zero hnothing
    have hnil : slice buffer 0 0 = [] := List.take_zero
    rw [VfsPartition.ustarWriteFile_nothing hheader hat hnothing]
    refine ⟨Option.some_ne_none _, fun w hw _ => ?_⟩
    obtain rfl := Option.some.inj hw
    rw [hslice, hnil, VfsPartition.overwritten_nil]
    refine ⟨rfl, rfl, hat.readsBack hfits.readFits ?_ hslice.symm⟩
    rw [hslice]
    exact List.take_zero
  obtain ⟨hsize, hcursor⟩ := not_or.mp hnothing
  have hcursor := not_le.mp hcursor
  obtain ⟨hwrap, hresidue⟩ := hfits.resolve_left hsize |>.resolve_left (not_le.mpr hcursor)
  have hclamped : (readSize h cursor size).toNat = h.sliceSize cursor size := by
    rw [readSize, toNat_clampedSize hcursor, if_pos hwrap]
    rfl
  have hle := (readSize_le size hcursor).trans hbuffer
  have hsome : 0 < h.sliceSize cursor size := by
    have hpos : 0 < size.toNat := Nat.pos_of_ne_zero fun h0 => hsize (BitVec.eq_of_toNat_eq h0)
    unfold Header.sliceSize
    omega
  have hend : cursor.toNat + h.sliceSize cursor size ≤ h.fileSize := by
    unfold Header.sliceSize
    omega
  have hnext := hat.next
  have hinside := hat.inside
  have hoffset := toNat_mod_blockSize cursor
  rw [VfsPartition.ustarWriteFile_slice hheader hat hcursor hsize hle, hat.cursor_inode]
  refine ⟨Option.some_ne_none _, fun w hw hok => ?_⟩
  obtain rfl := Option.some.inj hw
  have hplace : 512 * (h.inode + 1 + cursor.toNat / 512) + cursor.toNat % 512 = h.dataStart + cursor.toNat := by
    unfold Header.dataStart
    omega
  have hin : h.dataStart + cursor.toNat + h.sliceSize cursor size ≤ 512 * h.next := by
    unfold Header.dataStart
    omega
  have hlength : (slice buffer 0 (h.sliceSize cursor size)).length = h.sliceSize cursor size := length_slice (by omega)
  rw [hat.writeSlice_ok (by omega) (by omega) (by omega) (by omega) hle hok, hclamped, hoffset, hplace]
  refine ⟨congrArg some hclamped, rfl, ?_⟩
  have hat' := hat.overwritten (h.dataStart + cursor.toNat) (slice buffer 0 (h.sliceSize cursor size))
    (Nat.le_add_right ..) (by omega)
  refine hat'.readsBack hfits.readFits ?_ hlength
  have hself : slice (overwrite p.device.bytes (p.base + (h.dataStart + cursor.toNat)) (slice buffer 0 (h.sliceSize cursor size)))
      (p.base + (h.dataStart + cursor.toNat)) (slice buffer 0 (h.sliceSize cursor size)).length =
      slice buffer 0 (h.sliceSize cursor size) := slice_overwrite_self (by omega)
  rw [hlength] at hself
  exact hself

/-! ## Writes that are wrong -/

theorem VfsPartition.Roomy.overwritten (hroomy : p.Roomy) (pos : ℕ) (bytes : List Byte)
    (hfits : p.base + pos + bytes.length ≤ p.device.bytes.length) :
    (p.overwritten pos bytes).Roomy :=
  ⟨hroomy.fault, hroomy.blockSize, hroomy.firstBlock, hroomy.large.trans_eq (length_overwrite hfits).symm⟩

theorem fits_of_writesFile (hfile : d.HasFile v h) (hwrites : d.WritesFile v h cursor size) : WriteFits h cursor size := by
  by_contra hnot
  have hread := hnot
  unfold WriteFits at hnot
  push Not at hnot
  obtain ⟨hsize, hcursor, hnoWrap⟩ := hnot
  have hholds := largeDevice_holds hfile.bound
  have hat := hholds.fileAt hfile
  have hroomy := largeDevice_roomy d
  have hbuffer : size.toNat ≤ (List.replicate size.toNat (0 : Byte)).length := (List.length_replicate ..).ge
  have hcall := VfsPartition.ustarWriteFile_slice (hroomy.readHeader_ok hat) hat hcursor hsize
    ((readSize_le size hcursor).trans hbuffer)
  obtain ⟨hok, hreported⟩ := hroomy.writeSlice_ok (v.fsInode + 1#32 + cursor / 512#32) (cursor % 512#32)
    (readSize h cursor size) (List.replicate size.toNat 0)
  obtain ⟨hactual, hpartition, hback⟩ := (hwrites _ _ hholds hbuffer).2 _ hcall hok
  rw [hreported] at hactual
  have hactual := Option.some.inj hactual
  rcases lt_or_ge (cursor.toNat + size.toNat) (2 ^ 32) with hlt | hge
  · have hnext := hat.next
    have hinside := hat.inside
    have hend : cursor.toNat + h.sliceSize cursor size ≤ h.fileSize := by
      unfold Header.sliceSize
      omega
    have hslice : h.sliceSize cursor size ≤ size.toNat := Nat.min_le_left ..
    have hlength : (slice (List.replicate size.toNat (0 : Byte)) 0 (h.sliceSize cursor size)).length =
        h.sliceSize cursor size := length_slice (by omega)
    have hin : h.dataStart + cursor.toNat + h.sliceSize cursor size ≤ 512 * h.next := by
      unfold Header.dataStart
      omega
    have hat' := hat.overwritten (h.dataStart + cursor.toNat)
      (slice (List.replicate size.toNat 0) 0 (h.sliceSize cursor size)) (Nat.le_add_right ..) (by omega)
    have hroomy' := hroomy.overwritten (h.dataStart + cursor.toNat)
      (slice (List.replicate size.toNat 0) 0 (h.sliceSize cursor size)) (by omega)
    have hnotRead : ¬ReadFits h cursor size := by
      rintro (hnone | hle | hslice | ⟨hge, -⟩)
      · exact hsize hnone
      · omega
      · exact hread (.inr (.inr hslice))
      · omega
    rw [hpartition] at hback
    obtain ⟨hdefined, hright⟩ := hback someMemory _ rfl hbuffer
    obtain hnone | ⟨buffer', actualSize, hread, hwrong⟩ := hat'.read_wrong hroomy' hnotRead
    · exact hdefined hnone
    · exact hwrong ((hright _ _ hread).1.trans hlength)
  · rw [(readRoom_of_wrap hcursor hge).1, Header.sliceSize] at hactual
    have hfileSize := (oct2uint h.block.size ustarFsizeFieldLength).isLt
    change h.fileSize < _ at hfileSize
    omega

/-- A write changes its slice, and is read back, exactly when it fits. -/
theorem writesFile_iff (d : Partition) (v : Vnode) (h : Header) (cursor size : BitVec 32) (hfile : d.HasFile v h) :
    d.WritesFile v h cursor size ↔ WriteFits h cursor size :=
  ⟨fits_of_writesFile hfile, writesFile_of_fits hfile⟩

/-- Bytes on both sides of the start of a block are written. -/
theorem writesFile_across : longFile.WritesFile longNode longHeader 500#32 100#32 :=
  (writesFile_iff longFile longNode longHeader 500#32 100#32 longFile_hasFile).mpr (by
    have hsize : longHeader.fileSize = 1024 := by decide +kernel
    refine .inr (.inr ⟨by decide, .inl ?_⟩)
    rw [Header.sliceSize, hsize]
    decide)

/-- A block of bytes that is written from the second byte on is not read back. -/
theorem writesFile_unaligned : ¬longFile.WritesFile longNode longHeader 1#32 512#32 := by
  intro hwrites
  have hsize : longHeader.fileSize = 1024 := by decide +kernel
  have hfits := fits_of_writesFile longFile_hasFile hwrites
  unfold WriteFits Header.sliceSize at hfits
  rw [hsize] at hfits
  revert hfits
  decide

end UtkKernel.Fs
