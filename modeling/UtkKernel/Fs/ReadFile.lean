import UtkKernel.Fs.Device

/-! # Reading a file

A read allocates the blocks that the slice of the file lies in. Their number is one too small when the size is a
multiple of 512 and the cursor is not. -/

namespace UtkKernel.Fs
open Foundations
set_option autoImplicit false

/-! ## Files -/

/-- The size of a file. -/
def Header.fileSize (h : Header) : ℕ := (oct2uint h.block.size ustarFsizeFieldLength).toNat

/-- The part of a file that a read or a write is about. -/
def Header.sliceSize (h : Header) (cursor size : BitVec 32) : ℕ := min size.toNat (h.fileSize - cursor.toNat)

/-- Where the data of a file is in its partition. -/
def Header.dataStart (h : Header) : ℕ := 512 * (h.inode + 1)

/-- The node is one of a regular file of the partition; both readings of its size are the same. -/
structure Partition.HasFile (d : Partition) (v : Vnode) (h : Header) : Prop where
  well : ∃ headers, d.WellFormed headers ∧ h ∈ headers
  inode : v.fsInode = h.id
  type : ustarToVfsType h.block.type = .file
  size : oct2uint h.block.size ustarFsizeFieldLength = oct2uint h.block.size (ustarFsizeFieldLength - 1)

/-- On every device that holds the partition, a read does not leave its arrays, and one without an error stores the
bytes of the file at the cursor and reports their number. There is no block of no bytes. -/
def Partition.ReadsFile (d : Partition) (v : Vnode) (h : Header) (cursor size : BitVec 32) : Prop :=
  ∀ (p : VfsPartition) (kmalloc : ℕ → Option (List Byte)) (buffer : List Byte), p.Holds d → kmalloc 0 = none →
    size.toNat ≤ buffer.length → p.ustarReadFile kmalloc v cursor size buffer ≠ none ∧
      ∀ (buffer' : List Byte) (actualSize : BitVec 32),
        p.ustarReadFile kmalloc v cursor size buffer = some (.ok (buffer', actualSize)) → actualSize.toNat = h.sliceSize cursor size ∧
          buffer' = overwrite buffer 0 (slice d.bytes (h.dataStart + cursor.toNat) (h.sliceSize cursor size))

variable {d : Partition} {v : Vnode} {h : Header} {p : VfsPartition} {cursor size : BitVec 32} {i : ℕ}
variable {kmalloc : ℕ → Option (List Byte)} {buffer : List Byte}

/-! ## Sizes -/

/-- The size that is read, as it is computed. -/
def readSize (h : Header) (cursor size : BitVec 32) : BitVec 32 :=
  clampedSize (oct2uint h.block.size ustarFsizeFieldLength) cursor size

/-- The size of what is allocated. -/
def readRoom (h : Header) (cursor size : BitVec 32) : ℕ :=
  (blocksToRead cursor (readSize h cursor size) * 512#32).toNat

theorem sliceSize_eq_zero (hnothing : size = 0#32 ∨ h.fileSize ≤ cursor.toNat) : h.sliceSize cursor size = 0 := by
  unfold Header.sliceSize
  rcases hnothing with rfl | hle
  · exact Nat.zero_min _
  · rw [Nat.sub_eq_zero_of_le hle, Nat.min_zero]

theorem toNat_clampedSize {fileSize : BitVec 32} (hcursor : cursor.toNat < fileSize.toNat) :
    (clampedSize fileSize cursor size).toNat =
      if cursor.toNat + size.toNat < 2 ^ 32 then min size.toNat (fileSize.toNat - cursor.toNat) else size.toNat := by
  unfold clampedSize
  have hsum : (cursor + size).toNat = (cursor.toNat + size.toNat) % 2 ^ 32 := BitVec.toNat_add ..
  have hsize := size.isLt
  have hfile := fileSize.isLt
  by_cases hlt : fileSize < cursor + size
  · rw [if_pos hlt]
    rw [BitVec.lt_def, hsum] at hlt
    rw [BitVec.toNat_sub_of_le (by rw [BitVec.le_def]; omega)]
    by_cases hwrap : cursor.toNat + size.toNat < 2 ^ 32
    · rw [if_pos hwrap]
      omega
    · omega
  · rw [if_neg hlt]
    rw [BitVec.lt_def, hsum] at hlt
    by_cases hwrap : cursor.toNat + size.toNat < 2 ^ 32
    · rw [if_pos hwrap]
      omega
    · rw [if_neg hwrap]

theorem toNat_mod_blockSize (w : BitVec 32) : (w % 512#32).toNat = w.toNat % 512 := by
  rw [BitVec.toNat_umod]
  rfl

theorem toNat_div_blockSize (w : BitVec 32) : (w / 512#32).toNat = w.toNat / 512 := by
  rw [BitVec.toNat_udiv]
  rfl

theorem toNat_blocksToRead (cursor size : BitVec 32) : (blocksToRead cursor size).toNat =
    size.toNat / 512 + (if size.toNat % 512 ≠ 0 then 1 else 0) +
      (if 512 < cursor.toNat % 512 + size.toNat % 512 then 1 else 0) := by
  have hsize := size.isLt
  have hmod : size % 512#32 ≠ 0#32 ↔ size.toNat % 512 ≠ 0 := by
    rw [ne_eq, ne_eq, ← BitVec.toNat_inj, toNat_mod_blockSize]
    rfl
  have hover : 512#32 < cursor % 512#32 + size % 512#32 ↔ 512 < cursor.toNat % 512 + size.toNat % 512 := by
    rw [BitVec.lt_def, BitVec.toNat_add, toNat_mod_blockSize, toNat_mod_blockSize]
    change 512 < _ ↔ _
    omega
  have hone : ∀ w : BitVec 32, w.toNat ≤ 2 ^ 23 → (w + 1#32).toNat = w.toNat + 1 := fun w hw => by
    rw [BitVec.toNat_add]
    change (w.toNat + 1) % 2 ^ 32 = _
    omega
  have hdiv := toNat_div_blockSize size
  have hdiv1 : (size / 512#32 + 1#32).toNat = size.toNat / 512 + 1 := by
    rw [hone _ (by omega), hdiv]
  unfold blocksToRead
  dsimp only
  rw [if_congr hmod rfl rfl, if_congr hover rfl rfl]
  by_cases h1 : size.toNat % 512 ≠ 0
  · rw [if_pos h1, if_pos h1]
    by_cases h2 : 512 < cursor.toNat % 512 + size.toNat % 512
    · rw [if_pos h2, if_pos h2, hone _ (by omega), hdiv1]
    · rw [if_neg h2, if_neg h2, hdiv1]
  · rw [if_neg h1, if_neg h1, if_neg (by omega), if_neg (by omega), hdiv, Nat.add_zero]

/-- The bytes that are allocated. -/
theorem toNat_blocks_mul (blocks : BitVec 32) : (blocks * 512#32).toNat = 512 * blocks.toNat % 2 ^ 32 := by
  rw [BitVec.toNat_mul, Nat.mul_comm]
  rfl

/-! ## Files on devices -/

/-- The file of a node is on a device. -/
structure VfsPartition.FileAt (p : VfsPartition) (v : Vnode) (h : Header) : Prop where
  accepted : Accepted p.device.blockSize
  ids : p.device.bytes.length ≤ 2 ^ 32 * p.device.blockSize
  inode : v.fsInode = h.id
  header : slice p.device.bytes (p.base + 512 * h.inode) 512 = h.block.bytes
  check : ustarCheckBlock h.block = .osNoErr
  type : ustarToVfsType h.block.type = .file
  next : h.next = h.inode + 1 + (h.fileSize + 511) / 512
  bound : h.next < 2 ^ 23
  inside : p.base + 512 * h.next ≤ p.device.bytes.length

namespace VfsPartition

/-- A slice of the partition is a slice of its device. -/
theorem Holds.slice_eq (hholds : p.Holds d) {pos n : ℕ} (hfits : pos + n ≤ d.bytes.length) :
    slice p.device.bytes (p.base + pos) n = slice d.bytes pos n := by
  rw [← hholds.bytes, slice_slice hfits]

theorem Holds.fileAt (hholds : p.Holds d) (hfile : d.HasFile v h) : p.FileAt v h := by
  obtain ⟨headers, hwell, hmem⟩ := hfile.well
  obtain ⟨before, rest, rfl⟩ := List.append_of_mem hmem
  have hnext : h.next = h.inode + 1 + (h.fileSize + 511) / 512 := by
    unfold Header.fileSize
    rw [hfile.size]
    rfl
  have hle := hwell.chain.suffix.uncons.2.2.2.le
  have hlength := d.length_bytes
  have hinside := hholds.inside
  have hblock := hwell.chain.block_eq h hmem
  refine ⟨hholds.accepted, hholds.ids, hfile.inode, ?_, hwell.chain.check h hmem, hfile.type, hnext,
    hle.trans_lt hwell.bound, by omega⟩
  rw [hholds.slice_eq (by omega), Partition.slice_bytes hblock]

theorem FileAt.pos_eq (hfile : p.FileAt v h) (hi : i < h.next) :
    (p.firstPhysBlock (BitVec.ofNat 32 i)).toNat * p.device.blockSize + p.firstPhysBlockOffset (BitVec.ofNat 32 i) =
      p.base + 512 * i := by
  have hbound := hfile.bound
  have hids := hfile.ids
  have hinside := hfile.inside
  exact VfsPartition.pos_eq hfile.accepted (by omega) (by omega)

/-- What is read of the file, if the device gives no error. -/
theorem FileAt.readBlocks_cases (hfile : p.FileAt v h) (hi : i < h.next) (blockCounts : BitVec 32) :
    (∃ err, p.readBlocks (BitVec.ofNat 32 i) blockCounts = .error err ∧ err ≠ .osNoErr) ∨
      ∃ bytes, p.readBlocks (BitVec.ofNat 32 i) blockCounts = .ok bytes ∧
        bytes.1 = slice p.device.bytes (p.base + 512 * i) (blockCounts * 512#32).toNat := by
  have hpos := hfile.pos_eq hi
  unfold readBlocks Device.readBlocks
  by_cases hfault : p.device.fault .read (p.firstPhysBlock (BitVec.ofNat 32 i)) ≠ .osNoErr
  · rw [if_pos hfault]
    exact .inl ⟨_, rfl, hfault⟩
  · rw [if_neg hfault]
    split_ifs with hfits
    · exact .inr ⟨_, rfl, congrArg (slice p.device.bytes · _) hpos⟩
    · exact .inl ⟨_, rfl, OsReturnE.noConfusion⟩

theorem FileAt.readBlock_cases (hfile : p.FileAt v h) (hi : i < h.next) :
    (∃ err, p.readBlock (BitVec.ofNat 32 i) = .error err ∧ err ≠ .osNoErr) ∨
      ∃ b, p.readBlock (BitVec.ofNat 32 i) = .ok b ∧ b.bytes = slice p.device.bytes (p.base + 512 * i) 512 := by
  unfold readBlock
  obtain ⟨err, hread, herr⟩ | ⟨bytes, hread, hbytes⟩ := hfile.readBlocks_cases hi 1#32
  · rw [hread]
    exact .inl ⟨err, rfl, herr⟩
  · rw [hread]
    exact .inr ⟨_, rfl, hbytes⟩

theorem FileAt.readHeader_cases (hfile : p.FileAt v h) :
    (∃ err, p.readHeader v.fsInode = .error err ∧ err ≠ .osNoErr) ∨ p.readHeader v.fsInode = .ok h.block := by
  have hnext := hfile.next
  unfold readHeader
  rw [hfile.inode]
  obtain ⟨err, hread, herr⟩ | ⟨b, hread, hbytes⟩ := hfile.readBlock_cases (i := h.inode) (by omega)
  · change p.readBlock h.id = _ at hread
    rw [hread]
    exact .inl ⟨err, rfl, herr⟩
  · change p.readBlock h.id = _ at hread
    have hb : b = h.block := UstarBlock.ext (hbytes.trans hfile.header)
    rw [hread]
    dsimp only
    rw [hb, if_neg (not_not.mpr hfile.check)]
    exact .inr rfl

section
variable (hheader : p.readHeader v.fsInode = .ok h.block) (hfile : p.FileAt v h)
include hheader hfile

theorem ustarReadFile_nothing (hnothing : size = 0#32 ∨ h.fileSize ≤ cursor.toNat) :
    p.ustarReadFile kmalloc v cursor size buffer = some (.ok (buffer, 0#32)) := by
  have hle : oct2uint h.block.size ustarFsizeFieldLength ≤ cursor ∨ size = 0#32 := hnothing.symm
  unfold ustarReadFile
  rw [hheader]
  dsimp only
  rw [if_neg (not_not.mpr hfile.type), if_pos hle]

variable (hcursor : cursor.toNat < h.fileSize) (hsize : size ≠ 0#32)
include hcursor hsize

theorem ustarReadFile_noMemory (hmemory : kmalloc (readRoom h cursor size) = none) :
    p.ustarReadFile kmalloc v cursor size buffer = some (.error .osErrMalloc) := by
  have hmore : ¬(oct2uint h.block.size ustarFsizeFieldLength ≤ cursor ∨ size = 0#32) :=
    not_or.mpr ⟨not_le.mpr hcursor, hsize⟩
  unfold readRoom readSize at hmemory
  unfold ustarReadFile
  rw [hheader]
  dsimp only
  rw [if_neg (not_not.mpr hfile.type), if_neg hmore, hmemory]

variable {memory : List Byte} (hmemory : kmalloc (readRoom h cursor size) = some memory)
include hmemory

theorem ustarReadFile_error {err : OsReturnE}
    (hread : p.readBlocks (v.fsInode + 1#32 + cursor / 512#32) (blocksToRead cursor (readSize h cursor size)) = .error err) :
    p.ustarReadFile kmalloc v cursor size buffer = some (.error err) := by
  have hmore : ¬(oct2uint h.block.size ustarFsizeFieldLength ≤ cursor ∨ size = 0#32) :=
    not_or.mpr ⟨not_le.mpr hcursor, hsize⟩
  unfold readRoom at hmemory
  unfold readSize at hmemory hread
  unfold ustarReadFile
  rw [hheader]
  dsimp only
  rw [if_neg (not_not.mpr hfile.type), if_neg hmore, hmemory]
  dsimp only
  rw [hread]

theorem ustarReadFile_ok
    {bytes : {l : List Byte // l.length = (blocksToRead cursor (readSize h cursor size) * 512#32).toNat}}
    (hread : p.readBlocks (v.fsInode + 1#32 + cursor / 512#32) (blocksToRead cursor (readSize h cursor size)) = .ok bytes) :
    p.ustarReadFile kmalloc v cursor size buffer =
      if cursor.toNat % 512 + (readSize h cursor size).toNat ≤ bytes.1.length ∧
          (readSize h cursor size).toNat ≤ buffer.length then
        some (.ok (overwrite buffer 0 (slice bytes.1 (cursor.toNat % 512) (readSize h cursor size).toNat),
          readSize h cursor size))
      else none := by
  have hmore : ¬(oct2uint h.block.size ustarFsizeFieldLength ≤ cursor ∨ size = 0#32) :=
    not_or.mpr ⟨not_le.mpr hcursor, hsize⟩
  unfold readRoom at hmemory
  unfold readSize at *
  unfold ustarReadFile
  rw [hheader]
  dsimp only
  rw [if_neg (not_not.mpr hfile.type), if_neg hmore, hmemory]
  dsimp only
  rw [hread, ← toNat_mod_blockSize]

end

theorem FileAt.cursor_inode (hfile : p.FileAt v h) :
    v.fsInode + 1#32 + cursor / 512#32 = BitVec.ofNat 32 (h.inode + 1 + cursor.toNat / 512) := by
  have hnext := hfile.next
  have hbound := hfile.bound
  rw [hfile.inode]
  refine BitVec.eq_of_toNat_eq ?_
  rw [BitVec.toNat_add, BitVec.toNat_add, toNat_div_blockSize]
  unfold Header.id
  rw [BitVec.toNat_ofNat, BitVec.toNat_ofNat, BitVec.toNat_ofNat]
  omega

end VfsPartition

/-! ## The condition -/

/-- There is nothing to read; or the sum of the cursor and the size does not wrap, and the blocks that are allocated
are as many as the slice lies in; or it wraps and the blocks have so many bytes that there is nothing to allocate. -/
def ReadFits (h : Header) (cursor size : BitVec 32) : Prop :=
  size = 0#32 ∨ h.fileSize ≤ cursor.toNat ∨
    (cursor.toNat + size.toNat < 2 ^ 32 ∧ (h.sliceSize cursor size % 512 ≠ 0 ∨ cursor.toNat % 512 = 0)) ∨
    2 ^ 32 ≤ cursor.toNat + size.toNat ∧ size.toNat % 512 ≠ 0 ∧ 2 ^ 32 - 512 < cursor.toNat % 512 + size.toNat ∧
      cursor.toNat % 512 + size.toNat ≤ 2 ^ 32

theorem readRoom_of_noWrap (hfile : p.FileAt v h) (hcursor : cursor.toNat < h.fileSize)
    (hwrap : cursor.toNat + size.toNat < 2 ^ 32) (hsize : size ≠ 0#32) :
    (readSize h cursor size).toNat = h.sliceSize cursor size ∧
      (cursor.toNat % 512 + h.sliceSize cursor size ≤ readRoom h cursor size ↔
        h.sliceSize cursor size % 512 ≠ 0 ∨ cursor.toNat % 512 = 0) ∧
      512 * (cursor.toNat / 512) + readRoom h cursor size ≤ 512 * ((h.fileSize + 511) / 512) ∧
      readRoom h cursor size ≠ 0 := by
  have hclamped : (readSize h cursor size).toNat = h.sliceSize cursor size := by
    rw [readSize, toNat_clampedSize hcursor, if_pos hwrap]
    rfl
  have hpos : 0 < size.toNat := Nat.pos_of_ne_zero fun h0 => hsize (BitVec.eq_of_toNat_eq h0)
  refine ⟨hclamped, ?_⟩
  unfold readRoom
  rw [toNat_blocks_mul, toNat_blocksToRead, hclamped]
  have hslice : h.sliceSize cursor size = min size.toNat (h.fileSize - cursor.toNat) := rfl
  have hnext := hfile.next
  have hbound := hfile.bound
  generalize h.sliceSize cursor size = n at *
  refine ⟨?_, ?_, ?_⟩ <;> split_ifs <;> omega

theorem readRoom_of_wrap (hcursor : cursor.toNat < h.fileSize) (hwrap : 2 ^ 32 ≤ cursor.toNat + size.toNat) :
    (readSize h cursor size).toNat = size.toNat ∧
      (readRoom h cursor size = 0 ↔ size.toNat % 512 ≠ 0 ∧ 2 ^ 32 - 512 < cursor.toNat % 512 + size.toNat ∧
        cursor.toNat % 512 + size.toNat ≤ 2 ^ 32) := by
  have hclamped : (readSize h cursor size).toNat = size.toNat := by
    rw [readSize, toNat_clampedSize hcursor, if_neg (not_lt.mpr hwrap)]
  have hlt := size.isLt
  refine ⟨hclamped, ?_⟩
  unfold readRoom
  rw [toNat_blocks_mul, toNat_blocksToRead, hclamped]
  split_ifs <;> omega

/-! ## Reads that are right -/

theorem VfsPartition.ustarReadFile_of_error {err : OsReturnE} (hheader : p.readHeader v.fsInode = .error err) :
    p.ustarReadFile kmalloc v cursor size buffer = some (.error err) := by
  unfold ustarReadFile
  rw [hheader]

/-- A read that fits is right, on any device with the file. -/
theorem VfsPartition.FileAt.read_right (hfile : p.FileAt v h) (hfits : ReadFits h cursor size) (hzero : kmalloc 0 = none)
    (hbuffer : size.toNat ≤ buffer.length) :
    (∃ err, p.ustarReadFile kmalloc v cursor size buffer = some (.error err)) ∨
      ∃ actualSize, p.ustarReadFile kmalloc v cursor size buffer =
          some (.ok (overwrite buffer 0 (slice p.device.bytes (p.base + (h.dataStart + cursor.toNat)) (h.sliceSize cursor size)),
            actualSize)) ∧ actualSize.toNat = h.sliceSize cursor size := by
  obtain ⟨err, hheader, -⟩ | hheader := hfile.readHeader_cases
  · exact .inl ⟨err, ustarReadFile_of_error hheader⟩
  by_cases hnothing : size = 0#32 ∨ h.fileSize ≤ cursor.toNat
  · have hslice := sliceSize_eq_zero hnothing
    have hempty : slice p.device.bytes (p.base + (h.dataStart + cursor.toNat)) 0 = [] := rfl
    rw [ustarReadFile_nothing hheader hfile hnothing, hslice, hempty, overwrite_nil]
    exact .inr ⟨0#32, rfl, rfl⟩
  obtain ⟨hsize, hcursor⟩ := not_or.mp hnothing
  have hcursor := not_le.mp hcursor
  cases hmemory : kmalloc (readRoom h cursor size) with
  | none => exact .inl ⟨_, ustarReadFile_noMemory hheader hfile hcursor hsize hmemory⟩
  | some memory =>
    have hnext := hfile.next
    obtain ⟨err, hread, -⟩ | ⟨bytes, hread, hbytes⟩ :=
      hfile.readBlocks_cases (i := h.inode + 1 + cursor.toNat / 512) (by omega) (blocksToRead cursor (readSize h cursor size))
    · rw [← hfile.cursor_inode] at hread
      exact .inl ⟨err, ustarReadFile_error hheader hfile hcursor hsize hmemory hread⟩
    obtain ⟨hwrap, hresidue⟩ | ⟨hwrap, hnone⟩ := hfits.resolve_left hsize |>.resolve_left (not_le.mpr hcursor)
    swap
    · rw [((readRoom_of_wrap hcursor hwrap).2).mpr hnone, hzero] at hmemory
      exact nomatch hmemory
    obtain ⟨hclamped, hroom, -⟩ := readRoom_of_noWrap hfile hcursor hwrap hsize
    have hinRoom : cursor.toNat % 512 + h.sliceSize cursor size ≤
        (blocksToRead cursor (readSize h cursor size) * 512#32).toNat := hroom.mpr hresidue
    have hin : cursor.toNat % 512 + h.sliceSize cursor size ≤ bytes.1.length := by
      rw [bytes.2]
      exact hinRoom
    have hslice : h.sliceSize cursor size ≤ size.toNat := Nat.min_le_left ..
    have hplace : p.base + 512 * (h.inode + 1 + cursor.toNat / 512) + cursor.toNat % 512 =
        p.base + (h.dataStart + cursor.toNat) := by
      unfold Header.dataStart
      omega
    rw [← hfile.cursor_inode] at hread
    rw [ustarReadFile_ok hheader hfile hcursor hsize hmemory hread, hclamped, if_pos ⟨hin, hslice.trans hbuffer⟩, hbytes,
      slice_slice hinRoom, hplace]
    exact .inr ⟨_, rfl, hclamped⟩

/-- A read that fits is right. -/
theorem readsFile_of_fits (hfile : d.HasFile v h) (hfits : ReadFits h cursor size) : d.ReadsFile v h cursor size := by
  intro p kmalloc buffer hholds hzero hbuffer
  have hat := hholds.fileAt hfile
  have hslice : slice p.device.bytes (p.base + (h.dataStart + cursor.toNat)) (h.sliceSize cursor size) =
      slice d.bytes (h.dataStart + cursor.toNat) (h.sliceSize cursor size) := by
    rcases Nat.eq_zero_or_pos (h.sliceSize cursor size) with hnone | hsome
    · rw [hnone]
      rfl
    · refine hholds.slice_eq ?_
      obtain ⟨headers, hwell, hmem⟩ := hfile.well
      obtain ⟨before, rest, rfl⟩ := List.append_of_mem hmem
      have hle := hwell.chain.suffix.uncons.2.2.2.le
      have hlength := d.length_bytes
      have hnext := hat.next
      unfold Header.sliceSize Header.dataStart at *
      omega
  obtain ⟨err, hcall⟩ | ⟨actualSize, hcall, hactual⟩ := hat.read_right hfits hzero hbuffer
  · rw [hcall]
    exact ⟨Option.some_ne_none _, fun _ _ hok => nomatch Option.some.inj hok⟩
  · rw [hcall, hslice]
    refine ⟨Option.some_ne_none _, fun buffer' actualSize' hok => ?_⟩
    obtain ⟨rfl, rfl⟩ := Prod.mk.inj (Except.ok.inj (Option.some.inj hok))
    exact ⟨hactual, rfl⟩

/-! ## Reads that are wrong -/

/-- A device without errors, so large that each access is inside of it. -/
structure VfsPartition.Roomy (p : VfsPartition) : Prop where
  fault : ∀ op blockId, p.device.fault op blockId = .osNoErr
  blockSize : p.device.blockSize = 512
  firstBlock : p.firstBlock = 0
  large : 2 ^ 33 ≤ p.device.bytes.length

theorem VfsPartition.Roomy.inside (hroomy : p.Roomy) (inode : BitVec 32) {n : ℕ} (hn : n ≤ 2 ^ 32) :
    (p.firstPhysBlock inode).toNat * p.device.blockSize + p.firstPhysBlockOffset inode + n ≤ p.device.bytes.length := by
  have hid : (p.firstPhysBlock inode).toNat ≤ (inode * 512#32).toNat / 512 := by
    unfold firstPhysBlock
    rw [hroomy.firstBlock, hroomy.blockSize, Nat.zero_add, BitVec.toNat_ofNat]
    exact Nat.mod_le ..
  have hoffset : p.firstPhysBlockOffset inode = 0 := by
    unfold firstPhysBlockOffset ustarBlockSize
    rw [hroomy.blockSize, if_neg (lt_irrefl 512)]
  have hbyte := (inode * 512#32).isLt
  have hlarge := hroomy.large
  rw [hoffset, hroomy.blockSize]
  omega

theorem VfsPartition.Roomy.readBlocks_ok (hroomy : p.Roomy) (inode blockCounts : BitVec 32) :
    ∃ bytes, p.readBlocks inode blockCounts = .ok bytes := by
  unfold readBlocks Device.readBlocks
  rw [if_neg (not_not.mpr (hroomy.fault ..)), dif_pos (hroomy.inside inode (BitVec.isLt _).le)]
  exact ⟨_, rfl⟩

theorem VfsPartition.Roomy.readBlock_ok (hroomy : p.Roomy) (inode : BitVec 32) : ∃ b, p.readBlock inode = .ok b := by
  obtain ⟨bytes, hread⟩ := hroomy.readBlocks_ok inode 1#32
  unfold readBlock
  rw [hread]
  exact ⟨_, rfl⟩

theorem VfsPartition.Roomy.readHeader_ok (hroomy : p.Roomy) (hfile : p.FileAt v h) :
    p.readHeader v.fsInode = .ok h.block := by
  refine hfile.readHeader_cases.resolve_left fun ⟨err, herror, herr⟩ => ?_
  obtain ⟨b, hread⟩ := hroomy.readBlock_ok v.fsInode
  have hinode := hfile.inode
  have hnext := hfile.next
  obtain ⟨err', hread', -⟩ | ⟨b', hread', hbytes⟩ := hfile.readBlock_cases (i := h.inode) (by omega)
  · change p.readBlock h.id = _ at hread'
    rw [← hinode, hread] at hread'
    exact nomatch hread'
  · change p.readBlock h.id = _ at hread'
    have hb : b' = h.block := UstarBlock.ext (hbytes.trans hfile.header)
    unfold readHeader at herror
    rw [hinode, hread'] at herror
    dsimp only at herror
    rw [hb, if_neg (not_not.mpr hfile.check)] at herror
    exact nomatch herror

/-- There is memory for everything but nothing. -/
def someMemory (n : ℕ) : Option (List Byte) := if n = 0 then none else some (List.replicate n 0)

/-- A read that does not fit leaves its arrays, or reports too much. -/
theorem VfsPartition.FileAt.read_wrong (hfile : p.FileAt v h) (hroomy : p.Roomy) (hnot : ¬ReadFits h cursor size) :
    p.ustarReadFile someMemory v cursor size buffer = none ∨
      ∃ buffer' actualSize, p.ustarReadFile someMemory v cursor size buffer = some (.ok (buffer', actualSize)) ∧
        actualSize.toNat ≠ h.sliceSize cursor size := by
  unfold ReadFits at hnot
  push Not at hnot
  obtain ⟨hsize, hcursor, hnoWrap, hwrap⟩ := hnot
  have hroom : readRoom h cursor size ≠ 0 := by
    rcases lt_or_ge (cursor.toNat + size.toNat) (2 ^ 32) with hlt | hge
    · exact (readRoom_of_noWrap hfile hcursor hlt hsize).2.2.2
    · intro hzero
      obtain ⟨h1, h2, h3⟩ := (readRoom_of_wrap hcursor hge).2.mp hzero
      exact absurd h3 (not_le.mpr (hwrap hge h1 h2))
  have hmemory : someMemory (readRoom h cursor size) = some (List.replicate (readRoom h cursor size) 0) := if_neg hroom
  obtain ⟨bytes, hread⟩ := hroomy.readBlocks_ok (v.fsInode + 1#32 + cursor / 512#32) (blocksToRead cursor (readSize h cursor size))
  rw [ustarReadFile_ok (hroomy.readHeader_ok hfile) hfile hcursor hsize hmemory hread]
  split_ifs with hin
  · refine .inr ⟨_, _, rfl, fun hactual => ?_⟩
    rcases lt_or_ge (cursor.toNat + size.toNat) (2 ^ 32) with hlt | hge
    · obtain ⟨hclamped, hroomIff, -⟩ := readRoom_of_noWrap hfile hcursor hlt hsize
      have hinRoom := hin.1
      rw [bytes.2, hclamped] at hinRoom
      obtain ⟨h1, h2⟩ := hnoWrap hlt
      rcases hroomIff.mp hinRoom with hresidue | haligned
      · exact hresidue h1
      · exact h2 haligned
    · rw [(readRoom_of_wrap hcursor hge).1, Header.sliceSize] at hactual
      have hfileSize := (oct2uint h.block.size ustarFsizeFieldLength).isLt
      change h.fileSize < _ at hfileSize
      omega
  · exact .inl rfl

/-- A device with more bytes behind the partition. -/
def largeDevice (d : Partition) : VfsPartition :=
  ⟨⟨512, d.bytes ++ List.replicate (2 ^ 33) 0, fun _ _ => .osNoErr⟩, 0⟩

theorem largeDevice_roomy (d : Partition) : (largeDevice d).Roomy := by
  refine ⟨fun _ _ => rfl, rfl, rfl, ?_⟩
  unfold largeDevice
  rw [List.length_append, List.length_replicate]
  omega

theorem largeDevice_holds (hbound : d.blocks.length < 2 ^ 23) : (largeDevice d).Holds d := by
  have hlength := d.length_bytes
  have hbytes : (largeDevice d).device.bytes = d.bytes ++ List.replicate (2 ^ 33) 0 := rfl
  have hbase : (largeDevice d).base = 0 := Nat.zero_mul _
  refine ⟨?_, ?_, ?_, ?_⟩
  · change VfsPartition.Accepted 512
    unfold VfsPartition.Accepted ustarBlockSize
    decide
  · rw [hbytes, List.length_append, List.length_replicate]
    change _ ≤ 2 ^ 32 * 512
    omega
  · rw [hbytes, hbase, List.length_append]
    omega
  · rw [hbytes, hbase, slice_append_left (by omega), slice, List.drop_zero, List.take_length]

theorem Partition.HasFile.bound (hfile : d.HasFile v h) : d.blocks.length < 2 ^ 23 :=
  let ⟨_, hwell, _⟩ := hfile.well
  hwell.bound

theorem fits_of_readsFile (hfile : d.HasFile v h) (hreads : d.ReadsFile v h cursor size) : ReadFits h cursor size := by
  by_contra hnot
  have hholds := largeDevice_holds hfile.bound
  have hbuffer : size.toNat ≤ (List.replicate size.toNat (0 : Byte)).length := (List.length_replicate ..).ge
  obtain ⟨hdefined, hright⟩ := hreads (largeDevice d) someMemory _ hholds rfl hbuffer
  obtain hnone | ⟨buffer', actualSize, hcall, hactual⟩ :=
    (hholds.fileAt hfile).read_wrong (largeDevice_roomy d) hnot
  · exact hdefined hnone
  · exact hactual (hright _ _ hcall).1

/-- A read is right exactly when it fits. -/
theorem readsFile_iff (d : Partition) (v : Vnode) (h : Header) (cursor size : BitVec 32) (hfile : d.HasFile v h) :
    d.ReadsFile v h cursor size ↔ ReadFits h cursor size :=
  ⟨fits_of_readsFile hfile, readsFile_of_fits hfile⟩

/-! ## A file of two blocks -/

/-- The header of the file `a1` with two blocks of data. -/
def longBlock : UstarBlock := (Partition.headerBlock Partition.pathA.chars 0x30).write 124 (uint2oct 1024#32 ustarFsizeFieldLength)

/-- A block of the data. -/
def dataBlock : UstarBlock := ⟨List.replicate 512 0x41, List.length_replicate ..⟩

def longFile : Partition := ⟨[longBlock, dataBlock, dataBlock], fun _ _ => .osNoErr⟩

def longHeader : Header := ⟨0, longBlock⟩

def longNode : Vnode := ⟨.file, Partition.pathA, 1024#32, 0#32⟩

theorem longFile_hasFile : longFile.HasFile longNode longHeader := by
  have hchain : longFile.Chain 0 [longHeader] := by
    refine .header (h := longHeader) rfl (by decide +kernel) ?_
    have hnext : longHeader.next = longFile.blocks.length := by decide +kernel
    rw [hnext]
    exact .done le_rfl fun b hb => by
      rw [List.getElem?_eq_none le_rfl] at hb
      exact nomatch hb
  exact ⟨⟨[longHeader], ⟨hchain, by decide⟩, List.mem_singleton_self _⟩, rfl, by decide +kernel, by decide +kernel⟩

/-- The second block of the file is read. -/
theorem readsFile_second : longFile.ReadsFile longNode longHeader 512#32 512#32 :=
  (readsFile_iff longFile longNode longHeader 512#32 512#32 longFile_hasFile).mpr (by
    refine .inr (.inr (.inl ⟨by decide, .inr (by decide)⟩)))

/-- A block of bytes is not read from the second byte on. -/
theorem readsFile_unaligned : ¬longFile.ReadsFile longNode longHeader 1#32 512#32 := by
  intro hreads
  have hsize : longHeader.fileSize = 1024 := by decide +kernel
  have hfits := fits_of_readsFile longFile_hasFile hreads
  unfold ReadFits Header.sliceSize at hfits
  rw [hsize] at hfits
  revert hfits
  decide

end UtkKernel.Fs
