import Mathlib.Tactic.Ring
import UtkKernel.Foundations.Slices
import UtkKernel.Fs.Archive

/-! # Partitions on devices

A device has blocks of its own size, which `ustar_mount` accepts when it divides 512 or is a multiple of it; it fails
for what is not all inside of it. The blocks of a partition are in the bytes of its device, one after the other. -/

namespace UtkKernel.Fs
open Foundations
set_option autoImplicit false

/-! ## The device -/

/-- `vfs_device_t`, with the error that each block gives. -/
structure Device where
  blockSize : ℕ
  bytes : List Byte
  fault : UstarDevOp → BitVec 32 → OsReturnE

/-- `vfs_partition_t` -/
structure VfsPartition where
  device : Device
  firstBlock : ℕ

namespace Device

/-- `read_blocks` -/
def readBlocks (device : Device) (blockId : BitVec 32) (size offset : ℕ) :
    Except OsReturnE {l : List Byte // l.length = size} :=
  if device.fault .read blockId ≠ .osNoErr then .error (device.fault .read blockId)
  else if h : blockId.toNat * device.blockSize + offset + size ≤ device.bytes.length then
    .ok ⟨slice device.bytes (blockId.toNat * device.blockSize + offset) size, length_slice h⟩
  else .error .osErrOutOfBound

/-- `write_blocks` -/
def writeBlocks (device : Device) (blockId : BitVec 32) (buffer : List Byte) (offset : ℕ) : OsReturnE × Device :=
  if device.fault .write blockId ≠ .osNoErr then (device.fault .write blockId, device)
  else if blockId.toNat * device.blockSize + offset + buffer.length ≤ device.bytes.length then
    (.osNoErr, { device with bytes := overwrite device.bytes (blockId.toNat * device.blockSize + offset) buffer })
  else (.osErrOutOfBound, device)

end Device

namespace VfsPartition

/-- `first_phys_block` -/
def firstPhysBlock (p : VfsPartition) (inode : BitVec 32) : BitVec 32 :=
  BitVec.ofNat 32 (p.firstBlock + (inode * 512#32).toNat / p.device.blockSize)

/-- `first_phys_block_offset` -/
def firstPhysBlockOffset (p : VfsPartition) (inode : BitVec 32) : ℕ :=
  (if ustarBlockSize < p.device.blockSize then inode.toNat % (p.device.blockSize / ustarBlockSize) else 0) * ustarBlockSize

/-- `ustar_access_blocks_from_device`, to read -/
def readBlocks (p : VfsPartition) (inode blockCounts : BitVec 32) :
    Except OsReturnE {l : List Byte // l.length = (blockCounts * 512#32).toNat} :=
  p.device.readBlocks (p.firstPhysBlock inode) (blockCounts * 512#32).toNat (p.firstPhysBlockOffset inode)

/-- `ustar_access_blocks_from_device`, to write what a buffer holds -/
def writeBlocks (p : VfsPartition) (inode : BitVec 32) (buffer : List Byte) : OsReturnE × VfsPartition :=
  let w := p.device.writeBlocks (p.firstPhysBlock inode) buffer (p.firstPhysBlockOffset inode)
  (w.1, { p with device := w.2 })

/-- One block is read in a `ustar_block_t`. -/
def readBlock (p : VfsPartition) (inode : BitVec 32) : Except OsReturnE UstarBlock :=
  match p.readBlocks inode 1#32 with
  | .error err => .error err
  | .ok bytes => .ok ⟨bytes.1, bytes.2.trans (by decide)⟩

/-- The header that `ustar_read_file` and `ustar_write_file` start with. -/
def readHeader (p : VfsPartition) (inode : BitVec 32) : Except OsReturnE UstarBlock :=
  match p.readBlock inode with
  | .error err => .error err
  | .ok b => if ustarCheckBlock b ≠ .osNoErr then .error (ustarCheckBlock b) else .ok b

/-- The block sizes that `ustar_mount` accepts. -/
def Accepted (blockSize : ℕ) : Prop :=
  0 < blockSize ∧ ¬(ustarBlockSize < blockSize ∧ blockSize % ustarBlockSize ≠ 0 ∨
    blockSize < ustarBlockSize ∧ ustarBlockSize % blockSize ≠ 0)

/-- The first byte of a partition on its device. -/
def base (p : VfsPartition) : ℕ := p.firstBlock * p.device.blockSize

end VfsPartition

/-- The bytes of a partition. -/
def Partition.bytes (d : Partition) : List Byte := d.blocks.flatMap UstarBlock.bytes

/-- The device holds the blocks of the partition; the numbers of its own blocks fit in 32 bits. -/
structure VfsPartition.Holds (p : VfsPartition) (d : Partition) : Prop where
  accepted : Accepted p.device.blockSize
  ids : p.device.bytes.length ≤ 2 ^ 32 * p.device.blockSize
  inside : p.base + d.bytes.length ≤ p.device.bytes.length
  bytes : slice p.device.bytes p.base d.bytes.length = d.bytes

variable {p : VfsPartition} {d : Partition} {i n : ℕ} {inode : BitVec 32} {b : UstarBlock}

/-! ## Positions -/

theorem length_flatMap_bytes (l : List UstarBlock) : (l.flatMap UstarBlock.bytes).length = 512 * l.length := by
  induction l with
  | nil => rfl
  | cons b l ih =>
    have hlength : b.bytes.length = 512 := b.length_eq
    rw [List.flatMap_cons, List.length_append, ih, List.length_cons, hlength]
    omega

theorem Partition.length_bytes (d : Partition) : d.bytes.length = 512 * d.blocks.length := length_flatMap_bytes d.blocks

/-- A block is a slice of its partition. -/
theorem Partition.slice_bytes (hblock : d.blocks[i]? = some b) : slice d.bytes (512 * i) 512 = b.bytes := by
  obtain ⟨hi, hb⟩ := List.getElem?_eq_some_iff.mp hblock
  have hsplit : d.blocks = d.blocks.take i ++ b :: d.blocks.drop (i + 1) := by
    rw [← hb, ← List.drop_eq_getElem_cons hi, List.take_append_drop]
  have hbytes : d.bytes = (Partition.mk (d.blocks.take i) d.fault).bytes ++ (b.bytes ++
      (Partition.mk (d.blocks.drop (i + 1)) d.fault).bytes) := by
    unfold bytes
    rw [← List.flatMap_cons, ← List.flatMap_append, ← hsplit]
  have hfront : (Partition.mk (d.blocks.take i) d.fault).bytes.length = 512 * i := by
    rw [length_bytes, List.length_take]
    omega
  have hlength : b.bytes.length = 512 := b.length_eq
  rw [hbytes, slice, ← hfront, List.drop_left, ← hlength, List.take_left]

namespace VfsPartition

/-- Where an inode is on the device. -/
theorem pos_eq (haccepted : Accepted p.device.blockSize) (hi : i < 2 ^ 23)
    (hids : p.base + 512 * i < 2 ^ 32 * p.device.blockSize) :
    (p.firstPhysBlock (BitVec.ofNat 32 i)).toNat * p.device.blockSize + p.firstPhysBlockOffset (BitVec.ofNat 32 i) =
      p.base + 512 * i := by
  obtain ⟨hpos, hdivides⟩ := haccepted
  unfold firstPhysBlock firstPhysBlockOffset
  unfold base at hids ⊢
  generalize p.device.blockSize = blockSize at hpos hdivides hids ⊢
  have hbyte : (BitVec.ofNat 32 i * 512#32).toNat = 512 * i := by
    rw [BitVec.toNat_mul, BitVec.toNat_ofNat, BitVec.toNat_ofNat]
    omega
  have hinode : (BitVec.ofNat 32 i).toNat = i := by
    rw [BitVec.toNat_ofNat]
    omega
  have hid : p.firstBlock + 512 * i / blockSize < 2 ^ 32 := by
    rw [Nat.add_comm, ← Nat.add_mul_div_right _ _ hpos]
    exact (Nat.div_lt_iff_lt_mul hpos).mpr (by omega)
  rw [hbyte, hinode, BitVec.toNat_ofNat, Nat.mod_eq_of_lt hid, Nat.add_mul]
  unfold ustarBlockSize at *
  by_cases hlarge : 512 < blockSize
  · obtain ⟨k, rfl⟩ : 512 ∣ blockSize := by
      by_contra hnot
      exact hdivides (.inl ⟨hlarge, fun hmod => hnot (Nat.dvd_of_mod_eq_zero hmod)⟩)
    have hdiv : 512 * i / (512 * k) = i / k := Nat.mul_div_mul_left i k (by decide)
    have hsum := Nat.div_add_mod i k
    rw [if_pos hlarge, hdiv, Nat.mul_div_cancel_left k (by decide), Nat.add_assoc]
    congr 1
    calc i / k * (512 * k) + i % k * 512 = 512 * (k * (i / k) + i % k) := by ring
      _ = 512 * i := by rw [hsum]
  · have hdvd : blockSize ∣ 512 := by
      by_contra hnot
      refine hdivides (.inr ⟨lt_of_le_of_ne (not_lt.mp hlarge) ?_, fun hmod => hnot (Nat.dvd_of_mod_eq_zero hmod)⟩)
      rintro rfl
      exact hnot dvd_rfl
    rw [if_neg hlarge, Nat.div_mul_cancel (hdvd.trans (Nat.dvd_mul_right 512 i))]
    rfl

end VfsPartition

/-! ## Reading -/

/-- `MIN(size, file_size - offset)` as `ustar_read_file` and `ustar_write_file` compute it. -/
def clampedSize (fileSize cursor size : BitVec 32) : BitVec 32 :=
  if fileSize < cursor + size then fileSize - cursor else size

/-- `blocks_to_read` -/
def blocksToRead (offset size : BitVec 32) : BitVec 32 :=
  let blocks := size / 512#32
  let blocks := if size % 512#32 ≠ 0#32 then blocks + 1#32 else blocks
  if 512#32 < offset % 512#32 + size % 512#32 then blocks + 1#32 else blocks

namespace VfsPartition

/-- `ustar_read_file`: an error, or the buffer and the size that is reported. It reads at most what it has allocated. -/
def ustarReadFile (kmalloc : ℕ → Option (List Byte)) (p : VfsPartition) (v : Vnode) (cursor size : BitVec 32)
    (buffer : List Byte) : Option (Except OsReturnE (List Byte × BitVec 32)) :=
  match p.readHeader v.fsInode with
  | .error err => some (.error err)
  | .ok b =>
    let fileSize := oct2uint b.size ustarFsizeFieldLength
    if ustarToVfsType b.type ≠ .file then some (.error .osErrFileNotFound)
    else if fileSize ≤ cursor ∨ size = 0#32 then some (.ok (buffer, 0#32))
    else
      let size := clampedSize fileSize cursor size
      let blocks := blocksToRead cursor size
      match kmalloc (blocks * 512#32).toNat with
      | none => some (.error .osErrMalloc)
      | some _ =>
        match p.readBlocks (v.fsInode + 1#32 + cursor / 512#32) blocks with
        | .error err => some (.error err)
        | .ok blockBuffer =>
          let offset := (cursor % 512#32).toNat
          if offset + size.toNat ≤ blockBuffer.1.length ∧ size.toNat ≤ buffer.length then
            some (.ok (overwrite buffer 0 (slice blockBuffer.1 offset size.toNat), size))
          else none

end VfsPartition

/-! ## Writing -/

/-- What `ustar_write_file` reports, what it leaves of the partition, and `actual_size` if it stores one. -/
structure Written where
  err : OsReturnE
  partition : VfsPartition
  actualSize : Option (BitVec 32)

namespace VfsPartition

/-- A block is read, changed and written. -/
def editBlock (p : VfsPartition) (inode : BitVec 32) (offset : ℕ) (bytes : List Byte) : OsReturnE × VfsPartition :=
  match p.readBlock inode with
  | .error err => (err, p)
  | .ok b => p.writeBlocks inode (b.write offset bytes).bytes

/-- The last block of `ustar_write_file`. -/
def writeLast (p : VfsPartition) (inode size write : BitVec 32) (buffer : List Byte) : Written :=
  if size ≠ 0#32 then
    let w := p.editBlock inode 0 (slice buffer write.toNat size.toNat)
    if w.1 ≠ .osNoErr then ⟨w.1, w.2, some write⟩ else ⟨.osNoErr, w.2, some (write + size)⟩
  else ⟨.osNoErr, p, some write⟩

/-- The full blocks of `ustar_write_file`, and the last one. -/
def writeFull (p : VfsPartition) (inode size write : BitVec 32) (buffer : List Byte) : Written :=
  if 512#32 < size then
    let blocksToWrite := size / 512#32
    let w := p.writeBlocks inode (slice buffer write.toNat (blocksToWrite * 512#32).toNat)
    if w.1 ≠ .osNoErr then ⟨w.1, w.2, some write⟩
    else w.2.writeLast (inode + blocksToWrite) (size - blocksToWrite * 512#32) (write + blocksToWrite * 512#32) buffer
  else p.writeLast inode size write buffer

/-- `ustar_write_file` behind its checks: the first block, if the slice does not start with it, and the others. -/
def writeSlice (p : VfsPartition) (inode offset size : BitVec 32) (buffer : List Byte) : Written :=
  if offset ≠ 0#32 then
    let write := if 512#32 - offset < size then 512#32 - offset else size
    let w := p.editBlock inode offset.toNat (slice buffer 0 write.toNat)
    if w.1 ≠ .osNoErr then ⟨w.1, w.2, none⟩ else w.2.writeFull (inode + 1#32) (size - write) write buffer
  else p.writeFull inode size 0#32 buffer

/-- `ustar_write_file`; it reads as much of the buffer as it writes. -/
def ustarWriteFile (p : VfsPartition) (v : Vnode) (cursor size : BitVec 32) (buffer : List Byte) : Option Written :=
  match p.readHeader v.fsInode with
  | .error err => some ⟨err, p, none⟩
  | .ok b =>
    let fileSize := oct2uint b.size ustarFsizeFieldLength
    if ustarToVfsType b.type ≠ .file then some ⟨.osErrFileNotFound, p, none⟩
    else if fileSize ≤ cursor ∨ size = 0#32 then some ⟨.osNoErr, p, some 0#32⟩
    else
      let size := clampedSize fileSize cursor size
      if buffer.length < size.toNat then none
      else some (p.writeSlice (v.fsInode + 1#32 + cursor / 512#32) (cursor % 512#32) size buffer)

end VfsPartition

end UtkKernel.Fs
