import Mathlib.Order.Interval.Set.Basic
import UtkKernel.Fs.Device

/-! # Where the blocks of a partition are

A request to a device names a block, an offset in it and a size. The byte of an inode and the size are products in 32
bits: they are exact below 4 GiB, and nowhere else. -/

namespace UtkKernel.Fs
open Foundations
set_option autoImplicit false

namespace VfsPartition

/-- The first byte on the device that an access of `ustar_access_blocks_from_device` is about. -/
def accessStart (p : VfsPartition) (inode : BitVec 32) : ℕ :=
  (p.firstPhysBlock inode).toNat * p.device.blockSize + p.firstPhysBlockOffset inode

/-- The bytes of the device that an access is about. -/
def accessed (p : VfsPartition) (inode blockCounts : BitVec 32) : Set ℕ :=
  Set.Ico (p.accessStart inode) (p.accessStart inode + (blockCounts * 512#32).toNat)

/-- The bytes of the blocks. -/
def blockBytes (p : VfsPartition) (inode blockCounts : BitVec 32) : Set ℕ :=
  Set.Ico (p.base + 512 * inode.toNat) (p.base + 512 * inode.toNat + 512 * blockCounts.toNat)

/-- The blocks are inside of the device, whose own blocks have numbers and a size of 32 bits. -/
structure InsideDevice (p : VfsPartition) (inode blockCounts : BitVec 32) : Prop where
  accepted : Accepted p.device.blockSize
  blockSize : p.device.blockSize < 2 ^ 32
  ids : p.device.bytes.length ≤ 2 ^ 32 * p.device.blockSize
  inside : p.base + 512 * inode.toNat + 512 * blockCounts.toNat ≤ p.device.bytes.length

variable {p : VfsPartition} {inode blockCounts : BitVec 32}

/-! ## Accesses -/

/-- A read without an error gives the bytes of its access. -/
theorem readBlocks_accessed {bytes : {l : List Byte // l.length = (blockCounts * 512#32).toNat}}
    (hread : p.readBlocks inode blockCounts = .ok bytes) :
    bytes.1 = slice p.device.bytes (p.accessStart inode) (blockCounts * 512#32).toNat := by
  unfold readBlocks Device.readBlocks at hread
  split_ifs at hread with hfault hinside
  obtain rfl := Except.ok.inj hread
  rfl

/-- A write without an error changes the bytes of its access. -/
theorem writeBlocks_accessed {buffer : List Byte} (hlength : buffer.length = (blockCounts * 512#32).toNat)
    (hwrite : (p.writeBlocks inode buffer).1 = .osNoErr) {pos : ℕ} (hpos : pos ∉ p.accessed inode blockCounts) :
    (p.writeBlocks inode buffer).2.device.bytes[pos]? = p.device.bytes[pos]? := by
  unfold writeBlocks Device.writeBlocks at hwrite ⊢
  dsimp only at hwrite ⊢
  split_ifs at hwrite ⊢ with hfault hinside
  · rfl
  · dsimp only
    rw [getElem?_overwrite hinside, if_neg]
    rw [hlength]
    exact hpos

/-! ## The condition -/

/-- The access is empty, or the blocks end below 4 GiB. -/
def BelowLimit (inode blockCounts : BitVec 32) : Prop :=
  blockCounts = 0#32 ∨ inode.toNat < 2 ^ 23 ∧ blockCounts.toNat < 2 ^ 23

theorem toNat_accessSize (blockCounts : BitVec 32) : (blockCounts * 512#32).toNat = 512 * (blockCounts.toNat % 2 ^ 23) := by
  rw [BitVec.toNat_mul]
  change blockCounts.toNat * 512 % 2 ^ 32 = _
  omega

theorem accessed_of_belowLimit (hinside : p.InsideDevice inode blockCounts) (hbelow : BelowLimit inode blockCounts) :
    p.accessed inode blockCounts = p.blockBytes inode blockCounts := by
  unfold accessed blockBytes
  rw [toNat_accessSize]
  rcases hbelow with rfl | ⟨hinode, hcounts⟩
  · have hzero : (0#32).toNat = 0 := rfl
    rw [hzero, Nat.zero_mod, Nat.mul_zero, Nat.add_zero, Nat.add_zero, Set.Ico_self, Set.Ico_self]
  rcases Nat.eq_zero_or_pos blockCounts.toNat with hnone | hsome
  · rw [hnone, Nat.zero_mod, Nat.mul_zero, Nat.add_zero, Nat.add_zero, Set.Ico_self, Set.Ico_self]
  have hids := hinside.ids
  have hlength := hinside.inside
  have hstart : p.accessStart inode = p.base + 512 * inode.toNat := by
    have hpos := pos_eq hinside.accepted hinode (by omega)
    rw [BitVec.ofNat_toNat, BitVec.setWidth_eq] at hpos
    exact hpos
  rw [hstart, Nat.mod_eq_of_lt hcounts]

/-- An inode behind 4 GiB is looked for before its place. -/
theorem accessStart_lt (hinside : p.InsideDevice inode blockCounts) (hinode : 2 ^ 23 ≤ inode.toNat) :
    p.accessStart inode < p.base + 512 * inode.toNat := by
  obtain ⟨⟨hpos, hdivides⟩, hsize, hids, hlength⟩ := hinside
  unfold accessStart firstPhysBlock firstPhysBlockOffset base at *
  generalize p.device.blockSize = blockSize at *
  have hbyte : (inode * 512#32).toNat = 512 * (inode.toNat % 2 ^ 23) := toNat_accessSize inode
  have hle : (p.firstBlock + 512 * (inode.toNat % 2 ^ 23) / blockSize) % 2 ^ 32 ≤
      p.firstBlock + 512 * (inode.toNat % 2 ^ 23) / blockSize := Nat.mod_le ..
  have hblock := Nat.mul_le_mul_right blockSize hle
  rw [Nat.add_mul] at hblock
  rw [hbyte, BitVec.toNat_ofNat]
  refine Nat.lt_of_le_of_lt (Nat.add_le_add_right hblock _) ?_
  have hsmall := Nat.div_mul_le_self (512 * (inode.toNat % 2 ^ 23)) blockSize
  have hlimit : inode.toNat % 2 ^ 23 + 2 ^ 23 ≤ inode.toNat := by omega
  unfold ustarBlockSize
  by_cases hlarge : 512 < blockSize
  · have hoffset := Nat.mod_lt inode.toNat (Nat.div_pos hlarge.le (by decide : 0 < 512))
    rw [if_pos hlarge]
    omega
  · rw [if_neg hlarge, Nat.zero_mul]
    omega

theorem belowLimit_of_accessed (hinside : p.InsideDevice inode blockCounts)
    (haccessed : p.accessed inode blockCounts = p.blockBytes inode blockCounts) : BelowLimit inode blockCounts := by
  rcases Nat.eq_zero_or_pos blockCounts.toNat with hnone | hsome
  · exact .inl (BitVec.eq_of_toNat_eq hnone)
  have hfirst : p.base + 512 * inode.toNat ∈ p.accessed inode blockCounts := by
    rw [haccessed]
    exact ⟨le_rfl, by omega⟩
  have hlast : p.base + 512 * inode.toNat + 512 * blockCounts.toNat - 1 ∈ p.accessed inode blockCounts := by
    rw [haccessed]
    exact ⟨by omega, by omega⟩
  have hsize := toNat_accessSize blockCounts
  unfold accessed at hfirst hlast
  refine .inr ⟨?_, ?_⟩
  · by_contra hinode
    have hlt := accessStart_lt hinside (not_lt.mp hinode)
    have hstart : p.accessStart inode ∈ p.accessed inode blockCounts := ⟨le_rfl, by
      have := hfirst.2
      omega⟩
    rw [haccessed] at hstart
    exact absurd hstart.1 (not_le.mpr hlt)
  · obtain ⟨hle, -⟩ := hfirst
    obtain ⟨-, hlt⟩ := hlast
    by_contra hcounts
    omega

/-- The bytes that are accessed are those of the blocks exactly below 4 GiB. -/
theorem accessed_iff (p : VfsPartition) (inode blockCounts : BitVec 32) (hinside : p.InsideDevice inode blockCounts) :
    p.accessed inode blockCounts = p.blockBytes inode blockCounts ↔ BelowLimit inode blockCounts :=
  ⟨belowLimit_of_accessed hinside, accessed_of_belowLimit hinside⟩

/-- A partition in the second block of a device with blocks of two kilobytes. -/
def wideBlocks : VfsPartition := ⟨⟨2048, List.replicate 8192 0, fun _ _ => .osNoErr⟩, 1⟩

theorem accessed_wideBlocks : wideBlocks.accessed 5#32 3#32 = wideBlocks.blockBytes 5#32 3#32 :=
  (accessed_iff wideBlocks 5#32 3#32 (by
    refine ⟨⟨by decide, by unfold ustarBlockSize; decide⟩, by decide, ?_, ?_⟩ <;>
      unfold wideBlocks <;> rw [List.length_replicate] <;> decide)).mpr (.inr ⟨by decide, by decide⟩)

/-- The first block behind 4 GiB of a device of 8 GiB. -/
theorem accessed_behindLimit : ∃ p : VfsPartition, p.InsideDevice 0x800000#32 1#32 ∧
    p.accessed 0x800000#32 1#32 ≠ p.blockBytes 0x800000#32 1#32 := by
  have hinside : (VfsPartition.mk ⟨512, List.replicate (2 ^ 33) 0, fun _ _ => .osNoErr⟩ 0).InsideDevice 0x800000#32 1#32 := by
    refine ⟨⟨by decide, by unfold ustarBlockSize; decide⟩, by decide, ?_, ?_⟩ <;> rw [List.length_replicate]
    · decide
    · decide
  refine ⟨_, hinside, fun haccessed => ?_⟩
  rcases belowLimit_of_accessed hinside haccessed with hzero | ⟨hinode, -⟩
  · exact absurd hzero (by decide)
  · exact absurd hinode (by decide)

end VfsPartition
end UtkKernel.Fs
