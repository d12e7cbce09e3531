import UtkKernel.Foundations.BitGroups
import UtkKernel.Fs.Archive
import UtkKernel.Fs.Octal

/-! # The two readings of a size

The field of a size has room for twelve digits. A scan reads eleven of them, since the last byte should be the
terminator; everything else that needs the size of a file reads all twelve. -/

namespace UtkKernel.Fs
open Foundations Partition
set_option autoImplicit false

/-- `ustar_close_file`, without the flush: the number of blocks that it flushes, the header being the first. -/
def Partition.ustarCloseFile (d : Partition) (v : Vnode) : Except OsReturnE (BitVec 32) :=
  match d.firstBlock v.fsInode with
  | .error err => .error err
  | .ok b =>
    let blockCount := oct2uint b.size ustarFsizeFieldLength
    .ok (if blockCount % 512#32 ≠ 0#32 then blockCount / 512#32 + 1#32 else blockCount / 512#32)

namespace UstarBlock

/-- The blocks of the data of the file, as its size is read, written, truncated, closed and opened. -/
def fileBlocks (b : UstarBlock) : ℕ := ((oct2uint b.size ustarFsizeFieldLength).toNat + 511) / 512

/-- Both readings are the same, and the next header of a scan is not in the data of the file. -/
structure ReadAlike (b : UstarBlock) : Prop where
  same : oct2uint b.size (ustarFsizeFieldLength - 1) = oct2uint b.size ustarFsizeFieldLength
  apart : ∀ (inode : BitVec 32), ∀ k < b.fileBlocks, nextInode b inode ≠ inode + 1#32 + BitVec.ofNat 32 k

end UstarBlock

/-! ## The condition -/

/-- What a byte of the field adds to the number; a `char` is signed. -/
def octDigit (c : Byte) : BitVec 32 := c.signExtend 32 - 48#32

namespace UstarBlock

/-- A bit of the number that the first eleven bytes of the field stand for, up to a terminator. -/
def SizeBit (b : UstarBlock) (bit : ℕ) : Prop := HasBit 3 ((cstr (b.size.take 11)).map octDigit) bit

/-- A terminator is among the twelve bytes, or the bits of the number are those of copies of the last byte. -/
def Terminated (b : UstarBlock) : Prop :=
  0 ∈ b.size ∨ ∀ bit < 32, (b.SizeBit bit ↔ ∃ k, 3 * k ≤ bit ∧ (octDigit (b.size.getD 11 0)).getLsbD (bit - 3 * k) = true)

/-- More than all the blocks that 32 bits have room for, without the last. -/
def TooLarge (b : UstarBlock) : Prop :=
  (∀ bit, 9 ≤ bit → bit < 32 → b.SizeBit bit) ∧ ∃ bit < 9, b.SizeBit bit

variable (b : UstarBlock)

/-! ## Equal readings -/

theorem oct2uint_eq_grouped (oct : List Byte) (size : ℕ) :
    oct2uint oct size = grouped 3 ((cstr (oct.take size)).map octDigit) := by
  rw [grouped, List.foldl_map]
  rfl

theorem length_size : b.size.length = 12 := by
  have hlength : b.bytes.length = 512 := b.length_eq
  simp [UstarBlock.size, UstarBlock.field, hlength]

theorem getLsbD_oct2uint {bit : ℕ} (hbit : bit < 32) :
    (oct2uint b.size 11).getLsbD bit = true ↔ b.SizeBit bit := by
  rw [oct2uint_eq_grouped]
  exact getLsbD_grouped 3 _ hbit

/-- Without a terminator there is one digit more. -/
theorem oct2uint_all (hnul : 0 ∉ b.size) :
    oct2uint b.size 12 = (oct2uint b.size 11 <<< 3) ||| octDigit (b.size.getD 11 0) := by
  have hlength := b.length_size
  have hall : b.size.take 12 = b.size.take 11 ++ [b.size.getD 11 0] := by
    rw [List.take_add_one, List.getD_eq_getElem?_getD, List.getElem?_eq_getElem (by omega)]
    rfl
  have hfront : cstr (b.size.take 11) = b.size.take 11 := cstr_of_notMem fun h => hnul (List.mem_of_mem_take h)
  have hwhole : cstr (b.size.take 12) = b.size.take 12 := cstr_of_notMem fun h => hnul (List.mem_of_mem_take h)
  rw [oct2uint_eq_grouped, oct2uint_eq_grouped, hwhole, hfront, hall, List.map_append, List.map_singleton, grouped_concat]

theorem oct2uint_eq_iff : oct2uint b.size 11 = oct2uint b.size 12 ↔ b.Terminated := by
  by_cases hnul : 0 ∈ b.size
  · refine iff_of_true ?_ (.inl hnul)
    have hall : b.size.take 12 = b.size := List.take_of_length_le b.length_size.le
    by_cases hfront : 0 ∈ b.size.take 11
    · rw [oct2uint_eq_grouped, oct2uint_eq_grouped, hall, cstr_of_mem_take hfront]
    · have hlast : b.size.getD 11 0 = 0 := by
        rw [← List.take_append_drop 11 b.size, List.mem_append] at hnul
        obtain ⟨i, hi, hzero⟩ := List.mem_iff_getElem.mp (hnul.resolve_left hfront)
        rw [List.length_drop, b.length_size] at hi
        obtain rfl : i = 0 := by omega
        rw [List.getElem_drop] at hzero
        rw [List.getD_eq_getElem?_getD, List.getElem?_eq_getElem (by rw [b.length_size]; decide)]
        exact hzero
      exact (oct2uint_size hlast).symm
  · rw [oct2uint_all b hnul, eq_shift_or_iff 3 (by decide), Terminated, or_iff_right hnul]
    exact forall₂_congr fun bit hbit => by rw [b.getLsbD_oct2uint hbit]

/-! ## The next header -/

/-- The data and the next header meet only if the size is so large that the header that follows is the block behind. -/
theorem apart_iff {size : ℕ} (hsize : size < 2 ^ 32) :
    (∀ (inode : BitVec 32), ∀ k < (size + 511) / 512,
      inode + BitVec.ofNat 32 (nextStep size) ≠ inode + 1#32 + BitVec.ofNat 32 k) ↔ ¬ 2 ^ 32 - 2 ^ 9 < size := by
  have hne : ∀ (inode : BitVec 32) (m k : ℕ), m < 2 ^ 32 → k + 1 < 2 ^ 32 →
      (inode + BitVec.ofNat 32 m ≠ inode + 1#32 + BitVec.ofNat 32 k ↔ m ≠ k + 1) := by
    intro inode m k hm hk
    have hone : inode + 1#32 + BitVec.ofNat 32 k = inode + BitVec.ofNat 32 (k + 1) := by
      rw [BitVec.add_assoc, ← BitVec.ofNat_add, Nat.add_comm 1 k]
    rw [hone, Ne, BitVec.add_right_inj, ← BitVec.toNat_inj, BitVec.toNat_ofNat, BitVec.toNat_ofNat,
      Nat.mod_eq_of_lt hm, Nat.mod_eq_of_lt hk]
  constructor
  · intro h hlarge
    refine (hne 0#32 1 0 (by decide) (by decide)).mp ?_ rfl
    have hstep : nextStep size = 1 := by
      unfold nextStep
      rw [if_neg (by omega), if_neg (by omega)]
    have hfirst := h 0#32 0 (by omega)
    rwa [hstep] at hfirst
  · intro hsmall inode k hk
    refine (hne inode _ k ?_ (by omega)).mpr ?_ <;> unfold nextStep <;> split_ifs <;> omega

theorem tooLarge_iff : b.TooLarge ↔ 2 ^ 32 - 2 ^ 9 < (oct2uint b.size 11).toNat := by
  rw [two_pow_sub_lt_iff (by decide), TooLarge]
  refine and_congr ?_ ?_
  · exact forall₃_congr fun bit _ hbit => (b.getLsbD_oct2uint hbit).symm
  · exact exists_congr fun bit => and_congr_right fun hbit => (b.getLsbD_oct2uint (by omega)).symm

/-- A scan reads the size that everything else reads, and behind the data, if the field has a terminator and the size
is not too large. -/
theorem readAlike_iff : b.ReadAlike ↔ b.Terminated ∧ ¬ b.TooLarge := by
  have hnext : ∀ inode, nextInode b inode = inode + BitVec.ofNat 32 (nextStep (oct2uint b.size 11).toNat) :=
    nextInode_add b
  have hblocks (hsame : oct2uint b.size 11 = oct2uint b.size 12) :
      b.fileBlocks = ((oct2uint b.size 11).toNat + 511) / 512 := by
    rw [hsame]
    rfl
  rw [← oct2uint_eq_iff, tooLarge_iff, ← apart_iff (oct2uint b.size 11).isLt]
  constructor
  · rintro ⟨hsame, hapart⟩
    refine ⟨hsame, fun inode k hk => ?_⟩
    rw [← hnext]
    exact hapart inode k (by rwa [hblocks hsame])
  · rintro ⟨hsame, hapart⟩
    refine ⟨hsame, fun inode k hk => ?_⟩
    rw [hnext]
    exact hapart inode k (by rwa [hblocks hsame] at hk)

end UstarBlock

/-! ## Closing a file, and a field that ends with a blank -/

/-- As many blocks are flushed as the file has for data. -/
theorem Partition.ustarCloseFile_blocks {d : Partition} {v : Vnode} {b : UstarBlock} {blockCount : BitVec 32}
    (hfirst : d.firstBlock v.fsInode = .ok b) (hclose : d.ustarCloseFile v = .ok blockCount) :
    blockCount.toNat = b.fileBlocks := by
  unfold ustarCloseFile at hclose
  rw [hfirst] at hclose
  obtain rfl := Except.ok.inj hclose
  unfold UstarBlock.fileBlocks
  generalize oct2uint b.size ustarFsizeFieldLength = size
  have hsize := size.isLt
  have hmod : size % 512#32 ≠ 0#32 ↔ size.toNat % 512 ≠ 0 := by
    rw [Ne, ← BitVec.toNat_inj]
    exact Iff.rfl
  have hdiv : (size / 512#32).toNat = size.toNat / 512 := BitVec.toNat_udiv
  by_cases hzero : size.toNat % 512 = 0
  · rw [if_neg (mt hmod.mp (not_not_intro hzero)), hdiv]
    omega
  · rw [if_pos (hmod.mpr hzero), BitVec.toNat_add, hdiv]
    show (size.toNat / 512 + 1) % 2 ^ 32 = _
    omega

/-- A file of one byte, whose size has a blank behind the digits. -/
def blankHeader : UstarBlock :=
  (headerBlock pathA.chars 0x30).write 124 (List.replicate 10 0x30 ++ [0x31, 0x20])

theorem blankHeader_not_readAlike : ¬ ∀ b, ustarCheckBlock b = .osNoErr → b.ReadAlike := by
  intro h
  have hsame := (h blankHeader (by decide +kernel)).same
  revert hsame
  decide +kernel

end UtkKernel.Fs
