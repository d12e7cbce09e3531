import UtkKernel.Fs.Ustar

/-! # Numbers in octal digits

The size of a file stands in its header in octal digits, with a terminator in the last place. A zero is written without
a terminator; a size reads back as it was written all the same. -/

namespace UtkKernel.Fs
open Foundations
set_option autoImplicit false

variable {value out : BitVec 32} {c : Byte} {room k : ℕ}

/-- What `oct2uint` does with one digit. -/
def octStep (out : BitVec 32) (c : Byte) : BitVec 32 := (out <<< 3) ||| (c.signExtend 32 - 48#32)

theorem octStep_zero : octStep 0#32 0x30 = 0#32 := by decide

theorem digit_eq (value : BitVec 32) : ((0x30 : Byte) + (value % 8#32).setWidth 8).signExtend 32 - 48#32 = value % 8#32 := by
  have hdigit : ∀ d : Fin 8, ((0x30 : Byte) + (BitVec.ofNat 32 d).setWidth 8).signExtend 32 - 48#32 = BitVec.ofNat 32 d := by
    decide
  have hlt : (value % 8#32).toNat < 8 := by
    rw [BitVec.toNat_umod]
    exact Nat.mod_lt _ (by decide)
  have hd := hdigit ⟨_, hlt⟩
  simp only [BitVec.ofNat_toNat, BitVec.setWidth_eq] at hd
  exact hd

theorem octStep_digit (value : BitVec 32) :
    octStep (value / 8#32) (0x30 + (value % 8#32).setWidth 8) = value := by
  have hlt := value.isLt
  unfold octStep
  rw [digit_eq]
  apply BitVec.eq_of_toNat_eq
  have hdiv : (value / 8#32).toNat = value.toNat / 8 := BitVec.toNat_udiv
  have hmod : (value % 8#32).toNat = value.toNat % 8 := BitVec.toNat_umod
  have hor := Nat.two_pow_add_eq_or_of_lt (i := 3) (b := value.toNat % 8) (Nat.mod_lt _ (by decide)) (value.toNat / 8)
  rw [BitVec.toNat_or, BitVec.toNat_shiftLeft, hdiv, hmod, Nat.shiftLeft_eq, Nat.mod_eq_of_lt (by omega),
    Nat.mul_comm, ← hor]
  omega

theorem foldr_octDigits (hroom : value.toNat < 8 ^ room) :
    (octDigits room value).foldr (fun c out => octStep out c) 0#32 = value := by
  induction room generalizing value with
  | zero =>
    have hzero : value.toNat = 0 := Nat.lt_one_iff.mp hroom
    exact (BitVec.eq_of_toNat_eq hzero).symm
  | succ room ih =>
    unfold octDigits
    split_ifs with hvalue
    · exact hvalue.symm
    · have hdiv : (value / 8#32).toNat < 8 ^ room := by
        rw [BitVec.toNat_udiv]
        exact Nat.div_lt_of_lt_mul ((Nat.pow_succ').symm ▸ hroom)
      rw [List.foldr_cons, ih hdiv, octStep_digit]

theorem length_octDigits_le (hk : value.toNat < 8 ^ k) : (octDigits room value).length ≤ k := by
  induction room generalizing value k with
  | zero => exact Nat.zero_le k
  | succ room ih =>
    unfold octDigits
    split_ifs with hvalue
    · exact Nat.zero_le k
    · cases k with
      | zero => exact absurd (BitVec.eq_of_toNat_eq (Nat.lt_one_iff.mp hk)) hvalue
      | succ k =>
        have hdiv : (value / 8#32).toNat < 8 ^ k := by
          rw [BitVec.toNat_udiv]
          exact Nat.div_lt_of_lt_mul ((Nat.pow_succ').symm ▸ hk)
        rw [List.length_cons]
        exact Nat.succ_le_succ (ih hdiv)

theorem zero_notMem_octDigits (room : ℕ) (value : BitVec 32) : 0 ∉ octDigits room value := by
  induction room generalizing value with
  | zero => exact List.not_mem_nil
  | succ room ih =>
    unfold octDigits
    split_ifs
    · exact List.not_mem_nil
    · refine List.not_mem_cons_of_ne_of_not_mem (fun hzero => ?_) (ih _)
      have hdigit := digit_eq value
      have hlt : (value % 8#32).toNat < 8 := by
        rw [BitVec.toNat_umod]
        exact Nat.mod_lt _ (by decide)
      rw [← hzero] at hdigit
      rw [← hdigit] at hlt
      exact absurd hlt (by decide)

theorem foldl_replicate (n : ℕ) : (List.replicate n (0x30 : Byte)).foldl octStep 0#32 = 0#32 := by
  induction n with
  | zero => rfl
  | succ n ih => rw [List.replicate_succ, List.foldl_cons, octStep_zero, ih]

theorem length_octDigits (value : BitVec 32) : (octDigits 32 value).length ≤ 11 :=
  length_octDigits_le (value.isLt.trans (by decide))

/-! ## The field -/

section
variable {size : ℕ} (hsize : 12 ≤ size)
include hsize

/-- The digits of a number that is not zero: zeros in front, and a terminator in the last place. -/
theorem uint2oct_eq (hvalue : value ≠ 0#32) : uint2oct value size =
    List.replicate (size - 1 - (octDigits 32 value).length) 0x30 ++ (octDigits 32 value).reverse ++ [0] := by
  have hlength := length_octDigits value
  unfold uint2oct
  rw [if_neg hvalue]
  dsimp only
  generalize octDigits 32 value = digits at hlength ⊢
  have hinner : overwrite (List.replicate size 0x30) (size - digits.length - 1) digits.reverse =
      List.replicate (size - 1 - digits.length) 0x30 ++ digits.reverse ++ [0x30] := by
    unfold overwrite
    rw [List.take_replicate, List.drop_replicate, List.length_reverse,
      show min (size - digits.length - 1) size = size - 1 - digits.length by omega,
      show size - (size - digits.length - 1 + digits.length) = 1 by omega]
    rfl
  have hfront : (List.replicate (size - 1 - digits.length) (0x30 : Byte) ++ digits.reverse).length = size - 1 := by
    rw [List.length_append, List.length_replicate, List.length_reverse]
    omega
  rw [hinner, overwrite, List.take_left' hfront, List.drop_eq_nil_of_le]
  · exact List.append_nil _
  · rw [List.length_append, hfront]
    exact le_rfl

theorem length_uint2oct (value : BitVec 32) : (uint2oct value size).length = size := by
  by_cases hvalue : value = 0#32
  · unfold uint2oct
    rw [if_pos hvalue, List.length_replicate]
  · have hlength := length_octDigits value
    rw [uint2oct_eq hsize hvalue, List.length_append, List.length_append, List.length_replicate, List.length_reverse,
      List.length_singleton]
    omega

/-- A number reads back as it was written, with the place of the terminator or without it. -/
theorem oct2uint_uint2oct (value : BitVec 32) {count : ℕ} (hcount : count = size - 1 ∨ count = size) :
    oct2uint (uint2oct value size) count = value := by
  have hdef : oct2uint (uint2oct value size) count = (cstr ((uint2oct value size).take count)).foldl octStep 0#32 := rfl
  rw [hdef]
  by_cases hvalue : value = 0#32
  · have hzeros : cstr ((uint2oct value size).take count) = List.replicate count 0x30 := by
      unfold uint2oct
      rw [if_pos hvalue, List.take_replicate, Nat.min_eq_left (by omega)]
      exact cstr_of_notMem (by simp [List.mem_replicate])
    rw [hzeros, foldl_replicate, hvalue]
  · have hlength := length_octDigits value
    have hnul : 0 ∉ List.replicate (size - 1 - (octDigits 32 value).length) (0x30 : Byte) ++ (octDigits 32 value).reverse := by
      rw [List.mem_append, List.mem_reverse, not_or]
      exact ⟨by simp [List.mem_replicate], zero_notMem_octDigits 32 value⟩
    have hfront : (List.replicate (size - 1 - (octDigits 32 value).length) (0x30 : Byte) ++
        (octDigits 32 value).reverse).length = size - 1 := by
      rw [List.length_append, List.length_replicate, List.length_reverse]
      omega
    have hdigits : cstr ((uint2oct value size).take count) =
        List.replicate (size - 1 - (octDigits 32 value).length) 0x30 ++ (octDigits 32 value).reverse := by
      rw [uint2oct_eq hsize hvalue, cstr_take, cstr_append_nul hnul, List.take_of_length_le (by omega)]
    rw [hdigits, List.foldl_append, foldl_replicate, List.foldl_reverse]
    exact foldr_octDigits (value.isLt.trans (by decide))

end

/-! ## The arrays

What `uint2oct` does with the array of its field and with `tmp`; a write outside of one of them gives nothing. -/

/-- The digits are written in `tmp`, the lowest one first. -/
def fillTmp (value : BitVec 32) (tmp : List Byte) (pos : ℕ) : Option (List Byte × ℕ) :=
  if value = 0#32 then some (tmp, pos)
  else (storeAt tmp pos (0x30 + (value % 8#32).setWidth 8)).bind fun tmp => fillTmp (value / 8#32) tmp (pos + 1)
termination_by value.toNat
decreasing_by
  rename_i hvalue
  have hpos : value.toNat ≠ 0 := fun h => hvalue (BitVec.eq_of_toNat_eq h)
  rw [BitVec.toNat_udiv]
  exact Nat.div_lt_self (Nat.pos_of_ne_zero hpos) (by decide)

/-- The digits are copied to the field, the highest one first. The index of one that has no place there wraps. -/
def copyTmp (tmp : List Byte) (size : ℕ) : ℕ → List Byte → Option (List Byte)
  | 0, oct => some oct
  | pos + 1, oct =>
    if size < pos + 2 then none
    else (tmp[pos]?).bind fun c => (storeAt oct (size - (pos + 1) - 1) c).bind (copyTmp tmp size pos)

/-- `uint2oct` on the array of the field -/
def uint2octIn (oct tmp : List Byte) (value : BitVec 32) (size : ℕ) : Option (List Byte) :=
  if oct.length < size then none
  else
    let oct := overwrite oct 0 (List.replicate size 0x30)
    if value = 0#32 then some oct
    else (fillTmp value tmp 0).bind fun t => (copyTmp t.1 size t.2 oct).bind fun oct => storeAt oct (size - 1) 0

variable {tmp oct : List Byte} {pos size : ℕ}

/-- `tmp` has the digits from the position on. -/
theorem fillTmp_eq (hroom : value.toNat < 8 ^ room) (hfits : pos + (octDigits room value).length ≤ tmp.length) :
    fillTmp value tmp pos = some (overwrite tmp pos (octDigits room value), pos + (octDigits room value).length) := by
  induction room generalizing value tmp pos with
  | zero =>
    have hzero : value = 0#32 := BitVec.eq_of_toNat_eq (Nat.lt_one_iff.mp hroom)
    rw [fillTmp, if_pos hzero]
    simp [octDigits, overwrite_nil]
  | succ room ih =>
    rw [fillTmp]
    unfold octDigits at hfits ⊢
    by_cases hvalue : value = 0#32
    · simp [hvalue, overwrite_nil]
    · rw [if_neg hvalue] at hfits ⊢
      rw [List.length_cons] at hfits
      have hdiv : (value / 8#32).toNat < 8 ^ room := by
        rw [BitVec.toNat_udiv]
        exact Nat.div_lt_of_lt_mul ((Nat.pow_succ').symm ▸ hroom)
      rw [if_neg hvalue, storeAt, if_pos (by omega), Option.bind_some, ih hdiv (by rw [List.length_set]; omega),
        overwrite_cons (by omega), List.length_cons, Nat.add_right_comm, Nat.add_assoc]

/-- The first digits of `tmp` stand in the field in front of its last place, the highest one first. -/
theorem copyTmp_eq (hpos : pos < size) (htmp : pos ≤ tmp.length) (hoct : size ≤ oct.length) :
    copyTmp tmp size pos oct = some (overwrite oct (size - pos - 1) (tmp.take pos).reverse) := by
  induction pos generalizing oct with
  | zero => simp [copyTmp, overwrite_nil]
  | succ pos ih =>
    have hdigit : tmp[pos]? = some tmp[pos] := List.getElem?_eq_getElem htmp
    rw [copyTmp, if_neg (by omega), hdigit, Option.bind_some, storeAt, if_pos (by omega), Option.bind_some,
      ih (by omega) (by omega) (by rw [List.length_set]; omega), List.take_add_one, hdigit, Option.toList_some,
      List.reverse_append, List.reverse_singleton, List.singleton_append, overwrite_cons (by omega),
      show size - (pos + 1) - 1 + 1 = size - pos - 1 by omega]

/-- Nothing is written outside of the field and of `tmp`. -/
theorem uint2octIn_eq (value : BitVec 32) (hsize : 12 ≤ size) (hoct : oct.length = size) (htmp : tmp.length = 32) :
    uint2octIn oct tmp value size = some (uint2oct value size) := by
  have hlength := length_octDigits value
  have hset : overwrite oct 0 (List.replicate size 0x30) = List.replicate size 0x30 := by
    simp [overwrite, hoct]
  unfold uint2octIn uint2oct
  rw [if_neg (by omega), hset]
  by_cases hvalue : value = 0#32
  · rw [if_pos hvalue, if_pos hvalue]
  · have hdigits : (overwrite tmp 0 (octDigits 32 value)).take (octDigits 32 value).length = octDigits 32 value := by
      simp [overwrite]
    have hlonger : (overwrite tmp 0 (octDigits 32 value)).length = tmp.length := length_overwrite (by omega)
    have hfield : (overwrite (List.replicate size 0x30) (size - (octDigits 32 value).length - 1)
        (octDigits 32 value).reverse).length = size := by
      rw [length_overwrite] <;> rw [List.length_replicate]
      rw [List.length_reverse]
      omega
    have hfilled : fillTmp value tmp 0 =
        some (overwrite tmp 0 (octDigits 32 value), 0 + (octDigits 32 value).length) :=
      fillTmp_eq (value.isLt.trans (by decide)) (by omega)
    have hcopied : copyTmp (overwrite tmp 0 (octDigits 32 value)) size (octDigits 32 value).length
        (List.replicate size 0x30) = some (overwrite (List.replicate size 0x30)
          (size - (octDigits 32 value).length - 1) (octDigits 32 value).reverse) := by
      rw [copyTmp_eq (by omega) (by omega) (by rw [List.length_replicate]), hdigits]
    rw [Nat.zero_add] at hfilled
    dsimp only
    rw [if_neg hvalue, if_neg hvalue, hfilled, Option.bind_some, hcopied, Option.bind_some, storeAt, if_pos (by omega),
      overwrite_cons (by omega), overwrite_nil]

/-- What is written in a field reads back, and nothing is written elsewhere. -/
theorem octal_round_trip (value : BitVec 32) (hsize : 12 ≤ size) (hoct : oct.length = size) (htmp : tmp.length = 32) :
    ∃ field, uint2octIn oct tmp value size = some field ∧ field.length = size ∧
      oct2uint field size = value ∧ oct2uint field (size - 1) = value :=
  ⟨_, uint2octIn_eq value hsize hoct htmp, length_uint2oct hsize value,
    oct2uint_uint2oct hsize value (.inr rfl), oct2uint_uint2oct hsize value (.inl rfl)⟩

/-- The largest number in the shortest field. -/
theorem octal_round_trip_largest : ∃ field, uint2octIn (List.replicate 12 0) (List.replicate 32 0) 0xFFFFFFFF#32 12 =
    some field ∧ field.length = 12 ∧ oct2uint field 12 = 0xFFFFFFFF#32 ∧ oct2uint field (12 - 1) = 0xFFFFFFFF#32 :=
  octal_round_trip 0xFFFFFFFF#32 (by decide) rfl rfl

end UtkKernel.Fs
