import UtkKernel.Console.Sequences
import UtkKernel.Foundations.Runs
import UtkKernel.Foundations.Slices

/-! # The texts of numbers

`uitoa` fills an array with the digits from the lowest one on and copies them to its buffer from the last one back,
with a NUL behind them. A write outside of an array gives nothing. -/

namespace UtkKernel.Console
open Foundations
set_option autoImplicit false

/-! ## The arrays -/

/-- The loop that fills `tmp`. It goes on for ever in a base of one, but `tmp` does not. -/
def fillDigits (base : ℕ) : ℕ → ℕ → List Byte → ℕ → Option (List Byte × ℕ)
  | 0, _, _, _ => none
  | fuel + 1, i, tmp, pos =>
    if i ≠ 0 then (storeAt tmp pos (hexTable (i % base))).bind fun tmp => fillDigits base fuel (i / base) tmp (pos + 1)
    else some (tmp, pos)

/-- The loop that fills the buffer with the first digits of `tmp`. -/
def fillBuffer (tmp buf : List Byte) (top : ℕ) : Option (List Byte) :=
  (List.range top).foldlM (fun buf opos => (tmp[top - 1 - opos]?).bind fun c => storeAt buf opos c) buf

/-- `uitoa` on its buffer. -/
def uitoaIn (buf tmp : List Byte) (i base : ℕ) : Option (List Byte) :=
  if i = 0 ∨ base > 16 then (storeAt buf 0 0x30).bind fun buf => storeAt buf 1 0
  else
    (fillDigits base (tmp.length + 1) i tmp 0).bind fun t =>
      (fillBuffer t.1 buf t.2).bind fun buf => storeAt buf t.2 0

/-- `itoa` on its buffer, which starts behind the sign for `uitoa`. -/
def itoaIn (buf tmp : List Byte) (i : BitVec 64) (base : ℕ) : Option (List Byte) :=
  if base > 16 then some buf
  else if base = 10 ∧ i.toInt < 0 then
    match buf with
    | [] => none
    | _ :: buf => (uitoaIn buf tmp (-i).toNat base).map (0x2D :: ·)
  else uitoaIn buf tmp i.toNat base

/-- In any buffer that has room for it, the text is left with a NUL behind it. -/
def Writes (write : List Byte → List Byte → Option (List Byte)) (text : List Byte) : Prop :=
  ∀ buf tmp, text.length < buf.length → tmp.length = 128 → write buf tmp = some (overwrite buf 0 (text ++ [0]))

/-! ## What is written -/

variable {base fuel i pos top : ℕ} {buf tmp text : List Byte}

theorem length_uitoaTmp_le (fuel i base : ℕ) : (uitoaTmp fuel i base).length ≤ fuel := by
  induction fuel generalizing i with
  | zero => simp [uitoaTmp]
  | succ fuel ih =>
    rw [uitoaTmp]
    split_ifs
    · exact Nat.succ_le_succ (ih _)
    · exact Nat.zero_le _

theorem fillDigits_eq {room : ℕ} (hi : i < base ^ fuel) (hfuel : fuel < room)
    (hfits : pos + (uitoaTmp fuel i base).length ≤ tmp.length) : fillDigits base room i tmp pos =
      some (overwrite tmp pos (uitoaTmp fuel i base), pos + (uitoaTmp fuel i base).length) := by
  induction fuel generalizing i tmp pos room with
  | zero =>
    obtain ⟨room, rfl⟩ := Nat.exists_eq_succ_of_ne_zero (Nat.ne_of_gt hfuel)
    rw [pow_zero, Nat.lt_one_iff] at hi
    simp [fillDigits, uitoaTmp, hi, overwrite_nil]
  | succ fuel ih =>
    obtain ⟨room, rfl⟩ := Nat.exists_eq_succ_of_ne_zero (Nat.ne_of_gt (Nat.zero_lt_of_lt hfuel))
    rw [fillDigits]
    rw [uitoaTmp] at hfits ⊢
    by_cases hzero : i = 0
    · simp [hzero, overwrite_nil]
    · rw [if_pos hzero, List.length_cons] at hfits
      have hdiv : i / base < base ^ fuel := Nat.div_lt_of_lt_mul (by rwa [pow_succ, Nat.mul_comm] at hi)
      rw [if_pos hzero, if_pos hzero, storeAt_eq (by omega), Option.bind_some,
        ih hdiv (by omega) (by rw [List.length_set]; omega), overwrite_cons (by omega), List.length_cons,
        Nat.add_right_comm, Nat.add_assoc]

/-- The digits stand in the buffer in the other order. -/
theorem fillBuffer_eq (htop : top ≤ tmp.length) (hbuf : top ≤ buf.length) :
    fillBuffer tmp buf top = some (overwrite buf 0 (tmp.take top).reverse) := by
  have hlength : (tmp.take top).reverse.length = top := by simp [htop]
  obtain ⟨buf', h, hbuf'⟩ := foldlM_range (n := top)
    (f := fun buf opos => (tmp[top - 1 - opos]?).bind fun c => storeAt buf opos c)
    (fun j b => b = overwrite buf 0 ((tmp.take top).reverse.take j))
    (fun j hj b hb => by
      have hdigit : tmp[top - 1 - j]? = some (tmp.take top).reverse[j] := by
        rw [List.getElem_reverse, List.getElem_take, List.getElem?_eq_getElem (by omega)]
        simp [htop]
      have hroom : 0 + ((tmp.take top).reverse.take j).length < buf.length := by
        rw [List.length_take, hlength]
        omega
      have hj' : ((tmp.take top).reverse.take j).length = j := by
        rw [List.length_take, hlength]
        omega
      subst hb
      refine ⟨_, ?_, rfl⟩
      rw [hdigit, Option.bind_some, storeAt_eq (by rw [length_overwrite hroom.le]; omega), List.take_add_one,
        List.getElem?_eq_getElem (by omega), Option.toList_some, overwrite_concat hroom, hj', Nat.zero_add])
    (s := buf) (by simp [overwrite_nil])
  rw [List.take_of_length_le hlength.le] at hbuf'
  rw [fillBuffer, h, hbuf']

/-- `uitoa` writes what the formatter prints. -/
theorem uitoaIn_writes (hbase : 1 < base) (hle : base ≤ 16) (hi : i < 2 ^ 64) :
    Writes (fun buf tmp => uitoaIn buf tmp i base) (uitoa i base) := by
  intro buf tmp hroom htmp
  dsimp only
  unfold uitoaIn uitoa at *
  by_cases hzero : i = 0
  · rw [if_pos (.inl hzero)] at hroom ⊢
    rw [if_pos (.inl hzero), storeAt_eq (Nat.zero_lt_of_lt hroom), Option.bind_some,
      storeAt_eq (by rw [List.length_set]; exact hroom), List.singleton_append, overwrite_cons (Nat.zero_lt_of_lt hroom),
      overwrite_cons (by rw [List.length_set]; exact hroom), overwrite_nil]
  · have hsmall : ¬(i = 0 ∨ base > 16) := by omega
    have hlength := length_uitoaTmp_le 64 i base
    rw [if_neg hsmall, List.length_reverse] at hroom
    have hfilled : fillDigits base (tmp.length + 1) i tmp 0 =
        some (overwrite tmp 0 (uitoaTmp 64 i base), 0 + (uitoaTmp 64 i base).length) :=
      fillDigits_eq (hi.trans_le (Nat.pow_le_pow_left hbase 64)) (by omega) (by omega)
    have hdigits : (overwrite tmp 0 (uitoaTmp 64 i base)).take (uitoaTmp 64 i base).length = uitoaTmp 64 i base := by
      simp [overwrite]
    have hlonger : (overwrite tmp 0 (uitoaTmp 64 i base)).length = tmp.length := length_overwrite (by omega)
    have hfront : (overwrite buf 0 (uitoaTmp 64 i base).reverse).length = buf.length :=
      length_overwrite (by rw [List.length_reverse]; omega)
    have hcopied : fillBuffer (overwrite tmp 0 (uitoaTmp 64 i base)) buf (uitoaTmp 64 i base).length =
        some (overwrite buf 0 (uitoaTmp 64 i base).reverse) := by
      rw [fillBuffer_eq (by omega) hroom.le, hdigits]
    rw [if_neg hsmall, if_neg hsmall, hfilled, Option.bind_some, Nat.zero_add, hcopied, Option.bind_some, storeAt_eq (by omega),
      overwrite_concat (by rw [List.length_reverse]; omega), List.length_reverse, Nat.zero_add]

/-- The digits are different. -/
theorem hexTable_inj (hle : base ≤ 16) : ∀ c < base, ∀ d < base, hexTable c = hexTable d → c = d := by
  have hall : ∀ c < 16, ∀ d < 16, hexTable c = hexTable d → c = d := by decide
  exact fun c hc d hd => hall c (by omega) d (by omega)

theorem isNumeral_uitoa (hbase : 1 < base) (hle : base ≤ 16) (hi : i < 2 ^ 64) (l : List Byte) :
    IsNumeral hexTable base i l ↔ l = uitoa i base := by
  rw [uitoa_eq hbase hle hi, isNumeral_iff hbase (hexTable_inj hle)]

/-- The sign is written in front of the numeral of the magnitude. -/
theorem itoaIn_writes (i : BitVec 64) : Writes (fun buf tmp => itoaIn buf tmp i 10)
    ((if i.toInt < 0 then [0x2D] else []) ++ uitoa i.toInt.natAbs 10) := by
  intro buf tmp hroom htmp
  have hi := i.isLt
  dsimp only
  unfold itoaIn
  rw [if_neg (by decide)]
  by_cases hneg : i.toInt < 0
  · have hmagnitude : (-i).toNat = i.toInt.natAbs := by
      rw [BitVec.toNat_neg]
      rw [BitVec.toInt_eq_toNat_cond] at hneg ⊢
      split_ifs at hneg ⊢ <;> omega
    rw [if_pos hneg] at hroom ⊢
    rw [if_pos ⟨rfl, hneg⟩]
    cases buf with
    | nil => exact absurd hroom (Nat.not_lt_zero _)
    | cons b buf =>
      have hwrites := uitoaIn_writes (show 1 < 10 by decide) (by decide) (-i).isLt buf tmp
        (by rw [hmagnitude]; exact Nat.lt_of_succ_lt_succ hroom) htmp
      dsimp only at hwrites ⊢
      rw [hwrites, hmagnitude]
      simp [overwrite]
  · have hmagnitude : i.toNat = i.toInt.natAbs := by
      rw [BitVec.toInt_eq_toNat_cond] at hneg ⊢
      split_ifs at hneg ⊢ <;> omega
    rw [if_neg hneg, List.nil_append] at hroom ⊢
    rw [if_neg fun h => hneg h.2]
    rw [hmagnitude] at hi ⊢
    exact uitoaIn_writes (by decide) (by decide) hi buf tmp hroom htmp

/-- `uitoa` writes the numeral of its number, `itoa` that of the magnitude with a sign. -/
theorem number_texts :
    (∀ (i : BitVec 64) (base : ℕ), 2 ≤ base → base ≤ 16 → ∃ text,
      Writes (fun buf tmp => uitoaIn buf tmp i.toNat base) text ∧
        ∀ l, IsNumeral hexTable base i.toNat l ↔ l = text) ∧
    ∀ i : BitVec 64, ∃ text,
      Writes (fun buf tmp => itoaIn buf tmp i 10) ((if i.toInt < 0 then [0x2D] else []) ++ text) ∧
        ∀ l, IsNumeral hexTable 10 i.toInt.natAbs l ↔ l = text := by
  refine ⟨fun i base hbase hle => ?_, fun i => ?_⟩
  · exact ⟨_, uitoaIn_writes hbase hle i.isLt, isNumeral_uitoa hbase hle i.isLt⟩
  · have hmagnitude : i.toInt.natAbs < 2 ^ 64 := by
      have hi := i.isLt
      rw [BitVec.toInt_eq_toNat_cond]
      split_ifs <;> omega
    exact ⟨_, itoaIn_writes i, isNumeral_uitoa (by decide) (by decide) hmagnitude⟩

/-- The largest number in hexadecimal digits, and the least one with its sign. -/
theorem number_texts_extreme :
    (∃ text, Writes (fun buf tmp => uitoaIn buf tmp (0xFFFFFFFFFFFFFFFF#64).toNat 16) text ∧
      ∀ l, IsNumeral hexTable 16 (0xFFFFFFFFFFFFFFFF#64).toNat l ↔ l = text) ∧
    ∃ text, Writes (fun buf tmp => itoaIn buf tmp 0x8000000000000000#64 10)
      ((if (0x8000000000000000#64).toInt < 0 then [0x2D] else []) ++ text) ∧
        ∀ l, IsNumeral hexTable 10 (0x8000000000000000#64).toInt.natAbs l ↔ l = text :=
  ⟨number_texts.1 0xFFFFFFFFFFFFFFFF#64 16 (by decide) (by decide), number_texts.2 0x8000000000000000#64⟩

end UtkKernel.Console
