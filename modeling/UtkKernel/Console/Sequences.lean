import UtkKernel.Console.Formater
import UtkKernel.Foundations.Numerals

/-! # Sequences of a format

A format is made of characters and of conversions of integers. What the formatter does with a conversion depends on the
length that it counts in 8 bits: a length of 256 is 0, which stands for a word. -/

namespace UtkKernel.Console
open Foundations
set_option autoImplicit false

variable {strAt : BitVec 32 → List Byte} {m : FmtMods} {str : List Byte} {args : List (BitVec 32)} {n : ℕ}

/-! ## Formats -/

inductive LengthModifier where
  | h
  | l
  deriving DecidableEq, Repr

def LengthModifier.byte : LengthModifier → Byte
  | h => 0x68
  | l => 0x6C

/-- The bytes that modifiers give: each halves or doubles what the ones before give. -/
def lengthFrom : ℕ → List LengthModifier → ℕ
  | n, [] => n
  | n, .h :: rest => lengthFrom (n / 2) rest
  | n, .l :: rest => lengthFrom (n * 2) rest

inductive IntSpecifier where
  | d
  | i
  | u
  | x
  | X
  deriving DecidableEq, Repr

namespace IntSpecifier

def byte : IntSpecifier → Byte
  | d => 0x64
  | i => 0x69
  | u => 0x75
  | x => 0x78
  | X => 0x58

def isSigned : IntSpecifier → Bool
  | d | i => true
  | u | x | X => false

def base : IntSpecifier → ℕ
  | d | i | u => 10
  | x | X => 16

/-- A digit of the numerals of a conversion. -/
def digit (spec : IntSpecifier) (k : ℕ) : Byte :=
  if k < 10 then BitVec.ofNat 8 (0x30 + k) else BitVec.ofNat 8 ((if spec = X then 0x41 else 0x61) + (k - 10))

end IntSpecifier

/-- A conversion of an integer of 1, 2, 4 or 8 bytes, filled up to a width with blanks or zeros. -/
structure Conversion where
  zeros : Bool
  width : ℕ
  modifiers : List LengthModifier
  spec : IntSpecifier
  width_lt : width < 256
  bytes_mem : lengthFrom 4 modifiers ∈ [1, 2, 4, 8]

namespace Conversion

variable (c : Conversion)

def bytes : ℕ := lengthFrom 4 c.modifiers

def pad : Byte := if c.zeros then 0x30 else 0x20

def format : List Byte :=
  0x25 :: (if c.zeros then [0x30] else []) ++
    (Nat.digits 10 c.width).reverse.map (fun k => BitVec.ofNat 8 (0x30 + k)) ++
    c.modifiers.map LengthModifier.byte ++ [c.spec.byte]

/-- The words of an argument: the high one is there for 8 bytes only. -/
def words (low high : BitVec 32) : List (BitVec 32) := if c.bytes = 8 then [low, high] else [low]

/-- The argument's value at its width, without a sign. -/
def value (low high : BitVec 32) : ℕ :=
  if c.bytes = 8 then low.toNat + 2 ^ 32 * high.toNat else low.toNat % 2 ^ (8 * c.bytes)

def IsNegative (low high : BitVec 32) : Prop := c.spec.isSigned = true ∧ 2 ^ (8 * c.bytes - 1) ≤ c.value low high

instance (low high : BitVec 32) : Decidable (c.IsNegative low high) := inferInstanceAs (Decidable (_ ∧ _))

/-- The canonical numeral of the argument's value. -/
def numeral (low high : BitVec 32) : List Byte :=
  if c.IsNegative low high then 0x2D :: Foundations.numeral c.spec.digit c.spec.base (2 ^ (8 * c.bytes) - c.value low high)
  else Foundations.numeral c.spec.digit c.spec.base (c.value low high)

def text (low high : BitVec 32) : List Byte := padLeft c.width c.pad (c.numeral low high)

end Conversion

/-! ## Lengths -/

/-- The length that the formatter counts. -/
def countedLength : ℕ → List LengthModifier → ℕ
  | n, [] => n
  | n, .h :: rest => countedLength (n / 2) rest
  | n, .l :: rest => countedLength (n * 2 % 2 ^ 8) rest

/-- Some of the modifiers give 256 bytes. -/
def Overflows : ℕ → List LengthModifier → Bool
  | _, [] => false
  | n, .h :: rest => Overflows (n / 2) rest
  | n, .l :: rest => decide (256 ≤ n * 2) || Overflows (n * 2) rest

theorem countedLength_zero (modifiers : List LengthModifier) : countedLength 0 modifiers = 0 := by
  induction modifiers with
  | nil => rfl
  | cons modifier rest ih =>
    cases modifier with
    | h => exact ih
    | l => exact ih

/-- What the modifiers make of the length of a word before it is 256. -/
def shortLengths : List ℕ := [0, 1, 2, 4, 8, 16, 32, 64, 128]

theorem countedLength_eq {modifiers : List LengthModifier} (hn : n ∈ shortLengths) :
    countedLength n modifiers = if Overflows n modifiers then 0 else lengthFrom n modifiers := by
  have hhalf : ∀ n ∈ shortLengths, n / 2 ∈ shortLengths := by decide
  have hdouble : ∀ n ∈ shortLengths, n * 2 ∈ shortLengths ∨ n * 2 = 256 := by decide
  induction modifiers generalizing n with
  | nil => rfl
  | cons modifier rest ih =>
    cases modifier with
    | h => exact ih (hhalf n hn)
    | l =>
      rw [countedLength, lengthFrom, Overflows]
      rcases hdouble n hn with hshort | h256
      · have hlt : n * 2 < 256 := by
          have hall : ∀ k ∈ shortLengths, k < 256 := by decide
          exact hall _ hshort
        rw [decide_eq_false (not_le.mpr hlt), Bool.false_or,
          Nat.mod_eq_of_lt (show n * 2 < 2 ^ 8 from hlt)]
        exact ih hshort
      · rw [h256, show 256 % 2 ^ 8 = 0 from rfl, countedLength_zero]
        rfl

/-! ## Modifiers -/

theorem formater_percent :
    formater strAt .reset (0x25 :: str) args = formater strAt ⟨true, 4, 0, false, 0x20⟩ str args := by
  rw [formater, if_pos rfl]
  rfl

theorem formater_mods {c : Byte} {m' : FmtMods} (hm : m.modifier = true) (hc : c ≠ 0x25)
    (hchar : formatChar strAt m c args = some (.mods m')) :
    formater strAt m (c :: str) args = formater strAt m' str args := by
  rw [formater, if_neg hc, if_pos hm, hchar]

theorem formater_print {c : Byte} {text : List Byte} {rest : List (BitVec 32)} (hm : m.modifier = true) (hc : c ≠ 0x25)
    (hchar : formatChar strAt m c args = some (.print text rest)) :
    formater strAt m (c :: str) args = (formater strAt .reset str rest).map fun r => (text ++ r.1, r.2) := by
  rw [formater, if_neg hc, if_pos hm, hchar]

theorem formater_none {c : Byte} (hm : m.modifier = true) (hc : c ≠ 0x25) (hchar : formatChar strAt m c args = none) :
    formater strAt m (c :: str) args = none := by
  rw [formater, if_neg hc, if_pos hm, hchar]

theorem formatChar_digit {k : ℕ} (hk : k < 10) :
    formatChar strAt m (BitVec.ofNat 8 (0x30 + k)) args = some (.mods (padDigit m k)) := by
  interval_cases k <;> rfl

theorem digit_ne_percent {k : ℕ} (hk : k < 10) : BitVec.ofNat 8 (0x30 + k) ≠ 0x25 := by
  have h := BitVec.toNat_ofNat (0x30 + k) 8
  intro heq
  rw [heq] at h
  change 37 = _ at h
  omega

/-- The number of a width grows with each of its digits. -/
theorem le_foldl_digits (digits : List ℕ) (p : ℕ) : p ≤ digits.foldl (fun p k => p * 10 + k) p := by
  induction digits generalizing p with
  | nil => exact le_rfl
  | cons k rest ih => exact (show p ≤ p * 10 + k by omega).trans (ih _)

/-- The digits of a width below 256, of which the first one is not zero, are its padding. -/
theorem formater_digits {digits : List ℕ} (hm : m.modifier = true) (hdigits : ∀ k ∈ digits, k < 10)
    (hhead : m.paddingMod ≠ 0 ∨ digits.head? ≠ some 0) (hlt : digits.foldl (fun p k => p * 10 + k) m.paddingMod < 256) :
    formater strAt m (digits.map (fun k => BitVec.ofNat 8 (0x30 + k)) ++ str) args =
      formater strAt { m with paddingMod := digits.foldl (fun p k => p * 10 + k) m.paddingMod } str args := by
  induction digits generalizing m with
  | nil => rfl
  | cons k rest ih =>
    have hk := hdigits k (List.mem_cons_self ..)
    have hnext : m.paddingMod * 10 + k < 256 := (le_foldl_digits rest _).trans_lt hlt
    have hpos : ¬(k = 0 ∧ m.paddingMod = 0) := by
      rintro ⟨rfl, hzero⟩
      exact hhead.elim (fun h => h hzero) fun h => h rfl
    have hpad : padDigit m k = { m with paddingMod := m.paddingMod * 10 + k } := by
      rw [padDigit, if_neg hpos, Nat.mod_eq_of_lt (show m.paddingMod * 10 + k < 2 ^ 8 from hnext)]
    rw [List.map_cons, List.cons_append, formater_mods hm (digit_ne_percent hk) (formatChar_digit hk), hpad]
    exact ih hm (fun k hk => hdigits k (List.mem_cons_of_mem _ hk)) (.inl (by dsimp only; omega)) hlt

theorem formatChar_modifier (modifier : LengthModifier) :
    formatChar strAt m modifier.byte args = some (.mods { m with lengthMod := countedLength m.lengthMod [modifier] }) := by
  cases modifier with
  | h => rfl
  | l => rfl

theorem formater_modifiers {modifiers : List LengthModifier} (hm : m.modifier = true) :
    formater strAt m (modifiers.map LengthModifier.byte ++ str) args =
      formater strAt { m with lengthMod := countedLength m.lengthMod modifiers } str args := by
  induction modifiers generalizing m with
  | nil => rfl
  | cons modifier rest ih =>
    have hc : modifier.byte ≠ 0x25 := by cases modifier <;> decide
    rw [List.map_cons, List.cons_append, formater_mods hm hc (formatChar_modifier modifier)]
    cases modifier with
    | h => exact ih hm
    | l => exact ih hm

/-! ## Conversions -/

/-- The state behind the modifiers of a conversion. -/
def Conversion.mods (c : Conversion) : FmtMods := ⟨true, countedLength 4 c.modifiers, c.width, false, c.pad⟩

theorem foldl_digits (width : ℕ) : (Nat.digits 10 width).reverse.foldl (fun p k => p * 10 + k) 0 = width := by
  rw [List.foldl_reverse]
  have h := Nat.ofDigits_digits 10 width
  rw [Nat.ofDigits_eq_foldr] at h
  refine Eq.trans ?_ h
  congr 1
  funext k p
  rw [Nat.mul_comm, Nat.add_comm]
  rfl

theorem head?_digits_ne_zero (width : ℕ) : (Nat.digits 10 width).reverse.head? ≠ some 0 := by
  by_cases hwidth : width = 0
  · rw [hwidth]
    exact nofun
  · rw [List.head?_reverse, List.getLast?_eq_some_getLast (Nat.digits_ne_nil_iff_ne_zero.mpr hwidth)]
    exact fun h => Nat.getLast_digit_ne_zero 10 hwidth (Option.some.inj h)

/-- A conversion is read up to its specifier. -/
theorem formater_conversion (c : Conversion) :
    formater strAt .reset (c.format ++ str) args = formater strAt c.mods (c.spec.byte :: str) args := by
  have hdigits : ∀ k ∈ (Nat.digits 10 c.width).reverse, k < 10 := fun k hk =>
    Nat.digits_lt_base (by decide) (List.mem_reverse.mp hk)
  have hrest : ∀ pad, formater strAt ⟨true, 4, 0, false, pad⟩
      ((Nat.digits 10 c.width).reverse.map (fun k => BitVec.ofNat 8 (0x30 + k)) ++
        (c.modifiers.map LengthModifier.byte ++ c.spec.byte :: str)) args =
      formater strAt ⟨true, countedLength 4 c.modifiers, c.width, false, pad⟩ (c.spec.byte :: str) args := by
    intro pad
    have hfold := foldl_digits c.width
    rw [formater_digits rfl hdigits (.inr (head?_digits_ne_zero c.width)) (by rw [hfold]; exact c.width_lt), hfold,
      formater_modifiers rfl]
  unfold Conversion.format Conversion.mods Conversion.pad
  rw [List.append_assoc, List.append_assoc, List.append_assoc, List.cons_append, formater_percent]
  cases c.zeros with
  | false => exact hrest 0x20
  | true =>
    have hzero : formatChar strAt ⟨true, 4, 0, false, 0x20⟩ 0x30 args = some (.mods ⟨true, 4, 0, false, 0x30⟩) := rfl
    rw [if_pos rfl, if_pos rfl, List.cons_append]
    exact (formater_mods rfl (by decide) hzero).trans (hrest 0x30)

/-! ## Numerals -/

theorem uitoaTmp_eq {base fuel i : ℕ} (hbase : 1 < base) (hi : i < base ^ fuel) :
    uitoaTmp fuel i base = (Nat.digits base i).map hexTable := by
  induction fuel generalizing i with
  | zero =>
    rw [pow_zero, Nat.lt_one_iff] at hi
    rw [hi, Nat.digits_zero]
    rfl
  | succ fuel ih =>
    rw [uitoaTmp]
    by_cases hzero : i = 0
    · rw [hzero, if_neg (not_not.mpr rfl), Nat.digits_zero]
      rfl
    · rw [if_pos hzero, Nat.digits_def' hbase (Nat.pos_of_ne_zero hzero), List.map_cons]
      rw [ih (Nat.div_lt_of_lt_mul (by rwa [pow_succ, Nat.mul_comm] at hi))]

theorem uitoa_eq {base i : ℕ} (hbase : 1 < base) (hle : base ≤ 16) (hi : i < 2 ^ 64) :
    uitoa i base = Foundations.numeral hexTable base i := by
  unfold uitoa
  by_cases hzero : i = 0
  · rw [if_pos (.inl hzero), hzero]
    rfl
  · rw [if_neg (by omega), numeral_of_ne_zero hzero, uitoaTmp_eq hbase (hi.trans_le (Nat.pow_le_pow_left hbase 64)),
      List.map_reverse]

/-- What a conversion prints of a number of 64 bits. -/
def IntSpecifier.printed (spec : IntSpecifier) (v : ℕ) : List Byte :=
  if spec.isSigned = true ∧ 2 ^ 63 ≤ v then 0x2D :: Foundations.numeral spec.digit spec.base (2 ^ 64 - v)
  else Foundations.numeral spec.digit spec.base v

theorem numeral_decimal (spec : IntSpecifier) (v : ℕ) :
    Foundations.numeral hexTable 10 v = Foundations.numeral spec.digit 10 v := by
  refine numeral_congr (by decide) fun k hk => ?_
  rw [hexTable, if_pos hk, IntSpecifier.digit, if_pos hk]

theorem itoa_eq {spec : IntSpecifier} {v : ℕ} (hsigned : spec.isSigned = true) (hv : v < 2 ^ 64) :
    itoa (BitVec.ofNat 64 v) 10 = spec.printed v := by
  have hbase : spec.base = 10 := by cases spec <;> first | rfl | exact nomatch hsigned
  have hnat : (BitVec.ofNat 64 v).toNat = v := Nat.mod_eq_of_lt hv
  have hneg : (BitVec.ofNat 64 v).toInt < 0 ↔ 2 ^ 63 ≤ v := by
    rw [BitVec.toInt_eq_toNat_cond, hnat]
    split_ifs <;> omega
  unfold itoa IntSpecifier.printed
  rw [if_neg (by decide), hbase, hnat]
  by_cases hv63 : 2 ^ 63 ≤ v
  · rw [if_pos ⟨rfl, hneg.mpr hv63⟩, if_pos ⟨hsigned, hv63⟩, BitVec.toNat_neg, hnat, Nat.mod_eq_of_lt (by omega),
      uitoa_eq (by decide) (by decide) (by omega), numeral_decimal spec]
  · rw [if_neg fun h => hv63 (hneg.mp h.2), if_neg fun h => hv63 h.2, uitoa_eq (by decide) (by decide) hv,
      numeral_decimal spec]

theorem tolower_eq {v : ℕ} (hv : v < 2 ^ 64) : tolower (uitoa v 16) = IntSpecifier.x.printed v := by
  have hdigit : ∀ d < 16, ((fun c : Byte => if c > 64 ∧ c < 91 then c + 32 else c) ∘ hexTable) d = IntSpecifier.x.digit d := by
    decide
  rw [uitoa_eq (by decide) (by decide) hv, tolower, map_numeral, numeral_congr (by decide) hdigit]
  rfl

theorem toupper_eq {v : ℕ} (hv : v < 2 ^ 64) : toupper (uitoa v 16) = IntSpecifier.X.printed v := by
  have hdigit : ∀ d < 16, ((fun c : Byte => if c > 96 ∧ c < 123 then c - 32 else c) ∘ hexTable) d = IntSpecifier.X.digit d := by
    decide
  rw [uitoa_eq (by decide) (by decide) hv, toupper, map_numeral, numeral_congr (by decide) hdigit]
  rfl

theorem getSeqVal_lt {lengthMod : ℕ} {r : ℕ × List (BitVec 32)} (h : getSeqVal lengthMod args = some r) : r.1 < 2 ^ 64 := by
  unfold getSeqVal at h
  dsimp only at h
  generalize (if lengthMod > 8 then 8 else lengthMod) = k at h
  split at h
  · split at h
    · rename_i low high rest
      rw [← Option.some.inj h]
      have h1 := low.isLt
      have h2 := high.isLt
      dsimp only
      omega
    · exact nomatch h
  · split at h
    · rename_i word rest
      have h1 := word.isLt
      rw [← Option.some.inj h]
      dsimp only
      split_ifs <;> omega
    · exact nomatch h

/-- What the specifier of a conversion prints. -/
theorem formatChar_specifier (strAt : BitVec 32 → List Byte) (args : List (BitVec 32)) (c : Conversion) :
    formatChar strAt c.mods c.spec.byte args = (getSeqVal (countedLength 4 c.modifiers) args).map fun r =>
      .print (padLeft c.width c.pad (c.spec.printed r.1)) r.2 := by
  have hmap : ∀ print : ℕ → List Byte, (∀ v < 2 ^ 64, print v = c.spec.printed v) →
      ((getSeqVal (countedLength 4 c.modifiers) args).map fun r => FmtStep.print (padSeq c.mods (print r.1)) r.2) =
        (getSeqVal (countedLength 4 c.modifiers) args).map fun r =>
          .print (padLeft c.width c.pad (c.spec.printed r.1)) r.2 := by
    intro print hprint
    refine Option.map_congr fun r hr => ?_
    rw [hprint r.1 (getSeqVal_lt hr)]
    rfl
  cases hspec : c.spec with
  | d =>
    refine Eq.trans ?_ ((hmap (fun v => itoa (BitVec.ofNat 64 v) 10) fun v hv => itoa_eq (by rw [hspec]; rfl) hv).trans ?_)
    · rfl
    · rw [hspec]
  | i =>
    refine Eq.trans ?_ ((hmap (fun v => itoa (BitVec.ofNat 64 v) 10) fun v hv => itoa_eq (by rw [hspec]; rfl) hv).trans ?_)
    · rfl
    · rw [hspec]
  | u =>
    refine Eq.trans ?_ ((hmap (fun v => uitoa v 10) fun v hv => ?_).trans ?_)
    · rfl
    · rw [uitoa_eq (by decide) (by decide) hv, numeral_decimal c.spec, hspec]
      rfl
    · rw [hspec]
  | x =>
    refine Eq.trans ?_ ((hmap (fun v => tolower (uitoa v 16)) fun v hv => ?_).trans ?_)
    · rfl
    · rw [tolower_eq hv, hspec]
    · rw [hspec]
  | X =>
    refine Eq.trans ?_ ((hmap (fun v => toupper (uitoa v 16)) fun v hv => ?_).trans ?_)
    · rfl
    · rw [toupper_eq hv, hspec]
    · rw [hspec]

/-- A conversion prints the number that it fetches. -/
theorem formater_piece (c : Conversion) : formater strAt .reset (c.format ++ str) args =
    (getSeqVal (countedLength 4 c.modifiers) args).bind fun r =>
      (formater strAt .reset str r.2).map fun r' => (padLeft c.width c.pad (c.spec.printed r.1) ++ r'.1, r'.2) := by
  have hspec := formatChar_specifier strAt args c
  have hbyte : c.spec.byte ≠ 0x25 := by cases c.spec <;> decide
  rw [formater_conversion]
  cases hval : getSeqVal (countedLength 4 c.modifiers) args with
  | none =>
    rw [hval] at hspec
    exact formater_none rfl hbyte hspec
  | some r =>
    rw [hval] at hspec
    exact formater_print rfl hbyte hspec

end UtkKernel.Console
