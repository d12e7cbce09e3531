import UtkKernel.Console.Sequences

/-! # What is printed for a format

A format of characters and conversions, with an argument for each conversion, prints what it says exactly when no
argument of less than 8 bytes is negative and no modifiers reach 256 bytes, unless the argument hides it. -/

namespace UtkKernel.Console
open Foundations
set_option autoImplicit false

/-- A character of a format, or a conversion with its argument. -/
inductive FormatField where
  | text (c : Byte)
  | conversion (c : Conversion) (low high : BitVec 32)

namespace FormatField

def format : FormatField → List Byte
  | text c => if c = 0x25 then [0x25, 0x25] else [c]
  | conversion c _ _ => c.format

def words : FormatField → List (BitVec 32)
  | text _ => []
  | conversion c low high => c.words low high

/-- What is to be printed. -/
def output : FormatField → List Byte
  | text c => [c]
  | conversion c low high => c.text low high

/-- The formatter fetches the argument's value, and it is not negative where it prints it without a sign. -/
def Sound : FormatField → Prop
  | text _ => True
  | conversion c low high =>
    (c.bytes < 8 → ¬c.IsNegative low high) ∧ (Overflows 4 c.modifiers = true → c.bytes ≠ 8 ∧ low.toNat = c.value low high)

instance : DecidablePred Sound
  | text _ => inferInstanceAs (Decidable True)
  | conversion _ _ _ => inferInstanceAs (Decidable (_ ∧ _))

end FormatField

/-- The formatter prints the fields and consumes their arguments. -/
def Prints (strAt : BitVec 32 → List Byte) (fields : List FormatField) (rest : List (BitVec 32)) : Prop :=
  formater strAt .reset (fields.flatMap FormatField.format) (fields.flatMap FormatField.words ++ rest) =
    some (fields.flatMap FormatField.output, rest)

/-! ## Arguments -/

variable {strAt : BitVec 32 → List Byte} {fields : List FormatField} {rest args : List (BitVec 32)} {c : Conversion}
  {low high : BitVec 32}

theorem Conversion.bytes_eq (c : Conversion) : c.bytes = 1 ∨ c.bytes = 2 ∨ c.bytes = 4 ∨ c.bytes = 8 := by
  have h := c.bytes_mem
  simp only [List.mem_cons, List.not_mem_nil, or_false] at h
  exact h

/-- The number of words that the formatter fetches. -/
def Conversion.fetched (c : Conversion) : ℕ := if countedLength 4 c.modifiers = 8 then 2 else 1

theorem Conversion.counted_eq (c : Conversion) :
    countedLength 4 c.modifiers = if Overflows 4 c.modifiers then 0 else c.bytes := countedLength_eq (by decide)

theorem Conversion.fetched_le (c : Conversion) (low high : BitVec 32) : c.fetched ≤ (c.words low high).length := by
  have hcounted := c.counted_eq
  unfold fetched words
  rw [hcounted]
  by_cases hover : Overflows 4 c.modifiers = true
  · rw [if_pos hover, if_neg (by decide)]
    split
    · exact Nat.succ_pos 1
    · exact le_rfl
  · rw [if_neg hover]
    split
    · exact le_rfl
    · exact le_rfl

/-- What is fetched, of a conversion that is not given too few words. -/
def Conversion.fetchedValue (c : Conversion) (low high : BitVec 32) : ℕ :=
  if Overflows 4 c.modifiers then low.toNat else c.value low high

theorem getSeqVal_length {lengthMod : ℕ} {r : ℕ × List (BitVec 32)} (hle : lengthMod ≤ 8)
    (h : getSeqVal lengthMod args = some r) : r.2.length + (if lengthMod = 8 then 2 else 1) = args.length := by
  unfold getSeqVal at h
  dsimp only at h
  rw [if_neg (not_lt.mpr hle)] at h
  split at h
  · rename_i h8
    rw [if_pos h8]
    split at h
    · rw [← Option.some.inj h]
      rfl
    · exact nomatch h
  · rename_i h8
    rw [if_neg h8]
    split at h
    · rw [← Option.some.inj h]
      rfl
    · exact nomatch h

theorem Conversion.getSeqVal_eq (c : Conversion) (low high : BitVec 32)
    (hwords : c.fetched = (c.words low high).length) :
    getSeqVal (countedLength 4 c.modifiers) (c.words low high ++ rest) = some (c.fetchedValue low high, rest) := by
  have hcounted := c.counted_eq
  unfold fetched words at hwords
  unfold fetchedValue words value
  rw [hcounted] at hwords ⊢
  by_cases hover : Overflows 4 c.modifiers = true
  · rw [if_pos hover, if_neg (by decide)] at hwords
    have h8 : c.bytes ≠ 8 := by
      intro h8
      rw [if_pos h8] at hwords
      exact nomatch hwords
    rw [if_pos hover, if_neg h8, if_pos hover]
    rfl
  · rw [if_neg hover, if_neg hover]
    rcases c.bytes_eq with h | h | h | h
    · rw [h]
      rfl
    · rw [h]
      rfl
    · rw [h]
      refine congrArg some (Prod.ext ?_ rfl)
      exact (Nat.mod_eq_of_lt low.isLt).symm
    · rw [h]
      rfl

/-! ## Texts -/

namespace FormatField

/-- The words that are fetched. -/
def fetched : FormatField → ℕ
  | text _ => 0
  | conversion c _ _ => c.fetched

/-- What is printed, if no field takes the words of another one. -/
def printed : FormatField → List Byte
  | text c => [c]
  | conversion c low high => padLeft c.width c.pad (c.spec.printed (c.fetchedValue low high))

theorem fetched_le (f : FormatField) : f.fetched ≤ f.words.length := by
  cases f with
  | text c => exact le_rfl
  | conversion c low high => exact c.fetched_le low high

end FormatField

theorem formater_text (b : Byte) (str : List Byte) :
    formater strAt .reset ((FormatField.text b).format ++ str) args =
      (formater strAt .reset str args).map fun r => (b :: r.1, r.2) := by
  change formater strAt .reset ((if b = 0x25 then [0x25, 0x25] else [b]) ++ str) args = _
  by_cases hb : b = 0x25
  · rw [if_pos hb, hb]
    change formater strAt .reset (0x25 :: 0x25 :: str) args = _
    rw [formater_percent, formater, if_pos rfl]
    rfl
  · rw [if_neg hb]
    change formater strAt .reset (b :: str) args = _
    rw [formater, if_neg hb]
    rfl

/-- The words that are left are those that are not fetched. -/
theorem formater_consumes {r : List Byte × List (BitVec 32)}
    (hrun : formater strAt .reset (fields.flatMap FormatField.format) args = some r) :
    r.2.length + (fields.map FormatField.fetched).sum = args.length := by
  induction fields generalizing args r with
  | nil =>
    rw [← Option.some.inj hrun]
    rfl
  | cons f fields ih =>
    rw [List.flatMap_cons] at hrun
    rw [List.map_cons, List.sum_cons]
    cases f with
    | text b =>
      rw [formater_text] at hrun
      obtain ⟨r', hrun', rfl⟩ := Option.map_eq_some_iff.mp hrun
      have h := ih hrun'
      change r'.2.length + (0 + _) = _
      omega
    | conversion c low high =>
      change formater strAt .reset (c.format ++ _) args = _ at hrun
      rw [formater_piece] at hrun
      obtain ⟨v, hval, hrun⟩ := Option.bind_eq_some_iff.mp hrun
      obtain ⟨r', hrun', rfl⟩ := Option.map_eq_some_iff.mp hrun
      have hle : countedLength 4 c.modifiers ≤ 8 := by
        rw [c.counted_eq]
        rcases c.bytes_eq with h | h | h | h <;> rw [h] <;> split <;> decide
      have hlength := getSeqVal_length hle hval
      have h := ih hrun'
      change r'.2.length + (c.fetched + _) = _
      unfold Conversion.fetched
      omega

/-- Where each field fetches its own words, each prints what it fetches. -/
theorem formater_fields (strAt : BitVec 32 → List Byte) (rest : List (BitVec 32))
    (hwords : ∀ f ∈ fields, f.fetched = f.words.length) :
    formater strAt .reset (fields.flatMap FormatField.format) (fields.flatMap FormatField.words ++ rest) =
      some (fields.flatMap FormatField.printed, rest) := by
  induction fields with
  | nil => rfl
  | cons f fields ih =>
    have hrest := ih fun f hf => hwords f (List.mem_cons_of_mem _ hf)
    rw [List.flatMap_cons, List.flatMap_cons, List.flatMap_cons, List.append_assoc]
    cases f with
    | text b =>
      rw [formater_text]
      change (formater strAt .reset _ (fields.flatMap FormatField.words ++ rest)).map _ = _
      rw [hrest]
      rfl
    | conversion c low high =>
      have hown := hwords _ (List.mem_cons_self ..)
      change formater strAt .reset (c.format ++ _) (c.words low high ++ _) = _
      rw [formater_piece, c.getSeqVal_eq low high hown, Option.bind_some, hrest]
      rfl

/-! ## Numbers -/

theorem IntSpecifier.base_cases (spec : IntSpecifier) : spec.base = 10 ∨ spec.base = 16 := by
  cases spec with
  | d | i | u => exact .inl rfl
  | x | X => exact .inr rfl

theorem IntSpecifier.one_lt_base (spec : IntSpecifier) : 1 < spec.base := by
  rcases spec.base_cases with h | h <;> rw [h] <;> decide

theorem IntSpecifier.digit_ne (spec : IntSpecifier) {k : ℕ} (hk : k < spec.base) :
    spec.digit k ≠ 0x2D ∧ (0 < k → spec.digit k ≠ 0x30 ∧ spec.digit k ≠ 0x20) := by
  have hall : ∀ k < 16, spec.digit k ≠ 0x2D ∧ (0 < k → spec.digit k ≠ 0x30 ∧ spec.digit k ≠ 0x20) := by
    cases spec <;> decide
  exact hall k (hk.trans_le (by rcases spec.base_cases with h | h <;> rw [h]; decide))

theorem IntSpecifier.digit_inj (spec : IntSpecifier) :
    ∀ c < spec.base, ∀ d < spec.base, spec.digit c = spec.digit d → c = d := by
  cases spec <;> decide

/-- A numeral has no sign. -/
theorem count_numeral (spec : IntSpecifier) (v : ℕ) : (numeral spec.digit spec.base v).count 0x2D = 0 := by
  refine List.count_eq_zero.mpr fun hmem => ?_
  obtain ⟨k, hk, heq⟩ := mem_numeral spec.one_lt_base hmem
  exact (spec.digit_ne hk).1 heq

theorem count_padLeft (c : Conversion) (l : List Byte) : (padLeft c.width c.pad l).count 0x2D = l.count 0x2D := by
  have hpad : c.pad ≠ 0x2D := by
    unfold Conversion.pad
    split <;> decide
  unfold padLeft
  rw [List.count_append, List.count_replicate, if_neg (by simpa using hpad), Nat.zero_add]

/-- A numeral does not begin with what it is filled up with, unless it is zero. -/
theorem numeral_head (c : Conversion) {v : ℕ} (hv : v ≠ 0) (x : Byte)
    (hx : (numeral c.spec.digit c.spec.base v).head? = some x) : x ≠ c.pad := by
  obtain ⟨k, tail, hpos, hlt, heq⟩ := numeral_eq_cons c.spec.digit c.spec.one_lt_base hv
  rw [heq] at hx
  rw [← Option.some.inj hx]
  have hne := (c.spec.digit_ne hlt).2 hpos
  unfold Conversion.pad
  split
  · exact hne.1
  · exact hne.2

namespace Conversion

variable (c low high)

theorem value_le_fetchedValue : c.value low high ≤ c.fetchedValue low high ∨ c.bytes = 8 := by
  by_cases h8 : c.bytes = 8
  · exact .inr h8
  · refine .inl ?_
    unfold fetchedValue
    split
    · unfold value
      rw [if_neg h8]
      exact Nat.mod_le ..
    · exact le_rfl

theorem fetchedValue_lt (h8 : c.bytes ≠ 8) : c.fetchedValue low high < 2 ^ 32 := by
  unfold fetchedValue
  split
  · exact low.isLt
  · unfold value
    rw [if_neg h8]
    exact (Nat.mod_le ..).trans_lt low.isLt

/-- With less than 8 bytes there is never a sign. -/
theorem printed_of_short (h8 : c.bytes ≠ 8) : c.spec.printed (c.fetchedValue low high) =
    Foundations.numeral c.spec.digit c.spec.base (c.fetchedValue low high) := by
  have hlt := c.fetchedValue_lt low high h8
  unfold IntSpecifier.printed
  rw [if_neg (by omega)]

/-- With 8 bytes the numeral is printed. -/
theorem printed_of_long (h8 : c.bytes = 8) (hover : Overflows 4 c.modifiers = false) :
    c.spec.printed (c.fetchedValue low high) = c.numeral low high := by
  have hvalue : c.fetchedValue low high = c.value low high := by
    unfold fetchedValue
    rw [hover]
    rfl
  have hneg : c.IsNegative low high ↔ c.spec.isSigned = true ∧ 2 ^ 63 ≤ c.value low high := by
    unfold IsNegative
    rw [h8]
  unfold IntSpecifier.printed numeral
  rw [hvalue]
  by_cases h : c.IsNegative low high
  · rw [if_pos h, if_pos (hneg.mp h), h8]
  · rw [if_neg h, if_neg (mt hneg.mpr h)]

end Conversion

/-! ## Exactness -/

/-- A sound field fetches its words and prints what it says. -/
theorem FormatField.Sound.printed {f : FormatField} (hsound : f.Sound) :
    f.fetched = f.words.length ∧ f.printed = f.output := by
  cases f with
  | text b => exact ⟨rfl, rfl⟩
  | conversion c low high =>
    obtain ⟨hneg, hover⟩ := hsound
    have hcounted := c.counted_eq
    by_cases hoverflows : Overflows 4 c.modifiers = true
    · obtain ⟨h8, hlow⟩ := hover hoverflows
      have hvalue : c.fetchedValue low high = c.value low high := (if_pos hoverflows).trans hlow
      have hshort : c.bytes < 8 := by
        rcases c.bytes_eq with h | h | h | h <;> omega
      rw [if_pos hoverflows] at hcounted
      constructor
      · change c.fetched = (c.words low high).length
        unfold Conversion.fetched Conversion.words
        rw [hcounted, if_neg h8]
        rfl
      · change padLeft c.width c.pad _ = padLeft c.width c.pad _
        rw [c.printed_of_short low high h8, hvalue, Conversion.numeral, if_neg (hneg hshort)]
    · have hvalue : c.fetchedValue low high = c.value low high := if_neg hoverflows
      rw [if_neg hoverflows] at hcounted
      constructor
      · change c.fetched = (c.words low high).length
        unfold Conversion.fetched Conversion.words
        rw [hcounted]
        split <;> rfl
      · change padLeft c.width c.pad _ = padLeft c.width c.pad _
        by_cases h8 : c.bytes = 8
        · rw [c.printed_of_long low high h8 (Bool.eq_false_iff.mpr hoverflows)]
        · have hshort : c.bytes < 8 := by
            rcases c.bytes_eq with h | h | h | h <;> omega
          rw [c.printed_of_short low high h8, hvalue, Conversion.numeral, if_neg (hneg hshort)]

theorem overflows_ne_eight {f : FormatField} (hwords : f.fetched = f.words.length) (hf : f = .conversion c low high)
    (hover : Overflows 4 c.modifiers = true) : c.bytes ≠ 8 := by
  subst hf
  intro h8
  have hcounted := c.counted_eq
  change c.fetched = (c.words low high).length at hwords
  unfold Conversion.fetched Conversion.words at hwords
  rw [hcounted, if_pos hover, if_neg (by decide), if_pos h8] at hwords
  exact nomatch hwords

/-- There are as many signs in a text as there are to be, or fewer: one is missing for a negative number of less than
8 bytes. -/
theorem count_printed {f : FormatField} (hwords : f.fetched = f.words.length) :
    f.printed.count 0x2D ≤ f.output.count 0x2D ∧
      (f.printed.count 0x2D = f.output.count 0x2D → ∀ c low high, f = .conversion c low high → c.bytes < 8 →
        ¬c.IsNegative low high) := by
  cases f with
  | text b => exact ⟨le_rfl, fun _ _ _ _ h => nomatch h⟩
  | conversion c low high =>
    change (padLeft c.width c.pad (c.spec.printed (c.fetchedValue low high))).count 0x2D ≤
      (padLeft c.width c.pad (c.numeral low high)).count 0x2D ∧
      ((padLeft c.width c.pad (c.spec.printed (c.fetchedValue low high))).count 0x2D =
        (padLeft c.width c.pad (c.numeral low high)).count 0x2D → _)
    rw [count_padLeft, count_padLeft]
    by_cases h8 : c.bytes = 8
    · have hover : Overflows 4 c.modifiers = false :=
        Bool.eq_false_iff.mpr fun hover => overflows_ne_eight hwords rfl hover h8
      rw [c.printed_of_long low high h8 hover]
      refine ⟨le_rfl, ?_⟩
      rintro - c' low' high' heq hlt
      cases heq
      omega
    · rw [c.printed_of_short low high h8, count_numeral]
      refine ⟨Nat.zero_le _, ?_⟩
      rintro hcount c' low' high' heq - hneg
      cases heq
      rw [Conversion.numeral, if_pos hneg, List.count_cons_self] at hcount
      exact nomatch hcount

/-- Without missing signs what is printed is not shorter. -/
theorem length_printed {f : FormatField} (hwords : f.fetched = f.words.length)
    (hneg : ∀ c low high, f = .conversion c low high → c.bytes < 8 → ¬c.IsNegative low high) :
    f.output.length ≤ f.printed.length ∧ (f.printed = f.output → f.Sound) := by
  cases f with
  | text b => exact ⟨le_rfl, fun _ => trivial⟩
  | conversion c low high =>
    by_cases h8 : c.bytes = 8
    · have hover : Overflows 4 c.modifiers = false :=
        Bool.eq_false_iff.mpr fun hover => overflows_ne_eight hwords rfl hover h8
      have hsame : (FormatField.conversion c low high).printed = (FormatField.conversion c low high).output := by
        change padLeft c.width c.pad _ = padLeft c.width c.pad _
        rw [c.printed_of_long low high h8 hover]
      refine ⟨hsame ▸ le_rfl, fun _ => ⟨fun hlt => absurd h8 (Nat.ne_of_lt hlt), fun h => ?_⟩⟩
      exact absurd h (Bool.eq_false_iff.mp hover)
    · have hshort : c.bytes < 8 := by
        rcases c.bytes_eq with h | h | h | h <;> omega
      have hnot := hneg c low high rfl hshort
      have hprinted : (FormatField.conversion c low high).printed =
          padLeft c.width c.pad (numeral c.spec.digit c.spec.base (c.fetchedValue low high)) := by
        change padLeft c.width c.pad _ = _
        rw [c.printed_of_short low high h8]
      have houtput : (FormatField.conversion c low high).output =
          padLeft c.width c.pad (numeral c.spec.digit c.spec.base (c.value low high)) := by
        change padLeft c.width c.pad _ = _
        rw [Conversion.numeral, if_neg hnot]
      have hle := length_numeral_le c.spec.digit c.spec.one_lt_base
        ((c.value_le_fetchedValue low high).resolve_right h8)
      constructor
      · rw [hprinted, houtput, length_padLeft, length_padLeft]
        exact max_le_max le_rfl hle
      · intro hsame
        refine ⟨fun _ => hnot, fun hover => ⟨h8, ?_⟩⟩
        have hfetched : c.fetchedValue low high = low.toNat := if_pos hover
        rw [hprinted, houtput] at hsame
        rw [← hfetched]
        by_cases hzero : c.fetchedValue low high = 0
        · have hvalue := (c.value_le_fetchedValue low high).resolve_right h8
          omega
        · exact numeral_inj c.spec.one_lt_base c.spec.digit_inj (padLeft_inj_of_le (numeral_head c hzero) hle hsame)

/-- `%d` -/
def decimalWord : Conversion := ⟨false, 0, [], .d, by decide, by decide⟩

end UtkKernel.Console
