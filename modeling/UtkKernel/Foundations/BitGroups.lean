import Mathlib.Data.List.Induction
import Mathlib.Data.Nat.Bitwise
import Mathlib.Order.Nat

/-! # Words put together from groups of bits

A word is shifted by the width of a group for each group that is put behind it. The groups may be wider than they
should be: they are put together bit by bit. -/

namespace UtkKernel.Foundations
set_option autoImplicit false

variable {n : ℕ} (w : ℕ) {x e : BitVec n} {l : List (BitVec n)} {p m : ℕ}

/-- The groups, the first one in front. -/
def grouped (l : List (BitVec n)) : BitVec n := l.foldl (fun out d => (out <<< w) ||| d) 0#n

/-- One of the groups has a bit there. -/
def HasBit (l : List (BitVec n)) (p : ℕ) : Prop :=
  ∃ k d, l.reverse[k]? = some d ∧ w * k ≤ p ∧ d.getLsbD (p - w * k) = true

theorem not_hasBit_nil (p : ℕ) : ¬ HasBit w ([] : List (BitVec n)) p := by
  rintro ⟨k, d, hd, -⟩
  simp at hd

/-- The last group, or one before it. -/
theorem hasBit_concat (l : List (BitVec n)) (d : BitVec n) (p : ℕ) :
    HasBit w (l ++ [d]) p ↔ d.getLsbD p = true ∨ (w ≤ p ∧ HasBit w l (p - w)) := by
  unfold HasBit
  rw [List.reverse_append, List.reverse_singleton, List.singleton_append]
  constructor
  · rintro ⟨k, d', hd', hle, hbit⟩
    cases k with
    | zero =>
      simp only [List.getElem?_cons_zero, Option.some.injEq] at hd'
      subst hd'
      exact .inl (by simpa using hbit)
    | succ k =>
      rw [Nat.mul_succ] at hle hbit
      rw [List.getElem?_cons_succ] at hd'
      refine .inr ⟨by omega, k, d', hd', by omega, ?_⟩
      rwa [show p - w - w * k = p - (w * k + w) by omega]
  · rintro (hbit | ⟨hw, k, d', hd', hle, hbit⟩)
    · exact ⟨0, d, rfl, by simp, by simpa using hbit⟩
    · refine ⟨k + 1, d', by simpa using hd', ?_, ?_⟩
      · rw [Nat.mul_succ]
        omega
      · rwa [Nat.mul_succ, show p - (w * k + w) = p - w - w * k by omega]

theorem grouped_concat (l : List (BitVec n)) (d : BitVec n) : grouped w (l ++ [d]) = (grouped w l <<< w) ||| d := by
  simp [grouped]

/-- The bits of the word are those of its groups. -/
theorem getLsbD_grouped (l : List (BitVec n)) (hp : p < n) : (grouped w l).getLsbD p = true ↔ HasBit w l p := by
  induction l using List.reverseRecOn generalizing p with
  | nil => simp [grouped, not_hasBit_nil]
  | append_singleton l d ih =>
    rw [grouped_concat, hasBit_concat, BitVec.getLsbD_or, BitVec.getLsbD_shiftLeft, Bool.or_eq_true, or_comm]
    refine or_congr_right ?_
    by_cases hw : p < w
    · simp [hw, Nat.not_le.mpr hw]
    · simp [hw, hp, Nat.le_of_not_lt hw, ih (show p - w < n by omega)]

theorem grouped_eq_iff (l : List (BitVec n)) : grouped w l = x ↔ ∀ p < n, (HasBit w l p ↔ x.getLsbD p = true) := by
  constructor
  · rintro rfl p hp
    exact (getLsbD_grouped w l hp).symm
  · refine fun h => BitVec.eq_of_getLsbD_eq fun p hp => ?_
    rw [Bool.eq_iff_iff, getLsbD_grouped w l hp]
    exact h p hp

/-! ## A group behind the word -/

/-- Putting a group behind the word leaves the word as it is: the word consists of copies of the group. -/
theorem eq_shift_or_iff (hw : 0 < w) :
    x = (x <<< w) ||| e ↔ ∀ p < n, (x.getLsbD p = true ↔ ∃ k, w * k ≤ p ∧ e.getLsbD (p - w * k) = true) := by
  have hstep : ∀ p < n, (((x <<< w) ||| e).getLsbD p = true ↔
      e.getLsbD p = true ∨ (w ≤ p ∧ x.getLsbD (p - w) = true)) := by
    intro p hp
    rw [BitVec.getLsbD_or, BitVec.getLsbD_shiftLeft, Bool.or_eq_true, or_comm]
    refine or_congr_right ?_
    by_cases hlt : p < w
    · simp [hlt, Nat.not_le.mpr hlt]
    · simp [hlt, hp, Nat.le_of_not_lt hlt]
  -- the copies of the group, by the last one of them
  have hcopies : ∀ p, (∃ k, w * k ≤ p ∧ e.getLsbD (p - w * k) = true) ↔
      e.getLsbD p = true ∨ (w ≤ p ∧ ∃ k, w * k ≤ p - w ∧ e.getLsbD (p - w - w * k) = true) := by
    intro p
    constructor
    · rintro ⟨k, hle, hbit⟩
      cases k with
      | zero => exact .inl (by simpa using hbit)
      | succ k =>
        rw [Nat.mul_succ] at hle hbit
        exact .inr ⟨by omega, k, by omega, by rwa [show p - w - w * k = p - (w * k + w) by omega]⟩
    · rintro (hbit | ⟨hle, k, hk, hbit⟩)
      · exact ⟨0, by simp, by simpa using hbit⟩
      · exact ⟨k + 1, by rw [Nat.mul_succ]; omega,
          by rwa [Nat.mul_succ, show p - (w * k + w) = p - w - w * k by omega]⟩
  constructor
  · intro h p hp
    induction p using Nat.strong_induction_on with
    | _ p ih =>
      rw [hcopies, h, hstep p hp]
      refine or_congr_right (and_congr_right fun hle => ?_)
      exact ih (p - w) (by omega) (by omega)
  · intro h
    refine BitVec.eq_of_getLsbD_eq fun p hp => ?_
    rw [Bool.eq_iff_iff, hstep p hp, h p hp, hcopies]
    refine or_congr_right (and_congr_right fun hle => ?_)
    exact (h (p - w) (by omega)).symm

/-! ## Large words -/

/-- The upper bits of a word are all set. -/
theorem two_pow_sub_le_iff (hm : m ≤ n) :
    2 ^ n - 2 ^ m ≤ x.toNat ↔ ∀ p, m ≤ p → p < n → x.getLsbD p = true := by
  have hx := x.isLt
  have hpow : 2 ^ n = 2 ^ (n - m) * 2 ^ m := by rw [← Nat.pow_add, Nat.sub_add_cancel hm]
  have hall : 2 ^ n - 2 ^ m ≤ x.toNat ↔ x.toNat / 2 ^ m = 2 ^ (n - m) - 1 := by
    have hlt : x.toNat / 2 ^ m < 2 ^ (n - m) := Nat.div_lt_of_lt_mul (by rwa [Nat.mul_comm, ← hpow])
    have hle : 2 ^ n - 2 ^ m = (2 ^ (n - m) - 1) * 2 ^ m := by rw [Nat.sub_mul, Nat.one_mul, ← hpow]
    rw [hle, ← Nat.le_div_iff_mul_le (Nat.two_pow_pos m)]
    omega
  rw [hall]
  constructor
  · intro h p hmp hpn
    have hbit := Nat.testBit_div_two_pow (n := m) x.toNat (p - m)
    rw [h, Nat.testBit_two_pow_sub_one, Nat.sub_add_cancel hmp, decide_eq_true (by omega)] at hbit
    exact hbit.symm
  · intro h
    refine Nat.eq_of_testBit_eq fun p => ?_
    rw [Nat.testBit_div_two_pow, Nat.testBit_two_pow_sub_one]
    by_cases hp : p < n - m
    · rw [decide_eq_true hp]
      exact h (p + m) (by omega) (by omega)
    · rw [decide_eq_false hp]
      exact BitVec.getLsbD_of_ge x _ (by omega)

/-- One of the lower bits is set. -/
theorem mod_two_pow_ne_zero_iff : x.toNat % 2 ^ m ≠ 0 ↔ ∃ p < m, x.getLsbD p = true := by
  constructor
  · intro h
    by_contra hnone
    refine h (Nat.zero_of_testBit_eq_false fun p => ?_)
    rw [Nat.testBit_mod_two_pow]
    by_cases hp : p < m
    · have hclear : ¬ x.toNat.testBit p = true := fun hbit => hnone ⟨p, hp, hbit⟩
      simp [hclear]
    · simp [hp]
  · rintro ⟨p, hp, hbit⟩ hzero
    have hclear := Nat.testBit_mod_two_pow x.toNat m p
    rw [hzero, Nat.zero_testBit, decide_eq_true hp, Bool.true_and] at hclear
    exact absurd (hclear.trans hbit) (by decide)

/-- The word is larger than the largest one whose lower bits are clear. -/
theorem two_pow_sub_lt_iff (hm : m ≤ n) : 2 ^ n - 2 ^ m < x.toNat ↔
    (∀ p, m ≤ p → p < n → x.getLsbD p = true) ∧ ∃ p < m, x.getLsbD p = true := by
  rw [← two_pow_sub_le_iff hm, ← mod_two_pow_ne_zero_iff]
  have hx := x.isLt
  have hdvd : 2 ^ m ∣ 2 ^ n - 2 ^ m := Nat.dvd_sub (Nat.pow_dvd_pow 2 hm) (dvd_refl _)
  have hpos := Nat.two_pow_pos m
  have hle : 2 ^ m ≤ 2 ^ n := Nat.pow_le_pow_right (by decide) hm
  constructor
  · intro h
    refine ⟨h.le, fun hzero => ?_⟩
    have hd : 2 ^ m ∣ x.toNat - (2 ^ n - 2 ^ m) := Nat.dvd_sub (Nat.dvd_of_mod_eq_zero hzero) hdvd
    have := Nat.le_of_dvd (by omega) hd
    omega
  · rintro ⟨hge, hne⟩
    refine lt_of_le_of_ne hge fun heq => hne ?_
    rw [← heq]
    exact Nat.mod_eq_zero_of_dvd hdvd

end UtkKernel.Foundations
