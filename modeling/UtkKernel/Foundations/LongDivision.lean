import Mathlib.Algebra.Order.Ring.Nat
import Mathlib.Algebra.Order.Ring.Int
import Mathlib.Data.Nat.Cast.Order.Ring
import Mathlib.Logic.Function.Basic
import Mathlib.Tactic.Linarith
import Mathlib.Tactic.LinearCombination
import Mathlib.Tactic.Positivity
import Mathlib.Tactic.Ring

/-! # Long division

Digits in an array, the highest one first, in any base. A `sweep` rewrites a run of digits from the lowest to the
highest and hands a carry on; with a step that adds, or subtracts a multiple of, the digits of another number it adds or
subtracts that number. A trial quotient that the leading digits of the divisor do not exceed is at most one too large. -/

namespace UtkKernel.Foundations
set_option autoImplicit false

variable {base : ℕ} {a b : ℕ → ℕ} {i m n : ℕ}

/-- The number that the `n` digits from position `i` on write. -/
def digitsValue (base : ℕ) (a : ℕ → ℕ) (i : ℕ) : ℕ → ℕ
  | 0 => 0
  | n + 1 => digitsValue base a i n * base + a (i + n)

@[simp] theorem digitsValue_zero : digitsValue base a i 0 = 0 := rfl

theorem digitsValue_succ : digitsValue base a i (n + 1) = digitsValue base a i n * base + a (i + n) := rfl

theorem digitsValue_congr (h : ∀ k, i ≤ k → k < i + n → a k = b k) : digitsValue base a i n = digitsValue base b i n := by
  induction n with
  | zero => rfl
  | succ n ih =>
    rw [digitsValue_succ, digitsValue_succ, ih fun k hi hk => h k hi (by omega), h (i + n) (by omega) (by omega)]

/-- The digits in two parts, the higher one in front. -/
theorem digitsValue_add (base : ℕ) (a : ℕ → ℕ) (i m n : ℕ) :
    digitsValue base a i (m + n) = digitsValue base a i m * base ^ n + digitsValue base a (i + m) n := by
  induction n with
  | zero => simp
  | succ n ih =>
    rw [← Nat.add_assoc, digitsValue_succ, ih, digitsValue_succ, pow_succ, Nat.add_assoc i m n]
    ring

theorem digitsValue_cons (base : ℕ) (a : ℕ → ℕ) (i n : ℕ) :
    digitsValue base a i (n + 1) = a i * base ^ n + digitsValue base a (i + 1) n := by
  rw [Nat.add_comm n 1, digitsValue_add]
  simp [digitsValue_succ]

theorem digitsValue_lt (h : ∀ k, i ≤ k → k < i + n → a k < base) : digitsValue base a i n < base ^ n := by
  induction n with
  | zero => simp
  | succ n ih =>
    have hhigh := ih fun k hi hk => h k hi (by omega)
    have hlow := h (i + n) (by omega) (by omega)
    calc digitsValue base a i n * base + a (i + n) < digitsValue base a i n * base + base := by omega
      _ = (digitsValue base a i n + 1) * base := by ring
      _ ≤ base ^ n * base := Nat.mul_le_mul_right _ hhigh
      _ = base ^ (n + 1) := (pow_succ base n).symm

/-- The quotient by a power of the base leaves the digits in front of its place. -/
theorem digitsValue_div (h : ∀ k, i + m ≤ k → k < i + m + n → a k < base) (hbase : 0 < base) :
    digitsValue base a i (m + n) / base ^ n = digitsValue base a i m := by
  rw [digitsValue_add, Nat.add_comm, Nat.add_mul_div_right _ _ (Nat.pow_pos hbase), Nat.div_eq_of_lt (digitsValue_lt h),
    zero_add]

theorem digitsValue_mod (h : ∀ k, i + m ≤ k → k < i + m + n → a k < base) :
    digitsValue base a i (m + n) % base ^ n = digitsValue base a (i + m) n := by
  rw [digitsValue_add, Nat.mul_add_mod_self_right, Nat.mod_eq_of_lt (digitsValue_lt h)]

theorem digitsValue_of_zeros (h : ∀ k, i ≤ k → k < i + n → a k = 0) : digitsValue base a i n = 0 := by
  induction n with
  | zero => rfl
  | succ n ih => rw [digitsValue_succ, ih fun k hi hk => h k hi (by omega), h (i + n) (by omega) (by omega), zero_mul]

theorem zeros_of_digitsValue (hbase : 0 < base) (h : digitsValue base a i n = 0) : ∀ k, i ≤ k → k < i + n → a k = 0 := by
  induction n with
  | zero => intro k hi hk; omega
  | succ n ih =>
    rw [digitsValue_succ, Nat.add_eq_zero_iff, Nat.mul_eq_zero] at h
    intro k hi hk
    obtain hlast | hk := (show k = i + n ∨ k < i + n by omega)
    · rw [hlast]
      exact h.2
    · exact ih (h.1.resolve_right (by omega)) k hi hk

/-- A number below a power of the base has no digits in front of that power's place. -/
theorem zeros_of_digitsValue_lt (hbase : 0 < base) (h : digitsValue base a i (m + n) < base ^ n) :
    ∀ k, i ≤ k → k < i + m → a k = 0 := by
  refine zeros_of_digitsValue hbase ?_
  rw [digitsValue_add] at h
  have hpos : 0 < base ^ n := Nat.pow_pos hbase
  by_contra hne
  have hle : 1 * base ^ n ≤ digitsValue base a i m * base ^ n := Nat.mul_le_mul_right _ (Nat.pos_of_ne_zero hne)
  omega

/-- Leading zeros do not count. -/
theorem digitsValue_skip (h : ∀ k, i ≤ k → k < i + m → a k = 0) :
    digitsValue base a i (m + n) = digitsValue base a (i + m) n := by
  rw [digitsValue_add, digitsValue_of_zeros h, zero_mul, zero_add]

/-! ## Sweeps -/

/-- Rewrites the digits at `p + n`, ..., `p + 1`, the lowest one first, each with the carry of the one before it. -/
def sweep (step : ℕ → ℕ → ℕ → ℕ × ℕ) (p : ℕ) : ℕ → (ℕ → ℕ) → ℕ → (ℕ → ℕ) × ℕ
  | 0, a, t => (a, t)
  | i + 1, a, t =>
    let r := step (i + 1) (a (p + (i + 1))) t
    sweep step p i (Function.update a (p + (i + 1)) r.1) r.2

section Sweep

variable {step : ℕ → ℕ → ℕ → ℕ × ℕ} {p o t : ℕ}

theorem sweep_outside (step : ℕ → ℕ → ℕ → ℕ × ℕ) (p n : ℕ) (a : ℕ → ℕ) (t : ℕ) {k : ℕ} (hk : k ≤ p ∨ p + n < k) :
    (sweep step p n a t).1 k = a k := by
  induction n generalizing a t with
  | zero => rfl
  | succ n ih =>
    rw [sweep]
    refine (ih _ _ (by omega)).trans ?_
    exact Function.update_of_ne (by omega) _ _

/-- What a step has to do so that a sweep adds `c` times the digits of another number: the new digit and the carry make
up for the old ones. The carry counts `sign` times. -/
structure SweepStep (base : ℕ) (step : ℕ → ℕ → ℕ → ℕ × ℕ) (sign c : ℤ) (b : ℕ → ℕ) (o n : ℕ) : Prop where
  digit_lt : ∀ i < n, ∀ x < base, ∀ t < base, (step (i + 1) x t).1 < base
  carry_lt : ∀ i < n, ∀ x < base, ∀ t < base, (step (i + 1) x t).2 < base
  balance : ∀ i < n, ∀ x < base, ∀ t < base, ((step (i + 1) x t).1 : ℤ) + base * (sign * (step (i + 1) x t).2) =
    x + c * b (o + (i + 1)) + sign * t

variable {sign c : ℤ}

theorem SweepStep.mono {m : ℕ} (h : SweepStep base step sign c b o n) (hm : m ≤ n) : SweepStep base step sign c b o m where
  digit_lt i hi := h.digit_lt i (by omega)
  carry_lt i hi := h.carry_lt i (by omega)
  balance i hi := h.balance i (by omega)

theorem sweep_digit_lt (h : SweepStep base step sign c b o n) (ha : ∀ k, p < k → k ≤ p + n → a k < base) (ht : t < base) :
    ∀ k, p < k → k ≤ p + n → (sweep step p n a t).1 k < base := by
  induction n generalizing a t with
  | zero => intro k hp hk; omega
  | succ n ih =>
    have hx := ha (p + (n + 1)) (by omega) (by omega)
    intro k hp hk
    rw [sweep]
    obtain rfl | hk := (show k = p + (n + 1) ∨ k ≤ p + n by omega)
    · rw [sweep_outside _ _ _ _ _ (by omega), Function.update_self]
      exact h.digit_lt n (Nat.lt_succ_self n) _ hx _ ht
    · refine ih (h.mono (by omega)) ?_ (h.carry_lt n (Nat.lt_succ_self n) _ hx _ ht) k hp hk
      intro k hp hk
      rw [Function.update_of_ne (by omega)]
      exact ha k hp (by omega)

/-- A sweep adds `c` times the digits of the other number to the digits it runs over, up to the carry it ends with. -/
theorem sweep_value (h : SweepStep base step sign c b o n) (ha : ∀ k, p < k → k ≤ p + n → a k < base) (ht : t < base) :
    (digitsValue base (sweep step p n a t).1 (p + 1) n : ℤ) + base ^ n * (sign * (sweep step p n a t).2) =
      digitsValue base a (p + 1) n + c * digitsValue base b (o + 1) n + sign * t := by
  induction n generalizing a t with
  | zero => simp [sweep]
  | succ n ih =>
    have hx := ha (p + (n + 1)) (by omega) (by omega)
    have hbal := h.balance n (Nat.lt_succ_self n) _ hx _ ht
    have hrest := ih (h.mono (by omega)) (a := Function.update a (p + (n + 1)) (step (n + 1) (a (p + (n + 1))) t).1)
      (fun k hp hk => by rw [Function.update_of_ne (by omega)]; exact ha k hp (by omega)) (h.carry_lt n (Nat.lt_succ_self n) _ hx _ ht)
    have hlast : (sweep step p (n + 1) a t).1 (p + 1 + n) = (step (n + 1) (a (p + (n + 1))) t).1 := by
      rw [sweep, show p + 1 + n = p + (n + 1) by omega, sweep_outside _ _ _ _ _ (by omega), Function.update_self]
    have hsame : digitsValue base (Function.update a (p + (n + 1)) (step (n + 1) (a (p + (n + 1))) t).1) (p + 1) n =
        digitsValue base a (p + 1) n := digitsValue_congr fun k hp hk => Function.update_of_ne (by omega) _ _
    rw [hsame] at hrest
    rw [digitsValue_succ, digitsValue_succ, digitsValue_succ, hlast, show p + 1 + n = p + (n + 1) by omega,
      show o + 1 + n = o + (n + 1) by omega]
    rw [sweep]
    push_cast at hrest hbal ⊢
    linear_combination (base : ℤ) * hrest + hbal

end Sweep

/-! ## Trial quotients

The divisor is `lead * scale + low`, the dividend `head * scale + tail`: the leading digits of both, and the rest of
them. -/

section Trial

variable {lead low head tail scale q : ℕ}

/-- A quotient too large for the leading digits is too large. -/
theorem div_lt_of_lead (htail : tail < scale) (hq : head < lead * q) : (head * scale + tail) / (lead * scale + low) < q := by
  have hscale : (head + 1) * scale ≤ lead * q * scale := Nat.mul_le_mul_right _ hq
  refine Nat.div_lt_of_lt_mul ?_
  calc head * scale + tail < (head + 1) * scale := by rw [add_mul, one_mul]; omega
    _ ≤ lead * q * scale := hscale
    _ = lead * scale * q := by ring
    _ ≤ (lead * scale + low) * q := Nat.mul_le_mul_right _ (Nat.le_add_right _ _)

/-- One that is not is at most one too large. -/
theorem le_div_add_one_of_lead (hlow : low < scale) (hbase : scale * base ≤ lead * scale + low) (hlt : q < base)
    (hpos : 0 < scale) (hq : lead * q ≤ head) : q ≤ (head * scale + tail) / (lead * scale + low) + 1 := by
  have hv : 0 < lead * scale + low := lt_of_lt_of_le (Nat.mul_pos hpos (by omega)) hbase
  obtain _ | q := q
  · exact Nat.zero_le _
  · refine Nat.add_le_add_right ((Nat.le_div_iff_mul_le hv).mpr ?_) 1
    have hmul : lead * (q + 1) * scale ≤ head * scale := Nat.mul_le_mul_right _ hq
    have hrest : low * (q + 1) ≤ scale * base := Nat.mul_le_mul hlow.le hlt.le
    nlinarith

end Trial

/-! ## Rounds

A round of the division takes the next digit of the quotient off the dividend that is left. -/

section Round

variable {u v quotient rest weight q : ℕ}

theorem round_eq (h : u = quotient * v * (base * weight) + rest) (hq : q = rest / weight / v) :
    u = (quotient * base + q) * v * weight + (rest / weight % v * weight + rest % weight) := by
  have hdiv := Nat.div_add_mod rest weight
  have hmod := Nat.div_add_mod (rest / weight) v
  rw [← hq] at hmod
  calc u = quotient * v * (base * weight) + (weight * (rest / weight) + rest % weight) := by rw [hdiv, h]
    _ = quotient * v * (base * weight) + (weight * (v * q + rest / weight % v) + rest % weight) := by rw [hmod]
    _ = _ := by ring

theorem round_lt (hv : 0 < v) (hw : 0 < weight) : rest / weight % v * weight + rest % weight < v * weight := by
  have hmod := Nat.mod_lt (rest / weight) hv
  have hrest := Nat.mod_lt rest hw
  calc rest / weight % v * weight + rest % weight < (rest / weight % v + 1) * weight := by rw [add_mul, one_mul]; omega
    _ ≤ v * weight := Nat.mul_le_mul_right _ hmod

end Round

end UtkKernel.Foundations
