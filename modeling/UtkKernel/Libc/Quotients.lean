import Mathlib.Data.Nat.Log
import UtkKernel.Libc.ProgramD

/-! # Quotients and remainders

The digits that `__qdivrem` loads, the lengths it finds and the shifts before and behind program D; what it returns is
the quotient and the remainder. `__udivmoddi4`, which divides bit by bit, returns the same. -/

namespace UtkKernel.Libc
open Foundations
set_option autoImplicit false

variable {space u v q p : ℕ → ℕ} {d i k m n ov ou sh x y : ℕ}

/-! ## Loading and storing -/

theorem loadDigits_eq (space : ℕ → ℕ) (x : ℕ) :
    loadDigits space x 1 = x / 4294967296 / digitBase ∧ loadDigits space x 2 = x / 4294967296 % digitBase ∧
      loadDigits space x 3 = x % 4294967296 / digitBase ∧ loadDigits space x 4 = x % 4294967296 % digitBase :=
  ⟨hhalf_eq _, lhalf_eq _, hhalf_eq _, lhalf_eq _⟩

theorem loadDigits_digits (hx : x < 2 ^ 64) : Digits (loadDigits space x) 1 4 := by
  obtain ⟨h1, h2, h3, h4⟩ := loadDigits_eq space x
  rw [digitBase_eq] at h1 h2 h3 h4
  intro k hk hk'
  rw [digitBase_eq]
  obtain rfl | rfl | rfl | rfl : k = 1 ∨ k = 2 ∨ k = 3 ∨ k = 4 := by omega
  all_goals omega

theorem digitsValue_four (a : ℕ → ℕ) :
    digitsValue digitBase a 1 4 = ((a 1 * digitBase + a 2) * digitBase + a 3) * digitBase + a 4 := by
  simp [digitsValue]

theorem loadDigits_value (space : ℕ → ℕ) (x : ℕ) : digitsValue digitBase (loadDigits space x) 1 4 = x := by
  obtain ⟨h1, h2, h3, h4⟩ := loadDigits_eq space x
  rw [digitsValue_four, h1, h2, h3, h4, digitBase_eq]
  omega

theorem storedDigits_eq (h : Digits u 1 4) : storedDigits u = digitsValue digitBase u 1 4 := by
  rw [storedDigits, combine_eq (h 1 (by omega) (by omega)) (h 2 (by omega) (by omega)),
    combine_eq (h 3 (by omega) (by omega)) (h 4 (by omega) (by omega))]
  rw [digitsValue_four, digitBase_eq]
  omega

/-! ## Lengths -/

/-- The divisor's leading zeros are skipped, until one digit is left or the first one is not zero. -/
theorem skipDivisor_spec (hne : ∃ k, ov < k ∧ k ≤ ov + n ∧ v k ≠ 0) (hn : 2 ≤ n) :
    (skipDivisor v n ov = some (.short (v (ov + n))) ∧ (∀ k, ov < k → k < ov + n → v k = 0) ∧ v (ov + n) ≠ 0) ∨
      ∃ l ov', skipDivisor v n ov = some (.long l ov') ∧ 2 ≤ l ∧ ov' + l = ov + n ∧ ov ≤ ov' ∧ v (ov' + 1) ≠ 0 ∧
        ∀ k, ov < k → k ≤ ov' → v k = 0 := by
  induction n generalizing ov with
  | zero => omega
  | succ n ih =>
    rw [skipDivisor]
    split_ifs with hzero hone
    · left
      obtain ⟨k, hk, hk', hvk⟩ := hne
      subst hone
      obtain rfl | rfl : k = ov + 1 ∨ k = ov + 2 := by omega
      · exact absurd hzero hvk
      · refine ⟨rfl, ?_, hvk⟩
        intro k hk hk'
        obtain rfl : k = ov + 1 := by omega
        exact hzero
    · have hskip : ∀ k, ov < k → k ≤ ov + 1 → v k = 0 := by
        intro k hk hk'
        obtain rfl : k = ov + 1 := by omega
        exact hzero
      have hne' : ∃ k, ov + 1 < k ∧ k ≤ ov + 1 + n ∧ v k ≠ 0 := by
        obtain ⟨k, hk, hk', hvk⟩ := hne
        refine ⟨k, ?_, by omega, hvk⟩
        by_contra hle
        exact hvk (hskip k hk (by omega))
      obtain ⟨hshort, hzeros, hlast⟩ | ⟨l, ov', hlong, hl, hsum, hle, hfirst, hzeros⟩ := ih hne' (by omega)
      · left
        rw [show ov + (n + 1) = ov + 1 + n by omega]
        refine ⟨hshort, ?_, hlast⟩
        intro k hk hk'
        obtain h | h := (show k ≤ ov + 1 ∨ ov + 1 < k by omega)
        · exact hskip k hk h
        · exact hzeros k h hk'
      · right
        refine ⟨l, ov', hlong, hl, by omega, by omega, hfirst, ?_⟩
        intro k hk hk'
        obtain h | h := (show k ≤ ov + 1 ∨ ov + 1 < k by omega)
        · exact hskip k hk h
        · exact hzeros k h hk'
    · right
      refine ⟨n + 1, ov, rfl, hn, rfl, le_rfl, hzero, ?_⟩
      intro k hk hk'
      omega

/-- The dividend's leading zeros are skipped; it does not run out of digits where one of the first is not zero. -/
theorem skipDividend_spec (hne : ∃ k, ou < k ∧ k ≤ ou + m + 1 ∧ u k ≠ 0) :
    ∃ l ou', skipDividend u m ou = some (l, ou') ∧ ou' + l = ou + m ∧ ou ≤ ou' ∧ ∀ k, ou < k → k ≤ ou' → u k = 0 := by
  induction m generalizing ou with
  | zero =>
    obtain ⟨k, hk, hk', huk⟩ := hne
    obtain rfl : k = ou + 1 := by omega
    rw [skipDividend, if_neg huk]
    refine ⟨0, ou, rfl, rfl, le_rfl, ?_⟩
    intro k hk hk'
    omega
  | succ m ih =>
    rw [skipDividend]
    split_ifs with hzero
    · have hskip : ∀ k, ou < k → k ≤ ou + 1 → u k = 0 := by
        intro k hk hk'
        obtain rfl : k = ou + 1 := by omega
        exact hzero
      have hne' : ∃ k, ou + 1 < k ∧ k ≤ ou + 1 + m + 1 ∧ u k ≠ 0 := by
        obtain ⟨k, hk, hk', huk⟩ := hne
        refine ⟨k, ?_, by omega, huk⟩
        by_contra hle
        exact huk (hskip k hk (by omega))
      obtain ⟨l, ou', hlong, hsum, hle, hzeros⟩ := ih hne'
      refine ⟨l, ou', hlong, by omega, by omega, ?_⟩
      intro k hk hk'
      obtain h | h := (show k ≤ ou + 1 ∨ ou + 1 < k by omega)
      · exact hskip k hk h
      · exact hzeros k h hk'
    · refine ⟨m + 1, ou, rfl, rfl, le_rfl, ?_⟩
      intro k hk hk'
      omega

theorem clearDigits_eq (q : ℕ → ℕ) (n k : ℕ) : clearDigits q n k = if k < n then 0 else q k := by
  induction n generalizing q with
  | zero => rfl
  | succ n ih =>
    rw [clearDigits, ih]
    split_ifs
    · rfl
    · omega
    · obtain rfl : k = n := by omega
      exact Function.update_self ..
    · exact Function.update_of_ne (by omega) _ _

/-! ## A divisor of one digit -/

theorem combine_mod_lt {r t b : ℕ} (hr : r < t) (ht : t ≤ digitBase) (hb : b < digitBase) :
    combine r b = r * digitBase + b ∧ combine r b / t < digitBase := by
  have heq := combine_eq (hr.trans_le ht) hb
  refine ⟨heq, ?_⟩
  rw [heq]
  refine Nat.div_lt_of_lt_mul ?_
  calc r * digitBase + b < (r + 1) * digitBase := by rw [add_mul, one_mul]; omega
    _ ≤ t * digitBase := Nat.mul_le_mul_right _ hr

theorem shortDivision_eq {t : ℕ} (hu : Digits u 1 4) (ht : 0 < t) (ht' : t < digitBase) :
    shortDivision u t = (digitsValue digitBase u 1 4 / t, digitsValue digitBase u 1 4 % t) := by
  have h1 := hu 1 (by omega) (by omega)
  obtain ⟨e2, l2⟩ := combine_mod_lt (Nat.mod_lt (u 1) ht) ht'.le (hu 2 (by omega) (by omega))
  have l1 : u 1 / t < digitBase := (Nat.div_le_self _ _).trans_lt h1
  obtain ⟨e3, l3⟩ := combine_mod_lt (Nat.mod_lt (combine (u 1 % t) (u 2)) ht) ht'.le (hu 3 (by omega) (by omega))
  obtain ⟨e4, l4⟩ := combine_mod_lt (Nat.mod_lt (combine (combine (u 1 % t) (u 2) % t) (u 3)) ht) ht'.le
    (hu 4 (by omega) (by omega))
  simp only [shortDivision]
  rw [Nat.mod_eq_of_lt l1, Nat.mod_eq_of_lt l2, Nat.mod_eq_of_lt l3, Nat.mod_eq_of_lt l4, combine_eq l1 l2, combine_eq l3 l4]
  have d1 := Nat.div_add_mod (u 1) t
  have d2 := Nat.div_add_mod (combine (u 1 % t) (u 2)) t
  have d3 := Nat.div_add_mod (combine (combine (u 1 % t) (u 2) % t) (u 3)) t
  have d4 := Nat.div_add_mod (combine (combine (combine (u 1 % t) (u 2) % t) (u 3) % t) (u 4)) t
  have hlast := Nat.mod_lt (combine (combine (combine (u 1 % t) (u 2) % t) (u 3) % t) (u 4)) ht
  generalize combine (combine (combine (u 1 % t) (u 2) % t) (u 3) % t) (u 4) = r4 at *
  generalize combine (combine (u 1 % t) (u 2) % t) (u 3) = r3 at *
  generalize combine (u 1 % t) (u 2) = r2 at *
  obtain ⟨hdiv, hmod⟩ := (Nat.div_mod_unique ht (a := digitsValue digitBase u 1 4) (c := r4 % t)
    (d := (u 1 / t * digitBase + r2 / t) * 4294967296 + (r3 / t * digitBase + r4 / t))).mpr ⟨by
      rw [digitsValue_four]
      rw [digitBase_eq] at *
      linarith, hlast⟩
  rw [hdiv, hmod]

/-! ## Shifts -/

theorem two_pow_mul (hsh : sh ≤ 16) : 2 ^ (16 - sh) * 2 ^ sh = digitBase := by
  rw [← pow_add, Nat.sub_add_cancel hsh, digitBase_eq]
  norm_num

/-- The digit that a shift puts together: the lower part of one digit and the higher part of the next one. -/
theorem shiftDigit_eq (hx : x < digitBase) (hy : y < digitBase) (hsh : sh ≤ 16) :
    lhalf (u32 (x <<< sh)) ||| (y >>> (16 - sh)) = x % 2 ^ (16 - sh) * 2 ^ sh + y / 2 ^ (16 - sh) ∧
      x % 2 ^ (16 - sh) * 2 ^ sh + y / 2 ^ (16 - sh) < digitBase := by
  have hpow := two_pow_mul hsh
  have hhigh : y / 2 ^ (16 - sh) < 2 ^ sh := Nat.div_lt_of_lt_mul (by rwa [hpow])
  have hlow : x % 2 ^ (16 - sh) + 1 ≤ 2 ^ (16 - sh) := Nat.mod_lt _ (Nat.two_pow_pos _)
  constructor
  · have hword : u32 (x <<< sh) = x * 2 ^ sh := by
      rw [Nat.shiftLeft_eq]
      refine u32_of_lt ?_
      have hle : 2 ^ sh ≤ 2 ^ 16 := Nat.pow_le_pow_right (by omega) hsh
      have hmul : x * 2 ^ sh ≤ 65535 * 2 ^ 16 := Nat.mul_le_mul (by rw [digitBase_eq] at hx; omega) hle
      omega
    rw [hword, lhalf_eq, ← hpow, Nat.mul_mod_mul_right, Nat.shiftRight_eq_div_pow, ← Nat.shiftLeft_eq]
    exact (Nat.shiftLeft_add_eq_or_of_lt hhigh _).symm
  · calc x % 2 ^ (16 - sh) * 2 ^ sh + y / 2 ^ (16 - sh) < (x % 2 ^ (16 - sh) + 1) * 2 ^ sh := by
          rw [add_mul, one_mul]
          omega
      _ ≤ 2 ^ (16 - sh) * 2 ^ sh := Nat.mul_le_mul_right _ hlow
      _ = digitBase := hpow

/-- What is shifted out of a digit and what stays in it. -/
theorem shift_split (hsh : sh ≤ 16) (x : ℕ) :
    x % 2 ^ (16 - sh) * 2 ^ sh + digitBase * (x / 2 ^ (16 - sh)) = x * 2 ^ sh := by
  rw [← two_pow_mul hsh]
  calc x % 2 ^ (16 - sh) * 2 ^ sh + 2 ^ (16 - sh) * 2 ^ sh * (x / 2 ^ (16 - sh)) =
        (2 ^ (16 - sh) * (x / 2 ^ (16 - sh)) + x % 2 ^ (16 - sh)) * 2 ^ sh := by ring
    _ = x * 2 ^ sh := by rw [Nat.div_add_mod]

theorem shl_outside (sh n i : ℕ) (p : ℕ → ℕ) (hk : k < i ∨ i + n < k) : shl sh n i p k = p k := by
  induction n generalizing i p with
  | zero => exact Function.update_of_ne (by omega) _ _
  | succ n ih =>
    rw [shl, ih _ _ (by omega)]
    exact Function.update_of_ne (by omega) _ _

/-- `shl` multiplies by a power of two, up to what falls out on the left. -/
theorem shl_spec (hp : Digits p i (i + n)) (hsh : sh ≤ 16) :
    Digits (shl sh n i p) i (i + n) ∧
      digitsValue digitBase (shl sh n i p) i (n + 1) + digitBase ^ (n + 1) * (p i / 2 ^ (16 - sh)) =
        digitsValue digitBase p i (n + 1) * 2 ^ sh := by
  induction n generalizing i p with
  | zero =>
    have hx := hp i le_rfl (by omega)
    obtain ⟨hdigit, hlt⟩ := shiftDigit_eq hx digitBase_pos hsh
    rw [Nat.zero_shiftRight, Nat.or_zero, Nat.zero_div, Nat.add_zero] at hdigit
    rw [Nat.zero_div, Nat.add_zero] at hlt
    constructor
    · intro k hk hk'
      obtain rfl : k = i := by omega
      rw [shl, Function.update_self, hdigit]
      exact hlt
    · simp only [digitsValue, shl, Nat.add_zero, Function.update_self, hdigit, zero_mul, zero_add, pow_one]
      exact shift_split hsh (p i)
  | succ n ih =>
    have hx := hp i le_rfl (by omega)
    have hy := hp (i + 1) (by omega) (by omega)
    obtain ⟨hdigit, hlt⟩ := shiftDigit_eq hx hy hsh
    have hp' : Digits (Function.update p i (lhalf (u32 (p i <<< sh)) ||| (p (i + 1) >>> (16 - sh)))) (i + 1) (i + 1 + n) := by
      intro k hk hk'
      rw [Function.update_of_ne (by omega)]
      exact hp k (by omega) (by omega)
    obtain ⟨hdigits, hvalue⟩ := ih hp'
    have hfirst : shl sh (n + 1) i p i = p i % 2 ^ (16 - sh) * 2 ^ sh + p (i + 1) / 2 ^ (16 - sh) := by
      rw [shl, shl_outside _ _ _ _ (by omega), Function.update_self, hdigit]
    have hsame : digitsValue digitBase (Function.update p i (lhalf (u32 (p i <<< sh)) ||| (p (i + 1) >>> (16 - sh))))
        (i + 1) (n + 1) = digitsValue digitBase p (i + 1) (n + 1) :=
      digitsValue_congr fun k hk hk' => Function.update_of_ne (by omega) _ _
    rw [hsame, Function.update_of_ne (by omega)] at hvalue
    constructor
    · intro k hk hk'
      obtain rfl | hne := eq_or_ne k i
      · rw [hfirst]
        exact hlt
      · exact hdigits k (by omega) (by omega)
    · rw [digitsValue_cons, hfirst, digitsValue_cons digitBase p, shl]
      have hsplit := shift_split hsh (p i)
      calc _ = (p i % 2 ^ (16 - sh) * 2 ^ sh + digitBase * (p i / 2 ^ (16 - sh))) * digitBase ^ (n + 1) +
            (digitsValue digitBase (shl sh n (i + 1) (Function.update p i
              (lhalf (u32 (p i <<< sh)) ||| (p (i + 1) >>> (16 - sh))))) (i + 1) (n + 1) +
              digitBase ^ (n + 1) * (p (i + 1) / 2 ^ (16 - sh))) := by ring
        _ = _ := by
          rw [hsplit, hvalue]
          ring

theorem shiftBack_outside (d m n : ℕ) (u : ℕ → ℕ) (hk : k < m ∨ m + n < k) : shiftBack d m n u k = u k := by
  induction n generalizing u with
  | zero => exact Function.update_of_ne (by omega) _ _
  | succ n ih =>
    rw [shiftBack, ih _ (by omega)]
    exact Function.update_of_ne (by omega) _ _

theorem shiftBack_top (d m n : ℕ) (u : ℕ → ℕ) : shiftBack d m n u m = 0 := by
  induction n generalizing u with
  | zero => exact Function.update_self ..
  | succ n ih => exact ih _

/-- The loop behind program D divides by a power of two, up to what its top digit holds. -/
theorem shiftBack_spec (hu : Digits u m (m + n)) (hd : d ≤ 16) :
    Digits (shiftBack d m n u) (m + 1) (m + n) ∧
      2 ^ d * digitsValue digitBase (shiftBack d m n u) (m + 1) n + u (m + n) % 2 ^ d +
        2 ^ d * (u m / 2 ^ d) * digitBase ^ n = digitsValue digitBase u m (n + 1) := by
  induction n generalizing u with
  | zero =>
    constructor
    · intro k hk hk'
      omega
    · simp only [digitsValue, Nat.add_zero, mul_zero, pow_zero, mul_one, zero_mul, zero_add]
      exact Nat.mod_add_div (u m) (2 ^ d)
  | succ n ih =>
    have hx := hu (m + (n + 1)) (by omega) le_rfl
    have hy := hu (m + n) (by omega) (by omega)
    have hback : 16 - (16 - d) = d := by omega
    obtain ⟨hdigit, hlt⟩ := shiftDigit_eq hy hx (show 16 - d ≤ 16 by omega)
    have hpow := two_pow_mul (show 16 - d ≤ 16 by omega)
    rw [hback] at hdigit hlt hpow
    rw [Nat.lor_comm] at hdigit
    have hu' : Digits (Function.update u (m + (n + 1)) ((u (m + (n + 1)) >>> d) ||| lhalf (u32 (u (m + n) <<< (16 - d)))))
        m (m + n) := by
      intro k hk hk'
      rw [Function.update_of_ne (by omega)]
      exact hu k hk (by omega)
    obtain ⟨hdigits, hvalue⟩ := ih hu'
    have hsame : digitsValue digitBase
        (Function.update u (m + (n + 1)) ((u (m + (n + 1)) >>> d) ||| lhalf (u32 (u (m + n) <<< (16 - d))))) m (n + 1) =
          digitsValue digitBase u m (n + 1) := digitsValue_congr fun k hk hk' => Function.update_of_ne (by omega) _ _
    have hlast : shiftBack d m (n + 1) u (m + 1 + n) = u (m + n) % 2 ^ d * 2 ^ (16 - d) + u (m + (n + 1)) / 2 ^ d := by
      rw [shiftBack, shiftBack_outside _ _ _ _ (by omega), show m + 1 + n = m + (n + 1) by omega, Function.update_self, hdigit]
    rw [hsame, Function.update_of_ne (by omega), Function.update_of_ne (by omega)] at hvalue
    constructor
    · intro k hk hk'
      obtain rfl | hne := eq_or_ne k (m + 1 + n)
      · rw [hlast]
        exact hlt
      · exact hdigits k hk (by omega)
    · have hmod := Nat.div_add_mod (u (m + (n + 1))) (2 ^ d)
      rw [digitsValue_succ, hlast, digitsValue_succ (n := n + 1), shiftBack, pow_succ, show m + (n + 1) = m + n + 1 by omega]
      rw [show m + (n + 1) = m + n + 1 by omega] at hmod hvalue
      zify at hvalue hmod hpow ⊢
      linear_combination (digitBase : ℤ) * hvalue + ((u (m + n) : ℤ) % 2 ^ d) * hpow + hmod

/-! ## The shift of program D -/

/-- The loop of D1 ends within sixteen turns, with the divisor's first digit in the upper half of the digits. -/
theorem shiftCount_spec {t fuel : ℕ} (ht : t < digitBase) (hk : digitBase / 2 ≤ t * 2 ^ k) (hfuel : k < fuel) :
    ∃ e ≤ k, shiftCount fuel t d = some (d + e) ∧ t * 2 ^ e < digitBase ∧ digitBase / 2 ≤ t * 2 ^ e := by
  induction k generalizing t d fuel with
  | zero =>
    obtain _ | fuel := fuel
    · omega
    · rw [pow_zero, mul_one] at hk
      refine ⟨0, le_rfl, ?_, by omega, by omega⟩
      rw [shiftCount, if_neg (by omega)]
      rfl
  | succ k ih =>
    obtain _ | fuel := fuel
    · omega
    · rw [shiftCount]
      split_ifs with hlow
      · have hdouble : u32 (t <<< 1) = t * 2 := by
          rw [Nat.shiftLeft_eq, pow_one]
          exact u32_of_lt (by rw [digitBase_eq] at ht; omega)
        rw [hdouble]
        obtain ⟨e, he, hcount, hlt, hge⟩ := ih (t := t * 2) (d := d + 1) (by omega)
          (by rw [mul_assoc, ← pow_succ']; exact hk) (by omega : k < fuel)
        refine ⟨e + 1, by omega, ?_, ?_, ?_⟩
        · rw [hcount, Nat.add_assoc, Nat.add_comm 1]
        · rw [pow_succ', ← mul_assoc]
          exact hlt
        · rw [pow_succ', ← mul_assoc]
          exact hge
      · exact ⟨0, by omega, rfl, by omega, by omega⟩

/-- A shift to the left of digits from which nothing falls out. -/
theorem shl_of_lt (hp : Digits p i (i + n)) (hsh : sh ≤ 16) (hlt : p i * 2 ^ sh < digitBase) :
    let p' := if sh > 0 then shl sh n i p else p
    Digits p' i (i + n) ∧ digitsValue digitBase p' i (n + 1) = digitsValue digitBase p i (n + 1) * 2 ^ sh ∧
      ∀ k, k < i ∨ i + n < k → p' k = p k := by
  split_ifs with hpos
  · obtain ⟨hdigits, hvalue⟩ := shl_spec hp hsh
    have hnone : p i / 2 ^ (16 - sh) = 0 := by
      rw [← two_pow_mul hsh] at hlt
      exact Nat.div_eq_of_lt (Nat.lt_of_mul_lt_mul_right hlt)
    rw [hnone, mul_zero, add_zero] at hvalue
    exact ⟨hdigits, hvalue, fun k hk => shl_outside sh n i p hk⟩
  · obtain rfl : sh = 0 := by omega
    exact ⟨hp, by rw [pow_zero, mul_one], fun k _ => rfl⟩

/-- The shift back of digits with a zero in front of them. -/
theorem shiftBack_of_zero (hu : Digits u m (m + n)) (hd : d ≤ 16) (hzero : u m = 0) :
    let u' := if d > 0 then shiftBack d m n u else u
    Digits u' (m + 1) (m + n) ∧ u' m = 0 ∧
      digitsValue digitBase u' (m + 1) n = digitsValue digitBase u m (n + 1) / 2 ^ d ∧
      ∀ k, k < m ∨ m + n < k → u' k = u k := by
  split_ifs with hpos
  · obtain ⟨hdigits, hvalue⟩ := shiftBack_spec hu hd
    rw [hzero, Nat.zero_div, mul_zero, zero_mul, add_zero] at hvalue
    refine ⟨hdigits, shiftBack_top d m n u, ?_, fun k hk => shiftBack_outside d m n u hk⟩
    rw [← hvalue, Nat.mul_add_div (Nat.two_pow_pos d), Nat.div_eq_of_lt (Nat.mod_lt _ (Nat.two_pow_pos d)), add_zero]
  · obtain rfl : d = 0 := by omega
    refine ⟨fun k hk hk' => hu k (by omega) hk', hzero, ?_, fun k _ => rfl⟩
    rw [pow_zero, Nat.div_one, digitsValue_cons, hzero, zero_mul, zero_add]

/-- Program D returns the quotient and the remainder of the numbers behind its offsets. -/
theorem programD_eq (hu : Digits u 0 4) (hv : Digits v (ov + 1) (ov + n)) (hn : 2 ≤ n) (hsum : ou + m + n = 4)
    (hzeros : ∀ k ≤ ou, u k = 0) (hv1 : 0 < v (ov + 1)) (hd : d ≤ 16) (hlt : v (ov + 1) * 2 ^ d < digitBase) :
    programD q u v n ov m ou d =
      (digitsValue digitBase u 1 4 / digitsValue digitBase v (ov + 1) n,
        digitsValue digitBase u 1 4 % digitsValue digitBase v (ov + 1) n) := by
  obtain ⟨l, rfl⟩ : ∃ l, n = l + 1 := ⟨n - 1, by omega⟩
  have hpow : 0 < 2 ^ d := Nat.two_pow_pos d
  have hout : u ou * 2 ^ d < digitBase := by
    rw [hzeros ou le_rfl, zero_mul]
    exact digitBase_pos
  obtain ⟨hu', hdividend, hfront⟩ := shl_of_lt (n := m + (l + 1)) (fun k _ hk => hu k (by omega) (by omega)) hd hout
  obtain ⟨hv', hdivisor, -⟩ := shl_of_lt (n := l) (i := ov + 1) (fun k hk hk' => hv k hk (by omega)) hd hlt
  simp only [programD]
  rw [Nat.add_sub_cancel]
  generalize (if d > 0 then shl d (m + (l + 1)) ou u else u) = u' at *
  generalize (if d > 0 then shl d l (ov + 1) v else v) = v' at *
  have hall : digitsValue digitBase u 1 4 = digitsValue digitBase u ou (m + (l + 1) + 1) := by
    have hskip := @digitsValue_skip digitBase u 0 ou (m + (l + 1) + 1)
      (fun k _ hk => hzeros k (by omega))
    have hone := @digitsValue_skip digitBase u 0 1 4
      (fun k _ hk => hzeros k (by omega))
    rw [show ou + (m + (l + 1) + 1) = 1 + 4 by omega, zero_add] at hskip
    rw [zero_add] at hone
    exact hone.symm.trans hskip
  rw [hall]
  generalize hU : digitsValue digitBase u ou (m + (l + 1) + 1) = U at *
  generalize hV : digitsValue digitBase v (ov + 1) (l + 1) = V at *
  -- the divisor has a digit in front, the dividend none
  have hVge : digitBase ^ l ≤ V := by
    rw [← hV, digitsValue_cons]
    have hmul : 1 * digitBase ^ l ≤ v (ov + 1) * digitBase ^ l := Nat.mul_le_mul_right _ hv1
    omega
  have hUlt : U < V * digitBase ^ (m + 1) := by
    have hrest : digitsValue digitBase u (ou + 1) (m + (l + 1)) < digitBase ^ (m + (l + 1)) :=
      digitsValue_lt fun k hk hk' => hu k (by omega) (by omega)
    rw [← hU, digitsValue_cons, hzeros ou le_rfl, zero_mul, zero_add]
    calc digitsValue digitBase u (ou + 1) (m + (l + 1)) < digitBase ^ (m + (l + 1)) := hrest
      _ = digitBase ^ l * digitBase ^ (m + 1) := by rw [← pow_add, show l + (m + 1) = m + (l + 1) by omega]
      _ ≤ V * digitBase ^ (m + 1) := Nat.mul_le_mul_right _ hVge
  have hvfirst : 0 < v' (ov + 1) := by
    by_contra hzero
    have hrest : digitsValue digitBase v' (ov + 1 + 1) l < digitBase ^ l :=
      digitsValue_lt fun k hk hk' => hv' k (by omega) (by omega)
    rw [digitsValue_cons, Nat.eq_zero_of_not_pos hzero, zero_mul, zero_add] at hdivisor
    have hmul : V * 1 ≤ V * 2 ^ d := Nat.mul_le_mul_left _ hpow
    omega
  have hstart := @divided_start _ (clearDigits q (4 - m)) (V * 2 ^ d) m (l + 1) _ (4 - m)
    (fun k hk hk' => hu' k hk (by omega)) (by
      rw [hdividend]
      calc U * 2 ^ d < V * digitBase ^ (m + 1) * 2 ^ d := Nat.mul_lt_mul_of_pos_right hUlt hpow
        _ = V * 2 ^ d * digitBase ^ (m + 1) := by ring)
  have hrounds := hstart.rounds (k := m + 1) (fun k hk hk' => hv' k hk (by omega)) hn hvfirst hdivisor (by omega)
  rw [zero_add] at hrounds
  generalize divideRounds v' (l + 1) ov ou (4 - m) (m + 1) 0 ⟨u', clearDigits q (4 - m)⟩ = s at *
  obtain ⟨hquot, hrem⟩ := hrounds.finish
  rw [hdividend] at hquot hrem
  rw [Nat.mul_div_mul_right _ _ hpow] at hquot
  rw [Nat.mul_mod_mul_right] at hrem
  refine Prod.ext ?_ ?_
  · -- the quotient, with zeros in front of it
    have hclear : ∀ k < 4 - m, s.q k = 0 := by
      intro k hk
      rw [hrounds.before k hk, clearDigits_eq, if_pos hk]
    have hdigits : Digits s.q 1 4 := by
      intro k hk hk'
      obtain h | h := Nat.lt_or_ge k (4 - m)
      · rw [hclear k h]
        exact digitBase_pos
      · exact hrounds.quotient k h (by omega)
    have hskip := @digitsValue_skip digitBase s.q 1 (3 - m) (m + 1)
      (fun k _ hk => hclear k (by omega))
    rw [show 3 - m + (m + 1) = 4 by omega, show 1 + (3 - m) = 4 - m by omega] at hskip
    dsimp only
    rw [storedDigits_eq hdigits, hskip, hquot]
  · -- the remainder, shifted back
    have hlow : digitsValue digitBase s.u ou (m + 1 + (l + 1)) < digitBase ^ (l + 1) := by
      rw [show m + 1 + (l + 1) = m + (l + 1) + 1 by omega]
      refine hrounds.rest_lt.trans ?_
      rw [Nat.sub_self, pow_zero, mul_one, ← hdivisor]
      exact digitsValue_lt fun k hk hk' => hv' k hk (by omega)
    have hempty := zeros_of_digitsValue_lt digitBase_pos hlow
    have hwindow : digitsValue digitBase s.u (ou + m) (l + 1 + 1) = U % V * 2 ^ d := by
      rw [← hrem, show m + (l + 1) + 1 = m + (l + 1 + 1) by omega]
      exact (digitsValue_skip fun k hk hk' => hempty k hk (by omega)).symm
    obtain ⟨hdigits, htop, hvalue, hsame⟩ := shiftBack_of_zero (u := s.u) (m := ou + m) (n := l + 1) (d := d)
      (fun k hk hk' => hrounds.digits k (by omega) (by omega)) hd (hempty (ou + m) (by omega) (by omega))
    rw [hwindow, Nat.mul_div_cancel _ hpow] at hvalue
    dsimp only
    generalize (if d > 0 then shiftBack d (ou + m) (l + 1) s.u else s.u) = w at *
    have hfrontW : ∀ k ≤ ou + m, w k = 0 := by
      intro k hk
      obtain rfl | hne := eq_or_ne k (ou + m)
      · exact htop
      · rw [hsame k (by omega)]
        obtain h | h := Nat.lt_or_ge k ou
        · rw [hrounds.front k h, hfront k (by omega), hzeros k h.le]
        · exact hempty k h (by omega)
    have hdigitsW : Digits w 1 4 := by
      intro k hk hk'
      obtain h | h := Nat.lt_or_ge (ou + m) k
      · exact hdigits k h (by omega)
      · rw [hfrontW k h]
        exact digitBase_pos
    have hskip := @digitsValue_skip digitBase w 1 (ou + m) (l + 1)
      (fun k _ hk => hfrontW k (by omega))
    rw [show ou + m + (l + 1) = 4 by omega, show 1 + (ou + m) = ou + m + 1 by omega] at hskip
    rw [storedDigits_eq hdigitsW, hskip, hvalue]

/-- The division of a number by one that is not zero and not above it. -/
theorem divideDigits_eq (stack : ℕ → ℕ) (hx : x < 2 ^ 64) (hpos : 0 < y) (hle : y ≤ x) :
    divideDigits stack (loadDigits (Function.update stack 0 0) x) (loadDigits stack y) = some (x / y, x % y) := by
  have hv : Digits (loadDigits stack y) 1 4 := loadDigits_digits (by omega)
  have hvalue : digitsValue digitBase (loadDigits stack y) 1 4 = y := loadDigits_value stack y
  have hu : Digits (loadDigits (Function.update stack 0 0) x) 1 4 := loadDigits_digits hx
  have huvalue : digitsValue digitBase (loadDigits (Function.update stack 0 0) x) 1 4 = x := loadDigits_value _ x
  have hfront : loadDigits (Function.update stack 0 0) x 0 = 0 := rfl
  generalize loadDigits stack y = v at *
  generalize loadDigits (Function.update stack 0 0) x = u at *
  have hne : ∃ k, 0 < k ∧ k ≤ 0 + 4 ∧ v k ≠ 0 := by
    by_contra hall
    have hzeros : ∀ k, 1 ≤ k → k < 1 + 4 → v k = 0 := by
      intro k hk hk'
      by_contra h
      exact hall ⟨k, hk, by omega, h⟩
    rw [digitsValue_of_zeros hzeros] at hvalue
    omega
  unfold divideDigits
  obtain ⟨hshort, hzeros, hlast⟩ | ⟨n, ov, hlong, hn, hsum, -, hfirst, hzeros⟩ := skipDivisor_spec hne (by omega)
  · rw [hshort]
    have hy4 : v 4 = y := by
      have hskip := @digitsValue_skip digitBase v 1 3 1
        (fun k hk hk' => hzeros k hk (by omega))
      rw [hvalue] at hskip
      rw [hskip]
      simp [digitsValue]
    dsimp only [Option.bind_some]
    rw [show 0 + 4 = 4 by omega, hy4, shortDivision_eq hu hpos (by rw [← hy4]; exact hv 4 (by omega) le_rfl), huvalue]
  · rw [hlong]
    dsimp only [Option.bind_some, longDivision]
    have hy : digitsValue digitBase v (ov + 1) n = y := by
      have hskip := @digitsValue_skip digitBase v 1 ov n
        (fun k hk hk' => hzeros k hk (by omega))
      rw [show ov + n = 4 by omega, hvalue, Nat.add_comm 1 ov] at hskip
      exact hskip.symm
    have hge : digitBase ^ (n - 1) ≤ y := by
      obtain ⟨l, rfl⟩ : ∃ l, n = l + 1 := ⟨n - 1, by omega⟩
      rw [← hy, digitsValue_cons, Nat.add_sub_cancel]
      have hmul : 1 * digitBase ^ l ≤ v (ov + 1) * digitBase ^ l := Nat.mul_le_mul_right _ (Nat.pos_of_ne_zero hfirst)
      omega
    -- a dividend with that many leading zeros would be below the divisor
    have hneu : ∃ k, 0 < k ∧ k ≤ 0 + (4 - n) + 1 ∧ u k ≠ 0 := by
      by_contra hall
      have hskip := @digitsValue_skip digitBase u 1 (4 - n + 1) (n - 1) (by
        intro k hk hk'
        by_contra h
        exact hall ⟨k, hk, by omega, h⟩)
      have hlow : digitsValue digitBase u (1 + (4 - n + 1)) (n - 1) < digitBase ^ (n - 1) :=
        digitsValue_lt fun k hk hk' => hu k (by omega) (by omega)
      rw [show 4 - n + 1 + (n - 1) = 4 by omega, huvalue] at hskip
      omega
    obtain ⟨m, ou, hdividend, hsum', -, huzeros⟩ := skipDividend_spec hneu
    have hone := hv (ov + 1) (by omega) (by omega)
    obtain ⟨e, he, hcount, hlt, -⟩ := @shiftCount_spec 0 15 (v (ov + 1)) 32 hone
      (by rw [digitBase_eq]; omega) (by omega)
    rw [hdividend, Option.bind_some]
    dsimp only
    rw [hcount, Option.map_some, Nat.zero_add]
    have hzerosU : ∀ k ≤ ou, u k = 0 := by
      intro k hk
      obtain rfl | hpos := Nat.eq_zero_or_pos k
      · exact hfront
      · exact huzeros k hpos hk
    have hdigitsU : Digits u 0 4 := by
      intro k _ hk
      obtain rfl | hpos := Nat.eq_zero_or_pos k
      · rw [hfront]
        exact digitBase_pos
      · exact hu k hpos hk
    rw [programD_eq hdigitsU (fun k hk hk' => hv k (by omega) (by omega)) hn (by omega) hzerosU
      (Nat.pos_of_ne_zero hfirst) (by omega) hlt, huvalue, hy]

/-- `__qdivrem` returns the quotient and, where it is asked for, the remainder, whatever the stack holds. By zero it
returns zero, with the dividend as the remainder. -/
theorem qdivrem_eq (stack : ℕ → ℕ) (arq : Bool) (hx : x < 2 ^ 64) :
    qdivrem stack x y arq = some (x / y, if arq then some (x % y) else none) := by
  unfold qdivrem
  by_cases hzero : y = 0
  · rw [if_pos hzero, hzero, Nat.div_zero, Nat.mod_zero]
  · rw [if_neg hzero]
    obtain hlt | hle := Nat.lt_or_ge x y
    · rw [if_pos hlt, Nat.div_eq_of_lt hlt, Nat.mod_eq_of_lt hlt]
    · rw [if_neg (by omega), divideDigits_eq stack hx (Nat.pos_of_ne_zero hzero) hle, Option.map_some]

theorem qdivrem_eq_of_digits : qdivrem (fun _ => 7) 0xFFFF00000000FFFF 0x8000000000000001 true =
    some (0xFFFF00000000FFFF / 0x8000000000000001, if true then some (0xFFFF00000000FFFF % 0x8000000000000001) else none) :=
  qdivrem_eq (fun _ => 7) true (by decide)

theorem udivdi3_eq (stack : ℕ → ℕ) (hx : x < 2 ^ 64) : udivdi3 stack x y = some (x / y) := by
  rw [udivdi3, qdivrem_eq stack false hx, Option.map_some]

theorem umoddi3_eq (stack : ℕ → ℕ) (hx : x < 2 ^ 64) : umoddi3 stack x y = some (x % y) := by
  rw [umoddi3, qdivrem_eq stack true hx, Option.bind_some]
  rfl

/-! ## Division bit by bit -/

variable {num den quot qbit fuel j : ℕ}

theorem justifyDen_spec (hden : den * 2 ^ k < 2 ^ 64) (hge : 2 ^ 63 ≤ den * 2 ^ k) (hfuel : k < fuel)
    (hqbit : qbit * 2 ^ k < 2 ^ 64) :
    justifyDen fuel den qbit = some (den * 2 ^ k, qbit * 2 ^ k) := by
  induction k generalizing den qbit fuel with
  | zero =>
    obtain _ | fuel := fuel
    · omega
    · rw [pow_zero, mul_one] at hge
      rw [justifyDen, if_neg (by omega), pow_zero, mul_one, mul_one]
  | succ k ih =>
    obtain _ | fuel := fuel
    · omega
    · have hpos : 0 < 2 ^ k := Nat.two_pow_pos k
      rw [pow_succ' 2 k, ← mul_assoc] at hden hge hqbit
      have hden2 : den * 2 < 2 ^ 64 := (Nat.le_mul_of_pos_right _ hpos).trans_lt hden
      have hqbit2 : qbit * 2 < 2 ^ 64 := (Nat.le_mul_of_pos_right _ hpos).trans_lt hqbit
      rw [justifyDen, if_pos (by omega), Nat.shiftLeft_eq, Nat.shiftLeft_eq, pow_one, Nat.mod_eq_of_lt hden2,
        Nat.mod_eq_of_lt hqbit2, ih hden hge (by omega) hqbit, pow_succ' 2 k, mul_assoc, mul_assoc]

/-- What the second loop keeps: the numerator is below the denominator of the round before. -/
theorem subtractBits_spec (hy : 0 < y) (hnum : num < y * 2 ^ (j + 1)) (hfuel : j + 1 < fuel) (hquot : quot + num / y < 2 ^ 64) :
    subtractBits fuel num (y * 2 ^ j) quot (2 ^ j) = some (quot + num / y, num % y) := by
  induction j generalizing num quot fuel with
  | zero =>
    obtain _ | _ | fuel := fuel
    · omega
    · omega
    · rw [pow_zero, mul_one, subtractBits, if_pos (by decide), show 1 >>> 1 = 0 by decide]
      rw [zero_add, pow_one] at hnum
      split_ifs with hle
      · have hdiv : num / y = 1 := Nat.div_eq_of_lt_le (by omega) (by omega)
        have hmod : num % y = num - y := by
          rw [Nat.mod_eq_sub_mod hle, Nat.mod_eq_of_lt (by omega)]
        rw [subtractBits, if_neg (by decide), hdiv, hmod]
        rw [hdiv] at hquot
        rw [Nat.mod_eq_of_lt hquot]
      · rw [subtractBits, if_neg (by decide), Nat.div_eq_of_lt (by omega), Nat.mod_eq_of_lt (by omega), add_zero]
  | succ j ih =>
    obtain _ | fuel := fuel
    · omega
    · have hpos : 0 < 2 ^ (j + 1) := Nat.two_pow_pos _
      have hden : (y * 2 ^ (j + 1)) >>> 1 = y * 2 ^ j := by
        rw [Nat.shiftRight_eq_div_pow, pow_one, pow_succ, ← mul_assoc, Nat.mul_div_cancel _ (by decide)]
      have hqbit : 2 ^ (j + 1) >>> 1 = 2 ^ j := by
        rw [Nat.shiftRight_eq_div_pow, pow_one, pow_succ, Nat.mul_div_cancel _ (by decide)]
      rw [subtractBits, if_pos hpos.ne', hden, hqbit]
      split_ifs with hle
      · -- the bit belongs to the quotient
        have hdiv : num / y = (num - y * 2 ^ (j + 1)) / y + 2 ^ (j + 1) := by
          rw [Nat.sub_mul_div, Nat.sub_add_cancel]
          exact (Nat.le_div_iff_mul_le hy).mpr (by rwa [Nat.mul_comm])
        have hmod : (num - y * 2 ^ (j + 1)) % y = num % y := Nat.sub_mul_mod hle
        have hlow : num - y * 2 ^ (j + 1) < y * 2 ^ (j + 1) := by
          rw [pow_succ _ (j + 1), ← mul_assoc] at hnum
          omega
        have hsum : quot + 2 ^ (j + 1) + (num - y * 2 ^ (j + 1)) / y = quot + num / y := by
          rw [hdiv, Nat.add_assoc, Nat.add_comm (2 ^ (j + 1))]
        rw [← hsum] at hquot ⊢
        rw [Nat.mod_eq_of_lt ((Nat.le_add_right _ _).trans_lt hquot), ih hlow (by omega) hquot, hmod]
      · exact ih (by omega) (by omega) hquot

/-- `__udivmoddi4` returns the quotient and, where it is asked for, the remainder. -/
theorem udivmoddi4_eq (remP : Bool) (hx : x < 2 ^ 64) (hy : y < 2 ^ 64) (hpos : 0 < y) :
    udivmoddi4 x y remP = some (x / y, if remP then some (x % y) else none) := by
  -- the shift that sets the denominator's highest bit
  obtain ⟨k, hk, hge, hlt⟩ : ∃ k ≤ 63, 2 ^ 63 ≤ y * 2 ^ k ∧ y * 2 ^ k < 2 ^ 64 := by
    have hlog := Nat.pow_log_le_self 2 hpos.ne'
    have hlog' := Nat.lt_pow_succ_log_self (by decide : 1 < 2) y
    have hle : Nat.log 2 y ≤ 63 := by
      by_contra hgt
      have hpow : 2 ^ 64 ≤ 2 ^ Nat.log 2 y := Nat.pow_le_pow_right (by omega) (by omega)
      omega
    refine ⟨63 - Nat.log 2 y, by omega, ?_, ?_⟩
    · calc 2 ^ 63 = 2 ^ Nat.log 2 y * 2 ^ (63 - Nat.log 2 y) := by rw [← pow_add, Nat.add_sub_cancel' hle]
        _ ≤ y * 2 ^ (63 - Nat.log 2 y) := Nat.mul_le_mul_right _ hlog
    · calc y * 2 ^ (63 - Nat.log 2 y) < 2 ^ (Nat.log 2 y + 1) * 2 ^ (63 - Nat.log 2 y) :=
            Nat.mul_lt_mul_of_pos_right hlog' (Nat.two_pow_pos _)
        _ = 2 ^ 64 := by rw [← pow_add, show Nat.log 2 y + 1 + (63 - Nat.log 2 y) = 64 by omega]
  have hqbit : 1 * 2 ^ k < 2 ^ 64 := by
    have hpow : 2 ^ k ≤ 2 ^ 63 := Nat.pow_le_pow_right (by omega) hk
    omega
  have hnum : x < y * 2 ^ (k + 1) := by
    rw [pow_succ, ← mul_assoc]
    omega
  have hquot : 0 + x / y < 2 ^ 64 := by
    have hle := Nat.div_le_self x y
    omega
  rw [udivmoddi4, if_neg (by omega), justifyDen_spec hlt hge (by omega) hqbit, Option.bind_some, one_mul,
    subtractBits_spec hpos hnum (by omega) hquot, Option.map_some, zero_add]

theorem udivmoddi4_eq_lowBits : udivmoddi4 0xFFFFFFFFFFFFFFFF 10 true =
    some (0xFFFFFFFFFFFFFFFF / 10, if true then some (0xFFFFFFFFFFFFFFFF % 10) else none) :=
  udivmoddi4_eq true (by decide) (by decide) (by decide)

end UtkKernel.Libc
