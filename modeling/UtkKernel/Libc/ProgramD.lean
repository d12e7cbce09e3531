import Mathlib.Tactic.IntervalCases
import UtkKernel.Libc.Div64

/-! # Program D

A round of the division leaves the remainder of its window and writes the window's quotient: the trial quotient is at
most one too large, the borrow of the subtraction shows when it is, and then the divisor is added back. -/

namespace UtkKernel.Libc
open Foundations
set_option autoImplicit false

variable {a b x y : ℕ}

/-! ## Words and digits -/

theorem digitBase_eq : digitBase = 65536 := by
  rw [digitBase]

theorem digitBase_pos : 0 < digitBase := by
  rw [digitBase_eq]
  exact Nat.succ_pos _

theorem hhalf_eq (x : ℕ) : hhalf x = x / digitBase := by
  rw [digitBase_eq]
  exact Nat.shiftRight_eq_div_pow x 16

theorem lhalf_eq (x : ℕ) : lhalf x = x % digitBase := by
  rw [digitBase_eq]
  exact Nat.and_two_pow_sub_one_eq_mod x 16

theorem lhalf_lt (x : ℕ) : lhalf x < digitBase := by
  rw [lhalf_eq]
  exact Nat.mod_lt x digitBase_pos

theorem u32_of_lt (hx : x < 4294967296) : u32 x = x := Nat.mod_eq_of_lt hx

theorem combine_eq (ha : a < digitBase) (hb : b < digitBase) : combine a b = a * digitBase + b := by
  rw [digitBase_eq] at *
  have hor : a <<< 16 + b = a <<< 16 ||| b := Nat.shiftLeft_add_eq_or_of_lt hb a
  have hmul : a <<< 16 = a * 65536 := Nat.shiftLeft_eq a 16
  rw [combine, u32_of_lt (by omega), ← hor, hmul]

/-- The borrow of a digit: as many times the base as the difference lacks. -/
theorem borrow_eq (x : ℕ) : (digitBase - x) &&& (digitBase - 1) = (digitBase - x) % digitBase := by
  rw [digitBase_eq]
  exact Nat.and_two_pow_sub_one_eq_mod (65536 - x) 16

theorem subU32_of_le (hx : x < 4294967296) (hyx : y ≤ x) : subU32 x y = x - y := by
  unfold subU32 u32
  omega

theorem subU32_of_lt (hy : y < 4294967296) (hxy : x < y) : subU32 x y = x + (4294967296 - y) := by
  unfold subU32 u32
  omega

/-- All digits of an array from one index up to another are below the base. -/
def Digits (a : ℕ → ℕ) (i j : ℕ) : Prop := ∀ k, i ≤ k → k ≤ j → a k < digitBase

/-! ## The trial quotient -/

section Trial

variable {v1 v2 uj0 uj1 uj2 qhat rhat q : ℕ}

/-- What the loop of D3 keeps: with the remainder, the trial quotient makes up the two digits it is the quotient of, and
every quotient that the three leading digits allow is at most as large. What it ends with they allow. -/
theorem lowerQhat_spec (hv2 : v2 < digitBase) (huj2 : uj2 < digitBase) (hq : qhat < digitBase) (hr : rhat < digitBase) :
    let q := lowerQhat v1 v2 uj2 qhat rhat
    q ≤ qhat ∧ q * (v1 * digitBase + v2) ≤ (qhat * v1 + rhat) * digitBase + uj2 ∧
      ∀ p, q < p → p ≤ qhat → (qhat * v1 + rhat) * digitBase + uj2 < p * (v1 * digitBase + v2) := by
  induction qhat generalizing rhat with
  | zero =>
    refine ⟨le_rfl, ?_, ?_⟩
    · rw [lowerQhat, zero_mul]
      exact Nat.zero_le _
    · intro p hp hle
      rw [lowerQhat] at hp
      omega
  | succ qhat ih =>
    have hmul : u32 (v2 * (qhat + 1)) = v2 * (qhat + 1) := by
      rw [digitBase_eq] at *
      have hle : v2 * (qhat + 1) ≤ 65535 * 65535 := Nat.mul_le_mul (by omega) (by omega)
      exact u32_of_lt (by omega)
    simp only [lowerQhat, gt_iff_lt, ge_iff_le]
    rw [hmul, combine_eq hr huj2]
    split_ifs with htest hbreak
    · refine ⟨Nat.le_succ _, ?_, ?_⟩
      · have hlow : v2 * qhat ≤ v2 * digitBase := Nat.mul_le_mul_left _ (by omega)
        have hrem : v2 * digitBase ≤ (rhat + v1) * digitBase := Nat.mul_le_mul_right _ (by omega)
        calc qhat * (v1 * digitBase + v2) = qhat * v1 * digitBase + v2 * qhat := by ring
          _ ≤ qhat * v1 * digitBase + (rhat + v1) * digitBase := by omega
          _ ≤ ((qhat + 1) * v1 + rhat) * digitBase + uj2 := by
            have heq : qhat * v1 * digitBase + (rhat + v1) * digitBase = ((qhat + 1) * v1 + rhat) * digitBase := by ring
            omega
      · intro p hp hle
        obtain rfl : p = qhat + 1 := by omega
        linarith
    · obtain ⟨hle, hupper, hall⟩ := ih (by omega) (show rhat + v1 < digitBase by omega)
      have hsame : (qhat + 1) * v1 + rhat = qhat * v1 + (rhat + v1) := by ring
      rw [hsame]
      refine ⟨by omega, hupper, ?_⟩
      intro p hp hpq
      obtain rfl | hlt := (show p = qhat + 1 ∨ p ≤ qhat by omega)
      · rw [← hsame]
        linarith
      · exact hall p hp hlt
    · refine ⟨le_rfl, ?_, ?_⟩
      · linarith
      · intro p hp hle
        omega

/-- The trial quotient is the largest digit that the three leading digits allow. -/
theorem trialQhat_spec (hv1 : 0 < v1) (hv1' : v1 < digitBase) (hv2 : v2 < digitBase) (huj0 : uj0 ≤ v1)
    (huj1 : uj1 < digitBase) (huj2 : uj2 < digitBase) :
    let q := trialQhat v1 v2 uj0 uj1 uj2
    q < digitBase ∧ (v1 * digitBase + v2) * q ≤ (uj0 * digitBase + uj1) * digitBase + uj2 ∧
      ∀ p, q < p → p < digitBase → (uj0 * digitBase + uj1) * digitBase + uj2 < (v1 * digitBase + v2) * p := by
  have hfinish : ∀ qhat rhat, qhat < digitBase → rhat < digitBase → qhat * v1 + rhat = uj0 * digitBase + uj1 →
      (∀ p, qhat < p → p < digitBase → uj0 * digitBase + uj1 < p * v1) →
      let q := lowerQhat v1 v2 uj2 qhat rhat
      q < digitBase ∧ (v1 * digitBase + v2) * q ≤ (uj0 * digitBase + uj1) * digitBase + uj2 ∧
        ∀ p, q < p → p < digitBase → (uj0 * digitBase + uj1) * digitBase + uj2 < (v1 * digitBase + v2) * p := by
    intro qhat rhat hq hr hsum habove
    obtain ⟨hle, hupper, hall⟩ := @lowerQhat_spec v1 v2 uj2 qhat rhat hv2 huj2 hq hr
    rw [hsum] at hupper hall
    refine ⟨by omega, by linarith, ?_⟩
    intro p hp hlt
    obtain hpq | hpq := Nat.lt_or_ge qhat p
    · have h := habove p hpq hlt
      have hmul : (uj0 * digitBase + uj1 + 1) * digitBase ≤ p * v1 * digitBase := Nat.mul_le_mul_right _ h
      calc (uj0 * digitBase + uj1) * digitBase + uj2 < (uj0 * digitBase + uj1 + 1) * digitBase := by
            rw [add_mul _ 1, one_mul]
            omega
        _ ≤ p * v1 * digitBase := hmul
        _ = v1 * digitBase * p := by ring
        _ ≤ (v1 * digitBase + v2) * p := Nat.mul_le_mul_right _ (Nat.le_add_right _ _)
    · have h := hall p hp hpq
      linarith
  unfold trialQhat
  split_ifs with heq hbreak
  · -- the trial quotient is `B - 1`, and the remainder is too large for the test
    subst heq
    obtain ⟨c, hc⟩ : ∃ c, digitBase = c + 1 := ⟨65535, digitBase_eq⟩
    rw [hc] at hv2 hbreak ⊢
    rw [Nat.add_sub_cancel]
    refine ⟨Nat.lt_succ_self c, ?_, fun p hp hlt => by omega⟩
    have hlow : v2 * c ≤ c * c := Nat.mul_le_mul_right _ (by omega)
    have hrem : (c + 1) * (c + 1) ≤ (uj1 + uj0) * (c + 1) := Nat.mul_le_mul_right _ hbreak
    nlinarith
  · subst heq
    have hpos := digitBase_pos
    refine hfinish _ _ (by omega) (by omega) ?_ (by omega)
    rw [Nat.sub_mul, one_mul, Nat.mul_comm digitBase]
    have hle : uj0 * 1 ≤ uj0 * digitBase := Nat.mul_le_mul_left _ hpos
    omega
  · have hlt : uj0 < v1 := by omega
    rw [combine_eq (by omega) huj1]
    refine hfinish _ _ ?_ ?_ ?_ ?_
    · refine Nat.div_lt_of_lt_mul ?_
      have hmul : (uj0 + 1) * digitBase ≤ v1 * digitBase := Nat.mul_le_mul_right _ hlt
      rw [add_mul, one_mul] at hmul
      omega
    · have hmod := Nat.mod_lt (uj0 * digitBase + uj1) hv1
      omega
    · rw [Nat.mul_comm]
      exact Nat.div_add_mod _ _
    · intro p hp _
      exact (Nat.div_lt_iff_lt_mul hv1).mp hp

end Trial

/-! ## The subtraction and the addition -/

section Steps

variable {v : ℕ → ℕ} {ov n qhat : ℕ}

/-- D4 subtracts `qhat` times the divisor. -/
theorem sweepStep_mulSub (hv : Digits v (ov + 1) (ov + n)) (hq : qhat < digitBase) :
    SweepStep digitBase (mulSubStep v ov qhat) (-1) (-qhat) v ov n := by
  have hstep : ∀ i < n, ∀ x < digitBase, ∀ t < digitBase,
      (mulSubStep v ov qhat (i + 1) x t).1 < digitBase ∧ (mulSubStep v ov qhat (i + 1) x t).2 < digitBase ∧
        (mulSubStep v ov qhat (i + 1) x t).1 + (v (ov + (i + 1)) * qhat + t) = x + digitBase * (mulSubStep v ov qhat (i + 1) x t).2 := by
    intro i hi x hx t ht
    have hmul : v (ov + (i + 1)) * qhat ≤ (digitBase - 1) * (digitBase - 1) :=
      Nat.mul_le_mul (by have := hv (ov + (i + 1)) (by omega) (by omega); omega) (by omega)
    simp only [mulSubStep, lhalf_eq, hhalf_eq, borrow_eq]
    generalize v (ov + (i + 1)) * qhat = y at *
    rw [digitBase_eq] at *
    unfold subU32 u32
    omega
  refine ⟨fun i hi x hx t ht => (hstep i hi x hx t ht).1, fun i hi x hx t ht => (hstep i hi x hx t ht).2.1, ?_⟩
  intro i hi x hx t ht
  have h := (hstep i hi x hx t ht).2.2
  zify at h
  linear_combination h

/-- D6 adds the divisor. -/
theorem sweepStep_addBack (hv : Digits v (ov + 1) (ov + n)) : SweepStep digitBase (addBackStep v ov) 1 1 v ov n := by
  have hstep : ∀ i < n, ∀ x < digitBase, ∀ t < digitBase,
      (addBackStep v ov (i + 1) x t).1 < digitBase ∧ (addBackStep v ov (i + 1) x t).2 < digitBase ∧
        (addBackStep v ov (i + 1) x t).1 + digitBase * (addBackStep v ov (i + 1) x t).2 = x + v (ov + (i + 1)) + t := by
    intro i hi x hx t ht
    have hd := hv (ov + (i + 1)) (by omega) (by omega)
    simp only [addBackStep, lhalf_eq, hhalf_eq]
    rw [digitBase_eq] at *
    unfold u32
    omega
  refine ⟨fun i hi x hx t ht => (hstep i hi x hx t ht).1, fun i hi x hx t ht => (hstep i hi x hx t ht).2.1, ?_⟩
  intro i hi x hx t ht
  have h := (hstep i hi x hx t ht).2.2
  zify at h
  linear_combination h

end Steps

/-! ## A round -/

section Round

variable {v u : ℕ → ℕ} {n ov ou oq j p q : ℕ} {s : Spaces}

/-- The trial quotient of a window is the quotient or one more. -/
theorem trialQhat_window (hv : Digits v (ov + 1) (ov + n)) (hn : 2 ≤ n) (hv1 : 0 < v (ov + 1)) (hu : Digits u p (p + n))
    (hw : digitsValue digitBase u p (n + 1) < digitBase * digitsValue digitBase v (ov + 1) n) :
    let q := trialQhat (v (ov + 1)) (v (ov + 2)) (u p) (u (p + 1)) (u (p + 2))
    let quot := digitsValue digitBase u p (n + 1) / digitsValue digitBase v (ov + 1) n
    q < digitBase ∧ quot ≤ q ∧ q ≤ quot + 1 := by
  obtain ⟨k, rfl⟩ := Nat.exists_eq_add_of_le' hn
  have hV : digitsValue digitBase v (ov + 1) (k + 2) =
      (v (ov + 1) * digitBase + v (ov + 2)) * digitBase ^ k + digitsValue digitBase v (ov + 3) k := by
    rw [Nat.add_comm k 2, digitsValue_add]
    simp [digitsValue_succ]
  have hW : digitsValue digitBase u p (k + 2 + 1) =
      ((u p * digitBase + u (p + 1)) * digitBase + u (p + 2)) * digitBase ^ k + digitsValue digitBase u (p + 3) k := by
    rw [Nat.add_assoc, Nat.add_comm k 3, digitsValue_add]
    simp [digitsValue_succ]
  have hlow : digitsValue digitBase v (ov + 3) k < digitBase ^ k :=
    digitsValue_lt fun i hi hk => hv i (by omega) (by omega)
  have htail : digitsValue digitBase u (p + 3) k < digitBase ^ k :=
    digitsValue_lt fun i hi hk => hu i (by omega) (by omega)
  have hpos : 0 < digitBase ^ k := Nat.pow_pos digitBase_pos
  have hd1 := hv (ov + 1) le_rfl (by omega)
  have hd2 := hv (ov + 2) (by omega) (by omega)
  -- the window is below `B` times the divisor, so that its first digit is at most the divisor's
  have huj0 : u p ≤ v (ov + 1) := by
    have hrest : digitsValue digitBase v (ov + 2) (k + 1) < digitBase ^ (k + 1) :=
      digitsValue_lt fun i hi hk => hv i (by omega) (by omega)
    by_contra hgt
    have hmul : (v (ov + 1) + 1) * digitBase ^ (k + 2) ≤ u p * digitBase ^ (k + 2) := Nat.mul_le_mul_right _ (by omega)
    have hbase := Nat.mul_lt_mul_of_pos_left hrest digitBase_pos
    rw [digitsValue_cons, digitsValue_cons digitBase v] at hw
    rw [pow_succ _ (k + 1)] at hw hmul
    linarith
  obtain ⟨hq, hupper, hall⟩ := trialQhat_spec hv1 hd1 hd2 huj0 (hu (p + 1) (by omega) (by omega))
    (hu (p + 2) (by omega) (by omega))
  refine ⟨hq, ?_, ?_⟩
  · by_contra hgt
    have hquot := Nat.div_lt_of_lt_mul (by rwa [Nat.mul_comm] at hw)
    have h := @div_lt_of_lead _ (digitsValue digitBase v (ov + 3) k) _ _ _ _ htail (hall _ (Nat.lt_of_not_le hgt) hquot)
    rw [← hW, ← hV] at h
    exact lt_irrefl _ h
  · rw [hW, hV]
    refine le_div_add_one_of_lead hlow ?_ hq hpos hupper
    have hmul : 1 * digitBase * digitBase ^ k ≤ v (ov + 1) * digitBase * digitBase ^ k :=
      Nat.mul_le_mul_right _ (Nat.mul_le_mul_right _ hv1)
    rw [one_mul] at hmul
    rw [add_mul, Nat.mul_comm (digitBase ^ k)]
    omega

/-- What the top digit has to do with the borrow `t` of a subtraction from the digits below it. -/
theorem borrow_of_balance {window divisor weight top rest t : ℕ}
    (h : (window : ℤ) - q * divisor = ((top : ℤ) - t) * weight + rest) (hrest : rest < weight) :
    (q * divisor ≤ window → t ≤ top) ∧ (window < q * divisor → q * divisor ≤ window + weight → t = top + 1) := by
  zify at hrest ⊢
  constructor
  · intro hle
    by_contra hgt
    have hneg : ((top : ℤ) - t) * weight ≤ (-1) * weight := mul_le_mul_of_nonneg_right (by omega) (by omega)
    omega
  · intro hlow hhigh
    obtain hge | hge := (show (0 : ℤ) ≤ (top : ℤ) - t ∨ (top : ℤ) - t ≤ -1 by omega)
    · have hnonneg : 0 ≤ ((top : ℤ) - t) * weight := mul_nonneg hge (by omega)
      omega
    · by_contra hne
      have hneg : ((top : ℤ) - t) * weight ≤ (-2) * weight := mul_le_mul_of_nonneg_right (by omega) (by omega)
      omega

/-- What D4 leaves below the top digit. -/
theorem mulSub_balance (hv : Digits v (ov + 1) (ov + n)) (hq : q < digitBase) (hu : Digits u p (p + n)) :
    let r := sweep (mulSubStep v ov q) p n u 0
    (digitsValue digitBase u p (n + 1) : ℤ) - q * digitsValue digitBase v (ov + 1) n =
      ((u p : ℤ) - r.2) * (digitBase ^ n : ℕ) + digitsValue digitBase r.1 (p + 1) n := by
  have h := sweep_value (sweepStep_mulSub hv hq) (a := u) (p := p) (fun k hp hk => hu k (by omega) hk) digitBase_pos
  rw [digitsValue_cons]
  push_cast at h ⊢
  linear_combination -h

/-- What D6 leaves. -/
theorem addBack_balance (hv : Digits v (ov + 1) (ov + n)) (hu : Digits u p (p + n)) :
    let r := sweep (addBackStep v ov) p n u 0
    digitsValue digitBase r.1 (p + 1) n + digitBase ^ n * r.2 =
      digitsValue digitBase u (p + 1) n + digitsValue digitBase v (ov + 1) n := by
  have h := sweep_value (sweepStep_addBack hv) (a := u) (p := p) (fun k hp hk => hu k (by omega) hk) digitBase_pos
  zify
  linear_combination h

/-- Where the digits lack less than the divisor, adding it back carries once and leaves what remains. -/
theorem addBack_of_lack {rest : ℕ} (hv : Digits v (ov + 1) (ov + n)) (hu : Digits u p (p + n)) (hrest : rest < digitBase ^ n)
    (hlack : digitsValue digitBase u (p + 1) n + digitsValue digitBase v (ov + 1) n = rest + digitBase ^ n) :
    let r := sweep (addBackStep v ov) p n u 0
    digitsValue digitBase r.1 (p + 1) n = rest ∧ r.2 = 1 := by
  intro r
  have hbal := addBack_balance hv hu
  have hlow : digitsValue digitBase r.1 (p + 1) n < digitBase ^ n :=
    digitsValue_lt fun k hp hk => sweep_digit_lt (sweepStep_addBack hv) (fun k hp hk => hu k (by omega) hk)
      digitBase_pos k (by omega) (by omega)
  have hsum : digitsValue digitBase r.1 (p + 1) n + digitBase ^ n * r.2 = rest + digitBase ^ n := hbal.trans hlack
  obtain hzero | hone | ⟨c, hc⟩ : r.2 = 0 ∨ r.2 = 1 ∨ ∃ c, r.2 = c + 2 := by
    obtain _ | _ | c := r.2
    · exact .inl rfl
    · exact .inr (.inl rfl)
    · exact .inr (.inr ⟨c, rfl⟩)
  · rw [hzero] at hsum
    omega
  · rw [hone] at hsum
    exact ⟨by omega, hone⟩
  · have hmul : digitBase ^ n * 2 ≤ digitBase ^ n * r.2 := Nat.mul_le_mul_left _ (by omega)
    omega

/-- A window's array with its top digit replaced. -/
theorem digits_update {top : ℕ} (hu : ∀ k, p < k → k ≤ p + n → u k < digitBase) (htop : top < digitBase) :
    Digits (Function.update u p top) p (p + n) := by
  intro k hp hk
  obtain rfl | hne := eq_or_ne k p
  · rwa [Function.update_self]
  · rw [Function.update_of_ne hne]
    exact hu k (by omega) hk

theorem digitsValue_update {top : ℕ} :
    digitsValue digitBase (Function.update u p top) p (n + 1) = top * digitBase ^ n + digitsValue digitBase u (p + 1) n := by
  rw [digitsValue_cons, Function.update_self]
  congr 1
  exact digitsValue_congr fun k hp hk => Function.update_of_ne (by omega) _ _

/-- A quotient that is not too large: nothing is borrowed. -/
theorem subtractDivisor_of_le (hv : Digits v (ov + 1) (ov + n)) (hq : q < digitBase) (hu : Digits u p (p + n))
    (hle : q * digitsValue digitBase v (ov + 1) n ≤ digitsValue digitBase u p (n + 1)) :
    let r := subtractDivisor v n ov p q u
    r.2 = q ∧ Digits r.1 p (p + n) ∧
      digitsValue digitBase r.1 p (n + 1) + q * digitsValue digitBase v (ov + 1) n = digitsValue digitBase u p (n + 1) := by
  have hsub := sweepStep_mulSub hv hq
  have hlt := sweep_digit_lt hsub (fun k hp hk => hu k (by omega) hk) digitBase_pos
  have htop := hu p le_rfl (by omega)
  have hbal := mulSub_balance hv hq hu
  have hcarry := (borrow_of_balance hbal (digitsValue_lt fun k hp hk => hlt k (by omega) (by omega))).1 hle
  have hsame : (sweep (mulSubStep v ov q) p n u 0).1 p = u p := sweep_outside _ _ _ _ _ (Or.inl le_rfl)
  rw [digitBase_eq] at htop
  have ht : subU32 ((sweep (mulSubStep v ov q) p n u 0).1 p) (sweep (mulSubStep v ov q) p n u 0).2 =
      u p - (sweep (mulSubStep v ov q) p n u 0).2 := by
    rw [hsame]
    exact subU32_of_le (by omega) hcarry
  have hhigh : ¬ hhalf (u p - (sweep (mulSubStep v ov q) p n u 0).2) ≠ 0 := by
    rw [hhalf_eq, digitBase_eq, not_not]
    omega
  have hdig : lhalf (u p - (sweep (mulSubStep v ov q) p n u 0).2) = u p - (sweep (mulSubStep v ov q) p n u 0).2 := by
    rw [lhalf_eq, digitBase_eq]
    omega
  simp only [subtractDivisor]
  rw [ht, if_neg hhigh, hdig]
  refine ⟨rfl, digits_update hlt ?_, ?_⟩
  · rw [digitBase_eq]
    omega
  · rw [digitsValue_update]
    push_cast at hbal
    zify [hcarry]
    linear_combination -hbal

/-- A quotient that is too large by one: the divisor is added back. -/
theorem subtractDivisor_of_lt (hv : Digits v (ov + 1) (ov + n)) (hq : q < digitBase) (hu : Digits u p (p + n))
    (hlt : digitsValue digitBase u p (n + 1) < q * digitsValue digitBase v (ov + 1) n)
    (hle : q * digitsValue digitBase v (ov + 1) n ≤ digitsValue digitBase u p (n + 1) + digitsValue digitBase v (ov + 1) n) :
    let r := subtractDivisor v n ov p q u
    r.2 = q - 1 ∧ Digits r.1 p (p + n) ∧
      digitsValue digitBase r.1 p (n + 1) + q * digitsValue digitBase v (ov + 1) n =
        digitsValue digitBase u p (n + 1) + digitsValue digitBase v (ov + 1) n := by
  have hdigits := sweep_digit_lt (sweepStep_mulSub hv hq) (fun k hp hk => hu k (by omega) hk) digitBase_pos
  have htop := hu p le_rfl (by omega)
  have hbal := mulSub_balance hv hq hu
  have hdivisor : digitsValue digitBase v (ov + 1) n < digitBase ^ n :=
    digitsValue_lt fun k hk hk' => hv k (by omega) (by omega)
  have hcarry := (borrow_of_balance hbal (digitsValue_lt fun k hp hk => hdigits k (by omega) (by omega))).2 hlt (by omega)
  have hsame : (sweep (mulSubStep v ov q) p n u 0).1 p = u p := sweep_outside _ _ _ _ _ (Or.inl le_rfl)
  have hq1 : 0 < q := by
    obtain _ | q := q
    · omega
    · exact Nat.succ_pos q
  have ht : subU32 ((sweep (mulSubStep v ov q) p n u 0).1 p) (sweep (mulSubStep v ov q) p n u 0).2 = 4294967295 := by
    rw [hsame, hcarry, subU32_of_lt (by rw [digitBase_eq] at htop; omega) (Nat.lt_succ_self _)]
    rw [digitBase_eq] at htop
    omega
  have hhigh : hhalf 4294967295 ≠ 0 := by decide
  have hpred : subU32 q 1 = q - 1 := by
    rw [digitBase_eq] at hq
    exact subU32_of_le (by omega) hq1
  -- the digits lack the divisor, less what remains
  have hwindow : Digits (Function.update (sweep (mulSubStep v ov q) p n u 0).1 p (lhalf 4294967295)) p (p + n) :=
    digits_update hdigits (lhalf_lt _)
  have hlow : digitsValue digitBase (Function.update (sweep (mulSubStep v ov q) p n u 0).1 p (lhalf 4294967295)) (p + 1) n =
      digitsValue digitBase (sweep (mulSubStep v ov q) p n u 0).1 (p + 1) n :=
    digitsValue_congr fun k hp hk => Function.update_of_ne (by omega) _ _
  have hlack : digitsValue digitBase (sweep (mulSubStep v ov q) p n u 0).1 (p + 1) n +
      q * digitsValue digitBase v (ov + 1) n = digitsValue digitBase u p (n + 1) + digitBase ^ n := by
    simp only [hcarry] at hbal
    push_cast at hbal
    zify
    linear_combination -hbal
  obtain ⟨hrest, hone⟩ := @addBack_of_lack v _ n ov p
    (digitsValue digitBase u p (n + 1) + digitsValue digitBase v (ov + 1) n - q * digitsValue digitBase v (ov + 1) n)
    hv hwindow (by omega) (by rw [hlow]; omega)
  have hzero : lhalf (u32 (lhalf 4294967295 + 1)) = 0 := by decide
  simp only [subtractDivisor]
  rw [ht, if_pos hhigh, hpred, hone, sweep_outside _ _ _ _ _ (Or.inl le_rfl), Function.update_self, hzero]
  refine ⟨rfl, digits_update ?_ digitBase_pos, ?_⟩
  · exact sweep_digit_lt (sweepStep_addBack hv) (fun k hp hk => hwindow k (by omega) hk) digitBase_pos
  · rw [digitsValue_update, zero_mul, zero_add, hrest]
    omega

theorem subtractDivisor_outside {k : ℕ} (hk : k < p ∨ p + n < k) : (subtractDivisor v n ov p q u).1 k = u k := by
  have hsub : (sweep (mulSubStep v ov q) p n u 0).1 k = u k := sweep_outside _ _ _ _ _ (by omega)
  simp only [subtractDivisor]
  split_ifs <;> dsimp only
  · rw [Function.update_of_ne (by omega), sweep_outside _ _ _ _ _ (by omega), Function.update_of_ne (by omega), hsub]
  · rw [Function.update_of_ne (by omega), hsub]

/-- A round leaves the remainder of its window, and writes the window's quotient. -/
theorem divideRound_spec {window divisor : ℕ} (hv : Digits v (ov + 1) (ov + n)) (hn : 2 ≤ n) (hv1 : 0 < v (ov + 1))
    (hu : Digits s.u (ou + j) (ou + j + n)) (hwindow : digitsValue digitBase s.u (ou + j) (n + 1) = window)
    (hdivisor : digitsValue digitBase v (ov + 1) n = divisor) (hlt : window < digitBase * divisor) :
    let r := divideRound v n ov ou oq j s
    Digits r.u (ou + j) (ou + j + n) ∧ digitsValue digitBase r.u (ou + j) (n + 1) = window % divisor ∧
      r.q = Function.update s.q (oq + j) (window / divisor) := by
  intro r
  have hpos : 0 < divisor := Nat.pos_of_lt_mul_left hlt
  obtain ⟨hq, hquot, hquot'⟩ := trialQhat_window hv hn hv1 hu (by rwa [hwindow, hdivisor])
  rw [hwindow, hdivisor] at hquot hquot'
  have hdiv := Nat.div_add_mod window divisor
  have hmod := Nat.mod_lt window hpos
  simp only [r, divideRound]
  generalize trialQhat (v (ov + 1)) (v (ov + 2)) (s.u (ou + j)) (s.u (ou + j + 1)) (s.u (ou + j + 2)) = q at *
  have hbelow : window / divisor < digitBase := lt_of_le_of_lt hquot hq
  obtain heq | heq : q = window / divisor ∨ q = window / divisor + 1 := by omega
  · have hmul : q * divisor + window % divisor = window := by rw [heq, Nat.mul_comm, hdiv]
    obtain ⟨hdigit, hdigits, hvalue⟩ := subtractDivisor_of_le hv hq hu (by rw [hwindow, hdivisor]; omega)
    rw [hwindow, hdivisor] at hvalue
    rw [hdigit, Nat.mod_eq_of_lt hq, heq]
    exact ⟨by rwa [← heq], by rw [← heq]; omega, rfl⟩
  · have hmul : q * divisor + window % divisor = window + divisor := by
      rw [heq, add_mul, one_mul, Nat.mul_comm]
      omega
    obtain ⟨hdigit, hdigits, hvalue⟩ := subtractDivisor_of_lt hv hq hu (by rw [hwindow, hdivisor]; omega)
      (by rw [hwindow, hdivisor]; omega)
    rw [hwindow, hdivisor] at hvalue
    rw [hdigit, heq, Nat.add_sub_cancel, Nat.mod_eq_of_lt hbelow]
    exact ⟨by rwa [← heq], by rw [← heq]; omega, rfl⟩

end Round

/-! ## The rounds -/

/-- What the loop on `j` keeps: the digits of the quotient so far and the digits that are left make up the dividend, and
what is left is below the divisor at its next place. `u` and `q` are the arrays before the loop. -/
structure Divided (u q : ℕ → ℕ) (divisor m n ou oq j : ℕ) (s : Spaces) : Prop where
  digits : Digits s.u ou (ou + m + n)
  rest_lt : digitsValue digitBase s.u ou (m + n + 1) < divisor * digitBase ^ (m + 1 - j)
  total : digitsValue digitBase u ou (m + n + 1) =
    digitsValue digitBase s.q oq j * divisor * digitBase ^ (m + 1 - j) + digitsValue digitBase s.u ou (m + n + 1)
  quotient : ∀ k, oq ≤ k → k < oq + j → s.q k < digitBase
  front : ∀ k < ou, s.u k = u k
  before : ∀ k < oq, s.q k = q k

section Rounds

variable {v u q : ℕ → ℕ} {divisor m n ov ou oq j : ℕ} {s : Spaces}

/-- The window of round `j`, with only zeros in front of it, and the digits behind it. -/
theorem Divided.window (h : Divided u q divisor m n ou oq j s) (hdivisor : divisor < digitBase ^ n) (hj : j ≤ m) :
    digitsValue digitBase s.u (ou + j) (n + 1) = digitsValue digitBase s.u ou (m + n + 1) / digitBase ^ (m - j) ∧
      digitsValue digitBase s.u (ou + j + (n + 1)) (m - j) =
        digitsValue digitBase s.u ou (m + n + 1) % digitBase ^ (m - j) ∧
      ∀ k, ou ≤ k → k < ou + j → s.u k = 0 := by
  have hsplit : m + n + 1 = j + (n + 1 + (m - j)) := by omega
  have hrest : digitsValue digitBase s.u ou (j + (n + 1 + (m - j))) < digitBase ^ (n + 1 + (m - j)) := by
    rw [← hsplit]
    calc digitsValue digitBase s.u ou (m + n + 1) < divisor * digitBase ^ (m + 1 - j) := h.rest_lt
      _ ≤ digitBase ^ n * digitBase ^ (m + 1 - j) := Nat.mul_le_mul_right _ hdivisor.le
      _ = digitBase ^ (n + 1 + (m - j)) := by
        rw [← pow_add]
        congr 1
        omega
  have hzeros := zeros_of_digitsValue_lt digitBase_pos hrest
  have hlow : ∀ k, ou + j + (n + 1) ≤ k → k < ou + j + (n + 1) + (m - j) → s.u k < digitBase :=
    fun k hk hk' => h.digits k (by omega) (by omega)
  rw [hsplit, digitsValue_skip hzeros, digitsValue_div hlow digitBase_pos, digitsValue_mod hlow]
  exact ⟨rfl, rfl, hzeros⟩

theorem Divided.round (h : Divided u q divisor m n ou oq j s) (hv : Digits v (ov + 1) (ov + n)) (hn : 2 ≤ n)
    (hv1 : 0 < v (ov + 1)) (hdivisor : digitsValue digitBase v (ov + 1) n = divisor) (hj : j ≤ m) :
    Divided u q divisor m n ou oq (j + 1) (divideRound v n ov ou oq j s) := by
  have hpow : divisor < digitBase ^ n := by
    rw [← hdivisor]
    exact digitsValue_lt fun k hk hk' => hv k (by omega) (by omega)
  obtain ⟨hwindow, hlow, hzeros⟩ := h.window hpow hj
  have hweight : 0 < digitBase ^ (m - j) := Nat.pow_pos digitBase_pos
  have hnext : digitBase ^ (m + 1 - j) = digitBase * digitBase ^ (m - j) := by
    rw [show m + 1 - j = m - j + 1 by omega, pow_succ, Nat.mul_comm]
  have hlt : digitsValue digitBase s.u ou (m + n + 1) / digitBase ^ (m - j) < digitBase * divisor := by
    refine Nat.div_lt_of_lt_mul ?_
    have hrest := h.rest_lt
    rw [hnext] at hrest
    linarith
  obtain ⟨hdigits, hrem, hquot⟩ := @divideRound_spec v n ov ou oq j s _ _ hv hn hv1
    (fun k hk hk' => h.digits k (by omega) (by omega)) hwindow hdivisor hlt
  have hout : ∀ k, k < ou + j ∨ ou + j + n < k → (divideRound v n ov ou oq j s).u k = s.u k :=
    fun k hk => subtractDivisor_outside hk
  have hpos : 0 < divisor := Nat.pos_of_lt_mul_left hlt
  -- the digits that are left now: the window's remainder, and those behind it
  have hvalue : digitsValue digitBase (divideRound v n ov ou oq j s).u ou (m + n + 1) =
      digitsValue digitBase s.u ou (m + n + 1) / digitBase ^ (m - j) % divisor * digitBase ^ (m - j) +
        digitsValue digitBase s.u ou (m + n + 1) % digitBase ^ (m - j) := by
    rw [← hlow, ← hrem, show m + n + 1 = j + (n + 1 + (m - j)) by omega,
      digitsValue_skip fun k hk hk' => (hout k (Or.inl hk')).trans (hzeros k hk hk'), digitsValue_add]
    congr 1
    exact digitsValue_congr fun k hk hk' => hout k (by omega)
  have hprefix : digitsValue digitBase (divideRound v n ov ou oq j s).q oq (j + 1) =
      digitsValue digitBase s.q oq j * digitBase + digitsValue digitBase s.u ou (m + n + 1) / digitBase ^ (m - j) / divisor := by
    rw [digitsValue_succ, hquot, Function.update_self]
    congr 2
    exact digitsValue_congr fun k hk hk' => Function.update_of_ne (by omega) _ _
  have hlast : m + 1 - (j + 1) = m - j := by omega
  refine ⟨?_, ?_, ?_, ?_, ?_, ?_⟩
  · intro k hk hk'
    obtain hin | hin := (show (k < ou + j ∨ ou + j + n < k) ∨ (ou + j ≤ k ∧ k ≤ ou + j + n) by omega)
    · rw [hout k hin]
      exact h.digits k hk hk'
    · exact hdigits k hin.1 hin.2
  · rw [hvalue, hlast]
    exact round_lt hpos hweight
  · rw [hvalue, hprefix, hlast]
    have htotal := h.total
    rw [hnext] at htotal
    exact round_eq htotal rfl
  · intro k hk hk'
    rw [hquot]
    obtain rfl | hne := eq_or_ne k (oq + j)
    · rw [Function.update_self]
      exact Nat.div_lt_of_lt_mul (by rwa [Nat.mul_comm] at hlt)
    · rw [Function.update_of_ne hne]
      exact h.quotient k hk (by omega)
  · intro k hk
    rw [hout k (by omega)]
    exact h.front k hk
  · intro k hk
    rw [hquot, Function.update_of_ne (by omega)]
    exact h.before k hk

theorem Divided.rounds {k : ℕ} (h : Divided u q divisor m n ou oq j s) (hv : Digits v (ov + 1) (ov + n)) (hn : 2 ≤ n)
    (hv1 : 0 < v (ov + 1)) (hdivisor : digitsValue digitBase v (ov + 1) n = divisor) (hj : j + k ≤ m + 1) :
    Divided u q divisor m n ou oq (j + k) (divideRounds v n ov ou oq k j s) := by
  induction k generalizing j s with
  | zero => exact h
  | succ k ih =>
    have hstep := h.round hv hn hv1 hdivisor (by omega)
    have hrest := ih hstep (by omega)
    rw [show j + (k + 1) = j + 1 + k by omega]
    exact hrest

/-- What the loop starts with. -/
theorem divided_start (hu : Digits u ou (ou + m + n)) (hlt : digitsValue digitBase u ou (m + n + 1) < divisor * digitBase ^ (m + 1)) :
    Divided u q divisor m n ou oq 0 ⟨u, q⟩ where
  digits := hu
  rest_lt := hlt
  total := by simp
  quotient := by
    intro k hk hk'
    omega
  front _ _ := rfl
  before _ _ := rfl

/-- What it ends with: the quotient and the remainder. -/
theorem Divided.finish (h : Divided u q divisor m n ou oq (m + 1) s) :
    digitsValue digitBase s.q oq (m + 1) = digitsValue digitBase u ou (m + n + 1) / divisor ∧
      digitsValue digitBase s.u ou (m + n + 1) = digitsValue digitBase u ou (m + n + 1) % divisor := by
  have hlt := h.rest_lt
  have htotal := h.total
  rw [Nat.sub_self, pow_zero, mul_one] at hlt htotal
  obtain ⟨hdiv, hmod⟩ := (Nat.div_mod_unique (by omega)).mpr ⟨show digitsValue digitBase s.u ou (m + n + 1) +
    divisor * digitsValue digitBase s.q oq (m + 1) = digitsValue digitBase u ou (m + n + 1) by
      rw [htotal, Nat.mul_comm divisor, Nat.add_comm], hlt⟩
  exact ⟨hdiv.symm, hmod.symm⟩

end Rounds

end UtkKernel.Libc
