import Mathlib.Data.Nat.Bitwise
import Mathlib.Tactic.Zify
import UtkKernel.Foundations.LongDivision

/-! # 64-bit division

`__udivmoddi4` divides 64-bit numbers bit by bit. `__qdivrem` divides 64-bit numbers with 32-bit arithmetic, in base
65536 and by program D. The arrays `uspace`, `vspace` and `qspace` are functions from their indices, and the pointers
into them are offsets; what the stack holds before is a parameter. A loop that would leave its arrays, or never end,
gives `none`. -/

namespace UtkKernel.Libc
open Foundations
set_option autoImplicit false

/-! ## Words and digits -/

/-- The digit base `B`. -/
@[irreducible] def digitBase : ℕ := 65536

/-- A `uint32_t`. -/
def u32 (x : ℕ) : ℕ := x % 4294967296

/-- The difference of two `uint32_t`. -/
def subU32 (x y : ℕ) : ℕ := u32 (x + (4294967296 - u32 y))

def combine (a b : ℕ) : ℕ := u32 (a <<< 16) ||| b

def hhalf (x : ℕ) : ℕ := x >>> 16

def lhalf (x : ℕ) : ℕ := x &&& 65535

/-- The four digits of a 64-bit number, at the indices 1 to 4. -/
def loadDigits (space : ℕ → ℕ) (x : ℕ) : ℕ → ℕ :=
  let high := x / 4294967296
  let low := x % 4294967296
  Function.update (Function.update (Function.update (Function.update space 1 (hhalf high)) 2 (lhalf high)) 3 (hhalf low))
    4 (lhalf low)

/-- The 64-bit number that the indices 1 to 4 hold. -/
def storedDigits (space : ℕ → ℕ) : ℕ :=
  combine (space 1) (space 2) * 4294967296 + combine (space 3) (space 4)

/-! ## The lengths -/

/-- What skipping the divisor's leading zeros ends with: its only digit, or how many digits it has and behind which index
they are. -/
inductive Divisor where
  | short (t : ℕ)
  | long (n ov : ℕ)

def skipDivisor (v : ℕ → ℕ) : ℕ → ℕ → Option Divisor
  | 0, _ => none
  | n + 1, ov =>
    if v (ov + 1) = 0 then
      if n = 1 then some (.short (v (ov + 2)))
      else skipDivisor v n (ov + 1)
    else some (.long (n + 1) ov)

/-- The loop behind the divisor's: how many digits more than the divisor the dividend has, and where they are. -/
def skipDividend (u : ℕ → ℕ) : ℕ → ℕ → Option (ℕ × ℕ)
  | 0, ou => if u (ou + 1) = 0 then none else some (0, ou)
  | m + 1, ou => if u (ou + 1) = 0 then skipDividend u m (ou + 1) else some (m + 1, ou)

def clearDigits (q : ℕ → ℕ) : ℕ → ℕ → ℕ
  | 0 => q
  | i + 1 => clearDigits (Function.update q i 0) i

/-! ## One digit -/

/-- The division by a single digit: exercise 16. -/
def shortDivision (u : ℕ → ℕ) (t : ℕ) : ℕ × ℕ :=
  let q1 := u 1 / t
  let rbj := combine (u 1 % t) (u 2)
  let q2 := rbj / t
  let rbj := combine (rbj % t) (u 3)
  let q3 := rbj / t
  let rbj := combine (rbj % t) (u 4)
  let q4 := rbj / t
  (combine (q1 % digitBase) (q2 % digitBase) * 4294967296 + combine (q3 % digitBase) (q4 % digitBase), rbj % t)

/-! ## Program D -/

/-- D1: how far to shift for `v[1] >= B / 2`. -/
def shiftCount : ℕ → ℕ → ℕ → Option ℕ
  | 0, _, _ => none
  | fuel + 1, t, d => if t < digitBase / 2 then shiftCount fuel (u32 (t <<< 1)) (d + 1) else some d

/-- `shl` on the digits from index `i` on. -/
def shl (sh : ℕ) : ℕ → ℕ → (ℕ → ℕ) → ℕ → ℕ
  | 0, i, p => Function.update p i (lhalf (u32 (p i <<< sh)))
  | len + 1, i, p =>
    shl sh len (i + 1) (Function.update p i (lhalf (u32 (p i <<< sh)) ||| (p (i + 1) >>> (16 - sh))))

/-- D3: the loop that lowers the trial quotient, while the two leading digits of the divisor show it too large. -/
def lowerQhat (v1 v2 uj2 : ℕ) : ℕ → ℕ → ℕ
  | 0, _ => 0
  | qhat + 1, rhat =>
    if u32 (v2 * (qhat + 1)) > combine rhat uj2 then
      if rhat + v1 ≥ digitBase then qhat else lowerQhat v1 v2 uj2 qhat (rhat + v1)
    else qhat + 1

/-- D3. A quotient of `B` enters the loop behind its test. -/
def trialQhat (v1 v2 uj0 uj1 uj2 : ℕ) : ℕ :=
  if uj0 = v1 then
    if uj1 + v1 ≥ digitBase then digitBase - 1 else lowerQhat v1 v2 uj2 (digitBase - 1) (uj1 + v1)
  else
    lowerQhat v1 v2 uj2 (combine uj0 uj1 / v1) (combine uj0 uj1 % v1)

/-- D4: one digit of the multiplication and subtraction; the carry is a borrow. -/
def mulSubStep (v : ℕ → ℕ) (ov qhat i x t : ℕ) : ℕ × ℕ :=
  let t := subU32 (subU32 x (u32 (v (ov + i) * qhat))) t
  (lhalf t, (digitBase - hhalf t) &&& (digitBase - 1))

/-- D6: one digit of the addition. -/
def addBackStep (v : ℕ → ℕ) (ov i x t : ℕ) : ℕ × ℕ :=
  let t := u32 (t + (x + v (ov + i)))
  (lhalf t, hhalf t)

/-- D4 to D6, on the digits behind `p`: what is left of them, and the digit of the quotient. -/
def subtractDivisor (v : ℕ → ℕ) (n ov p qhat : ℕ) (u : ℕ → ℕ) : (ℕ → ℕ) × ℕ :=
  let r := sweep (mulSubStep v ov qhat) p n u 0
  let t := subU32 (r.1 p) r.2
  let u := Function.update r.1 p (lhalf t)
  if hhalf t ≠ 0 then
    let r := sweep (addBackStep v ov) p n u 0
    (Function.update r.1 p (lhalf (u32 (r.1 p + r.2))), subU32 qhat 1)
  else (u, qhat)

/-- The digits of the dividend that are left, and those of the quotient. -/
structure Spaces where
  u : ℕ → ℕ
  q : ℕ → ℕ

/-- The body of the loop on `j`, D3 to D6. -/
def divideRound (v : ℕ → ℕ) (n ov ou oq j : ℕ) (s : Spaces) : Spaces :=
  let qhat := trialQhat (v (ov + 1)) (v (ov + 2)) (s.u (ou + j)) (s.u (ou + j + 1)) (s.u (ou + j + 2))
  let r := subtractDivisor v n ov (ou + j) qhat s.u
  { u := r.1, q := Function.update s.q (oq + j) (r.2 % digitBase) }

def divideRounds (v : ℕ → ℕ) (n ov ou oq : ℕ) : ℕ → ℕ → Spaces → Spaces
  | 0, _, s => s
  | k + 1, j, s => divideRounds v n ov ou oq k (j + 1) (divideRound v n ov ou oq j s)

/-- The loop that shifts the remainder back, down to index `m`. -/
def shiftBack (d m : ℕ) : ℕ → (ℕ → ℕ) → ℕ → ℕ
  | 0, u => Function.update u m 0
  | i + 1, u =>
    shiftBack d m i (Function.update u (m + (i + 1))
      ((u (m + (i + 1)) >>> d) ||| lhalf (u32 (u (m + i) <<< (16 - d)))))

/-- Program D from the shift on, with the digits of the dividend behind `ou` and those of the divisor behind `ov`. -/
def programD (q u v : ℕ → ℕ) (n ov m ou d : ℕ) : ℕ × ℕ :=
  let u := if d > 0 then shl d (m + n) ou u else u
  let v := if d > 0 then shl d (n - 1) (ov + 1) v else v
  let r := divideRounds v n ov ou (4 - m) (m + 1) 0 ⟨u, clearDigits q (4 - m)⟩
  let u := if d > 0 then shiftBack d (ou + m) n r.u else r.u
  (storedDigits r.q, storedDigits u)

def longDivision (q u v : ℕ → ℕ) (n ov : ℕ) : Option (ℕ × ℕ) :=
  (skipDividend u (4 - n) 0).bind fun (m, ou) => (shiftCount 32 (v (ov + 1)) 0).map (programD q u v n ov m ou)

/-- The division of `__qdivrem`, where the divisor is not zero and not above the dividend. -/
def divideDigits (q u v : ℕ → ℕ) : Option (ℕ × ℕ) :=
  (skipDivisor v 4 0).bind fun
    | .short t => some (shortDivision u t)
    | .long n ov => longDivision q u v n ov

/-- `__qdivrem`: the quotient, and the remainder where the caller asks for it. -/
def qdivrem (stack : ℕ → ℕ) (uq vq : ℕ) (arq : Bool) : Option (ℕ × Option ℕ) :=
  if vq = 0 then some (0, if arq then some uq else none)
  else if uq < vq then some (0, if arq then some uq else none)
  else
    (divideDigits stack (loadDigits (Function.update stack 0 0) uq) (loadDigits stack vq)).map fun r =>
      (r.1, if arq then some r.2 else none)

def umoddi3 (stack : ℕ → ℕ) (a b : ℕ) : Option ℕ := (qdivrem stack a b true).bind Prod.snd

def udivdi3 (stack : ℕ → ℕ) (a b : ℕ) : Option ℕ := (qdivrem stack a b false).map Prod.fst

/-! ## Bit by bit -/

/-- The loop that shifts the denominator until its highest bit is set, and counts with `qbit`. -/
def justifyDen : ℕ → ℕ → ℕ → Option (ℕ × ℕ)
  | 0, _, _ => none
  | fuel + 1, den, qbit =>
    if den < 2 ^ 63 then justifyDen fuel ((den <<< 1) % 2 ^ 64) ((qbit <<< 1) % 2 ^ 64) else some (den, qbit)

/-- The loop that subtracts: the quotient and what is left of the numerator. -/
def subtractBits : ℕ → ℕ → ℕ → ℕ → ℕ → Option (ℕ × ℕ)
  | 0, _, _, _, _ => none
  | fuel + 1, num, den, quot, qbit =>
    if qbit ≠ 0 then
      if den ≤ num then subtractBits fuel (num - den) (den >>> 1) ((quot + qbit) % 2 ^ 64) (qbit >>> 1)
      else subtractBits fuel num (den >>> 1) quot (qbit >>> 1)
    else some (quot, num)

/-- `__udivmoddi4`: a denominator of zero is a division by zero, which gives nothing. -/
def udivmoddi4 (num den : ℕ) (remP : Bool) : Option (ℕ × Option ℕ) :=
  if den = 0 then none
  else
    (justifyDen 65 den 1).bind fun d =>
      (subtractBits 65 num d.1 0 d.2).map fun r => (r.1, if remP then some r.2 else none)

end UtkKernel.Libc
