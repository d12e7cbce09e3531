import Mathlib.Data.BitVec
import Mathlib.Data.List.Basic

/-! # Registers as sets of bits

Setting and clearing one bit of a register, and the first bit that is set, which in a register of requests is the one of
the highest priority. -/

namespace UtkKernel.Foundations
set_option autoImplicit false

variable {w : ℕ} {v : BitVec w} {k n : ℕ}

def setBit (v : BitVec w) (k : ℕ) : BitVec w := v ||| (1#w <<< k)

def clearBit (v : BitVec w) (k : ℕ) : BitVec w := v &&& ~~~(1#w <<< k)

def firstBit (v : BitVec w) : Option ℕ := (List.range w).find? v.getLsbD

theorem getLsbD_one_shift (hn : n < w) : (1#w <<< k).getLsbD n = decide (n = k) := by
  rw [← BitVec.twoPow_eq, BitVec.getLsbD_twoPow]
  by_cases h : k = n
  · simp [h, hn]
  · simp [h, Ne.symm h]

theorem getLsbD_setBit (hn : n < w) : (setBit v k).getLsbD n = (v.getLsbD n || decide (n = k)) := by
  rw [setBit, BitVec.getLsbD_or, getLsbD_one_shift hn]

theorem getLsbD_clearBit (hn : n < w) : (clearBit v k).getLsbD n = (v.getLsbD n && decide (n ≠ k)) := by
  rw [clearBit, BitVec.getLsbD_and, BitVec.getLsbD_not, getLsbD_one_shift hn]
  simp [hn]

theorem firstBit_eq_none_iff : firstBit v = none ↔ ∀ n < w, v.getLsbD n = false := by
  simp [firstBit]

/-- Bits below the first one are clear. -/
theorem firstBit_eq_some_iff : firstBit v = some k ↔ v.getLsbD k = true ∧ ∀ n < k, v.getLsbD n = false := by
  rw [firstBit, List.find?_range_eq_some]
  constructor
  · rintro ⟨hk, -, hbefore⟩
    exact ⟨hk, fun n hn => by simpa using hbefore n hn⟩
  · rintro ⟨hk, hbefore⟩
    refine ⟨hk, List.mem_range.mpr (BitVec.lt_of_getLsbD hk), fun n hn => ?_⟩
    rw [hbefore n hn]
    rfl

theorem firstBit_lt (h : firstBit v = some k) : k < w := BitVec.lt_of_getLsbD (firstBit_eq_some_iff.mp h).1

end UtkKernel.Foundations
