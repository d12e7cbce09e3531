import Mathlib.Logic.Function.Basic
import Mathlib.Order.Nat

/-! # Shifts of a table

The entries of a table move towards its front, all at once (`shifted`) or by a loop that copies every entry over the one
in front of it (`pulled`). The loop leaves the last entry where it was: without a blank written there in every turn, it
is dragged along (`dragged`). -/

namespace UtkKernel.Foundations
set_option autoImplicit false

variable {α : Type} {k : ℕ} (l : Fin k → α) (m n j : ℕ) (blank : α)

/-- Every entry moves by `n` places to the front, and blanks follow. -/
def shifted : Fin k → α := fun i => if h : i.val + n < k then l ⟨i + n, h⟩ else blank

/-- Every entry moves by `n` places to the front, and copies of the last one follow. -/
def dragged : Fin k → α := fun i => l ⟨min (i + n) (k - 1), by omega⟩

/-- The first `j` entries are copies of the ones behind them. -/
def pulled : Fin k → α := fun i => if h : i.val + 1 < k ∧ i.val < j then l ⟨i + 1, h.1⟩ else l i

@[simp] theorem shifted_zero : shifted l 0 blank = l := by
  funext i
  simp [shifted]

@[simp] theorem dragged_zero : dragged l 0 = l := by
  funext i
  have hlast : min i.val (k - 1) = i.val := by omega
  simp [dragged, hlast]

@[simp] theorem pulled_zero : pulled l 0 = l := by
  funext i
  simp [pulled]

theorem shifted_shifted : shifted (shifted l n blank) m blank = shifted l (n + m) blank := by
  funext i
  simp only [shifted]
  by_cases h : i.val + (n + m) < k
  · rw [dif_pos (by omega), dif_pos (by omega), dif_pos h]
    congr 2
    omega
  · rw [dif_neg h]
    by_cases hm : i.val + m < k
    · rw [dif_pos hm, dif_neg (by omega)]
    · rw [dif_neg hm]

theorem dragged_dragged : dragged (dragged l n) m = dragged l (n + m) := by
  funext i
  simp only [dragged]
  congr 2
  omega

/-- Moving everything out of the table, and further. -/
theorem shifted_min : shifted l (min n k) blank = shifted l n blank := by
  funext i
  simp only [shifted]
  by_cases h : i.val + n < k
  · have hmin : min n k = n := by omega
    simp only [hmin]
  · rw [dif_neg h, dif_neg (by omega)]

theorem dragged_min : dragged l (min n k) = dragged l n := by
  funext i
  simp only [dragged]
  congr 2
  omega

/-! ## The loop -/

/-- One turn of the loop. -/
theorem update_pulled (hj : j + 1 < k) :
    Function.update (pulled l j) ⟨j, by omega⟩ (pulled l j ⟨j + 1, hj⟩) = pulled l (j + 1) := by
  funext i
  obtain rfl | hne := eq_or_ne i ⟨j, by omega⟩
  · rw [Function.update_self]
    simp only [pulled]
    rw [dif_neg (by omega), dif_pos ⟨hj, by omega⟩]
  · have hval : i.val ≠ j := fun h => hne (Fin.ext h)
    have hlt : i.val < j + 1 ↔ i.val < j := by omega
    simp [Function.update_of_ne hne, pulled, hlt]

theorem pulled_all : pulled l (k - 1) = dragged l 1 := by
  funext i
  simp only [pulled, dragged]
  by_cases h : i.val + 1 < k
  · have hmin : min (i.val + 1) (k - 1) = i.val + 1 := by omega
    rw [dif_pos ⟨h, by omega⟩]
    simp only [hmin]
  · have hmin : min (i.val + 1) (k - 1) = i.val := by omega
    rw [dif_neg fun hc => h hc.1]
    simp only [hmin]

/-- A blank in the last place makes a shift of a pass of the loop. -/
theorem update_dragged_one (hk : 0 < k) :
    Function.update (dragged l 1) ⟨k - 1, by omega⟩ blank = shifted l 1 blank := by
  funext i
  obtain rfl | hne := eq_or_ne i ⟨k - 1, by omega⟩
  · simp [shifted, Nat.sub_add_cancel hk]
  · have hval : i.val ≠ k - 1 := fun h => hne (Fin.ext h)
    have hlt : i.val + 1 < k := by omega
    have hmin : min (i.val + 1) (k - 1) = i.val + 1 := by omega
    simp [Function.update_of_ne hne, dragged, shifted, hlt, hmin]

/-- After any other number of passes, only where the last entry was a blank to begin with. -/
theorem update_dragged_eq_shifted_iff (hk : 1 < k) :
    Function.update (dragged l n) ⟨k - 1, by omega⟩ blank = shifted l n blank ↔
      n = 1 ∨ l ⟨k - 1, by omega⟩ = blank := by
  constructor
  · intro h
    obtain rfl | hpos | hone : n = 0 ∨ 1 < n ∨ n = 1 := by omega
    · have hlast := congrFun h ⟨k - 1, by omega⟩
      rw [Function.update_self, shifted_zero] at hlast
      exact .inr hlast.symm
    · have hne : (⟨k - 2, by omega⟩ : Fin k) ≠ ⟨k - 1, by omega⟩ := fun hc => by
        have := congrArg Fin.val hc
        dsimp only at this
        omega
      have hbefore := congrFun h ⟨k - 2, by omega⟩
      have hmin : min (k - 2 + n) (k - 1) = k - 1 := by omega
      have hout : ¬ k - 2 + n < k := by omega
      rw [Function.update_of_ne hne] at hbefore
      simp only [dragged, shifted, hmin, hout, dite_false] at hbefore
      exact .inr hbefore
    · exact .inl hone
  · rintro (rfl | hlast)
    · exact update_dragged_one l blank (by omega)
    · funext i
      obtain rfl | hne := eq_or_ne i ⟨k - 1, by omega⟩
      · rw [Function.update_self, shifted]
        by_cases hn : k - 1 + n < k
        · have hn : n = 0 := by omega
          subst hn
          simp [hlast]
        · rw [dif_neg hn]
      · rw [Function.update_of_ne hne, shifted, dragged]
        by_cases hn : i.val + n < k
        · have hmin : min (i.val + n) (k - 1) = i.val + n := by omega
          rw [dif_pos hn]
          simp only [hmin]
        · have hmin : min (i.val + n) (k - 1) = k - 1 := by omega
          rw [dif_neg hn, ← hlast]
          simp only [hmin]

end UtkKernel.Foundations
