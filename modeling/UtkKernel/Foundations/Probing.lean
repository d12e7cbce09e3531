import Mathlib.Data.List.Basic
import Mathlib.Data.Nat.Find
import Mathlib.Data.Nat.ModEq

/-! # Linear probing round a circular array

`probe` walks an array of `cap` slots from an index, wrapping at the end, until a slot satisfies a
stop test. It is the loop of every open-addressing table. A probe may never stop: then it gives
`none` for every fuel. -/

namespace UtkKernel.Foundations.Probing
set_option autoImplicit false

variable {Cell : Type}

/-- The first index from `i`, going round `cap` slots, whose cell passes `stop`. It is `none` when
the fuel runs out first, or when an index lies outside the array. -/
def probe (cells : List Cell) (cap : ℕ) (stop : Cell → Bool) : ℕ → ℕ → Option ℕ
  | 0, _ => none
  | fuel + 1, i =>
    match cells[i]? with
    | none => none
    | some c => if stop c then some i else probe cells cap stop fuel ((i + 1) % cap)

/-! ## Positions on a circle -/

theorem step_index (cap i d : ℕ) : ((i + 1) % cap + d) % cap = (i + (d + 1)) % cap := by
  rw [Nat.mod_add_mod]
  congr 1
  omega

/-- Every index is at some distance below `cap` from any other. -/
theorem exists_distance {cap i j : ℕ} (hi : i < cap) (hj : j < cap) :
    ∃ d < cap, (i + d) % cap = j := by
  by_cases h : i ≤ j
  · exact ⟨j - i, by omega, by rw [show i + (j - i) = j by omega, Nat.mod_eq_of_lt hj]⟩
  · refine ⟨j + cap - i, by omega, ?_⟩
    rw [show i + (j + cap - i) = j + cap by omega, Nat.add_mod_right, Nat.mod_eq_of_lt hj]

/-! ## Where a probe stops -/

/-- `Stops cells cap stop i d`: from `i`, the slot at distance `d` is the first that passes. -/
def Stops (cells : List Cell) (cap : ℕ) (stop : Cell → Bool) (i d : ℕ) : Prop :=
  (∃ c, cells[(i + d) % cap]? = some c ∧ stop c = true) ∧
    ∀ e < d, ∃ c, cells[(i + e) % cap]? = some c ∧ stop c = false

theorem probe_stops {cells : List Cell} {cap : ℕ} {stop : Cell → Bool} {fuel i j : ℕ}
    (hi : i < cap) (h : probe cells cap stop fuel i = some j) :
    ∃ d, (i + d) % cap = j ∧ Stops cells cap stop i d := by
  induction fuel generalizing i with
  | zero => simp [probe] at h
  | succ fuel ih =>
    rw [probe] at h
    split at h
    · cases h
    · next c hc =>
      by_cases hs : stop c = true
      · rw [if_pos hs, Option.some.injEq] at h
        subst h
        refine ⟨0, Nat.mod_eq_of_lt hi, ⟨c, ?_, hs⟩, fun e he => absurd he (Nat.not_lt_zero e)⟩
        rwa [Nat.add_zero, Nat.mod_eq_of_lt hi]
      · rw [if_neg hs] at h
        obtain ⟨d, hd, ⟨c', hc', hs'⟩, hbefore⟩ := ih (Nat.mod_lt _ (by omega)) h
        rw [step_index] at hd hc'
        refine ⟨d + 1, hd, ⟨c', hc', hs'⟩, fun e he => ?_⟩
        cases e with
        | zero => exact ⟨c, by rwa [Nat.add_zero, Nat.mod_eq_of_lt hi], by simpa using hs⟩
        | succ e =>
          have := hbefore e (by omega)
          rwa [step_index] at this

theorem probe_of_stops {cells : List Cell} {cap : ℕ} {stop : Cell → Bool} {i d : ℕ}
    (hi : i < cap) (h : Stops cells cap stop i d) (fuel : ℕ) (hf : d < fuel) :
    probe cells cap stop fuel i = some ((i + d) % cap) := by
  induction d generalizing i fuel with
  | zero =>
    obtain ⟨fuel, rfl⟩ : ∃ f, fuel = f + 1 := ⟨fuel - 1, by omega⟩
    obtain ⟨c, hc, hs⟩ := h.1
    rw [Nat.add_zero, Nat.mod_eq_of_lt hi] at hc
    simp [probe, hc, hs, Nat.mod_eq_of_lt hi]
  | succ d ih =>
    obtain ⟨fuel, rfl⟩ : ∃ f, fuel = f + 1 := ⟨fuel - 1, by omega⟩
    obtain ⟨c, hc, hs⟩ := h.2 0 (by omega)
    rw [Nat.add_zero, Nat.mod_eq_of_lt hi] at hc
    have hnext : Stops cells cap stop ((i + 1) % cap) d := by
      constructor
      · have := h.1
        rwa [← step_index] at this
      · intro e he
        have := h.2 (e + 1) (by omega)
        rwa [← step_index] at this
    have := ih (Nat.mod_lt _ (by omega)) hnext fuel (by omega)
    rw [step_index] at this
    simp [probe, hc, hs, this]

/-- The distance at which a probe stops is below the capacity. -/
theorem Stops.lt_cap {cells : List Cell} {cap : ℕ} {stop : Cell → Bool} {i d : ℕ}
    (h : Stops cells cap stop i d) : d < cap ∨ cap = 0 := by
  by_contra hc
  obtain ⟨c, hc1, hs⟩ := h.1
  obtain ⟨c', hc2, hs'⟩ := h.2 (d - cap) (by omega)
  have hidx : (i + (d - cap)) % cap = (i + d) % cap := by
    rw [show i + d = i + (d - cap) + cap by omega, Nat.add_mod_right]
  rw [hidx, hc1, Option.some.injEq] at hc2
  subst hc2
  rw [hs] at hs'
  cases hs'

theorem Stops.unique {cells : List Cell} {cap : ℕ} {stop : Cell → Bool} {i d e : ℕ}
    (hd : Stops cells cap stop i d) (he : Stops cells cap stop i e) : d = e := by
  have one : ∀ a b, Stops cells cap stop i a → Stops cells cap stop i b → ¬ a < b := by
    intro a b ha hb hab
    obtain ⟨c, hc, hs⟩ := ha.1
    obtain ⟨c', hc', hs'⟩ := hb.2 a hab
    rw [hc, Option.some.injEq] at hc'
    subst hc'
    rw [hs] at hs'
    cases hs'
  have h1 := one d e hd he
  have h2 := one e d he hd
  omega

/-- A probe of a full array with a passing slot somewhere stops. -/
theorem exists_stops {cells : List Cell} {cap : ℕ} {stop : Cell → Bool} {i : ℕ} (hi : i < cap)
    (hlen : cells.length = cap) {j : ℕ} {c : Cell} (hc : cells[j]? = some c) (hs : stop c = true) :
    ∃ d, Stops cells cap stop i d := by
  have hj : j < cap := by
    rw [← hlen]
    exact (List.getElem?_eq_some_iff.mp hc).1
  obtain ⟨d, -, hd⟩ := exists_distance hi hj
  have hex : ∃ d, ∃ c, cells[(i + d) % cap]? = some c ∧ stop c = true := ⟨d, c, by rw [hd]; exact hc, hs⟩
  classical
  refine ⟨Nat.find hex, Nat.find_spec hex, fun e he => ?_⟩
  have hlt : (i + e) % cap < cells.length := by
    rw [hlen]
    exact Nat.mod_lt _ (by omega)
  refine ⟨cells[(i + e) % cap], List.getElem?_eq_getElem hlt, ?_⟩
  have hmin := Nat.find_min hex he
  by_contra hne
  exact hmin ⟨_, List.getElem?_eq_getElem hlt, by simpa using hne⟩

theorem probe_mono {cells : List Cell} {cap : ℕ} {stop : Cell → Bool} {fuel fuel' i j : ℕ}
    (h : probe cells cap stop fuel i = some j) (hf : fuel ≤ fuel') :
    probe cells cap stop fuel' i = some j := by
  induction fuel generalizing fuel' i with
  | zero => simp [probe] at h
  | succ fuel ih =>
    obtain ⟨f, rfl⟩ : ∃ f, fuel' = f + 1 := ⟨fuel' - 1, by omega⟩
    rw [probe] at h ⊢
    cases hc : cells[i]? with
    | none => simp [hc] at h
    | some c =>
      simp only [hc] at h ⊢
      by_cases hs : stop c = true
      · simpa [hs] using h
      · rw [if_neg hs] at h ⊢
        exact ih h (by omega)

/-- A probe of an array without a passing slot never stops. -/
theorem probe_none_of_forall {cells : List Cell} {cap : ℕ} {stop : Cell → Bool}
    (h : ∀ c ∈ cells, stop c = false) (fuel i : ℕ) : probe cells cap stop fuel i = none := by
  induction fuel generalizing i with
  | zero => rfl
  | succ fuel ih =>
    rw [probe]
    split
    · rfl
    · next c hc => rw [if_neg (by simp [h c (List.mem_of_getElem? hc)]), ih]

end UtkKernel.Foundations.Probing
