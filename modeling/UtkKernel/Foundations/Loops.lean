import Mathlib.Data.List.Basic
import Mathlib.Order.Nat

/-! # Loops

A loop takes a state to the next one until it is done. It is run with fuel; that it is done is a proposition of its
own, without one. -/

namespace UtkKernel.Foundations
set_option autoImplicit false

variable {σ α : Type} {step : σ → α ⊕ σ} {s s' : σ} {a b : α} {fuel : ℕ}

/-- A loop with so much fuel: what it ends with, if it ends. -/
def loop (step : σ → α ⊕ σ) : ℕ → σ → Option α
  | 0, _ => none
  | fuel + 1, s =>
    match step s with
    | .inl a => some a
    | .inr s' => loop step fuel s'

theorem loop_done (h : step s = .inl a) (fuel : ℕ) : loop step (fuel + 1) s = some a := by rw [loop, h]

theorem loop_next (h : step s = .inr s') (fuel : ℕ) : loop step (fuel + 1) s = loop step fuel s' := by rw [loop, h]

/-- More fuel does no harm. -/
theorem loop_mono {more : ℕ} (h : loop step fuel s = some a) (hle : fuel ≤ more) : loop step more s = some a := by
  induction fuel generalizing s more with
  | zero => exact nomatch h
  | succ fuel ih =>
    obtain ⟨more, rfl⟩ : ∃ n, more = n + 1 := ⟨more - 1, by omega⟩
    rw [loop] at h ⊢
    cases hstep : step s with
    | inl b =>
      rw [hstep] at h
      exact h
    | inr s' =>
      rw [hstep] at h
      exact ih h (Nat.le_of_succ_le_succ hle)

/-- A loop ends with a value. -/
inductive Returns (step : σ → α ⊕ σ) : σ → α → Prop where
  | done {s : σ} {a : α} (h : step s = .inl a) : Returns step s a
  | next {s s' : σ} {a : α} (h : step s = .inr s') (hrest : Returns step s' a) : Returns step s a

theorem returns_iff_loop : Returns step s a ↔ ∃ fuel, loop step fuel s = some a := by
  constructor
  · intro h
    induction h with
    | done h => exact ⟨1, loop_done h 0⟩
    | next h _ ih =>
      obtain ⟨fuel, hfuel⟩ := ih
      exact ⟨fuel + 1, (loop_next h fuel).trans hfuel⟩
  · rintro ⟨fuel, hfuel⟩
    induction fuel generalizing s with
    | zero => exact nomatch hfuel
    | succ fuel ih =>
      cases hstep : step s with
      | inl b =>
        rw [loop_done hstep] at hfuel
        exact .done (hstep.trans (congrArg Sum.inl (Option.some.inj hfuel)))
      | inr s' =>
        rw [loop_next hstep] at hfuel
        exact .next hstep (ih hfuel)

theorem returns_next_iff (h : step s = .inr s') : Returns step s a ↔ Returns step s' a := by
  refine ⟨fun hreturns => ?_, .next h⟩
  cases hreturns with
  | done hdone => exact nomatch hdone.symm.trans h
  | next hnext hrest => exact Sum.inr.inj (hnext.symm.trans h) ▸ hrest

theorem returns_done_iff (h : step s = .inl b) : Returns step s a ↔ b = a := by
  refine ⟨fun hreturns => ?_, fun hb => .done (hb ▸ h)⟩
  cases hreturns with
  | done hdone => exact Sum.inl.inj (h.symm.trans hdone)
  | next hnext hrest => exact nomatch h.symm.trans hnext

/-- A loop ends with one value at most. -/
theorem Returns.unique (ha : Returns step s a) (hb : Returns step s b) : a = b := by
  induction ha with
  | done h => exact (returns_done_iff h).mp hb
  | next h _ ih => exact ih ((returns_next_iff h).mp hb)

/-- What holds of a state and goes from each state to the next holds of a state in which the loop ends. -/
theorem Returns.invariant (inv : σ → Prop) (h : Returns step s a) (hs : inv s)
    (hstep : ∀ s s', inv s → step s = .inr s' → inv s') : ∃ last, inv last ∧ step last = .inl a := by
  induction h with
  | done h => exact ⟨_, hs, h⟩
  | next h _ ih => exact ih (hstep _ _ hs h)

/-- A loop with a state from which no state ends it does not end. -/
theorem not_returns (inv : σ → Prop) (hs : inv s) (hstep : ∀ s, inv s → ∃ s', step s = .inr s' ∧ inv s') (a : α) :
    ¬Returns step s a := by
  intro h
  induction h with
  | done h =>
    obtain ⟨s', hnext, -⟩ := hstep _ hs
    exact nomatch h.symm.trans hnext
  | next h _ ih =>
    obtain ⟨s', hnext, hinv⟩ := hstep _ hs
    exact ih (Sum.inr.inj (hnext.symm.trans h) ▸ hinv)

end UtkKernel.Foundations
