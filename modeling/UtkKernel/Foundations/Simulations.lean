import UtkKernel.Foundations.Runs
import Mathlib.Data.List.Forall2

/-! # Simulations of labelled transition systems

A relation between the states of two systems that a step of the one takes to a step of the other under the same action
takes whole runs of the one to runs of the other. -/

namespace UtkKernel.Foundations
set_option autoImplicit false

variable {σ τ A : Type}

/-- What the one system does next, the other one can do next, and the states stay related. -/
def Simulates (step : σ → A → σ → Prop) (step' : τ → A → τ → Prop) (R : σ → τ → Prop) : Prop :=
  ∀ s t a s', R s t → step s a s' → ∃ t', step' t a t' ∧ R s' t'

variable {step : σ → A → σ → Prop} {step' : τ → A → τ → Prop} {R : σ → τ → Prop}

/-- Under a simulation a run has a run beside it with the same actions and with related states all along. -/
theorem Simulates.trace (h : Simulates step step' R) {s : σ} {t : τ} {l : List (A × σ)} (hl : Trace step s l)
    (hst : R s t) : ∃ l', Trace step' t l' ∧ List.Forall₂ (fun x y => x.1 = y.1 ∧ R x.2 y.2) l l' := by
  induction hl generalizing t with
  | nil s => exact ⟨[], .nil t, .nil⟩
  | @cons s s' a l hs _ ih =>
    obtain ⟨t', ht, hst'⟩ := h s t a s' hst hs
    obtain ⟨l', hl', hrel⟩ := ih hst'
    exact ⟨(a, t') :: l', .cons ht hl', .cons ⟨rfl, hst'⟩ hrel⟩

end UtkKernel.Foundations
