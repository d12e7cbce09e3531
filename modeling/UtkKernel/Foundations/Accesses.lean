import Mathlib.Logic.Function.Basic
import Mathlib.Data.Set.Basic

/-! # Code that reads and writes shared cells one at a time

`Code L V α` is a computation that makes single accesses to cells `L` with values `V` and ends with a
value in `α`. Alone it runs from a store to a store (`run`); between the steps of others it makes one
access at a time (`step`). `Ensures W Q` is its weakest precondition for the postcondition `Q` with the
promise that it writes only cells of `W`; a step keeps it, so it also says what holds in between. -/

namespace UtkKernel.Foundations
set_option autoImplicit false

variable {L V α β : Type}

inductive Code (L V α : Type) where
  | ret (a : α)
  | get (l : L) (k : V → Code L V α)
  | set (l : L) (v : V) (k : Code L V α)

namespace Code

def bind : Code L V α → (α → Code L V β) → Code L V β
  | .ret a, f => f a
  | .get l k, f => .get l fun v => (k v).bind f
  | .set l v k, f => .set l v (k.bind f)

instance : Monad (Code L V) where
  pure := .ret
  bind := bind

def read (l : L) : Code L V V := .get l .ret

def write (l : L) (v : V) : Code L V Unit := .set l v (.ret ())

variable [DecidableEq L]

/-- The value and the store the code ends with when nobody else runs. -/
def run : Code L V α → (L → V) → α × (L → V)
  | .ret a, m => (a, m)
  | .get l k, m => (k (m l)).run m
  | .set l v k, m => k.run (Function.update m l v)

/-- The next access; none when the code has ended. -/
def step : Code L V α → (L → V) → Option (Code L V α × (L → V))
  | .ret _, _ => none
  | .get l k, m => some (k (m l), m)
  | .set l v k, m => some (k, Function.update m l v)

/-- The code writes only cells of `W` and ends in `Q`. -/
def Ensures (W : Set L) (Q : α → (L → V) → Prop) : Code L V α → (L → V) → Prop
  | .ret a, m => Q a m
  | .get l k, m => (k (m l)).Ensures W Q m
  | .set l v k, m => l ∈ W ∧ k.Ensures W Q (Function.update m l v)

/-! ## Running -/

variable {m m' : L → V} {c c' : Code L V α} {f : α → Code L V β}

@[simp] theorem run_pure (a : α) (m : L → V) : (pure a : Code L V α).run m = (a, m) := rfl

@[simp] theorem run_bind (c : Code L V α) (f : α → Code L V β) (m : L → V) :
    (c >>= f).run m = (f (c.run m).1).run (c.run m).2 := by
  induction c generalizing m with
  | ret a => rfl
  | get l k ih => exact ih (m l) m
  | set l v k ih => exact ih (Function.update m l v)

@[simp] theorem run_read (l : L) (m : L → V) : (read l : Code L V V).run m = (m l, m) := rfl

@[simp] theorem run_write (l : L) (v : V) (m : L → V) :
    (write l v : Code L V Unit).run m = ((), Function.update m l v) := rfl

/-- A step leads to code that runs to the same end. -/
theorem run_of_step (h : c.step m = some (c', m')) : c'.run m' = c.run m := by
  cases c with
  | ret a => cases h
  | get l k =>
    cases h
    rfl
  | set l v k =>
    cases h
    rfl

/-! ## Weakest preconditions -/

variable {W W' : Set L} {Q Q' : α → (L → V) → Prop} {R : β → (L → V) → Prop}

@[simp] theorem ensures_pure (a : α) : Ensures W Q (pure a) m ↔ Q a m := Iff.rfl

@[simp] theorem ensures_read {Q : V → (L → V) → Prop} (l : L) : Ensures W Q (read l) m ↔ Q (m l) m :=
  Iff.rfl

@[simp] theorem ensures_write {Q : Unit → (L → V) → Prop} (l : L) (v : V) :
    Ensures W Q (write l v) m ↔ l ∈ W ∧ Q () (Function.update m l v) := Iff.rfl

@[simp] theorem ensures_bind :
    Ensures W R (c >>= f) m ↔ Ensures W (fun a m' => Ensures W R (f a) m') c m := by
  induction c generalizing m with
  | ret a => exact Iff.rfl
  | get l k ih => exact ih (m l)
  | set l v k ih => exact and_congr_right fun _ => ih

theorem Ensures.mono (h : Ensures W Q c m) (hW : W ⊆ W') (hQ : ∀ a m', Q a m' → Q' a m') :
    Ensures W' Q' c m := by
  induction c generalizing m with
  | ret a => exact hQ a m h
  | get l k ih => exact ih (m l) h
  | set l v k ih => exact ⟨hW h.1, ih h.2⟩

/-- A cell that the code may not write keeps its value. -/
theorem Ensures.frame (h : Ensures W Q c m) :
    Ensures W (fun a m' => Q a m' ∧ ∀ l, l ∉ W → m' l = m l) c m := by
  induction c generalizing m with
  | ret a => exact ⟨h, fun _ _ => rfl⟩
  | get l k ih => exact ih (m l) h
  | set l v k ih =>
    refine ⟨h.1, (ih h.2).mono subset_rfl fun a m' ⟨hQ, hsame⟩ => ⟨hQ, fun l' hl' => ?_⟩⟩
    have hne : l' ≠ l := fun he => hl' (he ▸ h.1)
    rw [hsame l' hl', Function.update_of_ne hne]

/-- The rule of consequence for the first part of a sequence. -/
theorem Ensures.bind (h : Ensures W Q c m) (hW : W ⊆ W')
    (hf : ∀ a m', Q a m' → (∀ l, l ∉ W → m' l = m l) → Ensures W' R (f a) m') :
    Ensures W' R (c >>= f) m := by
  rw [ensures_bind]
  exact h.frame.mono hW fun a m' ha => hf a m' ha.1 ha.2

theorem Ensures.run (h : Ensures W Q c m) : Q (c.run m).1 (c.run m).2 := by
  induction c generalizing m with
  | ret a => exact h
  | get l k ih => exact ih (m l) h
  | set l v k ih => exact ih h.2

/-- Between two accesses the promise stands, and no access writes outside `W`. -/
theorem Ensures.step (h : Ensures W Q c m) (hs : c.step m = some (c', m')) :
    Ensures W Q c' m' ∧ ∀ l, l ∉ W → m' l = m l := by
  cases c with
  | ret a => cases hs
  | get l k =>
    cases hs
    exact ⟨h, fun _ _ => rfl⟩
  | set l v k =>
    cases hs
    refine ⟨h.2, fun l' hl' => ?_⟩
    have hne : l' ≠ l := fun he => hl' (he ▸ h.1)
    exact Function.update_of_ne hne _ _

end Code

end UtkKernel.Foundations
