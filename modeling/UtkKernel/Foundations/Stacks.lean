import Mathlib.Data.BitVec
import Mathlib.Logic.Function.Basic

/-! # Stacks that grow downwards

Words pushed one after another below a stack pointer of 32 bits. An address lies in a cell of the store; what is pushed
is read back as long as the addresses it goes to lie in different cells. -/

namespace UtkKernel.Foundations
set_option autoImplicit false

variable {C V : Type}

/-- The words from an address on upwards. -/
def peeks (cell : BitVec 32 → C) (s : C → V) : ℕ → BitVec 32 → List V
  | 0, _ => []
  | n + 1, sp => s (cell sp) :: peeks cell s n (sp + 4#32)

/-- The address of the word number `i` below a stack pointer. -/
def slot (sp : BitVec 32) (i : ℕ) : BitVec 32 := sp - BitVec.ofNat 32 (4 * (i + 1))

/-- The first `n` words below the stack pointer lie in different cells. -/
def Separate (cell : BitVec 32 → C) (sp : BitVec 32) (n : ℕ) : Prop :=
  ∀ i < n, ∀ j < n, cell (slot sp i) = cell (slot sp j) → i = j

variable {cell : BitVec 32 → C} {vs ws : List V} {v : V} {sp a : BitVec 32} {s s' : C → V} {c : C} {k n : ℕ}

theorem slot_zero : slot sp 0 = sp - 4#32 := rfl

theorem slot_succ (i : ℕ) : slot (sp - 4#32) i = slot sp (i + 1) := by
  unfold slot
  bv_omega

theorem slot_below (k i : ℕ) : slot (sp - BitVec.ofNat 32 (4 * k)) i = slot sp (k + i) := by
  unfold slot
  bv_omega

theorem slot_above {i : ℕ} (hi : i < n) : sp - BitVec.ofNat 32 (4 * n) + BitVec.ofNat 32 (4 * i) = slot sp (n - 1 - i) := by
  unfold slot
  bv_omega

theorem Separate.tail (h : Separate cell sp (n + 1)) : Separate cell (sp - 4#32) n := by
  intro i hi j hj heq
  rw [slot_succ, slot_succ] at heq
  exact Nat.succ.inj (h (i + 1) (Nat.succ_lt_succ hi) (j + 1) (Nat.succ_lt_succ hj) heq)

theorem Separate.mono (h : Separate cell sp n) (hk : k ≤ n) : Separate cell sp k :=
  fun i hi j hj => h i (by omega) j (by omega)

theorem peeks_last : peeks cell s (n + 1) sp = peeks cell s n sp ++ [s (cell (sp + BitVec.ofNat 32 (4 * n)))] := by
  induction n generalizing sp with
  | zero => simp [peeks]
  | succ n ih =>
    have hlast : sp + 4#32 + BitVec.ofNat 32 (4 * n) = sp + BitVec.ofNat 32 (4 * (n + 1)) := by bv_omega
    rw [peeks, ih, hlast, peeks, List.cons_append]

theorem peeks_congr (h : ∀ i < n, s (cell (sp + BitVec.ofNat 32 (4 * i))) = s' (cell (sp + BitVec.ofNat 32 (4 * i)))) :
    peeks cell s n sp = peeks cell s' n sp := by
  induction n with
  | zero => rfl
  | succ n ih => rw [peeks_last, peeks_last, ih fun i hi => h i (by omega), h n (Nat.lt_succ_self n)]

theorem peeks_getElem? {i : ℕ} (hi : i < n) : (peeks cell s n sp)[i]? = some (s (cell (sp + BitVec.ofNat 32 (4 * i)))) := by
  induction n generalizing sp i with
  | zero => omega
  | succ n ih =>
    cases i with
    | zero => simp [peeks]
    | succ i =>
      have hnext : sp + 4#32 + BitVec.ofNat 32 (4 * i) = sp + BitVec.ofNat 32 (4 * (i + 1)) := by bv_omega
      rw [peeks, List.getElem?_cons_succ, ih (by omega), hnext]

/-! ## Pushing -/

variable [DecidableEq C]

/-- The words go to the addresses 4, 8, ... bytes below the pointer. -/
def pushes (cell : BitVec 32 → C) : List V → BitVec 32 → (C → V) → BitVec 32 × (C → V)
  | [], sp, s => (sp, s)
  | v :: vs, sp, s => pushes cell vs (sp - 4#32) (Function.update s (cell (sp - 4#32)) v)

theorem pushes_append : pushes cell (vs ++ ws) sp s = pushes cell ws (pushes cell vs sp s).1 (pushes cell vs sp s).2 := by
  induction vs generalizing sp s with
  | nil => rfl
  | cons v vs ih => exact ih

theorem pushes_fst : (pushes cell vs sp s).1 = sp - BitVec.ofNat 32 (4 * vs.length) := by
  induction vs generalizing sp s with
  | nil => simp [pushes]
  | cons v vs ih =>
    rw [pushes, ih, List.length_cons]
    bv_omega

/-- Pushing leaves every cell that it does not write to. -/
theorem pushes_frame (h : ∀ i < vs.length, c ≠ cell (slot sp i)) : (pushes cell vs sp s).2 c = s c := by
  induction vs generalizing sp s with
  | nil => rfl
  | cons v vs ih =>
    have hrest : ∀ i < vs.length, c ≠ cell (slot (sp - 4#32) i) := by
      intro i hi
      rw [slot_succ]
      exact h (i + 1) (Nat.succ_lt_succ hi)
    rw [pushes, ih hrest]
    exact Function.update_of_ne (h 0 (Nat.succ_pos _)) _ _

/-- What was pushed is read back from the pointer on, the last word first. -/
theorem peeks_pushes (h : Separate cell sp vs.length) :
    peeks cell (pushes cell vs sp s).2 vs.length (pushes cell vs sp s).1 = vs.reverse := by
  induction vs generalizing sp s with
  | nil => rfl
  | cons v vs ih =>
    have hfirst : (pushes cell (v :: vs) sp s).1 + BitVec.ofNat 32 (4 * vs.length) = slot sp 0 := by
      rw [pushes_fst, slot_zero, List.length_cons]
      bv_omega
    have hothers : ∀ i < vs.length, cell (slot sp 0) ≠ cell (slot (sp - 4#32) i) := by
      intro i hi heq
      rw [slot_succ] at heq
      exact absurd (h 0 (Nat.succ_pos _) (i + 1) (Nat.succ_lt_succ hi) heq) (by omega)
    rw [List.length_cons, peeks_last, hfirst, List.reverse_cons, pushes, pushes_frame hothers, slot_zero,
      Function.update_self]
    congr 1
    exact ih h.tail

end UtkKernel.Foundations
