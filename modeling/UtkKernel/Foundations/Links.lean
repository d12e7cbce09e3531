import Mathlib.Data.Fintype.Pigeonhole
import Mathlib.Order.WellFounded

/-! # Links

A relation says where one may go on from a thing. Of finitely many things, either each way ends or one comes back to
where it was. -/

namespace UtkKernel.Foundations
open Relation
set_option autoImplicit false

variable {α : Type} {leads : α → α → Prop} {a b : α}

/-- A way from here comes back to where it was. -/
def Circles (leads : α → α → Prop) (a : α) : Prop := ∃ b, ReflTransGen leads a b ∧ TransGen leads b b

/-- Each way from here ends. -/
def Ends (leads : α → α → Prop) (a : α) : Prop := Acc (fun b a => leads a b) a

theorem Ends.next (hends : Ends leads a) (h : leads a b) : Ends leads b := hends.inv h

theorem Ends.later (hends : Ends leads a) (h : ReflTransGen leads a b) : Ends leads b := by
  induction h with
  | refl => exact hends
  | tail _ h ih => exact ih.next h

theorem ends_of_next (h : ∀ b, leads a b → Ends leads b) : Ends leads a := .intro a h

/-- What holds of a thing if it holds of everything behind it holds of a thing from which each way ends. -/
@[elab_as_elim] theorem Ends.induction {p : α → Prop} (hends : Ends leads a)
    (h : ∀ a, Ends leads a → (∀ b, TransGen leads a b → p b) → p a) : p a := by
  have hall : ∀ b, ReflTransGen leads a b → p b := by
    induction hends with
    | intro a hacc ih =>
      have hbehind : ∀ b, TransGen leads a b → p b := by
        intro b hb
        obtain ⟨c, hac, hcb⟩ := TransGen.head'_iff.mp hb
        exact ih c hac b hcb
      intro b hb
      rcases reflTransGen_iff_eq_or_transGen.mp hb with rfl | hb
      · exact h b (.intro b hacc) hbehind
      · exact hbehind b hb
  exact hall a .refl

theorem not_ends_of_self (h : TransGen leads a a) : ¬Ends leads a := fun hends =>
  hends.induction (p := fun b => ¬TransGen leads b b) (fun _ _ hbehind hself => hbehind _ hself hself) h

theorem ends_iff [Finite α] : Ends leads a ↔ ¬Circles leads a := by
  constructor
  · rintro hends ⟨b, hab, hself⟩
    exact not_ends_of_self hself (hends.later hab)
  · intro hnone
    by_contra hends
    obtain ⟨f, rfl, hf⟩ := not_acc_iff_exists_descending_chain.mp hends
    have hway : ∀ i j, i < j → TransGen leads (f i) (f j) := by
      intro i j hlt
      induction hlt with
      | refl => exact .single (hf i)
      | step _ ih => exact ih.tail (hf _)
    -- the way has no end, but there are finitely many things to come by
    obtain ⟨i, j, hne, heq⟩ := Finite.exists_ne_map_eq_of_infinite f
    wlog hlt : i < j generalizing i j
    · exact this j i hne.symm heq.symm (lt_of_le_of_ne (Nat.le_of_not_lt hlt) hne.symm)
    refine hnone ⟨f i, ?_, ?_⟩
    · rcases Nat.eq_zero_or_pos i with rfl | hi
      · exact .refl
      · exact (hway 0 i hi).to_reflTransGen
    · have hself := hway i j hlt
      rwa [← heq] at hself

instance finite_bitVec (w : ℕ) : Finite (BitVec w) := .of_injective BitVec.toFin fun _ _ => BitVec.eq_of_toFin_eq

end UtkKernel.Foundations
