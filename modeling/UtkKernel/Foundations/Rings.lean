import Mathlib.Data.List.Cycle

/-! # Rings

A ring is a list whose elements are linked to their successors and the last one to the first, for a
relation that a step changes at a few elements: `Cycle.Chain` with the rules for one element that joins
or leaves. -/

namespace UtkKernel.Foundations
set_option autoImplicit false

variable {α : Type} {R R' : α → α → Prop} {x y : α} {l : List α}

/-- The links of a list hold of a second relation that agrees with the first one except on links from
its last element and on links to its first one. -/
theorem isChain_change (h : l.IsChain R) (hnodup : l.Nodup)
    (hkeep : ∀ u ∈ l, ∀ v ∈ l, l.getLast? ≠ some u → l.head? ≠ some v → R u v → R' u v) :
    l.IsChain R' := by
  induction l with
  | nil => exact .nil
  | cons a l ih =>
    obtain ⟨hnot, hnodup'⟩ := List.nodup_cons.mp hnodup
    cases l with
    | nil => exact .singleton a
    | cons b l =>
      rw [List.isChain_cons_cons] at h ⊢
      refine ⟨hkeep a (by simp) b (by simp) ?_ ?_ h.1, ih h.2 hnodup' ?_⟩
      · intro hlast
        rw [List.getLast?_cons_cons] at hlast
        exact hnot (List.mem_of_getLast? hlast)
      · intro hhead
        cases hhead
        exact hnot (List.mem_cons_self ..)
      · intro u hu v hv hlast _ hR
        have hva : a ≠ v := fun he => hnot (he ▸ hv)
        refine hkeep u (List.mem_cons_of_mem a hu) v (List.mem_cons_of_mem a hv) ?_ ?_ hR
        · rwa [List.getLast?_cons_cons]
        · rw [List.head?_cons]
          exact fun he => hva (Option.some.inj he)

theorem ring_cons : Cycle.Chain R (x :: l : List α) ↔
    (x :: l).IsChain R ∧ R ((x :: l).getLast (List.cons_ne_nil x l)) x := by
  rw [Cycle.chain_ne_nil R (List.cons_ne_nil x l), List.isChain_cons_cons, and_comm]

theorem ring_rotate (l1 l2 : List α) :
    Cycle.Chain R (l1 ++ l2 : List α) ↔ Cycle.Chain R (l2 ++ l1 : List α) := by
  have he : ((l1 ++ l2 : List α) : Cycle α) = (l2 ++ l1 : List α) :=
    Cycle.coe_eq_coe.mpr (List.isRotated_append)
  rw [he]

theorem ring_congr (h : Cycle.Chain R l) (hkeep : ∀ u ∈ l, ∀ v ∈ l, R u v → R' u v) :
    Cycle.Chain R' l := by
  cases l with
  | nil => exact Cycle.Chain.nil R'
  | cons x l =>
    rw [ring_cons] at h ⊢
    refine ⟨?_, hkeep _ (List.getLast_mem _) _ (List.mem_cons_self ..) h.2⟩
    exact h.1.imp_of_mem_imp fun u v hu hv hR => hkeep u hu v hv hR

/-- An element joins the ring before its first one. -/
theorem ring_join (h : Cycle.Chain R (x :: l : List α)) (hnodup : (x :: l).Nodup)
    (hkeep : ∀ u ∈ x :: l, ∀ v ∈ x :: l, (x :: l).getLast? ≠ some u → v ≠ x → R u v → R' u v)
    (hbefore : R' ((x :: l).getLast (List.cons_ne_nil x l)) y) (hbehind : R' y x) :
    Cycle.Chain R' (y :: x :: l : List α) := by
  rw [ring_cons] at h ⊢
  rw [List.isChain_cons_cons, List.getLast_cons (List.cons_ne_nil x l)]
  refine ⟨⟨hbehind, isChain_change h.1 hnodup fun u hu v hv hlast hhead hR => ?_⟩, hbefore⟩
  exact hkeep u hu v hv hlast (fun he => hhead (by rw [he]; rfl)) hR

/-- The first element leaves the ring. -/
theorem ring_leave (h : Cycle.Chain R (x :: y :: l : List α)) (hnodup : (y :: l).Nodup)
    (hkeep : ∀ u ∈ y :: l, ∀ v ∈ y :: l, (y :: l).getLast? ≠ some u → v ≠ y → R u v → R' u v)
    (hclose : R' ((y :: l).getLast (List.cons_ne_nil y l)) y) :
    Cycle.Chain R' (y :: l : List α) := by
  rw [ring_cons] at h ⊢
  refine ⟨isChain_change h.1.tail hnodup fun u hu v hv hlast hhead hR => ?_, hclose⟩
  exact hkeep u hu v hv hlast (fun he => hhead (by rw [he]; rfl)) hR

end UtkKernel.Foundations
