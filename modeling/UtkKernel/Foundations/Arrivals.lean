import Mathlib.Data.List.Nodup
import Mathlib.Data.List.Rotate
import Mathlib.Tactic

/-! # Queues that are joined at the head and served at the tail

`Shifted q q'` says that a queue went from `q` to `q'` by arrivals at its head while members left from
anywhere: nobody changes places. Then the last of a queue has been in it for as long as any other member
(`last_of_shifted`), and a queue whose last goes to its head serves every member once in a turn
(`rotation_once`). -/

namespace UtkKernel.Foundations
set_option autoImplicit false

variable {α : Type} {q q' q'' : List α} {x y : α}

/-- New members stand before what is left of the queue, which keeps its order. -/
def Shifted (q q' : List α) : Prop :=
  ∃ new kept, q' = new ++ kept ∧ kept.Sublist q ∧ ∀ u ∈ new, u ∉ q

theorem Shifted.refl (q : List α) : Shifted q q := ⟨[], q, rfl, List.Sublist.refl q, nofun⟩

theorem shifted_append {new : List α} (hnew : ∀ u ∈ new, u ∉ q) : Shifted q (new ++ q) :=
  ⟨new, q, rfl, List.Sublist.refl q, hnew⟩

theorem shifted_cons (hx : x ∉ q) : Shifted q (x :: q) := by
  have hnew : ∀ u ∈ [x], u ∉ q := fun u hu => List.mem_singleton.mp hu ▸ hx
  exact shifted_append hnew

theorem shifted_of_sublist (h : q'.Sublist q) : Shifted q q' := ⟨[], q', rfl, h, nofun⟩

/-- The last of a queue with arrivals leaves. -/
theorem shifted_dropLast {new : List α} (hnew : ∀ u ∈ new, u ∉ q) : Shifted q (new ++ q).dropLast := by
  cases hq : q with
  | nil =>
    rw [List.append_nil]
    exact ⟨new.dropLast, [], (List.append_nil _).symm, List.nil_sublist _, fun _ _ => List.not_mem_nil⟩
  | cons u rest =>
    rw [← hq, List.dropLast_append_of_ne_nil (by rw [hq]; exact List.cons_ne_nil u rest)]
    exact ⟨new, q.dropLast, rfl, List.dropLast_sublist q, hnew⟩

/-- Nobody who left came back. -/
theorem Shifted.trans (h : Shifted q q') (h' : Shifted q' q'') (hback : ∀ u ∈ q'', u ∈ q → u ∈ q') :
    Shifted q q'' := by
  obtain ⟨new, kept, rfl, hkept, hnew⟩ := h
  obtain ⟨new', kept', rfl, hkept', hnew'⟩ := h'
  obtain ⟨a, b, rfl, ha, hb⟩ := List.sublist_append_iff.mp hkept'
  refine ⟨new' ++ a, b, (List.append_assoc ..).symm, hb.trans hkept, fun u hu huq => ?_⟩
  rcases List.mem_append.mp hu with hu | hu
  · exact hnew' u hu (hback u (List.mem_append_left _ hu) huq)
  · exact hnew u (ha.subset hu) huq

/-- Two members who stand in order after a shift that the first was there before stood so before. -/
theorem Shifted.before (h : Shifted q q') (hy : y ∈ q) (hyx : [y, x].Sublist q') : [y, x].Sublist q := by
  obtain ⟨new, kept, rfl, hkept, hnew⟩ := h
  obtain ⟨a, b, hab, ha, hb⟩ := List.sublist_append_iff.mp hyx
  cases a with
  | nil =>
    rw [List.nil_append] at hab
    exact hab ▸ hb.trans hkept
  | cons u a =>
    obtain ⟨rfl, -⟩ := List.cons.inj hab
    exact absurd hy (hnew _ (ha.subset (List.mem_cons_self ..)))

/-- Nobody overtakes: the last of a queue has been in it for as long as any other member. -/
theorem last_of_shifted {Q : ℕ → List α} {j i : ℕ} (hij : j ≤ i)
    (hshift : ∀ k, j ≤ k → k < i → Shifted (Q k) (Q (k + 1))) (hlast : Q i = (Q i).dropLast ++ [x])
    (hy : ∀ k, j ≤ k → k ≤ i → y ∈ Q k) : ∀ k, j ≤ k → k ≤ i → x ∈ Q k := by
  by_cases hxy : y = x
  · exact hxy ▸ hy
  have hpair : [y, x].Sublist (Q i) := by
    have hmem := hy i hij le_rfl
    rw [hlast, List.mem_append, List.mem_singleton] at hmem
    rw [hlast]
    exact (List.singleton_sublist.mpr (hmem.resolve_right hxy)).append (List.Sublist.refl [x])
  have hback : ∀ n k, k + n = i → j ≤ k → [y, x].Sublist (Q k) := by
    intro n
    induction n with
    | zero =>
      intro k hk _
      obtain rfl : k = i := hk
      exact hpair
    | succ n ih =>
      intro k hk hjk
      have hnext := ih (k + 1) (by omega) (by omega)
      exact (hshift k hjk (by omega)).before (hy k hjk (by omega)) hnext
  intro k hjk hki
  have hsub := hback (i - k) k (by omega) hjk
  exact hsub.subset (List.mem_cons_of_mem _ (List.mem_cons_self ..))

/-! ## Rotation -/

/-- The last of a queue leaves, nobody else does, and in the end the same members are there: the last is the
first now. -/
theorem Shifted.rotated {new : List α} (hnodup : (q ++ [x]).Nodup) (hshift : Shifted q q')
    (hstay : ∀ u ∈ q, u ∈ q') (hperm : (new ++ q').Perm (q ++ [x])) : new ++ q' = x :: q := by
  obtain ⟨new', kept, rfl, hkept, hnew⟩ := hshift
  obtain ⟨hq, -, hx⟩ := List.nodup_append.mp hnodup
  have hsubset : q ⊆ kept := fun u hu =>
    (List.mem_append.mp (hstay u hu)).resolve_left fun hmem => hnew u hmem hu
  obtain rfl : kept = q := hkept.eq_of_length_le (hq.subperm hsubset).length_le
  rw [← List.append_assoc] at hperm ⊢
  have hlength := hperm.length_eq
  simp only [List.length_append, List.length_singleton] at hlength
  obtain ⟨y, hy⟩ : ∃ y, new ++ new' = [y] := List.length_eq_one_iff.mp (by rw [List.length_append]; omega)
  rw [hy] at hperm ⊢
  have hmem : y ∈ kept ++ [x] := hperm.subset (List.mem_append_left _ (List.mem_singleton_self y))
  have hnot : y ∉ kept := (List.nodup_cons.mp (hperm.nodup_iff.mpr hnodup)).1
  obtain rfl : y = x := List.mem_singleton.mp ((List.mem_append.mp hmem).resolve_left hnot)
  rfl

/-- The last of the queue, turn after turn. -/
theorem rotation_last {L : ℕ → List α} {x : ℕ → α} {n : ℕ} (hlast : ∀ k < n, L k = (L k).dropLast ++ [x k])
    (hrot : ∀ k, k + 1 < n → L (k + 1) = x k :: (L k).dropLast) {k : ℕ} (hk : k < n) :
    (L k).reverse = (L 0).reverse.rotate k := by
  induction k with
  | zero => rw [List.rotate_zero]
  | succ k ih =>
    have hstep : (L (k + 1)).reverse = (L k).reverse.rotate 1 := by
      rw [hrot k hk, List.reverse_cons]
      conv_rhs => rw [hlast k (by omega), List.reverse_append]
      rw [List.reverse_singleton, List.singleton_append, List.rotate_cons_succ, List.rotate_zero]
    rw [hstep, ih (by omega), List.rotate_rotate]

/-- In as many turns as the queue has members each of them is once the last. -/
theorem rotation_once {L : ℕ → List α} {x : ℕ → α} (hnodup : (L 0).Nodup)
    (hlast : ∀ k < (L 0).length, L k = (L k).dropLast ++ [x k])
    (hrot : ∀ k, k + 1 < (L 0).length → L (k + 1) = x k :: (L k).dropLast) {u : α} (hu : u ∈ L 0) :
    ∃! k, k < (L 0).length ∧ x k = u := by
  have hlen : (L 0).reverse.length = (L 0).length := List.length_reverse
  have hget : ∀ k < (L 0).length, (L 0).reverse[k]? = some (x k) := by
    intro k hk
    rw [← List.head?_rotate (hlen.symm ▸ hk), ← rotation_last hlast hrot hk, hlast k hk, List.reverse_append]
    rfl
  obtain ⟨k, hku⟩ := List.getElem?_of_mem (List.mem_reverse.mpr hu)
  obtain ⟨hk, -⟩ := List.getElem?_eq_some_iff.mp hku
  have hk' : k < (L 0).length := hlen ▸ hk
  refine ⟨k, ⟨hk', Option.some.inj ((hget k hk').symm.trans hku)⟩, fun m ⟨hm, hmu⟩ => ?_⟩
  have heq : (L 0).reverse[k]? = (L 0).reverse[m]? := by
    rw [hku, hget m hm, hmu]
  exact ((List.getElem?_inj hk (List.nodup_reverse.mpr hnodup)).mp heq).symm

end UtkKernel.Foundations
