import Mathlib.Data.Fintype.Card
import Mathlib.Data.Finset.Card

/-! # Mutual exclusion by a lock, and counts of threads

Threads `T` of which some are inside a section that one lock guards, and numbers of threads with a
property when a step changes the property of one of them. -/

namespace UtkKernel.Foundations
set_option autoImplicit false

variable {T : Type}

/-! ## One lock -/

/-- The lock is taken exactly while some thread is inside, and only one is. -/
structure Exclusive (locked : Prop) (inside : T → Prop) : Prop where
  locked : locked ↔ ∃ t, inside t
  unique : ∀ t u, inside t → inside u → t = u

/-- What a step of a thread does with the lock: the thread stays on its side, takes the free lock and
enters, or leaves and releases it. -/
inductive LockMove (locked locked' self self' : Prop) : Prop
  | keep (hlock : locked' ↔ locked) (hself : self' ↔ self)
  | take (hfree : ¬ locked) (hlock : locked') (hself : self')
  | release (hself : self) (hlock : ¬ locked') (hout : ¬ self')

theorem LockMove.exclusive {locked locked' : Prop} {inside inside' : T → Prop} {t : T}
    (h : LockMove locked locked' (inside t) (inside' t))
    (hothers : ∀ u, u ≠ t → (inside' u ↔ inside u)) (hx : Exclusive locked inside) :
    Exclusive locked' inside' := by
  cases h with
  | keep hlock hself =>
    have hsame : ∀ u, inside' u ↔ inside u := by
      intro u
      by_cases hu : u = t
      · rw [hu, hself]
      · exact hothers u hu
    refine ⟨?_, fun u v hu hv => hx.unique u v ((hsame u).mp hu) ((hsame v).mp hv)⟩
    rw [hlock, hx.locked]
    exact exists_congr fun u => (hsame u).symm
  | take hfree hlock hself =>
    have honly : ∀ u, inside' u → u = t := by
      intro u hu
      by_contra hne
      exact hfree (hx.locked.mpr ⟨u, (hothers u hne).mp hu⟩)
    exact ⟨iff_of_true hlock ⟨t, hself⟩, fun u v hu hv => (honly u hu).trans (honly v hv).symm⟩
  | release hself hlock hout =>
    have hnone : ∀ u, ¬ inside' u := by
      intro u hu
      have hne : u ≠ t := fun he => hout (he ▸ hu)
      exact hne (hx.unique u t ((hothers u hne).mp hu) hself)
    exact ⟨iff_of_false hlock fun h => h.elim hnone, fun u _ hu _ => absurd hu (hnone u)⟩

/-- Nobody else is inside. -/
theorem Exclusive.alone {locked : Prop} {inside : T → Prop} (hx : Exclusive locked inside) {t u : T}
    (ht : inside t) (hu : u ≠ t) : ¬ inside u :=
  fun h => hu (hx.unique u t h ht)

/-! ## Counts -/

variable [Fintype T]

/-- The number of threads with the property. -/
def population (p : T → Bool) : ℕ := (Finset.univ.filter fun t => p t = true).card

theorem population_congr {p q : T → Bool} (h : ∀ t, p t = q t) : population p = population q := by
  rw [funext h]

theorem population_le_card (p : T → Bool) : population p ≤ Fintype.card T :=
  Finset.card_le_univ _

theorem population_pos {p : T → Bool} {t : T} (ht : p t = true) : 0 < population p :=
  Finset.card_pos.mpr ⟨t, Finset.mem_filter.mpr ⟨Finset.mem_univ t, ht⟩⟩

theorem population_eq_zero {p : T → Bool} (h : ∀ t, p t = false) : population p = 0 := by
  apply Finset.card_eq_zero.mpr
  apply Finset.filter_eq_empty_iff.mpr
  intro t _
  simp [h t]

theorem population_mono {p q : T → Bool} (h : ∀ t, p t = true → q t = true) :
    population p ≤ population q :=
  Finset.card_le_card (Finset.monotone_filter_right _ fun t _ => h t)

/-- One thread comes to have the property. -/
theorem population_join {p q : T → Bool} {t : T} (hp : p t = false) (hq : q t = true)
    (h : ∀ u, u ≠ t → q u = p u) : population q = population p + 1 := by
  classical
  have hset : (Finset.univ.filter fun u => q u = true) =
      insert t (Finset.univ.filter fun u => p u = true) := by
    ext u
    by_cases hu : u = t
    · simp [hu, hq]
    · simp [hu, h u hu]
  unfold population
  rw [hset, Finset.card_insert_of_notMem (by simp [hp])]

/-- One thread ceases to have the property. -/
theorem population_leave {p q : T → Bool} {t : T} (hp : p t = true) (hq : q t = false)
    (h : ∀ u, u ≠ t → q u = p u) : population p = population q + 1 :=
  population_join hq hp fun u hu => (h u hu).symm

/-- A step of `t` takes at most `t` out of those with the property. -/
theorem population_le_add_one {p q : T → Bool} {t : T} (h : ∀ u, u ≠ t → p u = true → q u = true) :
    population p ≤ population q + 1 := by
  classical
  have hsub : (Finset.univ.filter fun u => p u = true) ⊆
      insert t (Finset.univ.filter fun u => q u = true) := by
    intro u hu
    rw [Finset.mem_filter] at hu
    rw [Finset.mem_insert, Finset.mem_filter]
    by_cases hut : u = t
    · exact .inl hut
    · exact .inr ⟨Finset.mem_univ u, h u hut hu.2⟩
  exact (Finset.card_le_card hsub).trans (Finset.card_insert_le _ _)

end UtkKernel.Foundations
