import Mathlib.Logic.Function.Basic
import Mathlib.Data.Nat.ModEq

/-! # Open addressing with tombstones

A circular array of `cap` slots over arbitrary keys and values. `Represents s cap home m`: the array
`s` stands for the partial map `m`. Two clauses carry every proof about such a table: no empty slot
lies between a key's home and the slot that holds it, and no key is held twice. The four updates a
table makes (a key into a free slot, a new value for a held key, a tombstone for a held key, and the
fresh array) each come with the map they lead to. -/

namespace UtkKernel.Foundations.OpenAddressing
set_option autoImplicit false

/-- What one slot of the array holds. -/
inductive Slot (K V : Type) where
  | empty
  | tomb
  | live (k : K) (v : V)

variable {K V : Type}

/-- The array `s` of `cap` slots stands for the partial map `m`. -/
structure Represents (s : ℕ → Slot K V) (cap : ℕ) (home : K → ℕ) (m : K → Option V) : Prop where
  path : ∀ i < cap, ∀ k v, s i = .live k v →
    ∃ d, (home k + d) % cap = i ∧ ∀ e < d, s ((home k + e) % cap) ≠ .empty
  unique : ∀ i < cap, ∀ j < cap, ∀ k v w, s i = .live k v → s j = .live k w → i = j
  lookup : ∀ k v, m k = some v ↔ ∃ i < cap, s i = .live k v

theorem represents_fresh (cap : ℕ) (home : K → ℕ) :
    Represents (fun _ => (.empty : Slot K V)) cap home (fun _ => none) := by
  constructor <;> simp

variable {s : ℕ → Slot K V} {cap : ℕ} {home : K → ℕ} {m : K → Option V}

theorem Represents.value_of_live (h : Represents s cap home m) {i : ℕ} (hi : i < cap) {k : K} {v : V}
    (hl : s i = .live k v) : m k = some v :=
  (h.lookup k v).mpr ⟨i, hi, hl⟩

/-- A search that meets an empty slot before the key has shown the key to be absent. -/
theorem Represents.none_of_empty (h : Represents s cap home m) {k : K} {d : ℕ}
    (he : s ((home k + d) % cap) = .empty) (hk : ∀ e < d, ∀ v, s ((home k + e) % cap) ≠ .live k v) :
    m k = none := by
  by_contra hne
  obtain ⟨v, hv⟩ := Option.ne_none_iff_exists'.mp hne
  obtain ⟨i, hi, hl⟩ := (h.lookup k v).mp hv
  obtain ⟨d', hd', hpath⟩ := h.path i hi k v hl
  rw [← hd'] at hl
  rcases Nat.lt_trichotomy d' d with hlt | heq | hgt
  · exact hk d' hlt v hl
  · rw [heq, he] at hl
    cases hl
  · exact hpath d hgt he

/-- Nothing in a slot's neighbourhood becomes empty when the slot itself is filled. -/
theorem update_ne_empty {j i : ℕ} {x : Slot K V} (hx : x ≠ .empty) (hi : s i ≠ .empty) :
    Function.update s j x i ≠ .empty := by
  by_cases hij : i = j
  · rw [hij, Function.update_self]
    exact hx
  · rwa [Function.update_of_ne hij]

variable [DecidableEq K]

/-- An absent key goes into a slot that holds no key, reached from its home over nonempty slots. -/
theorem Represents.insert (h : Represents s cap home m) {k : K} (v : V) {d : ℕ} (hcap : 0 < cap)
    (hfree : ∀ k' v', s ((home k + d) % cap) ≠ .live k' v')
    (hpath : ∀ e < d, s ((home k + e) % cap) ≠ .empty) (hk : m k = none) :
    Represents (Function.update s ((home k + d) % cap) (.live k v)) cap home
      (Function.update m k (some v)) := by
  set j := (home k + d) % cap with hj
  have hjlt : j < cap := Nat.mod_lt _ hcap
  have habsent : ∀ i < cap, ∀ w, s i ≠ .live k w := by
    intro i hi w hw
    rw [h.value_of_live hi hw] at hk
    cases hk
  constructor
  · intro i hi k' v' hl
    by_cases hij : i = j
    · rw [hij, Function.update_self] at hl
      injection hl with hkk hvv
      subst hkk
      refine ⟨d, by rw [hij], fun e he => update_ne_empty (by simp) (hpath e he)⟩
    · rw [Function.update_of_ne hij] at hl
      obtain ⟨d', hd', hp⟩ := h.path i hi k' v' hl
      exact ⟨d', hd', fun e he => update_ne_empty (by simp) (hp e he)⟩
  · intro a ha b hb k' x y hx hy
    by_cases haj : a = j
    · by_cases hbj : b = j
      · rw [haj, hbj]
      · rw [haj, Function.update_self] at hx
        rw [Function.update_of_ne hbj] at hy
        injection hx with hkk
        subst hkk
        exact absurd hy (habsent b hb y)
    · rw [Function.update_of_ne haj] at hx
      by_cases hbj : b = j
      · rw [hbj, Function.update_self] at hy
        injection hy with hkk
        subst hkk
        exact absurd hx (habsent a ha x)
      · rw [Function.update_of_ne hbj] at hy
        exact h.unique a ha b hb k' x y hx hy
  · intro k' w
    by_cases hkk : k' = k
    · subst hkk
      rw [Function.update_self, Option.some.injEq]
      constructor
      · rintro rfl
        exact ⟨j, hjlt, Function.update_self ..⟩
      · rintro ⟨i, hi, hl⟩
        by_cases hij : i = j
        · rw [hij, Function.update_self] at hl
          injection hl
        · rw [Function.update_of_ne hij] at hl
          exact absurd hl (habsent i hi w)
    · rw [Function.update_of_ne hkk, h.lookup k' w]
      constructor
      · rintro ⟨i, hi, hl⟩
        have hij : i ≠ j := by
          rintro rfl
          exact hfree k' w hl
        exact ⟨i, hi, by rwa [Function.update_of_ne hij]⟩
      · rintro ⟨i, hi, hl⟩
        by_cases hij : i = j
        · rw [hij, Function.update_self] at hl
          injection hl with hkk'
          exact absurd hkk'.symm hkk
        · exact ⟨i, hi, by rwa [Function.update_of_ne hij] at hl⟩

/-- A held key gets a new value in its slot. -/
theorem Represents.overwrite (h : Represents s cap home m) {k : K} (v : V) {j : ℕ} {w : V}
    (hj : j < cap) (hl : s j = .live k w) :
    Represents (Function.update s j (.live k v)) cap home (Function.update m k (some v)) := by
  have honly : ∀ i < cap, ∀ x, s i = .live k x → i = j := fun i hi x hx => h.unique i hi j hj k x w hx hl
  constructor
  · intro i hi k' v' hl'
    have hold : ∃ x, s i = .live k' x := by
      by_cases hij : i = j
      · rw [hij, Function.update_self] at hl'
        injection hl' with hkk
        subst hkk
        exact ⟨w, by rw [hij, hl]⟩
      · exact ⟨v', by rwa [Function.update_of_ne hij] at hl'⟩
    obtain ⟨x, hx⟩ := hold
    obtain ⟨d, hd, hp⟩ := h.path i hi k' x hx
    exact ⟨d, hd, fun e he => update_ne_empty (by simp) (hp e he)⟩
  · intro a ha b hb k' x y hx hy
    have hold : ∀ i z, Function.update s j (.live k v) i = .live k' z → ∃ z', s i = .live k' z' := by
      intro i z hz
      by_cases hij : i = j
      · rw [hij, Function.update_self] at hz
        injection hz with hkk
        subst hkk
        exact ⟨w, by rw [hij, hl]⟩
      · exact ⟨z, by rwa [Function.update_of_ne hij] at hz⟩
    obtain ⟨x', hx'⟩ := hold a x hx
    obtain ⟨y', hy'⟩ := hold b y hy
    exact h.unique a ha b hb k' x' y' hx' hy'
  · intro k' z
    by_cases hkk : k' = k
    · subst hkk
      rw [Function.update_self, Option.some.injEq]
      constructor
      · rintro rfl
        exact ⟨j, hj, Function.update_self ..⟩
      · rintro ⟨i, hi, hl'⟩
        by_cases hij : i = j
        · rw [hij, Function.update_self] at hl'
          injection hl'
        · rw [Function.update_of_ne hij] at hl'
          exact absurd (honly i hi z hl') hij
    · rw [Function.update_of_ne hkk, h.lookup k' z]
      constructor
      · rintro ⟨i, hi, hl'⟩
        have hij : i ≠ j := by
          rintro rfl
          rw [hl] at hl'
          injection hl' with hkk'
          exact hkk hkk'.symm
        exact ⟨i, hi, by rwa [Function.update_of_ne hij]⟩
      · rintro ⟨i, hi, hl'⟩
        by_cases hij : i = j
        · rw [hij, Function.update_self] at hl'
          injection hl' with hkk'
          exact absurd hkk'.symm hkk
        · exact ⟨i, hi, by rwa [Function.update_of_ne hij] at hl'⟩

/-- A held key is removed by turning its slot into a tombstone. -/
theorem Represents.bury (h : Represents s cap home m) {k : K} {j : ℕ} {w : V} (hj : j < cap)
    (hl : s j = .live k w) :
    Represents (Function.update s j .tomb) cap home (Function.update m k none) := by
  have hold : ∀ i k' z, Function.update s j .tomb i = .live k' z → i ≠ j ∧ s i = .live k' z := by
    intro i k' z hz
    by_cases hij : i = j
    · rw [hij, Function.update_self] at hz
      cases hz
    · exact ⟨hij, by rwa [Function.update_of_ne hij] at hz⟩
  constructor
  · intro i hi k' v' hl'
    obtain ⟨d, hd, hp⟩ := h.path i hi k' v' (hold i k' v' hl').2
    exact ⟨d, hd, fun e he => update_ne_empty (by simp) (hp e he)⟩
  · intro a ha b hb k' x y hx hy
    exact h.unique a ha b hb k' x y (hold a k' x hx).2 (hold b k' y hy).2
  · intro k' z
    by_cases hkk : k' = k
    · subst hkk
      rw [Function.update_self]
      constructor
      · intro hz
        cases hz
      · rintro ⟨i, hi, hl'⟩
        obtain ⟨hij, hs⟩ := hold i k' z hl'
        exact absurd (h.unique i hi j hj k' z w hs hl) hij
    · rw [Function.update_of_ne hkk, h.lookup k' z]
      constructor
      · rintro ⟨i, hi, hl'⟩
        have hij : i ≠ j := by
          rintro rfl
          rw [hl] at hl'
          injection hl' with hkk'
          exact hkk hkk'.symm
        exact ⟨i, hi, by rwa [Function.update_of_ne hij]⟩
      · rintro ⟨i, hi, hl'⟩
        exact ⟨i, hi, (hold i k' z hl').2⟩

end UtkKernel.Foundations.OpenAddressing
