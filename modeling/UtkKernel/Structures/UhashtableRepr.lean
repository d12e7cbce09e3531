import Mathlib.Tactic
import UtkKernel.Foundations.OpenAddressing
import UtkKernel.Structures.Uhashtable

/-! # The hash table as an open-addressing array

The slots of `entries` read as the slots of `Foundations.OpenAddressing`, the fuel of every function
shown to be a bound and nothing else, and what each function does to a well-shaped table: its probe
stops at the slot the library describes, and the update it makes there is one of the library's. -/

namespace UtkKernel.HashTable
open Foundations.Probing Foundations.OpenAddressing
set_option autoImplicit false

variable {α : Type}

/-! ## More fuel changes nothing -/

theorem setEntry_mono {fuel fuel' : ℕ} {t : Uhashtable α} {k : BitVec 32} {v : α} {b : Bool}
    {r : OsReturnE × Uhashtable α} (h : uhashtableSetEntry fuel t k v b = some r)
    (hf : fuel ≤ fuel') : uhashtableSetEntry fuel' t k v b = some r := by
  unfold uhashtableSetEntry at h ⊢
  cases hp : probe t.entries t.capacity (setStop k) fuel (entryIndex t.capacity k) with
  | none => simp [hp] at h
  | some i => simpa [hp, probe_mono hp hf] using h

theorem rehashEntry_mono {fuel fuel' : ℕ} {t t' : Uhashtable α} {e : UhashtableEntry α}
    (h : uhashtableRehashEntry fuel t e = some t') (hf : fuel ≤ fuel') :
    uhashtableRehashEntry fuel' t e = some t' := by
  unfold uhashtableRehashEntry at h ⊢
  cases hp : probe t.entries t.capacity (setStop e.key) fuel (entryIndex t.capacity e.key) with
  | none => simp [hp] at h
  | some i => simpa [hp, probe_mono hp hf] using h

theorem rehashLoop_mono {fuel fuel' : ℕ} {old : List (Option (UhashtableEntry α))}
    {t t' : Uhashtable α} (h : rehashLoop fuel old t = some t') (hf : fuel ≤ fuel') :
    rehashLoop fuel' old t = some t' := by
  induction old generalizing t with
  | nil => simpa [rehashLoop] using h
  | cons c old ih =>
    cases c with
    | none => exact ih h
    | some e =>
      simp only [rehashLoop] at h ⊢
      cases hu : e.isUsed with
      | false => simpa [hu] using ih (by simpa [hu] using h)
      | true =>
        simp only [hu, if_true] at h ⊢
        cases hr : uhashtableRehashEntry fuel t e with
        | none => simp [hr] at h
        | some t1 =>
          simp only [hr] at h
          simp only [rehashEntry_mono hr hf]
          exact ih h

theorem rehash_mono {fuel fuel' : ℕ} {t : Uhashtable α} {g : ℕ} {b : Bool}
    {r : OsReturnE × Uhashtable α} (h : uhashtableRehash fuel t g b = some r) (hf : fuel ≤ fuel') :
    uhashtableRehash fuel' t g b = some r := by
  simp only [uhashtableRehash] at h ⊢
  split_ifs at h ⊢ with h1 h2 h3
  · exact h
  · exact h
  · cases hr : rehashLoop fuel (t.entries.take t.capacity)
      { t with capacity := t.capacity * g % sizeTMod,
               entries := newEntries α (t.capacity * g % sizeTMod) } with
    | none => simp [hr] at h
    | some t1 => simpa [hr, rehashLoop_mono hr hf] using h

theorem get_mono {fuel fuel' : ℕ} {t : Uhashtable α} {k : BitVec 32} {r : OsReturnE × Option α}
    (h : uhashtableGet fuel t k = some r) (hf : fuel ≤ fuel') :
    uhashtableGet fuel' t k = some r := by
  unfold uhashtableGet at h ⊢
  cases hp : probe t.entries t.capacity (getStop k) fuel (entryIndex t.capacity k) with
  | none => simp [hp] at h
  | some i => simpa [hp, probe_mono hp hf] using h

theorem removeEntry_mono {fuel fuel' : ℕ} {t : Uhashtable α} {k : BitVec 32} {i : ℕ}
    {r : OsReturnE × Option α × Uhashtable α} (h : uhashtableRemoveEntry fuel t k i = some r)
    (hf : fuel ≤ fuel') : uhashtableRemoveEntry fuel' t k i = some r := by
  unfold uhashtableRemoveEntry at h ⊢
  cases hp : probe t.entries t.capacity (getStop k) fuel i with
  | none => simp [hp] at h
  | some i => simpa [hp, probe_mono hp hf] using h

/-! ## Slots -/

/-- What a pointer of `entries` says. -/
def slotOf : Option (UhashtableEntry α) → Slot (BitVec 32) α
  | none => .empty
  | some e => if e.isUsed then .live e.key e.data else .tomb

def slotAt (entries : List (Option (UhashtableEntry α))) (i : ℕ) : Slot (BitVec 32) α :=
  slotOf (entries[i]?).join

theorem slotAt_of_getElem? {entries : List (Option (UhashtableEntry α))} {i : ℕ}
    {c : Option (UhashtableEntry α)} (h : entries[i]? = some c) : slotAt entries i = slotOf c := by
  simp [slotAt, h]

theorem slotOf_eq_live {c : Option (UhashtableEntry α)} {k : BitVec 32} {v : α} :
    slotOf c = .live k v ↔ c = some ⟨k, v, true⟩ := by
  rcases c with _ | ⟨k', v', u⟩
  · simp [slotOf]
  · cases u <;> simp [slotOf]

theorem slotAt_eq_live {entries : List (Option (UhashtableEntry α))} {i : ℕ} {k : BitVec 32} {v : α}
    (h : slotAt entries i = .live k v) : entries[i]? = some (some ⟨k, v, true⟩) := by
  rw [slotAt, slotOf_eq_live] at h
  cases he : entries[i]? with
  | none => simp [he] at h
  | some c => simpa [he] using h

theorem slotAt_set {entries : List (Option (UhashtableEntry α))} {i : ℕ} (hi : i < entries.length)
    (c : Option (UhashtableEntry α)) :
    slotAt (entries.set i c) = Function.update (slotAt entries) i (slotOf c) := by
  funext j
  by_cases hij : j = i
  · subst hij
    simp [slotAt, hi]
  · have : i ≠ j := fun h => hij h.symm
    simp [slotAt, Function.update_of_ne hij, List.getElem?_set_ne this]

/-! ## Shape -/

/-- The array is fully allocated and its capacity is a power of two that `size_t` can index. -/
structure Shaped (t : Uhashtable α) : Prop where
  cap : ∃ n, 4 ≤ n ∧ n ≤ 29 ∧ t.capacity = 2 ^ n
  len : t.entries.length = t.capacity

/-- A well-shaped table that stands for the map `m`. -/
structure Stands (t : Uhashtable α) (m : BitVec 32 → Option α) : Prop extends Shaped t where
  repr : Represents (slotAt t.entries) t.capacity (entryIndex t.capacity) m

theorem Shaped.cap_pos {t : Uhashtable α} (h : Shaped t) : 0 < t.capacity := by
  obtain ⟨n, -, -, hn⟩ := h.cap
  rw [hn]
  positivity

theorem Shaped.cap_le {t : Uhashtable α} (h : Shaped t) : t.capacity ≤ 2 ^ 29 := by
  obtain ⟨n, -, hn, he⟩ := h.cap
  rw [he]
  exact Nat.pow_le_pow_right (by norm_num) hn

theorem Shaped.le_cap {t : Uhashtable α} (h : Shaped t) : 16 ≤ t.capacity := by
  obtain ⟨n, hn, -, he⟩ := h.cap
  rw [he]
  exact Nat.pow_le_pow_right (n := 2) (by norm_num) hn

theorem Shaped.index_lt {t : Uhashtable α} (h : Shaped t) (k : BitVec 32) :
    entryIndex t.capacity k < t.capacity := by
  obtain ⟨n, -, -, hn⟩ := h.cap
  rw [entryIndex, hn, Nat.and_two_pow_sub_one_eq_mod]
  exact Nat.mod_lt _ (by positivity)

theorem Shaped.slot_lt {t : Uhashtable α} (h : Shaped t) (i : ℕ) :
    i % t.capacity < t.entries.length := by
  rw [h.len]
  exact Nat.mod_lt _ h.cap_pos

/-! ## Where the probes stop -/

/-- The probe of `set` for the key stops at distance `d` from its home. -/
abbrev SetStops (t : Uhashtable α) (k : BitVec 32) (d : ℕ) : Prop :=
  Stops t.entries t.capacity (setStop k) (entryIndex t.capacity k) d

/-- The probe of `get` and `remove` for the key stops at distance `d` from its home. -/
abbrev GetStops (t : Uhashtable α) (k : BitVec 32) (d : ℕ) : Prop :=
  Stops t.entries t.capacity (getStop k) (entryIndex t.capacity k) d

theorem exists_getStops {t : Uhashtable α} (h : Shaped t) (hnull : none ∈ t.entries)
    (k : BitVec 32) : ∃ d, GetStops t k d := by
  obtain ⟨j, hj⟩ := List.getElem?_of_mem hnull
  exact exists_stops (h.index_lt k) h.len hj rfl

theorem exists_setStops {t : Uhashtable α} (h : Shaped t) (hnull : none ∈ t.entries)
    (k : BitVec 32) : ∃ d, SetStops t k d := by
  obtain ⟨j, hj⟩ := List.getElem?_of_mem hnull
  exact exists_stops (h.index_lt k) h.len hj rfl

theorem Shaped.stop_lt {t : Uhashtable α} (h : Shaped t) {stop : Option (UhashtableEntry α) → Bool}
    {i d : ℕ} (hd : Stops t.entries t.capacity stop i d) : d < t.capacity :=
  hd.lt_cap.resolve_right (by have := h.cap_pos; omega)

/-- Before the stop of `set`, every slot is used for another key. -/
theorem slot_before_set {t : Uhashtable α} {k : BitVec 32} {d e : ℕ} (hd : SetStops t k d)
    (he : e < d) : ∃ k' v, k' ≠ k ∧
      slotAt t.entries ((entryIndex t.capacity k + e) % t.capacity) = .live k' v := by
  obtain ⟨c, hc, hs⟩ := hd.2 e he
  rcases c with _ | ⟨k', v, u⟩
  · simp [setStop] at hs
  · simp only [setStop, Bool.or_eq_false_iff, Bool.not_eq_false', beq_eq_false_iff_ne] at hs
    refine ⟨k', v, hs.2, ?_⟩
    rw [slotAt_of_getElem? hc]
    simp [slotOf, hs.1]

/-- Before the stop of `get`, no slot is `NULL` and none is used for the key. -/
theorem slot_before_get {t : Uhashtable α} {k : BitVec 32} {d e : ℕ} (hd : GetStops t k d)
    (he : e < d) : slotAt t.entries ((entryIndex t.capacity k + e) % t.capacity) ≠ .empty ∧
      ∀ v, slotAt t.entries ((entryIndex t.capacity k + e) % t.capacity) ≠ .live k v := by
  obtain ⟨c, hc, hs⟩ := hd.2 e he
  rw [slotAt_of_getElem? hc]
  rcases c with _ | ⟨k', v', u⟩
  · simp [getStop] at hs
  · simp only [getStop, Bool.and_eq_false_iff, beq_eq_false_iff_ne] at hs
    cases u
    · simp [slotOf]
    · have hk : k' ≠ k := hs.resolve_right (by simp)
      simp [slotOf, hk]

end UtkKernel.HashTable
