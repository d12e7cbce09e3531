import UtkKernel.Structures.UhashtableRuns

/-! # Removal from any table

A set may put a key into a tombstone while the key is live further on, and a miscounted size may let a set take
the last `NULL` slot, so a table reached by arbitrary calls need not stand for a map. Its used entries are still
found: no `NULL` slot lies between the home of a key and an entry that holds it. -/

namespace UtkKernel.HashTable
open Foundations Foundations.Probing Foundations.OpenAddressing
set_option autoImplicit false

variable {α : Type} {t t' : Uhashtable α} {k : BitVec 32} {v : α} {fuel : ℕ} {err : OsReturnE}

/-- Every used entry is reached from the home of its key over slots that are not `NULL`. -/
structure Linked (t : Uhashtable α) : Prop extends Shaped t where
  path : ∀ i < t.capacity, ∀ k v, slotAt t.entries i = .live k v →
    ∃ d, pathSlot t k d = i ∧ ∀ e < d, slotAt t.entries (pathSlot t k e) ≠ .empty

/-! ## One call -/

theorem linked_new {n c s g : ℕ} (hn : 4 ≤ n) (hn' : n ≤ 29) (hc : c = 2 ^ n) :
    Linked (⟨newEntries α c, c, s, g⟩ : Uhashtable α) := by
  have h : Stands (⟨newEntries α c, c, s, g⟩ : Uhashtable α) fun _ => none := stands_new hn hn' hc
  exact ⟨h.toShaped, h.repr.path⟩

/-- The key is written where a set stops. -/
theorem Linked.put (h : Linked t) {d : ℕ} (hd : SetStops t k d) (v : α) (n g : ℕ) :
    Linked (⟨t.entries.set (pathSlot t k d) (some ⟨k, v, true⟩), t.capacity, n, g⟩ : Uhashtable α) := by
  refine ⟨h.toShaped.set _ _ n g, fun i hi k' v' hlive => ?_⟩
  have hslots : slotAt (t.entries.set (pathSlot t k d) (some ⟨k, v, true⟩)) =
      Function.update (slotAt t.entries) (pathSlot t k d) (.live k v) := slotAt_set (h.slot_lt _) _
  dsimp only at hlive ⊢
  rw [hslots] at hlive ⊢
  by_cases hpos : i = pathSlot t k d
  · rw [hpos, Function.update_self] at hlive
    cases hlive
    refine ⟨d, hpos.symm, fun e he => update_ne_empty (by simp) ?_⟩
    obtain ⟨k'', w, -, hslot⟩ := slot_before_set hd he
    rw [hslot]
    simp
  · rw [Function.update_of_ne hpos] at hlive
    obtain ⟨d', hd', hpath⟩ := h.path i hi k' v' hlive
    exact ⟨d', hd', fun e he => update_ne_empty (by simp) (hpath e he)⟩

/-- An entry becomes a tombstone. -/
theorem Linked.bury (h : Linked t) {i : ℕ} (hi : i < t.capacity) (k : BitVec 32) (v : α) (n g : ℕ) :
    Linked (⟨t.entries.set i (some ⟨k, v, false⟩), t.capacity, n, g⟩ : Uhashtable α) := by
  refine ⟨h.toShaped.set _ _ n g, fun j hj k' v' hlive => ?_⟩
  have hslots : slotAt (t.entries.set i (some ⟨k, v, false⟩)) =
      Function.update (slotAt t.entries) i .tomb := slotAt_set (by rwa [h.len]) _
  dsimp only at hlive ⊢
  rw [hslots] at hlive ⊢
  by_cases hpos : j = i
  · rw [hpos, Function.update_self] at hlive
    cases hlive
  · rw [Function.update_of_ne hpos] at hlive
    obtain ⟨d', hd', hpath⟩ := h.path j hj k' v' hlive
    exact ⟨d', hd', fun e he => update_ne_empty (by simp) (hpath e he)⟩

/-- What the slot holds at which a set has stopped. -/
theorem setStops_of_probe (h : Shaped t) {i : ℕ}
    (hp : probe t.entries t.capacity (setStop k) fuel (entryIndex t.capacity k) = some i) :
    ∃ d, i = pathSlot t k d ∧ SetStops t k d ∧ ((t.entries[i]? = some none) ∨
      (∃ w, t.entries[i]? = some (some ⟨k, w, true⟩)) ∨ ∃ k' w, t.entries[i]? = some (some ⟨k', w, false⟩)) := by
  obtain ⟨d, hd, hstops⟩ := probe_stops (h.index_lt k) hp
  refine ⟨d, hd.symm, hstops, ?_⟩
  obtain ⟨c, hc, hs⟩ := hstops.1
  rw [hd] at hc
  rcases c with _ | ⟨k', w, u⟩
  · exact .inl hc
  · cases u with
    | true =>
      obtain rfl : k' = k := by simpa [setStop] using hs
      exact .inr (.inl ⟨w, hc⟩)
    | false => exact .inr (.inr ⟨k', w, hc⟩)

theorem Linked.setEntry (h : Linked t) {b : Bool} (hs : uhashtableSetEntry fuel t k v b = some (err, t')) :
    Linked t' := by
  unfold uhashtableSetEntry at hs
  cases hp : probe t.entries t.capacity (setStop k) fuel (entryIndex t.capacity k) with
  | none => simp [hp] at hs
  | some i =>
    obtain ⟨d, rfl, hd, hc | ⟨w, hc⟩ | ⟨k', w, hc⟩⟩ := setStops_of_probe h.toShaped hp
    · simp only [hp, hc] at hs
      split_ifs at hs with hb
      · cases hs
        exact h.put hd v _ _
      · cases hs
        exact h
    · simp only [hp, hc, if_true] at hs
      cases hs
      exact h.put hd v _ _
    · simp only [hp, hc, Bool.false_eq_true, if_false] at hs
      cases hs
      exact h.put hd v _ _

theorem Linked.rehashEntry (h : Linked t) (hs : uhashtableRehashEntry fuel t ⟨k, v, true⟩ = some t') :
    Linked t' ∧ t'.capacity = t.capacity := by
  unfold uhashtableRehashEntry at hs
  dsimp only at hs
  cases hp : probe t.entries t.capacity (setStop k) fuel (entryIndex t.capacity k) with
  | none => simp [hp] at hs
  | some i =>
    obtain ⟨d, rfl, hd, hc | ⟨w, hc⟩ | ⟨k', w, hc⟩⟩ := setStops_of_probe h.toShaped hp
    · simp only [hp, hc] at hs
      cases hs
      exact ⟨h.put hd v _ _, rfl⟩
    · simp only [hp, hc, if_true] at hs
      cases hs
      exact ⟨h.put hd v _ _, rfl⟩
    · simp only [hp, hc, Bool.false_eq_true, if_false] at hs
      cases hs
      exact ⟨h.put hd v _ _, rfl⟩

theorem Linked.rehashLoop (old : List (Option (UhashtableEntry α))) (h : Linked t)
    (hs : HashTable.rehashLoop fuel old t = some t') : Linked t' := by
  induction old generalizing t with
  | nil =>
    cases hs
    exact h
  | cons c old ih =>
    rcases c with _ | ⟨k, v, u⟩
    · exact ih h hs
    · cases u with
      | false =>
        simp only [HashTable.rehashLoop, Bool.false_eq_true, if_false] at hs
        exact ih h hs
      | true =>
        simp only [HashTable.rehashLoop, if_true] at hs
        cases hput : uhashtableRehashEntry fuel t ⟨k, v, true⟩ with
        | none => simp [hput] at hs
        | some t1 =>
          rw [hput] at hs
          exact ih (h.rehashEntry hput).1 hs

theorem Linked.rehash (h : Linked t) (hcap : t.capacity ≤ 2 ^ 28) {b : Bool}
    (hs : uhashtableRehash fuel t 2 b = some (err, t')) : Linked t' := by
  obtain ⟨n, hn, -, he⟩ := h.cap
  have hn28 : n ≤ 28 := by
    rw [he] at hcap
    exact (Nat.pow_le_pow_iff_right (by norm_num)).mp hcap
  have hmod : t.capacity * 2 % sizeTMod = t.capacity * 2 := by
    rw [Nat.mod_eq_of_lt]
    simp only [sizeTMod]
    omega
  unfold uhashtableRehash at hs
  rw [hmod] at hs
  dsimp only at hs
  split_ifs at hs
  · cases hs
    exact h
  · cases hs
    exact h
  · cases hloop : HashTable.rehashLoop fuel (t.entries.take t.capacity)
      { t with capacity := t.capacity * 2, entries := newEntries α (t.capacity * 2) } with
    | none => simp [hloop] at hs
    | some t1 =>
      rw [hloop] at hs
      cases hs
      have hnew : Linked ({ t with capacity := t.capacity * 2, entries := newEntries α (t.capacity * 2) }) :=
        linked_new (n := n + 1) (by omega) (by omega) (by rw [he, Nat.pow_succ])
      have h1 := hnew.rehashLoop _ hloop
      exact ⟨⟨h1.cap, h1.len⟩, h1.path⟩

theorem Linked.set (h : Linked t) {b b' : Bool} (hs : uhashtableSet fuel t k v b b' = some (err, t')) :
    Linked t' := by
  by_cases hload : loadExceeded t = true
  · by_cases hcap : t.capacity ≤ 2 ^ 28
    · unfold uhashtableSet at hs
      rw [if_pos hload] at hs
      cases hr : uhashtableRehash fuel t 2 b with
      | none => simp [hr] at hs
      | some r =>
        obtain ⟨err', t1⟩ := r
        have h1 := h.rehash hcap hr
        rw [hr] at hs
        dsimp only at hs
        split_ifs at hs
        · cases hs
          exact h1
        · exact h1.setEntry hs
    · obtain ⟨n, -, hn, he⟩ := h.cap
      have hn29 : n = 29 := by
        rw [he] at hcap
        have hlt : ¬ n ≤ 28 := fun hle => hcap (Nat.pow_le_pow_right (by norm_num) hle)
        omega
      rw [hn29] at he
      cases b with
      | true =>
        rw [set_none_of_wrap he hload] at hs
        cases hs
      | false =>
        have hgrow : ¬ t.capacity * 2 % sizeTMod ≤ t.capacity := by
          rw [he]
          decide
        unfold uhashtableSet uhashtableRehash at hs
        rw [if_pos hload] at hs
        dsimp only at hs
        rw [if_neg hgrow, Bool.not_false, if_pos rfl] at hs
        cases hs
        exact h
  · unfold uhashtableSet at hs
    rw [if_neg hload] at hs
    exact h.setEntry hs

/-! ## Removal -/

/-- Some used entry holds the key. -/
def Present (t : Uhashtable α) (k : BitVec 32) : Prop := ∃ v, some ⟨k, v, true⟩ ∈ t.entries

/-- Where the search of a removal stops: at a `NULL` slot if the key is absent, and at an entry that holds it
otherwise. -/
theorem Linked.getStops (h : Linked t) {d : ℕ} (hd : GetStops t k d) :
    (t.entries[pathSlot t k d]? = some none ∧ ¬ Present t k) ∨
      ∃ v, t.entries[pathSlot t k d]? = some (some ⟨k, v, true⟩) := by
  obtain ⟨c, hc, hs⟩ := hd.1
  rcases c with _ | ⟨k', v, u⟩
  · refine .inl ⟨hc, ?_⟩
    rintro ⟨v, hv⟩
    obtain ⟨i, hi⟩ := List.getElem?_of_mem hv
    have hlive : slotAt t.entries i = .live k v := by
      rw [slotAt_of_getElem? hi]
      rfl
    have hlt : i < t.capacity := by
      rw [← h.len]
      exact (List.getElem?_eq_some_iff.mp hi).1
    obtain ⟨d', rfl, hpath⟩ := h.path i hlt k v hlive
    have hempty : slotAt t.entries (pathSlot t k d) = .empty := by
      rw [slotAt_of_getElem? hc]
      rfl
    obtain hlt' | rfl | hgt := Nat.lt_trichotomy d' d
    · exact (slot_before_get hd hlt').2 v hlive
    · rw [hempty] at hlive
      cases hlive
    · exact hpath d hgt hempty
  · obtain ⟨rfl, rfl⟩ : k' = k ∧ u = true := by simpa [getStop] using hs
    exact .inr ⟨v, hc⟩

theorem Linked.removeEntry (h : Linked t) {out : Option α}
    (hs : uhashtableRemoveEntry fuel t k (entryIndex t.capacity k) = some (err, out, t')) :
    Linked t' := by
  unfold uhashtableRemoveEntry at hs
  cases hp : probe t.entries t.capacity (getStop k) fuel (entryIndex t.capacity k) with
  | none => simp [hp] at hs
  | some i =>
    obtain ⟨d, rfl, hd⟩ := probe_stops (h.index_lt k) hp
    obtain ⟨hc, -⟩ | ⟨v, hc⟩ := h.getStops hd
    · simp only [hp, hc] at hs
      cases hs
      exact h
    · simp only [hp, hc] at hs
      cases hs
      exact h.bury (Nat.mod_lt _ h.cap_pos) k v _ _

theorem linked_of_reachable (h : Reachable Uhashtable.Created Uhashtable.Step t) : Linked t := by
  induction h with
  | start hcreated =>
    obtain ⟨⟨m, hm⟩, -⟩ := hcreated.inv
    exact ⟨hm.toShaped, hm.repr.path⟩
  | @next s s' c _ _ hstep ih =>
    obtain ⟨fuel, b, b', err, hexec⟩ := hstep
    cases c with
    | set k v => exact ih.set hexec
    | get k =>
      simp only [Call.exec, Option.map_eq_some_iff, Prod.mk.injEq] at hexec
      obtain ⟨_, -, -, rfl⟩ := hexec
      exact ih
    | remove k =>
      simp only [Call.exec, Option.map_eq_some_iff, Prod.mk.injEq] at hexec
      obtain ⟨⟨err', out, t1⟩, hr, -, rfl⟩ := hexec
      rw [remove_eq] at hr
      split_ifs at hr
      · cases hr
        exact ih
      · exact ih.removeEntry hr

/-- The removal of the key returns, with `OS_NO_ERR` if the key is present and `OS_ERR_NO_SUCH_ID` if not. -/
def RemovesExactly (t : Uhashtable α) (k : BitVec 32) : Prop :=
  ∃ fuel err out t', uhashtableRemove fuel t k true = some (err, out, t') ∧
    (err = .osNoErr ↔ Present t k) ∧ (¬ Present t k → err = .osErrNoSuchId)

end UtkKernel.HashTable
