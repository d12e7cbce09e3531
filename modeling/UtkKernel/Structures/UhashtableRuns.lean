import UtkKernel.Foundations.Runs
import UtkKernel.Structures.UhashtableOps

/-! # Runs of the hash table

A user calls `uhashtable_set`, `uhashtable_get` and `uhashtable_remove` on a fresh table. Two results:
the table stands for the map of the calls that succeeded as long as no set buries a live key under a
tombstone it reuses and none takes the last `NULL` slot; and the two counters count what they are
named after exactly as long as no set reuses a tombstone. -/

namespace UtkKernel.HashTable
open Foundations
set_option autoImplicit false

variable {α : Type}

/-! ## Calls -/

inductive Call (α : Type)
  | set (key : BitVec 32) (data : α)
  | get (key : BitVec 32)
  | remove (key : BitVec 32)
  deriving DecidableEq, Repr

/-- The error code of a call and the table it leaves, with the outcomes of its allocations. -/
def Call.exec (fuel : ℕ) (t : Uhashtable α) (mallocEntries mallocEntry : Bool) :
    Call α → Option (OsReturnE × Uhashtable α)
  | .set k v => uhashtableSet fuel t k v mallocEntries mallocEntry
  | .get k => (uhashtableGet fuel t k).map fun r => (r.1, t)
  | .remove k => (uhashtableRemove fuel t k mallocEntries).map fun r => (r.1, r.2.2)

/-- The data of the last successful set of the key that no successful remove of it followed, in a
history with the latest call first. -/
def lastSet (k : BitVec 32) : List (Call α × OsReturnE) → Option α
  | [] => none
  | (.set k' v, .osNoErr) :: h => if k' = k then some v else lastSet k h
  | (.remove k', .osNoErr) :: h => if k' = k then none else lastSet k h
  | _ :: h => lastSet k h

theorem lastSet_set (h : List (Call α × OsReturnE)) (k : BitVec 32) (v : α) :
    (fun k' => lastSet k' ((.set k v, .osNoErr) :: h)) =
      Function.update (fun k' => lastSet k' h) k (some v) := by
  funext k'
  by_cases hk : k' = k
  · simp [lastSet, hk]
  · have hk' : k ≠ k' := fun he => hk he.symm
    simp [lastSet, hk, hk']

theorem lastSet_remove (h : List (Call α × OsReturnE)) (k : BitVec 32) :
    (fun k' => lastSet k' ((.remove k, .osNoErr) :: h)) =
      Function.update (fun k' => lastSet k' h) k none := by
  funext k'
  by_cases hk : k' = k
  · simp [lastSet, hk]
  · have hk' : k ≠ k' := fun he => hk he.symm
    simp [lastSet, hk, hk']

theorem lastSet_get (h : List (Call α × OsReturnE)) (k : BitVec 32) (err : OsReturnE) :
    (fun k' => lastSet k' ((.get k, err) :: h)) = fun k' => lastSet k' h := rfl

theorem lastSet_error (h : List (Call α × OsReturnE)) (c : Call α) {err : OsReturnE}
    (he : err ≠ .osNoErr) : (fun k' => lastSet k' ((c, err) :: h)) = fun k' => lastSet k' h := by
  funext k'
  cases c <;> cases err <;> first | rfl | exact absurd rfl he

/-! ## Counting through one call -/

theorem fill_counts {t : Uhashtable α} {i : ℕ} (hc : t.entries[i]? = some none) (k : BitVec 32)
    (v : α) : usedCount (t.fill i k v).entries = usedCount t.entries + 1 ∧
      tombCount (t.fill i k v).entries = tombCount t.entries ∧
      nullCount (t.fill i k v).entries + 1 = nullCount t.entries := by
  have h1 := countP_set_add (p := isUsedSlot) hc (some ⟨k, v, true⟩)
  have h2 := countP_set_add (p := isTombSlot) hc (some ⟨k, v, true⟩)
  have h3 := countP_set_add (p := Option.isNone) hc (some ⟨k, v, true⟩)
  simp only [isUsedSlot, isTombSlot, Option.isNone_none, Option.isNone_some, Bool.not_true,
    Bool.false_eq_true, if_false, if_true] at h1 h2 h3
  exact ⟨h1, h2, h3⟩

theorem renew_counts {t : Uhashtable α} {i : ℕ} {k : BitVec 32} {w : α}
    (hc : t.entries[i]? = some (some ⟨k, w, true⟩)) (v : α) :
    usedCount (t.renew i k v).entries = usedCount t.entries ∧
      tombCount (t.renew i k v).entries = tombCount t.entries ∧
      nullCount (t.renew i k v).entries = nullCount t.entries := by
  have h1 := countP_set_add (p := isUsedSlot) hc (some ⟨k, v, true⟩)
  have h2 := countP_set_add (p := isTombSlot) hc (some ⟨k, v, true⟩)
  have h3 := countP_set_add (p := Option.isNone) hc (some ⟨k, v, true⟩)
  simp only [isUsedSlot, isTombSlot, Option.isNone_some, Bool.not_true, Bool.false_eq_true,
    if_false, if_true] at h1 h2 h3
  exact ⟨Nat.add_right_cancel h1, h2, h3⟩

theorem reuse_counts {t : Uhashtable α} {i : ℕ} {k' : BitVec 32} {w : α}
    (hc : t.entries[i]? = some (some ⟨k', w, false⟩)) (k : BitVec 32) (v : α) :
    usedCount (t.reuse i k v).entries = usedCount t.entries + 1 ∧
      nullCount (t.reuse i k v).entries = nullCount t.entries := by
  have h1 := countP_set_add (p := isUsedSlot) hc (some ⟨k, v, true⟩)
  have h3 := countP_set_add (p := Option.isNone) hc (some ⟨k, v, true⟩)
  simp only [isUsedSlot, Option.isNone_some, Bool.false_eq_true, if_false, if_true] at h1 h3
  exact ⟨h1, h3⟩

theorem bury_counts {t : Uhashtable α} {i : ℕ} {k : BitVec 32} {v : α}
    (hc : t.entries[i]? = some (some ⟨k, v, true⟩)) :
    usedCount (t.bury i k v).entries + 1 = usedCount t.entries ∧
      tombCount (t.bury i k v).entries = tombCount t.entries + 1 ∧
      nullCount (t.bury i k v).entries = nullCount t.entries := by
  have h1 := countP_set_add (p := isUsedSlot) hc (some ⟨k, v, false⟩)
  have h2 := countP_set_add (p := isTombSlot) hc (some ⟨k, v, false⟩)
  have h3 := countP_set_add (p := Option.isNone) hc (some ⟨k, v, false⟩)
  simp only [isUsedSlot, isTombSlot, Option.isNone_some, Bool.not_true, Bool.not_false,
    Bool.false_eq_true, if_false, if_true] at h1 h2 h3
  exact ⟨h1, h2, h3⟩

/-! ## The map through one call -/

/-- What the code needs from a table before `uhashtable_set_entry` for the key: it does not reuse a
tombstone while the key is live further on, and it does not take the last `NULL` slot. -/
def SetsSafely (t : Uhashtable α) (k : BitVec 32) : Prop :=
  ∀ d, SetStops t k d →
    ((∃ k' w, t.entries[pathSlot t k d]? = some (some ⟨k', w, false⟩)) →
      ∀ v, some ⟨k, v, true⟩ ∉ t.entries) ∧
    (t.entries[pathSlot t k d]? = some none → 2 ≤ nullCount t.entries)

/-- The map after a set that reported `err`. -/
def setMap (m : BitVec 32 → Option α) (k : BitVec 32) (v : α) (err : OsReturnE) :
    BitVec 32 → Option α :=
  if err = .osNoErr then Function.update m k (some v) else m

theorem Stands.eq_none {t : Uhashtable α} {m : BitVec 32 → Option α} (h : Stands t m)
    {k : BitVec 32} (hk : ∀ v, some ⟨k, v, true⟩ ∉ t.entries) : m k = none := by
  by_contra hne
  obtain ⟨v, hv⟩ := Option.ne_none_iff_exists'.mp hne
  obtain ⟨i, -, hl⟩ := (h.repr.lookup k v).mp hv
  exact hk v (List.mem_of_getElem? (slotAt_eq_live hl))

theorem setEntry_keeps {t t' : Uhashtable α} {m : BitVec 32 → Option α} (h : Stands t m)
    (hnull : none ∈ t.entries) {k : BitVec 32} (hsafe : SetsSafely t k) {fuel : ℕ} {v : α} {b : Bool}
    {err : OsReturnE} (hs : uhashtableSetEntry fuel t k v b = some (err, t')) :
    Stands t' (setMap m k v err) ∧ none ∈ t'.entries := by
  obtain ⟨d, hd, hcases⟩ := setEntry_cases h.toShaped hnull hs
  obtain ⟨htomb, hlast⟩ := hsafe d hd
  rw [null_mem_iff] at hnull ⊢
  rcases hcases with ⟨hc, ⟨rfl, rfl⟩ | ⟨rfl, rfl⟩⟩ | ⟨w, hc, rfl, rfl⟩ | ⟨k', w, hc, rfl, rfl⟩
  · exact ⟨by simpa [setMap] using h, hnull⟩
  · have := (fill_counts hc k v).2.2
    have := hlast hc
    exact ⟨by simpa [setMap] using h.fill hd hc v, by omega⟩
  · rw [(renew_counts hc v).2.2]
    exact ⟨by simpa [setMap] using h.renew hc v, hnull⟩
  · rw [(reuse_counts hc k v).2]
    have hk : m k = none := h.eq_none (htomb ⟨k', w, hc⟩)
    exact ⟨by simpa [setMap] using h.reuse hd hc hk v, hnull⟩

theorem setsSafely_of_no_tomb {t : Uhashtable α} (ht : tombCount t.entries = 0)
    (hn : 2 ≤ nullCount t.entries) (k : BitVec 32) : SetsSafely t k := by
  intro d _
  refine ⟨?_, fun _ => hn⟩
  rintro ⟨k', w, hc⟩
  have : 0 < tombCount t.entries := List.countP_pos_iff.mpr ⟨_, List.mem_of_getElem? hc, rfl⟩
  omega

theorem Doubled.setsSafely {t t1 : Uhashtable α} {m : BitVec 32 → Option α} (h : Stands t m)
    (hd : Doubled t t1 m) (k : BitVec 32) : SetsSafely t1 k := by
  refine setsSafely_of_no_tomb hd.tombs ?_ k
  have := hd.null_room h
  omega

theorem set_keeps {t t' : Uhashtable α} {m : BitVec 32 → Option α} (h : Stands t m)
    (hnull : none ∈ t.entries) {k : BitVec 32} (hsafe : loadExceeded t = false → SetsSafely t k)
    {fuel : ℕ} {v : α} {b b' : Bool} {err : OsReturnE}
    (hs : uhashtableSet fuel t k v b b' = some (err, t')) :
    Stands t' (setMap m k v err) ∧ none ∈ t'.entries := by
  rcases set_cases h hs with ⟨he, rfl⟩ | ⟨hl, hs'⟩ | ⟨t1, hd, hs'⟩
  · exact ⟨by simpa [setMap, he] using h, hnull⟩
  · exact setEntry_keeps h hnull (hsafe hl) hs'
  · have hnull1 : none ∈ t1.entries := by
      rw [null_mem_iff]
      have := hd.null_room h
      omega
    exact setEntry_keeps hd.stands hnull1 (hd.setsSafely h k) hs'

theorem remove_keeps {t t' : Uhashtable α} {m : BitVec 32 → Option α} (h : Stands t m)
    (hnull : none ∈ t.entries) {fuel : ℕ} {k : BitVec 32} {b : Bool} {err : OsReturnE}
    {out : Option α} (hs : uhashtableRemove fuel t k b = some (err, out, t')) :
    Stands t' (if err = .osNoErr then Function.update m k none else m) ∧ none ∈ t'.entries := by
  rcases remove_cases h hnull hs with ⟨he, rfl⟩ | ⟨v, d, rfl, -, hc, rfl⟩
  · exact ⟨by simpa [he] using h, hnull⟩
  · rw [null_mem_iff] at hnull ⊢
    rw [(bury_counts hc).2.2]
    exact ⟨by simpa using h.bury hc, hnull⟩

/-! ## Refinement of a finite map -/

/-- A table together with the calls made on it so far, the latest first. -/
structure Session (α : Type) where
  table : Uhashtable α
  history : List (Call α × OsReturnE)

namespace Session

def Fresh (s : Session α) : Prop :=
  uhashtableCreate α true true = (.osNoErr, some s.table) ∧ s.history = []

/-- A call that returns, with an allocator that never fails. -/
def Step (s : Session α) (c : Call α) (s' : Session α) : Prop :=
  ∃ fuel err, c.exec fuel s.table true true = some (err, s'.table) ∧
    s'.history = (c, err) :: s.history

/-- A set that is not going to double the array sets safely. -/
def Safe (s : Session α) : Call α → Prop
  | .set k _ => loadExceeded s.table = false → SetsSafely s.table k
  | _ => True

/-- The table stands for the map of its history, and a probe always meets a `NULL` slot. -/
def Inv (s : Session α) : Prop :=
  Stands s.table (fun k => lastSet k s.history) ∧ none ∈ s.table.entries

theorem Fresh.inv {s : Session α} (h : s.Fresh) : s.Inv := by
  obtain ⟨ht, hh⟩ := h
  simp only [uhashtableCreate, Bool.not_true, Bool.false_eq_true, if_false, Prod.mk.injEq,
    Option.some.injEq, true_and] at ht
  refine ⟨?_, ?_⟩
  · rw [hh, ← ht]
    exact stands_new (n := 4) le_rfl (by omega) rfl
  · rw [← ht, newEntries]
    exact List.mem_replicate.mpr ⟨by decide, rfl⟩

theorem Step.inv {s s' : Session α} {c : Call α} (hi : s.Inv) (hg : s.Safe c) (hs : s.Step c s') :
    s'.Inv := by
  obtain ⟨h, hnull⟩ := hi
  obtain ⟨fuel, err, hexec, hhist⟩ := hs
  rw [Inv, hhist]
  cases c with
  | set k v =>
    have := set_keeps h hnull hg hexec
    by_cases he : err = .osNoErr
    · subst he
      rw [lastSet_set]
      simpa [setMap] using this
    · rw [lastSet_error _ _ he]
      simpa [setMap, he] using this
  | get k =>
    rw [lastSet_get]
    simp only [Call.exec, Option.map_eq_some_iff, Prod.mk.injEq] at hexec
    obtain ⟨_, -, -, ht⟩ := hexec
    rw [← ht]
    exact ⟨h, hnull⟩
  | remove k =>
    simp only [Call.exec, Option.map_eq_some_iff, Prod.mk.injEq] at hexec
    obtain ⟨⟨err', out, t'⟩, hr, he', ht⟩ := hexec
    simp only at he' ht
    subst he' ht
    have := remove_keeps h hnull hr
    by_cases he : err' = .osNoErr
    · subst he
      rw [lastSet_remove]
      simpa using this
    · rw [lastSet_error _ _ he]
      simpa [he] using this

end Session

/-- After any run of safe calls on a fresh table, `uhashtable_get` answers for every key what the
successful calls of the run say of it. -/
theorem uhashtable_refines_map {s : Session α}
    (h : Guarded Session.Fresh Session.Step Session.Safe s) (k : BitVec 32) :
    ∃ fuel, uhashtableGet fuel s.table k = some (getAnswer (lastSet k s.history)) := by
  have hinv : s.Inv := h.invariant Session.Inv (fun _ => Session.Fresh.inv)
    (fun _ _ _ hi hg hs => Session.Step.inv hi hg hs)
  exact ⟨s.table.capacity, get_eq hinv.1 hinv.2 k le_rfl⟩

/-! ### Runs on fixed calls -/

def freshSession (α : Type) : Session α := ⟨⟨newEntries α htInitialSize, htInitialSize, 0, 0⟩, []⟩

theorem freshSession_reachable : Reachable Session.Fresh Session.Step (freshSession α) :=
  .start ⟨rfl, rfl⟩

/-- A call within sixteen turns of every loop, with an allocator that never fails. -/
def Session.exec (s : Session α) (c : Call α) : Option (Session α) :=
  (c.exec 16 s.table true true).map fun r => ⟨r.2, (c, r.1) :: s.history⟩

theorem Session.step_of_exec (s : Session α) (c : Call α) (s' : Session α)
    (h : s.exec c = some s') : True ∧ s.Step c s' := by
  obtain ⟨⟨err, t⟩, he, rfl⟩ := Option.map_eq_some_iff.mp h
  exact ⟨trivial, 16, err, he, rfl⟩

theorem fresh_set : ∃ t, uhashtableSet 16 (freshSession ℕ).table 16 2 true true =
    some (.osNoErr, t) ∧ t.size = 1 := by
  have h : (uhashtableSet 16 (freshSession ℕ).table 16 2 true true).map
      (fun r => (r.1, r.2.size)) = some (.osNoErr, 1) := by decide +kernel
  obtain ⟨⟨err, t⟩, ht, he⟩ := Option.map_eq_some_iff.mp h
  simp only [Prod.mk.injEq] at he
  exact ⟨t, by rw [ht, he.1], he.2⟩

/-- After one set on a fresh table the key answers with its data. -/
theorem uhashtable_refines_map_one_set : ∃ s : Session ℕ,
    Guarded Session.Fresh Session.Step Session.Safe s ∧ lastSet 16 s.history = some 2 ∧
      ∃ fuel, uhashtableGet fuel s.table 16 = some (.osNoErr, some 2) := by
  obtain ⟨t, ht, -⟩ := fresh_set
  have hs : Guarded Session.Fresh Session.Step Session.Safe
      (⟨t, [(.set 16 2, .osNoErr)]⟩ : Session ℕ) := by
    refine .next (s := freshSession ℕ) (a := .set 16 2) (.start ⟨rfl, rfl⟩) (fun _ => ?_)
      ⟨16, .osNoErr, ht, rfl⟩
    exact setsSafely_of_no_tomb (by decide) (by decide) 16
  exact ⟨_, hs, rfl, uhashtable_refines_map hs 16⟩

/-- Two keys with one home: the second is set again under the tombstone of the first, removed, and
answers with the data of its first set. -/
theorem uhashtable_get_stale : ∃ s : Session ℕ, Reachable Session.Fresh Session.Step s ∧
    s.history.map Prod.fst = [.remove 16, .set 16 3, .remove 0, .set 16 2, .set 0 1] ∧
    uhashtableGet 16 s.table 16 = some (.osNoErr, some 2) ∧
    ¬ ∃ fuel, uhashtableGet fuel s.table 16 = some (getAnswer (lastSet 16 s.history)) := by
  obtain ⟨s, hs⟩ : ∃ s, runActs Session.exec (freshSession ℕ)
      [.set 0 1, .set 16 2, .remove 0, .set 16 3, .remove 16] = some s :=
    Option.isSome_iff_exists.mp (by decide +kernel)
  have hval : (runActs Session.exec (freshSession ℕ)
      [.set 0 1, .set 16 2, .remove 0, .set 16 3, .remove 16]).map
        (fun s => (s.history.map Prod.fst, uhashtableGet 16 s.table 16, lastSet 16 s.history)) =
          some ([.remove 16, .set 16 3, .remove 0, .set 16 2, .set 0 1],
          some (.osNoErr, some 2), none) := by decide +kernel
  rw [hs, Option.map_some, Option.some.injEq, Prod.mk.injEq, Prod.mk.injEq] at hval
  obtain ⟨hhist, hget, hlast⟩ := hval
  refine ⟨s, freshSession_reachable.runActs Session.step_of_exec hs, hhist, hget, ?_⟩
  rintro ⟨fuel, hf⟩
  have h1 := get_mono hf (le_max_left fuel 16)
  rw [get_mono hget (le_max_right fuel 16), hlast] at h1
  simp [getAnswer] at h1

/-! ## The counters -/

/-- The counters of the table count its used entries and its tombstones. -/
structure Balanced (t : Uhashtable α) : Prop where
  size : t.size = usedCount t.entries
  graveyard : t.graveyardSize = tombCount t.entries

/-- A balanced table with a `NULL` slot, in which the search loop of every interface function ends
for every key. -/
structure Counted (t : Uhashtable α) : Prop extends Balanced t where
  null : none ∈ t.entries
  getEnds : ∀ k, ∃ fuel, (uhashtableGet fuel t k).isSome
  setEnds : ∀ k v b, ∃ fuel, (uhashtableSetEntry fuel t k v b).isSome
  removeEnds : ∀ k, ∃ fuel, (uhashtableRemoveEntry fuel t k (entryIndex t.capacity k)).isSome

theorem Counted.of_stands {t : Uhashtable α} {m : BitVec 32 → Option α} (h : Stands t m)
    (hb : Balanced t) (hnull : none ∈ t.entries) : Counted t := by
  refine ⟨hb, hnull, fun k => ⟨t.capacity, ?_⟩, fun k v b => ⟨t.capacity, ?_⟩,
    fun k => ⟨t.capacity, ?_⟩⟩
  · rw [get_eq h hnull k le_rfl]
    rfl
  · obtain ⟨d, hd⟩ := exists_setStops h.toShaped hnull k
    rcases setEntry_outcome h.toShaped hd v b le_rfl with ⟨-, ho⟩ | ⟨w, -, ho⟩ | ⟨k', w, -, ho⟩ <;>
      rw [ho] <;> rfl
  · rcases removeEntry_outcome h hnull k le_rfl with ⟨-, ho⟩ | ⟨v, d, -, -, ho⟩ <;> rw [ho] <;> rfl

/-- The probe of a set of the key does not stop at a tombstone. -/
def NoReuse (t : Uhashtable α) (k : BitVec 32) : Prop :=
  ∀ d, SetStops t k d → ∀ k' w, t.entries[pathSlot t k d]? ≠ some (some ⟨k', w, false⟩)

theorem setEntry_balanced {t t' : Uhashtable α} (h : Shaped t) (hnull : none ∈ t.entries)
    (hb : Balanced t) {k : BitVec 32} (hno : NoReuse t k) {fuel : ℕ} {v : α} {b : Bool}
    {err : OsReturnE} (hs : uhashtableSetEntry fuel t k v b = some (err, t')) : Balanced t' := by
  obtain ⟨d, hd, hcases⟩ := setEntry_cases h hnull hs
  rcases hcases with ⟨hc, ⟨-, rfl⟩ | ⟨-, rfl⟩⟩ | ⟨w, hc, -, rfl⟩ | ⟨k', w, hc, -, rfl⟩
  · exact hb
  · obtain ⟨hu, ht, -⟩ := fill_counts hc k v
    refine ⟨?_, by rw [ht]; exact hb.graveyard⟩
    have hle := counts_add t.entries
    have hcap := h.cap_le
    rw [h.len] at hle
    rw [hu]
    simp only [Uhashtable.fill, hb.size]
    exact Nat.mod_eq_of_lt (by simp only [sizeTMod]; omega)
  · obtain ⟨hu, ht, -⟩ := renew_counts hc v
    exact ⟨by rw [hu]; exact hb.size, by rw [ht]; exact hb.graveyard⟩
  · exact absurd hc (hno d hd k' w)

theorem bury_balanced {t : Uhashtable α} (h : Shaped t) (hb : Balanced t) {i : ℕ} {k : BitVec 32}
    {v : α} (hc : t.entries[i]? = some (some ⟨k, v, true⟩)) : Balanced (t.bury i k v) := by
  obtain ⟨hu, ht, -⟩ := bury_counts hc
  have hle := counts_add t.entries
  have hcap := h.cap_le
  rw [h.len] at hle
  constructor
  · simp only [Uhashtable.bury, hb.size] at hu ⊢
    simp only [sizeTMod]
    omega
  · rw [ht]
    simp only [Uhashtable.bury, hb.graveyard]
    exact Nat.mod_eq_of_lt (by simp only [sizeTMod]; omega)

/-- While the load test passes, three slots in ten are `NULL`. -/
theorem Balanced.null_room {t : Uhashtable α} (h : Shaped t) (hb : Balanced t)
    (hl : loadExceeded t = false) : 2 ≤ nullCount t.entries := by
  have hle := counts_add t.entries
  have hcap := h.cap_le
  have hcap' := h.le_cap
  rw [h.len] at hle
  rw [loadExceeded, decide_eq_false_iff_not, hb.size, hb.graveyard,
    Nat.mod_eq_of_lt (by simp only [sizeTMod]; omega)] at hl
  omega

theorem NoReuse.setsSafely {t : Uhashtable α} (h : Shaped t) (hb : Balanced t)
    (hl : loadExceeded t = false) {k : BitVec 32} (hno : NoReuse t k) : SetsSafely t k := by
  intro d hd
  refine ⟨?_, fun _ => hb.null_room h hl⟩
  rintro ⟨k', w, hc⟩
  exact absurd hc (hno d hd k' w)

theorem Doubled.balanced {t t1 : Uhashtable α} {m : BitVec 32 → Option α} (hb : Balanced t)
    (hd : Doubled t t1 m) : Balanced t1 :=
  ⟨by rw [hd.size, hd.used, hb.size], by rw [hd.graveyard, hd.tombs]⟩

theorem noReuse_of_no_tomb {t : Uhashtable α} (ht : tombCount t.entries = 0) (k : BitVec 32) :
    NoReuse t k := by
  intro d _ k' w hc
  have : 0 < tombCount t.entries := List.countP_pos_iff.mpr ⟨_, List.mem_of_getElem? hc, rfl⟩
  omega

namespace Uhashtable

/-- `uhashtable_create` succeeded. -/
def Created (t : Uhashtable α) : Prop :=
  ∃ mallocTable mallocEntries, uhashtableCreate α mallocTable mallocEntries = (.osNoErr, some t)

/-- A call that returns, whatever the outcomes of its allocations. -/
def Step (t : Uhashtable α) (c : Call α) (t' : Uhashtable α) : Prop :=
  ∃ fuel mallocEntries mallocEntry err, c.exec fuel t mallocEntries mallocEntry = some (err, t')

/-- A set that is not going to double the array meets no tombstone. -/
def Unburied (t : Uhashtable α) : Call α → Prop
  | .set k _ => loadExceeded t = false → NoReuse t k
  | _ => True

def Inv (t : Uhashtable α) : Prop :=
  (∃ m, Stands t m) ∧ Balanced t ∧ none ∈ t.entries

theorem Inv.counted {t : Uhashtable α} (h : t.Inv) : Counted t := by
  obtain ⟨⟨m, hm⟩, hb, hnull⟩ := h
  exact Counted.of_stands hm hb hnull

theorem Created.inv {t : Uhashtable α} (h : t.Created) : t.Inv := by
  obtain ⟨a, b, ht⟩ := h
  cases a <;> cases b <;>
    simp only [uhashtableCreate, Bool.not_true, Bool.not_false, Bool.false_eq_true, if_false,
      if_true, Prod.mk.injEq, reduceCtorEq, false_and, Option.some.injEq, true_and] at ht
  rw [← ht]
  refine ⟨⟨_, stands_new (n := 4) le_rfl (by omega) rfl⟩, ⟨?_, ?_⟩, ?_⟩
  · simp [usedCount, newEntries, List.countP_replicate, isUsedSlot]
  · simp [tombCount, newEntries, List.countP_replicate, isTombSlot]
  · exact List.mem_replicate.mpr ⟨by decide, rfl⟩

theorem Step.inv {t t' : Uhashtable α} {c : Call α} (hi : t.Inv) (hs : t.Step c t')
    (hg : t.Unburied c) : t'.Inv := by
  obtain ⟨⟨m, h⟩, hb, hnull⟩ := hi
  obtain ⟨fuel, b, b', err, hexec⟩ := hs
  cases c with
  | set k v =>
    have hkeep := set_keeps h hnull (fun hl => (hg hl).setsSafely h.toShaped hb hl) hexec
    refine ⟨⟨_, hkeep.1⟩, ?_, hkeep.2⟩
    rcases set_cases h hexec with ⟨-, rfl⟩ | ⟨hl, hs'⟩ | ⟨t1, hd, hs'⟩
    · exact hb
    · exact setEntry_balanced h.toShaped hnull hb (hg hl) hs'
    · have hnull1 : none ∈ t1.entries := by
        rw [null_mem_iff]
        have := hd.null_room h
        omega
      exact setEntry_balanced hd.stands.toShaped hnull1 (hd.balanced hb) (noReuse_of_no_tomb hd.tombs k) hs'
  | get k =>
    simp only [Call.exec, Option.map_eq_some_iff, Prod.mk.injEq] at hexec
    obtain ⟨_, -, -, rfl⟩ := hexec
    exact ⟨⟨m, h⟩, hb, hnull⟩
  | remove k =>
    simp only [Call.exec, Option.map_eq_some_iff, Prod.mk.injEq] at hexec
    obtain ⟨⟨err', out, t1⟩, hr, -, rfl⟩ := hexec
    have hkeep := remove_keeps h hnull hr
    refine ⟨⟨_, hkeep.1⟩, ?_, hkeep.2⟩
    rcases remove_cases h hnull hr with ⟨-, rfl⟩ | ⟨v, d, -, -, hc, rfl⟩
    · exact hb
    · exact bury_balanced h.toShaped hb hc

/-- A set that reuses a tombstone leaves one more used entry than it counted. -/
theorem Step.unburied {t t' : Uhashtable α} {c : Call α} (hi : t.Inv) (hs : t.Step c t')
    (hgood : Counted t') : t.Unburied c := by
  obtain ⟨⟨m, h⟩, hb, -⟩ := hi
  obtain ⟨fuel, b, b', err, hexec⟩ := hs
  cases c with
  | get k => trivial
  | remove k => trivial
  | set k v =>
    intro hl d hd k' w hc
    have hs' : uhashtableSetEntry fuel t k v b' = some (err, t') := by
      simpa [Call.exec, uhashtableSet, hl] using hexec
    have hmax := setEntry_mono hs' (le_max_left fuel t.capacity)
    rcases setEntry_outcome h.toShaped hd v b' (le_max_right fuel t.capacity) with ⟨hc', -⟩ |
      ⟨w', hc', -⟩ | ⟨k'', w', -, ho⟩
    · simp [hc] at hc'
    · simp [hc] at hc'
    · rw [ho, Option.some.injEq, Prod.mk.injEq] at hmax
      have hsize := hgood.size
      rw [← hmax.2, (reuse_counts hc k v).1] at hsize
      simp only [Uhashtable.reuse] at hsize
      rw [hb.size] at hsize
      omega

end Uhashtable

/-- Along a run from a created table, with any allocation outcomes, the counters are exact and every
search ends in each table visited if and only if no set reuses a tombstone. -/
theorem counters_exact_iff {t : Uhashtable α} {l : List (Call α × Uhashtable α)}
    (ht : t.Created) (hl : Trace Uhashtable.Step t l) :
    (Counted t ∧ ∀ x ∈ l, Counted x.2) ↔ GuardedTrace Uhashtable.Unburied t l := by
  rw [and_iff_right ht.inv.counted]
  refine Trace.forall_iff_guarded Uhashtable.Inv Counted ?_ ?_ ?_ hl ht.inv
  · exact fun t hi => hi.counted
  · exact fun t c t' hi hs hg => hs.inv hi hg
  · exact fun t c t' hi hs hgood => hs.unburied hi hgood

theorem reachable_table {s : Session α} (h : Reachable Session.Fresh Session.Step s) :
    Reachable Uhashtable.Created Uhashtable.Step s.table := by
  induction h with
  | start h => exact .start ⟨true, true, h.1⟩
  | next _ _ hs ih =>
    obtain ⟨fuel, err, hexec, -⟩ := hs
    exact .next ih trivial ⟨fuel, true, true, err, hexec⟩

/-- One set on a created table leaves a size of one and exact counters. -/
theorem counters_exact_one_set : ∃ t t' : Uhashtable ℕ, t.Created ∧ t.Step (.set 16 2) t' ∧
    t'.size = 1 ∧ Counted t' := by
  obtain ⟨t', ht', hsize⟩ := fresh_set
  have hstep : (freshSession ℕ).table.Step (.set 16 2) t' := ⟨16, true, true, .osNoErr, ht'⟩
  have hcounted := (counters_exact_iff ⟨true, true, rfl⟩ (.cons hstep (.nil t'))).mpr
    ⟨fun _ => noReuse_of_no_tomb (by decide) 16, trivial⟩
  exact ⟨_, t', ⟨true, true, rfl⟩, hstep, hsize, hcounted.2 _ (List.mem_singleton_self _)⟩

/-- Setting a key, removing it and setting it again leaves a used entry that `size` does not count:
the reuse of the tombstone does not count it up. -/
theorem size_misses_reused_entry : ∃ t : Uhashtable ℕ,
    Reachable Uhashtable.Created Uhashtable.Step t ∧ t.size = 0 ∧ usedCount t.entries = 1 ∧
      ¬ Counted t := by
  obtain ⟨s, hs⟩ : ∃ s, runActs Session.exec (freshSession ℕ)
      [.set 0 1, .remove 0, .set 0 2] = some s :=
    Option.isSome_iff_exists.mp (by decide +kernel)
  have hval : (runActs Session.exec (freshSession ℕ) [.set 0 1, .remove 0, .set 0 2]).map
      (fun s => (s.table.size, usedCount s.table.entries)) = some (0, 1) := by decide +kernel
  rw [hs, Option.map_some, Option.some.injEq, Prod.mk.injEq] at hval
  refine ⟨s.table, reachable_table (freshSession_reachable.runActs Session.step_of_exec hs), hval.1, hval.2, fun h => ?_⟩
  have := h.size
  omega

end UtkKernel.HashTable
