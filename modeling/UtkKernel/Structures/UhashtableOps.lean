import UtkKernel.Structures.UhashtableRepr

/-! # What each operation of the hash table does

One outcome lemma per operation of the source on a table that stands for a map, with the number of
used entries, tombstones and `NULL` slots it leaves. Rehashing in place (growth 1) always reports
`OS_ERR_OUT_OF_BOUND`; doubling keeps the map and drops the tombstones. -/

namespace UtkKernel.HashTable
open Foundations.Probing Foundations.OpenAddressing
set_option autoImplicit false

variable {α : Type}

/-! ## Counting slots -/

def isUsedSlot : Option (UhashtableEntry α) → Bool
  | none => false
  | some e => e.isUsed

def isTombSlot : Option (UhashtableEntry α) → Bool
  | none => false
  | some e => !e.isUsed

def usedCount (entries : List (Option (UhashtableEntry α))) : ℕ := entries.countP isUsedSlot
def tombCount (entries : List (Option (UhashtableEntry α))) : ℕ := entries.countP isTombSlot
def nullCount (entries : List (Option (UhashtableEntry α))) : ℕ := entries.countP Option.isNone

theorem counts_add (entries : List (Option (UhashtableEntry α))) :
    usedCount entries + tombCount entries + nullCount entries = entries.length := by
  induction entries with
  | nil => rfl
  | cons c entries ih =>
    simp only [usedCount, tombCount, nullCount, List.countP_cons, List.length_cons] at ih ⊢
    rcases c with _ | ⟨k, v, u⟩
    · simp [isUsedSlot, isTombSlot]; omega
    · cases u <;> simp [isUsedSlot, isTombSlot] <;> omega

theorem null_mem_iff {entries : List (Option (UhashtableEntry α))} :
    none ∈ entries ↔ 0 < nullCount entries := by
  simp [nullCount, List.countP_pos_iff]

theorem countP_set_add {p : Option (UhashtableEntry α) → Bool}
    {entries : List (Option (UhashtableEntry α))} {i : ℕ} {c : Option (UhashtableEntry α)}
    (h : entries[i]? = some c) (x : Option (UhashtableEntry α)) :
    (entries.set i x).countP p + (if p c then 1 else 0) =
      entries.countP p + (if p x then 1 else 0) := by
  obtain ⟨hi, hc⟩ := List.getElem?_eq_some_iff.mp h
  have hpos : p c = true → 0 < entries.countP p := fun hp =>
    List.countP_pos_iff.mpr ⟨c, List.mem_of_getElem? h, hp⟩
  rw [List.countP_set hi, hc]
  by_cases hp : p c = true
  · have := hpos hp
    simp only [hp, if_true]
    omega
  · simp [hp]

/-! ## The tables the operations lead to -/

/-- A new entry in a `NULL` slot. -/
def Uhashtable.fill (t : Uhashtable α) (i : ℕ) (k : BitVec 32) (v : α) : Uhashtable α :=
  { t with entries := t.entries.set i (some ⟨k, v, true⟩), size := (t.size + 1) % sizeTMod }

/-- New data for a used entry. -/
def Uhashtable.renew (t : Uhashtable α) (i : ℕ) (k : BitVec 32) (v : α) : Uhashtable α :=
  { t with entries := t.entries.set i (some ⟨k, v, true⟩) }

/-- A key in an entry of the graveyard: the size is not counted up. -/
def Uhashtable.reuse (t : Uhashtable α) (i : ℕ) (k : BitVec 32) (v : α) : Uhashtable α :=
  { t with
    entries := t.entries.set i (some ⟨k, v, true⟩)
    graveyardSize := (t.graveyardSize + sizeTMod - 1) % sizeTMod }

/-- A used entry turned into a tombstone. -/
def Uhashtable.bury (t : Uhashtable α) (i : ℕ) (k : BitVec 32) (v : α) : Uhashtable α :=
  { t with
    entries := t.entries.set i (some ⟨k, v, false⟩)
    size := (t.size + sizeTMod - 1) % sizeTMod
    graveyardSize := (t.graveyardSize + 1) % sizeTMod }

/-! ## Setting an entry -/

/-- The slot at distance `d` from the home of the key. -/
abbrev pathSlot (t : Uhashtable α) (k : BitVec 32) (d : ℕ) : ℕ :=
  (entryIndex t.capacity k + d) % t.capacity

theorem setEntry_outcome {t : Uhashtable α} (h : Shaped t) {k : BitVec 32} {d : ℕ}
    (hd : SetStops t k d) (v : α) (b : Bool) {fuel : ℕ} (hf : t.capacity ≤ fuel) :
    (t.entries[pathSlot t k d]? = some none ∧ uhashtableSetEntry fuel t k v b =
        some (if b then (.osNoErr, t.fill (pathSlot t k d) k v) else (.osErrMalloc, t))) ∨
    (∃ w, t.entries[pathSlot t k d]? = some (some ⟨k, w, true⟩) ∧
      uhashtableSetEntry fuel t k v b = some (.osNoErr, t.renew (pathSlot t k d) k v)) ∨
    (∃ k' w, t.entries[pathSlot t k d]? = some (some ⟨k', w, false⟩) ∧
      uhashtableSetEntry fuel t k v b = some (.osNoErr, t.reuse (pathSlot t k d) k v)) := by
  have hp := probe_of_stops (h.index_lt k) hd fuel ((h.stop_lt hd).trans_le hf)
  obtain ⟨c, hc, hs⟩ := hd.1
  rcases c with _ | ⟨k', w, u⟩
  · left
    refine ⟨hc, ?_⟩
    cases b <;> simp [uhashtableSetEntry, hp, hc, Uhashtable.fill]
  · right
    cases u
    · right
      exact ⟨k', w, hc, by simp [uhashtableSetEntry, hp, hc, Uhashtable.reuse]⟩
    · left
      have hk : k' = k := by simpa [setStop] using hs
      subst hk
      exact ⟨w, hc, by simp [uhashtableSetEntry, hp, hc, Uhashtable.renew]⟩

theorem Shaped.set {t : Uhashtable α} (h : Shaped t) (i : ℕ) (c : Option (UhashtableEntry α))
    (n g : ℕ) : Shaped ⟨t.entries.set i c, t.capacity, n, g⟩ :=
  ⟨h.cap, by simp [h.len]⟩

theorem Stands.fill {t : Uhashtable α} {m : BitVec 32 → Option α} (h : Stands t m) {k : BitVec 32}
    {d : ℕ} (hd : SetStops t k d) (hc : t.entries[pathSlot t k d]? = some none) (v : α) :
    Stands (t.fill (pathSlot t k d) k v) (Function.update m k (some v)) := by
  refine ⟨h.toShaped.set _ _ _ _, ?_⟩
  have hk : m k = none := by
    refine h.repr.none_of_empty (slotAt_of_getElem? hc) (fun e he w hw => ?_)
    obtain ⟨k', v', hne, hl⟩ := slot_before_set hd he
    rw [hl] at hw
    injection hw with hkk
    exact hne hkk
  simp only [Uhashtable.fill]
  rw [slotAt_set (h.slot_lt _)]
  refine h.repr.insert v h.cap_pos ?_ (fun e he => ?_) hk
  · intro k' v' hl
    rw [slotAt_of_getElem? hc] at hl
    cases hl
  · obtain ⟨k', v', -, hl⟩ := slot_before_set hd he
    rw [hl]
    simp

theorem Stands.renew {t : Uhashtable α} {m : BitVec 32 → Option α} (h : Stands t m) {k : BitVec 32}
    {d : ℕ} {w : α} (hc : t.entries[pathSlot t k d]? = some (some ⟨k, w, true⟩)) (v : α) :
    Stands (t.renew (pathSlot t k d) k v) (Function.update m k (some v)) := by
  refine ⟨h.toShaped.set _ _ _ _, ?_⟩
  simp only [Uhashtable.renew]
  rw [slotAt_set (h.slot_lt _)]
  exact h.repr.overwrite v (Nat.mod_lt _ h.cap_pos) (w := w) (by rw [slotAt_of_getElem? hc]; rfl)

theorem Stands.reuse {t : Uhashtable α} {m : BitVec 32 → Option α} (h : Stands t m) {k : BitVec 32}
    {d : ℕ} (hd : SetStops t k d) {k' : BitVec 32} {w : α}
    (hc : t.entries[pathSlot t k d]? = some (some ⟨k', w, false⟩)) (hk : m k = none) (v : α) :
    Stands (t.reuse (pathSlot t k d) k v) (Function.update m k (some v)) := by
  refine ⟨h.toShaped.set _ _ _ _, ?_⟩
  simp only [Uhashtable.reuse]
  rw [slotAt_set (h.slot_lt _)]
  refine h.repr.insert v h.cap_pos ?_ (fun e he => ?_) hk
  · intro k'' v' hl
    rw [slotAt_of_getElem? hc] at hl
    cases hl
  · obtain ⟨k'', v', -, hl⟩ := slot_before_set hd he
    rw [hl]
    simp

/-! ## Getting and removing -/

theorem getStops_outcome {t : Uhashtable α} {m : BitVec 32 → Option α} (h : Stands t m)
    {k : BitVec 32} {d : ℕ} (hd : GetStops t k d) :
    (t.entries[pathSlot t k d]? = some none ∧ m k = none) ∨
      ∃ v, t.entries[pathSlot t k d]? = some (some ⟨k, v, true⟩) ∧ m k = some v := by
  obtain ⟨c, hc, hs⟩ := hd.1
  rcases c with _ | ⟨k', v, u⟩
  · left
    refine ⟨hc, h.repr.none_of_empty (slotAt_of_getElem? hc) (fun e he => ?_)⟩
    exact (slot_before_get hd he).2
  · right
    obtain ⟨rfl, rfl⟩ : k' = k ∧ u = true := by simpa [getStop] using hs
    have hl : slotAt t.entries (pathSlot t k' d) = .live k' v := by
      rw [slotAt_of_getElem? hc]
      rfl
    exact ⟨v, hc, h.repr.value_of_live (Nat.mod_lt _ h.cap_pos) hl⟩

/-- The answer of `uhashtable_get` for what the map says of the key. -/
def getAnswer : Option α → OsReturnE × Option α
  | none => (.osErrNoSuchId, none)
  | some v => (.osNoErr, some v)

theorem get_eq {t : Uhashtable α} {m : BitVec 32 → Option α} (h : Stands t m)
    (hnull : none ∈ t.entries) (k : BitVec 32) {fuel : ℕ} (hf : t.capacity ≤ fuel) :
    uhashtableGet fuel t k = some (getAnswer (m k)) := by
  obtain ⟨d, hd⟩ := exists_getStops h.toShaped hnull k
  have hp := probe_of_stops (h.index_lt k) hd fuel ((h.stop_lt hd).trans_le hf)
  rcases getStops_outcome h hd with ⟨hc, hm⟩ | ⟨v, hc, hm⟩ <;>
    simp [uhashtableGet, hp, hc, hm, getAnswer]

theorem removeEntry_outcome {t : Uhashtable α} {m : BitVec 32 → Option α} (h : Stands t m)
    (hnull : none ∈ t.entries) (k : BitVec 32) {fuel : ℕ} (hf : t.capacity ≤ fuel) :
    (m k = none ∧ uhashtableRemoveEntry fuel t k (entryIndex t.capacity k) =
        some (.osErrNoSuchId, none, t)) ∨
    ∃ v d, m k = some v ∧ t.entries[pathSlot t k d]? = some (some ⟨k, v, true⟩) ∧
      uhashtableRemoveEntry fuel t k (entryIndex t.capacity k) =
        some (.osNoErr, some v, t.bury (pathSlot t k d) k v) := by
  obtain ⟨d, hd⟩ := exists_getStops h.toShaped hnull k
  have hp := probe_of_stops (h.index_lt k) hd fuel ((h.stop_lt hd).trans_le hf)
  rcases getStops_outcome h hd with ⟨hc, hm⟩ | ⟨v, hc, hm⟩
  · left
    exact ⟨hm, by simp [uhashtableRemoveEntry, hp, hc]⟩
  · right
    exact ⟨v, d, hm, hc, by simp [uhashtableRemoveEntry, hp, hc, Uhashtable.bury]⟩

theorem Stands.bury {t : Uhashtable α} {m : BitVec 32 → Option α} (h : Stands t m) {k : BitVec 32}
    {d : ℕ} {v : α} (hc : t.entries[pathSlot t k d]? = some (some ⟨k, v, true⟩)) :
    Stands (t.bury (pathSlot t k d) k v) (Function.update m k none) := by
  refine ⟨h.toShaped.set _ _ _ _, ?_⟩
  simp only [Uhashtable.bury]
  rw [slotAt_set (h.slot_lt _)]
  exact h.repr.bury (Nat.mod_lt _ h.cap_pos) (w := v) (by rw [slotAt_of_getElem? hc]; rfl)

/-! ## Rehashing -/

/-- Rehashing in place is refused before anything is allocated. -/
theorem rehash_one (fuel : ℕ) (t : Uhashtable α) (b : Bool) :
    uhashtableRehash fuel t 1 b = some (.osErrOutOfBound, t) := by
  have h : t.capacity * 1 % sizeTMod ≤ t.capacity := by
    rw [Nat.mul_one]
    exact Nat.mod_le _ _
  simp only [uhashtableRehash, if_pos h]

/-- A removal under an overfull graveyard is refused. -/
theorem remove_eq (fuel : ℕ) (t : Uhashtable α) (k : BitVec 32) (b : Bool) :
    uhashtableRemove fuel t k b =
      if graveyardExceeded t then some (.osErrOutOfBound, none, t)
      else uhashtableRemoveEntry fuel t k (entryIndex t.capacity k) := by
  unfold uhashtableRemove
  cases hg : graveyardExceeded t <;> simp [rehash_one]

theorem stands_new {n c s g : ℕ} (hn : 4 ≤ n) (hn' : n ≤ 29) (hc : c = 2 ^ n) :
    Stands (⟨newEntries α c, c, s, g⟩ : Uhashtable α) (fun _ => none) := by
  have hb : 4 * c < sizeTMod := by
    have : 2 ^ n ≤ 2 ^ 29 := Nat.pow_le_pow_right (by norm_num) hn'
    simp only [sizeTMod]
    omega
  have hlen : (newEntries α c).length = c := by
    rw [newEntries, List.length_replicate, Nat.mod_eq_of_lt hb]
    omega
  have hslots : slotAt (newEntries α c) = fun _ => .empty := by
    funext i
    rw [slotAt, newEntries, List.getElem?_replicate]
    split <;> rfl
  exact ⟨⟨⟨n, hn, hn', hc⟩, hlen⟩, by rw [hslots]; exact represents_fresh _ _⟩

/-- Used entries of a list have pairwise distinct keys. -/
def DistinctKeys (old : List (Option (UhashtableEntry α))) : Prop :=
  old.Pairwise fun a b => ∀ k v w, a = some ⟨k, v, true⟩ → b ≠ some ⟨k, w, true⟩

theorem Stands.distinctKeys {t : Uhashtable α} {m : BitVec 32 → Option α} (h : Stands t m) :
    DistinctKeys t.entries := by
  rw [DistinctKeys, List.pairwise_iff_getElem]
  intro i j hi hj hij k v w ha hb
  have hai : slotAt t.entries i = .live k v := by
    rw [slotAt_of_getElem? (List.getElem?_eq_getElem hi), ha]; rfl
  have hbj : slotAt t.entries j = .live k w := by
    rw [slotAt_of_getElem? (List.getElem?_eq_getElem hj), hb]; rfl
  rw [h.len] at hi hj
  have := h.repr.unique i hi j hj k v w hai hbj
  omega

/-- The loop over the old array puts each of its used entries into the new one. -/
theorem rehashLoop_outcome (old : List (Option (UhashtableEntry α))) {T : Uhashtable α}
    {m : BitVec 32 → Option α} (hT : Stands T m) (htomb : tombCount T.entries = 0)
    (hroom : usedCount T.entries + usedCount old < T.capacity) (hold : DistinctKeys old)
    (hnew : ∀ k v, some ⟨k, v, true⟩ ∈ old → m k = none) :
    ∃ T' m', (∀ fuel, T.capacity ≤ fuel → rehashLoop fuel old T = some T') ∧ Stands T' m' ∧
      tombCount T'.entries = 0 ∧ usedCount T'.entries = usedCount T.entries + usedCount old ∧
      T'.capacity = T.capacity ∧ T'.size = T.size ∧
      ∀ k v, m' k = some v ↔ m k = some v ∨ some ⟨k, v, true⟩ ∈ old := by
  induction old generalizing T m with
  | nil => exact ⟨T, m, fun _ _ => rfl, hT, htomb, by simp [usedCount], rfl, rfl, by simp⟩
  | cons c old ih =>
    obtain ⟨hhead, htail⟩ := List.pairwise_cons.mp hold
    -- a slot that is not used leaves the new table as it is
    have hskip : isUsedSlot c = false →
        (∀ fuel, rehashLoop fuel (c :: old) T = rehashLoop fuel old T) →
        ∃ T' m', (∀ fuel, T.capacity ≤ fuel → rehashLoop fuel (c :: old) T = some T') ∧
          Stands T' m' ∧ tombCount T'.entries = 0 ∧
          usedCount T'.entries = usedCount T.entries + usedCount (c :: old) ∧
          T'.capacity = T.capacity ∧ T'.size = T.size ∧
          ∀ k v, m' k = some v ↔ m k = some v ∨ some ⟨k, v, true⟩ ∈ c :: old := by
      intro hu hl
      have hcount : usedCount (c :: old) = usedCount old := by simp [usedCount, hu]
      rw [hcount] at hroom
      obtain ⟨T', m', hrun, h1, h2, h3, h4, h5, h6⟩ :=
        ih hT htomb hroom htail (fun k v hm => hnew k v (List.mem_cons_of_mem _ hm))
      refine ⟨T', m', fun fuel hf => by rw [hl, hrun fuel hf], h1, h2, by rw [h3, hcount], h4, h5,
        fun k v => ?_⟩
      have hne : some ⟨k, v, true⟩ ≠ c := by
        rintro rfl
        simp [isUsedSlot] at hu
      rw [h6, List.mem_cons]
      simp [hne]
    rcases c with _ | ⟨k, v, u⟩
    · exact hskip rfl (fun _ => rfl)
    · cases u
      · exact hskip rfl (fun _ => by simp [rehashLoop])
      · have hk : m k = none := hnew k v (by simp)
        have hcount : usedCount (some ⟨k, v, true⟩ :: old) = usedCount old + 1 := by
          simp [usedCount, isUsedSlot, List.countP_cons]
        rw [hcount] at hroom
        have hnull : none ∈ T.entries := by
          have := counts_add T.entries
          rw [null_mem_iff]
          rw [hT.len] at this
          omega
        obtain ⟨d, hd⟩ := exists_setStops hT.toShaped hnull k
        have hc : T.entries[pathSlot T k d]? = some none := by
          rcases setEntry_outcome hT.toShaped hd v true le_rfl with ⟨hc, -⟩ | ⟨w, hc, -⟩ | ⟨k', w, hc, -⟩
          · exact hc
          · have := hT.repr.value_of_live (Nat.mod_lt _ hT.cap_pos) (k := k) (v := w)
              (by rw [slotAt_of_getElem? hc]; rfl)
            rw [hk] at this
            cases this
          · have : 0 < tombCount T.entries :=
              List.countP_pos_iff.mpr ⟨_, List.mem_of_getElem? hc, rfl⟩
            omega
        -- the entry lands in a `NULL` slot, as `fill` does apart from the size
        have hput := hT.fill hd hc v
        let T1 : Uhashtable α := { T with entries := T.entries.set (pathSlot T k d) (some ⟨k, v, true⟩) }
        have hT1 : Stands T1 (Function.update m k (some v)) := ⟨⟨hput.cap, hput.len⟩, hput.repr⟩
        have hused : usedCount T1.entries = usedCount T.entries + 1 := by
          have := countP_set_add (p := isUsedSlot) hc (some ⟨k, v, true⟩)
          simpa [isUsedSlot, usedCount, T1] using this
        have htomb1 : tombCount T1.entries = 0 := by
          have := countP_set_add (p := isTombSlot) hc (some ⟨k, v, true⟩)
          rw [tombCount] at htomb
          simpa [isTombSlot, tombCount, T1, htomb] using this
        obtain ⟨T', m', hrun, h1, h2, h3, h4, h5, h6⟩ := ih hT1 htomb1
          (by rw [hused]; show _ < T.capacity; omega) htail (fun k' v' hm => by
            have hne : k' ≠ k := fun hkk => hhead _ hm k v v' rfl (by rw [hkk])
            rw [Function.update_of_ne hne]
            exact hnew k' v' (List.mem_cons_of_mem _ hm))
        refine ⟨T', m', fun fuel hf => ?_, h1, h2, by rw [h3, hused, hcount]; omega, h4, h5,
          fun k' v' => ?_⟩
        · have hp := probe_of_stops (hT.index_lt k) hd fuel ((hT.stop_lt hd).trans_le hf)
          have hone : uhashtableRehashEntry fuel T ⟨k, v, true⟩ = some T1 := by
            simp [uhashtableRehashEntry, hp, hc, T1]
          simp only [rehashLoop, hone, if_true]
          exact hrun fuel hf
        · rw [h6, List.mem_cons]
          by_cases hkk : k' = k
          · subst hkk
            have hno : some ⟨k', v', true⟩ ∉ old := fun hm => hhead _ hm k' v v' rfl rfl
            simp [hno, hk, eq_comm]
          · simp [hkk]

/-- `t'` is `t` moved to an array of twice the capacity. -/
structure Doubled (t t' : Uhashtable α) (m : BitVec 32 → Option α) : Prop where
  stands : Stands t' m
  capacity : t'.capacity = 2 * t.capacity
  tombs : tombCount t'.entries = 0
  used : usedCount t'.entries = usedCount t.entries
  size : t'.size = t.size
  graveyard : t'.graveyardSize = 0

/-- Doubling succeeds while the new array can be allocated. -/
theorem rehash_two {t : Uhashtable α} {m : BitVec 32 → Option α} (h : Stands t m)
    (hcap : t.capacity ≤ 2 ^ 28) :
    ∃ t', (∀ fuel, 2 * t.capacity ≤ fuel → uhashtableRehash fuel t 2 true = some (.osNoErr, t')) ∧
      Doubled t t' m := by
  obtain ⟨n, hn, -, he⟩ := h.cap
  have hn28 : n ≤ 28 := by
    rw [he] at hcap
    exact (Nat.pow_le_pow_iff_right (by norm_num)).mp hcap
  have hpos := h.cap_pos
  have hmod : t.capacity * 2 % sizeTMod = 2 * t.capacity := by
    rw [Nat.mod_eq_of_lt (by simp only [sizeTMod]; omega)]
    omega
  have hT : Stands (⟨newEntries α (2 * t.capacity), 2 * t.capacity, t.size, t.graveyardSize⟩ :
      Uhashtable α) (fun _ => none) :=
    stands_new (n := n + 1) (by omega) (by omega) (by rw [he, Nat.pow_succ]; omega)
  have hzero : usedCount (newEntries α (2 * t.capacity)) = 0 ∧
      tombCount (newEntries α (2 * t.capacity)) = 0 := by
    simp [usedCount, tombCount, newEntries, List.countP_replicate, isUsedSlot, isTombSlot]
  have hle := counts_add t.entries
  rw [h.len] at hle
  obtain ⟨T', m', hrun, h1, h2, h3, h4, h5, h6⟩ := rehashLoop_outcome t.entries hT hzero.2
    (by rw [hzero.1]; show _ < 2 * t.capacity; omega) h.distinctKeys (fun _ _ _ => rfl)
  have hm : m' = m := by
    funext k
    apply Option.ext
    intro v
    rw [h6, h.repr.lookup]
    constructor
    · rintro (hv | hv)
      · cases hv
      · obtain ⟨i, hi⟩ := List.getElem?_of_mem hv
        refine ⟨i, ?_, by rw [slotAt_of_getElem? hi]; rfl⟩
        rw [← h.len]
        exact (List.getElem?_eq_some_iff.mp hi).1
    · rintro ⟨i, -, hl⟩
      exact Or.inr (List.mem_of_getElem? (slotAt_eq_live hl))
  subst hm
  refine ⟨{ T' with graveyardSize := 0 }, fun fuel hf => ?_, ⟨⟨h1.cap, h1.len⟩, h1.repr⟩, h4, h2,
    ?_, h5, rfl⟩
  swap
  · rw [← Nat.zero_add (usedCount t.entries), ← hzero.1]
    exact h3
  have htake : t.entries.take t.capacity = t.entries := by rw [← h.len, List.take_length]
  have h1' : ¬ 2 * t.capacity ≤ t.capacity := by omega
  have h2' : ¬ t.entries.length < t.capacity := by rw [h.len]; omega
  simp only [uhashtableRehash, hmod, if_neg h1', if_neg h2', htake, hrun fuel hf]
  rfl

/-- At `2^29` slots the byte size of the doubled array wraps to zero: no fuel makes `set` return. -/
theorem set_none_of_wrap {t : Uhashtable α} (hcap : t.capacity = 2 ^ 29) (hload : loadExceeded t = true)
    (fuel : ℕ) (k : BitVec 32) (v : α) (b : Bool) : uhashtableSet fuel t k v true b = none := by
  have hprobe : ∀ (stop : Option (UhashtableEntry α) → Bool) (f i c : ℕ),
      probe ([] : List (Option (UhashtableEntry α))) c stop f i = none := by
    intro stop f i c
    cases f <;> rfl
  have hloop : ∀ (old : List (Option (UhashtableEntry α))) (T : Uhashtable α), T.entries = [] →
      rehashLoop fuel old T = none ∨ rehashLoop fuel old T = some T := by
    intro old T hT
    induction old with
    | nil => exact Or.inr rfl
    | cons c old ih =>
      rcases c with _ | ⟨k', v', u⟩
      · exact ih
      · cases u
        · simpa [rehashLoop] using ih
        · left
          simp [rehashLoop, uhashtableRehashEntry, hT, hprobe]
  have hempty : newEntries α (t.capacity * 2 % sizeTMod) = [] := by
    rw [hcap]
    rfl
  have hlt : ¬ t.capacity * 2 % sizeTMod ≤ t.capacity := by rw [hcap]; decide
  simp only [uhashtableSet, hload, if_true, uhashtableRehash, if_neg hlt, hempty]
  by_cases hlen : t.entries.length < t.capacity
  · simp [hlen]
  · simp only [if_neg hlen]
    rcases hloop (t.entries.take t.capacity)
      { t with capacity := t.capacity * 2 % sizeTMod, entries := [] } rfl with hr | hr <;>
      simp [hr, uhashtableSetEntry, hprobe]

/-! ## What a finished call has done -/

/-- The three ways a finished `uhashtable_set_entry` can have gone: its probe stopped at a `NULL`
slot, at the key, or at a tombstone. -/
theorem setEntry_cases {t t' : Uhashtable α} (h : Shaped t) (hnull : none ∈ t.entries) {fuel : ℕ}
    {k : BitVec 32} {v : α} {b : Bool} {err : OsReturnE}
    (hs : uhashtableSetEntry fuel t k v b = some (err, t')) :
    ∃ d, SetStops t k d ∧
      ((t.entries[pathSlot t k d]? = some none ∧ (err = .osErrMalloc ∧ t' = t ∨
          err = .osNoErr ∧ t' = t.fill (pathSlot t k d) k v)) ∨
        (∃ w, t.entries[pathSlot t k d]? = some (some ⟨k, w, true⟩) ∧ err = .osNoErr ∧
          t' = t.renew (pathSlot t k d) k v) ∨
        (∃ k' w, t.entries[pathSlot t k d]? = some (some ⟨k', w, false⟩) ∧ err = .osNoErr ∧
          t' = t.reuse (pathSlot t k d) k v)) := by
  obtain ⟨d, hd⟩ := exists_setStops h hnull k
  have hs' := setEntry_mono hs (le_max_left fuel t.capacity)
  refine ⟨d, hd, ?_⟩
  rcases setEntry_outcome h hd v b (le_max_right fuel t.capacity) with ⟨hc, ho⟩ | ⟨w, hc, ho⟩ |
    ⟨k', w, hc, ho⟩
  · left
    rw [ho] at hs'
    cases b <;> simp only [Bool.false_eq_true, if_false, if_true, Option.some.injEq,
      Prod.mk.injEq] at hs'
    · exact ⟨hc, Or.inl ⟨hs'.1.symm, hs'.2.symm⟩⟩
    · exact ⟨hc, Or.inr ⟨hs'.1.symm, hs'.2.symm⟩⟩
  · right; left
    rw [ho] at hs'
    simp only [Option.some.injEq, Prod.mk.injEq] at hs'
    exact ⟨w, hc, hs'.1.symm, hs'.2.symm⟩
  · right; right
    rw [ho] at hs'
    simp only [Option.some.injEq, Prod.mk.injEq] at hs'
    exact ⟨k', w, hc, hs'.1.symm, hs'.2.symm⟩

theorem Doubled.null_room {t t' : Uhashtable α} {m : BitVec 32 → Option α} (h : Stands t m)
    (hd : Doubled t t' m) : 16 ≤ nullCount t'.entries := by
  have h1 := counts_add t'.entries
  have h2 := counts_add t.entries
  have h3 := h.le_cap
  rw [hd.stands.len, hd.tombs, hd.used, hd.capacity] at h1
  rw [h.len] at h2
  omega

/-- A finished `uhashtable_set` either gave up before it probed, or probed the table itself (load
test passed) or a doubled one. -/
theorem set_cases {t t' : Uhashtable α} {m : BitVec 32 → Option α} (h : Stands t m) {fuel : ℕ}
    {k : BitVec 32} {v : α} {b b' : Bool} {err : OsReturnE}
    (hs : uhashtableSet fuel t k v b b' = some (err, t')) :
    (err ≠ .osNoErr ∧ t' = t) ∨
      (loadExceeded t = false ∧ uhashtableSetEntry fuel t k v b' = some (err, t')) ∨
      ∃ t1, Doubled t t1 m ∧ uhashtableSetEntry fuel t1 k v b' = some (err, t') := by
  cases hl : loadExceeded t with
  | false =>
    right; left
    exact ⟨rfl, by simpa [uhashtableSet, hl] using hs⟩
  | true =>
    by_cases hcap : t.capacity ≤ 2 ^ 28
    · have hgrow : ¬ t.capacity * 2 % sizeTMod ≤ t.capacity := by
        have := h.cap_pos
        rw [Nat.mod_eq_of_lt (by simp only [sizeTMod]; omega)]
        omega
      cases b with
      | false =>
        left
        simp only [uhashtableSet, hl, if_true, uhashtableRehash, if_neg hgrow, Bool.not_false,
          ne_eq, reduceCtorEq, not_false_eq_true, Option.some.injEq, Prod.mk.injEq] at hs
        exact ⟨by rw [← hs.1]; simp, hs.2.symm⟩
      | true =>
        right; right
        obtain ⟨t1, hrun, hd⟩ := rehash_two h hcap
        refine ⟨t1, hd, ?_⟩
        cases hr : uhashtableRehash fuel t 2 true with
        | none => simp [uhashtableSet, hl, hr] at hs
        | some r =>
          have hmono := rehash_mono hr (le_max_left fuel (2 * t.capacity))
          rw [hrun _ (le_max_right _ _), Option.some.injEq] at hmono
          subst hmono
          simpa [uhashtableSet, hl, hr] using hs
    · obtain ⟨n, -, hn, he⟩ := h.cap
      have hn29 : n = 29 := by
        rw [he] at hcap
        have : ¬ n ≤ 28 := fun hle => hcap (Nat.pow_le_pow_right (by norm_num) hle)
        omega
      subst hn29
      cases b with
      | false =>
        left
        have hgrow : ¬ t.capacity * 2 % sizeTMod ≤ t.capacity := by rw [he]; decide
        simp only [uhashtableSet, hl, if_true, uhashtableRehash, if_neg hgrow, Bool.not_false,
          ne_eq, reduceCtorEq, not_false_eq_true, Option.some.injEq, Prod.mk.injEq] at hs
        exact ⟨by rw [← hs.1]; simp, hs.2.symm⟩
      | true => simp [set_none_of_wrap he hl] at hs

/-- A finished `uhashtable_remove` either changed nothing and reported why, or buried the key. -/
theorem remove_cases {t t' : Uhashtable α} {m : BitVec 32 → Option α} (h : Stands t m)
    (hnull : none ∈ t.entries) {fuel : ℕ} {k : BitVec 32} {b : Bool} {err : OsReturnE}
    {out : Option α} (hs : uhashtableRemove fuel t k b = some (err, out, t')) :
    (err ≠ .osNoErr ∧ t' = t) ∨ ∃ v d, err = .osNoErr ∧ m k = some v ∧
      t.entries[pathSlot t k d]? = some (some ⟨k, v, true⟩) ∧ t' = t.bury (pathSlot t k d) k v := by
  rw [remove_eq] at hs
  cases hg : graveyardExceeded t with
  | true =>
    left
    simp only [hg, if_true, Option.some.injEq, Prod.mk.injEq] at hs
    exact ⟨by rw [← hs.1]; simp, hs.2.2.symm⟩
  | false =>
    simp only [hg, Bool.false_eq_true, if_false] at hs
    have hs' := removeEntry_mono hs (le_max_left fuel t.capacity)
    rcases removeEntry_outcome h hnull k (le_max_right fuel t.capacity) with ⟨-, ho⟩ |
      ⟨v, d, hm, hc, ho⟩
    · left
      rw [ho] at hs'
      simp only [Option.some.injEq, Prod.mk.injEq] at hs'
      exact ⟨by rw [← hs'.1]; simp, hs'.2.2.symm⟩
    · right
      rw [ho] at hs'
      simp only [Option.some.injEq, Prod.mk.injEq] at hs'
      exact ⟨v, d, hs'.1.symm, hm, hc, hs'.2.2.symm⟩

end UtkKernel.HashTable
