import UtkKernel.Structures.VectorLists

/-! # The storage of a vector

A vector that is resized beyond its capacity is copied with as many elements as it gets, not as it has. The bytes of a
storage are counted in 32 bits: from `2 ^ 30` elements on it has fewer slots than its vector has room for. -/

namespace UtkKernel.Structures
open Foundations
set_option autoImplicit false

variable {α : Type} {v : VectorT α} {alloc : VectorAlloc α} {n : ℕ}

/-! ## Resizing -/

/-- With any allocator, a vector that is resized has the size and begins with what it had before, or is unchanged where
there is an error; what is read and written is inside of the two storages. -/
def Resizes (v : VectorT α) (size : BitVec 32) : Prop :=
  ∀ alloc : VectorAlloc α,
    ((vectorResize alloc v size).err = .osNoErr → (vectorResize alloc v size).vector.Valid ∧
      (vectorResize alloc v size).vector.size = size.toNat ∧
      (vectorResize alloc v size).vector.toList.take (min v.size size.toNat) = v.toList.take (min v.size size.toNat)) ∧
    ((vectorResize alloc v size).err ≠ .osNoErr → (vectorResize alloc v size).vector = v) ∧
    ∀ a ∈ (vectorResize alloc v size).accesses, a.Inside

theorem resizes_of_le {size : BitVec 32} (hv : v.Valid) (hle : size.toNat ≤ v.capacity) : Resizes v size := by
  intro alloc
  unfold vectorResize
  rw [if_neg (not_lt.mpr hle)]
  refine ⟨fun _ => ⟨⟨hle, hv.length, hv.below⟩, rfl, ?_⟩, fun h => absurd rfl h, nofun⟩
  unfold VectorT.toList
  dsimp only
  rw [List.take_take, List.take_take, min_eq_left (Nat.min_le_right ..), min_eq_left (Nat.min_le_left ..)]

/-- An allocator that never fails. -/
def servingAlloc (α : Type) [Inhabited α] : VectorAlloc α where
  malloc _ bytes := some (List.replicate (bytes / 4) default)
  length_eq h := by
    rw [← Option.some.inj h]
    exact List.length_replicate

/-- A larger vector reads behind the end of its old storage, or its new one is too small. -/
theorem not_resizes_of_lt [Inhabited α] {size : BitVec 32} (hv : v.Valid) (hlt : v.capacity < size.toNat) :
    ¬Resizes v size := by
  intro hresizes
  have hsome : size ≠ 0#32 := fun hzero => by
    rw [hzero] at hlt
    exact absurd hlt (Nat.not_lt_zero _)
  have hmax : max v.size size.toNat = size.toNat := max_eq_right (hv.size_le.trans hlt.le)
  have hcall : vectorResize (servingAlloc α) v size =
      ⟨.osNoErr, ⟨copySlots (List.replicate (byteCount size.toNat / 4) default) v.array (byteCount size.toNat), size.toNat,
        size.toNat⟩, none, copyAccesses (List.replicate (byteCount size.toNat / 4) default) v.array (byteCount size.toNat)⟩ := by
    unfold vectorResize
    rw [if_pos hlt, if_pos hsome, hmax]
    rfl
  obtain ⟨hok, -, hinside⟩ := hresizes (servingAlloc α)
  rw [hcall] at hok hinside
  obtain ⟨hvalid, -, -⟩ := hok rfl
  have hlength := hvalid.length
  have hread : (⟨v.capacity, v.array.length⟩ : SlotAccess).Inside := hinside _ (List.mem_append_left _ (List.mem_map.mpr
    ⟨v.capacity, List.mem_range.mpr (by rw [byteCount_div hvalid.below]; exact hlt), rfl⟩))
  exact absurd hread (not_lt.mpr hv.length.le)

/-- A storage has as many slots as its vector has room for. -/
def VectorT.Stored (v : VectorT α) : Prop := v.capacity ≤ v.array.length

/-- What `GROW_VECTOR_SIZE` asks for. -/
def grownSlots (v : VectorT α) : Option ℕ :=
  let newSize := v.capacity * 2 % 2 ^ 32
  let newSize := if newSize = 0 then 2 else newSize
  if v.capacity = v.size ∧ v.capacity < newSize then some newSize else none

/-- The slots that a call asks for, as the capacity of a vector. -/
def requestedSlots (vectors : List (VectorT α)) : VectorOp α → Option ℕ
  | .create _ size => if size ≠ 0#32 then some size.toNat else none
  | .copy src => vectors[src]?.bind fun v => if v.capacity ≠ 0 then some v.capacity else none
  | .shrinkToFit i => vectors[i]?.bind fun v => if v.size < v.capacity ∧ v.size ≠ 0 then some v.size else none
  | .resize i size => vectors[i]?.bind fun v => if v.capacity < size.toNat then some size.toNat else none
  | .insert i _ position => vectors[i]?.bind fun v => if position.toNat ≤ v.size then grownSlots v else none
  | .push i _ => vectors[i]?.bind grownSlots
  | _ => none

/-- The allocator gives what a call asks for. -/
def Serves (alloc : VectorAlloc α) (n : ℕ) : VectorOp α → Prop
  | .create _ _ => alloc.malloc 0 20 ≠ none ∧ alloc.malloc 1 (byteCount n) ≠ none
  | .copy _ => alloc.malloc 0 20 ≠ none ∧ alloc.malloc 1 (byteCount n) ≠ none
  | _ => alloc.malloc 0 (byteCount n) ≠ none

/-- A storage that a call asks for, and gets, has fewer than `2 ^ 30` slots. -/
def StorageFits (alloc : VectorAlloc α) (vectors : List (VectorT α)) (op : VectorOp α) : Prop :=
  ∀ n, requestedSlots vectors op = some n → Serves alloc n op → n < 2 ^ 30

/-- The vectors of a program after some calls, each with its allocator. -/
def runVectors (null : α) : List (VectorT α) → List (VectorAlloc α × VectorOp α) → List (VectorT α)
  | vectors, [] => vectors
  | vectors, (alloc, op) :: steps => runVectors null (execVector alloc null vectors op).2 steps

/-- After each call of a program, every vector is stored. -/
def KeepsStored (null : α) (vectors : List (VectorT α)) (steps : List (VectorAlloc α × VectorOp α)) : Prop :=
  ∀ front, front <+: steps → ∀ v ∈ runVectors null vectors front, v.Stored

/-- Each storage that a call of a program gets fits. -/
def StoragesFit (null : α) : List (VectorT α) → List (VectorAlloc α × VectorOp α) → Prop
  | _, [] => True
  | vectors, (alloc, op) :: steps =>
    StorageFits alloc vectors op ∧ StoragesFit null (execVector alloc null vectors op).2 steps

theorem byteCount_div_mod (n : ℕ) : byteCount n / 4 = n % 2 ^ 30 := by
  unfold byteCount
  omega

theorem length_served {call : ℕ} {storage : List α} (h : alloc.malloc call (byteCount n) = some storage) :
    storage.length = n % 2 ^ 30 := (alloc.length_eq h).trans (byteCount_div_mod n)

/-! ## Calls -/

/-- A call whose request fits keeps the vector valid; one that is served gives it the slots whose bytes it asked for. -/
structure Allocates (c : VectorCall α) (request : Option ℕ) (served : ℕ → Prop) : Prop where
  fits : (∀ n, request = some n → served n → n < 2 ^ 30) → c.vector.Valid
  served : ∀ n, request = some n → served n → c.vector.capacity = n ∧ c.vector.array.length = n % 2 ^ 30

theorem growVectorSize_grown (hn : grownSlots v = some n) (hserved : alloc.malloc 0 (byteCount n) ≠ none) :
    ∃ v' accesses, growVectorSize alloc v = .ok (v', accesses) ∧ v'.capacity = n ∧ v'.array.length = n % 2 ^ 30 := by
  obtain ⟨storage, hstorage⟩ := Option.ne_none_iff_exists'.mp hserved
  unfold grownSlots at hn
  dsimp only at hn
  split_ifs at hn with h1 h2 h2
  · obtain rfl := Option.some.inj hn
    unfold growVectorSize
    rw [if_pos h2.1]
    dsimp only
    rw [if_pos h1, if_neg (by omega), hstorage]
    exact ⟨_, _, rfl, rfl, (length_copySlots ..).trans (length_served hstorage)⟩
  · obtain rfl := Option.some.inj hn
    unfold growVectorSize
    rw [if_pos h2.1]
    dsimp only
    rw [if_neg h1, if_neg (by omega), hstorage]
    exact ⟨_, _, rfl, rfl, (length_copySlots ..).trans (length_served hstorage)⟩

theorem growVectorSize_same (hnot : ∀ n, grownSlots v = some n → alloc.malloc 0 (byteCount n) = none) :
    growVectorSize alloc v = .ok (v, []) ∨ ∃ err, growVectorSize alloc v = .error err := by
  unfold growVectorSize
  by_cases hfull : v.capacity = v.size
  · rw [if_pos hfull]
    dsimp only
    by_cases hlarge : (if v.capacity * 2 % 2 ^ 32 = 0 then 2 else v.capacity * 2 % 2 ^ 32) ≤ v.capacity
    · rw [if_pos hlarge]
      exact .inr ⟨_, rfl⟩
    · have hnone := hnot _ (if_pos ⟨hfull, not_le.mp hlarge⟩)
      rw [if_neg hlarge, hnone]
      exact .inr ⟨_, rfl⟩
  · rw [if_neg hfull]
    exact .inl rfl

section
variable (hv : v.Valid)
include hv

theorem vectorShrinkToFit_allocates (alloc : VectorAlloc α) : Allocates (vectorShrinkToFit alloc v)
    (if v.size < v.capacity ∧ v.size ≠ 0 then some v.size else none) fun n => alloc.malloc 0 (byteCount n) ≠ none := by
  refine ⟨fun _ => (vectorShrinkToFit_refines hv).valid, fun n hn hserved => ?_⟩
  obtain ⟨storage, hstorage⟩ := Option.ne_none_iff_exists'.mp hserved
  split_ifs at hn with hmore
  obtain rfl := Option.some.inj hn
  unfold vectorShrinkToFit
  rw [if_pos hmore.1, if_pos hmore.2, hstorage]
  exact ⟨rfl, (length_copySlots ..).trans (length_served hstorage)⟩

theorem growVectorSize_below (hfits : ∀ n, grownSlots v = some n → alloc.malloc 0 (byteCount n) ≠ none → n < 2 ^ 30)
    {v' : VectorT α} {accesses : List SlotAccess} (hgrow : growVectorSize alloc v = .ok (v', accesses)) :
    v'.capacity * 4 < 2 ^ 32 := by
  by_cases hgrows : ∃ n, grownSlots v = some n ∧ alloc.malloc 0 (byteCount n) ≠ none
  · obtain ⟨n, hn, hserved⟩ := hgrows
    obtain ⟨v1, accesses1, hgrow1, hcapacity, -⟩ := growVectorSize_grown hn hserved
    obtain ⟨rfl, -⟩ := Prod.mk.inj (Except.ok.inj (hgrow.symm.trans hgrow1))
    have hsmall := hfits n hn hserved
    omega
  · push Not at hgrows
    obtain hsame | ⟨err, herror⟩ := growVectorSize_same hgrows
    · obtain ⟨rfl, -⟩ := Prod.mk.inj (Except.ok.inj (hgrow.symm.trans hsame))
      exact hv.below
    · exact nomatch hgrow.symm.trans herror

theorem vectorPush_allocates (alloc : VectorAlloc α) (data : α) :
    Allocates (vectorPush alloc v data) (grownSlots v) fun n => alloc.malloc 0 (byteCount n) ≠ none := by
  constructor
  · intro hfits
    refine (vectorPush_refines hv ?_).valid
    unfold vectorPush
    cases hgrow : growVectorSize alloc v with
    | error err => exact hv.below
    | ok r =>
      have hbelow := growVectorSize_below hv hfits hgrow
      exact hbelow
  · intro n hn hserved
    obtain ⟨v', accesses, hgrow, hcapacity, hlength⟩ := growVectorSize_grown hn hserved
    unfold vectorPush
    rw [hgrow]
    exact ⟨hcapacity, List.length_set.trans hlength⟩

theorem vectorInsert_allocates (alloc : VectorAlloc α) (data : α) (pos : BitVec 32) :
    Allocates (vectorInsert alloc v data pos) (if pos.toNat ≤ v.size then grownSlots v else none)
      fun n => alloc.malloc 0 (byteCount n) ≠ none := by
  by_cases hpos : pos.toNat ≤ v.size
  · rw [if_pos hpos]
    constructor
    · intro hfits
      refine (vectorInsert_refines hv ?_).valid
      unfold vectorInsert
      rw [if_neg (not_lt.mpr hpos)]
      cases hgrow : growVectorSize alloc v with
      | error err => exact hv.below
      | ok r =>
        have hbelow := growVectorSize_below hv hfits hgrow
        exact hbelow
    · intro n hn hserved
      obtain ⟨v', accesses, hgrow, hcapacity, hlength⟩ := growVectorSize_grown hn hserved
      unfold vectorInsert
      rw [if_neg (not_lt.mpr hpos), hgrow]
      exact ⟨hcapacity, List.length_set.trans ((length_shiftSlots ..).trans hlength)⟩
  · rw [if_neg hpos]
    refine ⟨fun _ => ?_, nofun⟩
    unfold vectorInsert
    rw [if_pos (not_le.mp hpos)]
    exact hv

theorem vectorResize_allocates (alloc : VectorAlloc α) (size : BitVec 32) : Allocates (vectorResize alloc v size)
    (if v.capacity < size.toNat then some size.toNat else none) fun n => alloc.malloc 0 (byteCount n) ≠ none := by
  unfold vectorResize
  by_cases hlarger : v.capacity < size.toNat
  · have hsome : size ≠ 0#32 := fun hzero => by
      rw [hzero] at hlarger
      exact absurd hlarger (Nat.not_lt_zero _)
    rw [if_pos hlarger, if_pos hlarger, if_pos hsome]
    cases hmalloc : alloc.malloc 0 (byteCount size.toNat) with
    | none =>
      refine ⟨fun _ => hv, fun n hn hserved => ?_⟩
      obtain rfl := Option.some.inj hn
      exact absurd hmalloc hserved
    | some newArray =>
      have hlength : (copySlots newArray v.array (byteCount (max v.size size.toNat))).length = size.toNat % 2 ^ 30 :=
        (length_copySlots ..).trans (length_served hmalloc)
      refine ⟨fun hfits => ?_, fun n hn _ => Option.some.inj hn ▸ ⟨rfl, hlength⟩⟩
      have hsmall := hfits size.toNat rfl (by rw [hmalloc]; exact Option.some_ne_none _)
      exact ⟨le_rfl, hlength.trans (Nat.mod_eq_of_lt hsmall), (by omega : size.toNat * 4 < 2 ^ 32)⟩
  · rw [if_neg hlarger, if_neg hlarger]
    exact ⟨fun _ => ⟨not_lt.mp hlarger, hv.length, hv.below⟩, nofun⟩

end

theorem vectorCreate_allocates (initData : α) (size : BitVec 32)
    (hserved : alloc.malloc 0 20 ≠ none ∧ alloc.malloc 1 (byteCount size.toNat) ≠ none) (hsome : size ≠ 0#32) :
    ∃ v accesses, vectorCreate alloc initData size = .ok (v, accesses) ∧ v.capacity = size.toNat ∧
      v.array.length = size.toNat % 2 ^ 30 := by
  obtain ⟨vector, hvector⟩ := Option.ne_none_iff_exists'.mp hserved.1
  obtain ⟨storage, hstorage⟩ := Option.ne_none_iff_exists'.mp hserved.2
  unfold vectorCreate
  rw [hvector]
  dsimp only
  rw [if_pos hsome, hstorage]
  exact ⟨_, _, rfl, rfl, (length_fillSlots ..).trans (length_served hstorage)⟩

/-- What is made without being served has no storage. -/
theorem vectorCreate_small (initData : α) (size : BitVec 32) {v : VectorT α} {accesses : List SlotAccess}
    (hmade : vectorCreate alloc initData size = .ok (v, accesses)) : v.capacity = size.toNat ∧
      (size ≠ 0#32 → alloc.malloc 0 20 ≠ none ∧ alloc.malloc 1 (byteCount size.toNat) ≠ none) := by
  unfold vectorCreate at hmade
  cases hvector : alloc.malloc 0 20 with
  | none =>
    rw [hvector] at hmade
    exact nomatch hmade
  | some vector =>
    rw [hvector] at hmade
    dsimp only at hmade
    by_cases hsome : size ≠ 0#32
    · rw [if_pos hsome] at hmade
      cases hstorage : alloc.malloc 1 (byteCount size.toNat) with
      | none =>
        rw [hstorage] at hmade
        exact nomatch hmade
      | some storage =>
        rw [hstorage] at hmade
        obtain ⟨rfl, -⟩ := Prod.mk.inj (Except.ok.inj hmade)
        exact ⟨rfl, fun _ => ⟨Option.some_ne_none _, Option.some_ne_none _⟩⟩
    · rw [if_neg hsome] at hmade
      obtain ⟨rfl, -⟩ := Prod.mk.inj (Except.ok.inj hmade)
      rw [not_not.mp hsome]
      exact ⟨rfl, fun h => absurd rfl h⟩

/-! ## Programs -/

section
variable {vectors : List (VectorT α)} (hvectors : ∀ v ∈ vectors, v.Valid)
include hvectors

/-- A request that fits leaves the vectors valid, and another one leaves a vector without its storage. -/
structure StepStores (alloc : VectorAlloc α) (vectors : List (VectorT α)) (op : VectorOp α) (vectors' : List (VectorT α)) :
    Prop where
  fits : StorageFits alloc vectors op → ∀ v ∈ vectors', v.Valid
  wraps : ¬StorageFits alloc vectors op → ∃ v ∈ vectors', ¬v.Stored

omit hvectors in
theorem not_stored (hcapacity : v.capacity = n) (hlength : v.array.length = n % 2 ^ 30) (hlarge : ¬n < 2 ^ 30) : ¬v.Stored := by
  unfold VectorT.Stored
  omega

theorem callVector_stores {i : ℕ} {op : VectorOp α} {call : VectorT α → VectorCall α} {request : VectorT α → Option ℕ}
    (hop : requestedSlots vectors op = vectors[i]?.bind request) (hcall : ∀ v, v.Valid →
      Allocates (call v) (request v) fun n => Serves alloc n op) :
    StepStores alloc vectors op (callVector vectors i call).2 := by
  unfold callVector
  cases hi : vectors[i]? with
  | none =>
    have hnone : requestedSlots vectors op = none := by
      rw [hop, hi]
      rfl
    refine ⟨fun _ => hvectors, fun hnot => absurd (fun n hn _ => ?_) hnot⟩
    exact nomatch hnone.symm.trans hn
  | some v =>
    obtain ⟨hlt, hget⟩ := List.getElem?_eq_some_iff.mp hi
    obtain ⟨hfits, hserved⟩ := hcall v (hvectors v (List.mem_of_getElem? hi))
    have hrequest : requestedSlots vectors op = request v := by
      rw [hop, hi]
      rfl
    constructor
    · intro hstorage w hw
      exact (List.mem_or_eq_of_mem_set hw).elim (hvectors w) fun h =>
        h ▸ hfits fun n hn hserves => hstorage n (hrequest.trans hn) hserves
    · intro hnot
      unfold StorageFits at hnot
      push Not at hnot
      obtain ⟨n, hn, hserves, hlarge⟩ := hnot
      obtain ⟨hcapacity, hlength⟩ := hserved n (hrequest.symm.trans hn) hserves
      exact ⟨_, List.mem_set hlt _, not_stored hcapacity hlength (not_lt.mpr hlarge)⟩

/-- A call that asks for nothing. -/
theorem callVector_keeps {i : ℕ} {op : VectorOp α} {call : VectorT α → VectorCall α} (hop : requestedSlots vectors op = none)
    (hcall : ∀ v, v.Valid → (call v).vector.Valid) : StepStores alloc vectors op (callVector vectors i call).2 := by
  have hbind : (vectors[i]?.bind fun _ => (none : Option ℕ)) = none := by
    cases vectors[i]? <;> rfl
  exact callVector_stores hvectors (hop.trans hbind.symm) fun v hv => ⟨fun _ => hcall v hv, nofun⟩

theorem vectorCreate_stores {op : VectorOp α} {initData : α} {size : BitVec 32} {l : List α} (make : VectorT α → VectorT α)
    (touch : VectorT α → List SlotAccess)
    (hop : requestedSlots vectors op = if size ≠ 0#32 then some size.toNat else none)
    (hserves : ∀ n, Serves alloc n op ↔ alloc.malloc 0 20 ≠ none ∧ alloc.malloc 1 (byteCount n) ≠ none)
    (hmake : ∀ v, (make v).capacity = v.capacity ∧ (make v).array.length = v.array.length)
    (hlist : MakesList ((vectorCreate alloc initData size).map fun r => (make r.1, r.2 ++ touch r.1)) l) :
    StepStores alloc vectors op
      (addVector vectors ((vectorCreate alloc initData size).map fun r => (make r.1, r.2 ++ touch r.1))).2 := by
  constructor
  · intro hfits
    cases hcreate : vectorCreate alloc initData size with
    | error err => exact hvectors
    | ok r =>
      obtain ⟨hcapacity, hserved⟩ := vectorCreate_small initData size hcreate
      rw [hcreate] at hlist
      intro w hw
      rcases List.mem_append.mp hw with hw | hw
      · exact hvectors w hw
      obtain rfl := List.mem_singleton.mp hw
      refine (hlist.ok _ _ rfl ?_).1
      rw [(hmake r.1).1, hcapacity]
      by_cases hsome : size ≠ 0#32
      · have hsmall := hfits size.toNat (hop.trans (if_pos hsome)) ((hserves _).mpr (hserved hsome))
        omega
      · rw [not_not.mp hsome]
        decide
  · intro hnot
    unfold StorageFits at hnot
    push Not at hnot
    obtain ⟨n, hn, hserved, hlarge⟩ := hnot
    rw [hop] at hn
    split_ifs at hn with hsome
    obtain rfl := Option.some.inj hn
    obtain ⟨v, accesses, hcreate, hcapacity, hlength⟩ :=
      vectorCreate_allocates initData size ((hserves _).mp hserved) hsome
    rw [hcreate]
    refine ⟨make v, List.mem_append_right _ (List.mem_singleton_self _), ?_⟩
    exact not_stored ((hmake v).1.trans hcapacity) ((hmake v).2.trans hlength) (not_lt.mpr hlarge)

theorem execVector_stores {null : α} (op : VectorOp α) : StepStores alloc vectors op (execVector alloc null vectors op).2 := by
  cases op with
  | create initData size =>
    have hmap : vectorCreate alloc initData size =
        (vectorCreate alloc initData size).map fun r => (id r.1, r.2 ++ (fun _ => []) r.1) := by
      cases vectorCreate alloc initData size with
      | error err => rfl
      | ok r => exact congrArg Except.ok (Prod.ext rfl (List.append_nil _).symm)
    have hlist : MakesList (vectorCreate alloc initData size) (List.replicate size.toNat initData) :=
      vectorCreate_makes initData size
    have hexec : execVector alloc null vectors (.create initData size) = addVector vectors (vectorCreate alloc initData size) :=
      rfl
    rw [hexec]
    rw [hmap] at hlist ⊢
    exact vectorCreate_stores hvectors id (fun _ => []) rfl (fun n => Iff.rfl) (fun v => ⟨rfl, rfl⟩) hlist
  | copy src =>
    cases hsrc : vectors[src]? with
    | none =>
      have hexec : execVector alloc null vectors (.copy src) = (⟨.osErrNullPointer, none, []⟩, vectors) := by
        simp only [execVector, hsrc]
      have hnone : requestedSlots vectors (.copy src : VectorOp α) = none := by
        rw [requestedSlots, hsrc]
        rfl
      rw [hexec]
      exact ⟨fun _ => hvectors, fun hnot => absurd (fun n hn _ => absurd (hnone.symm.trans hn) (by simp)) hnot⟩
    | some v =>
      have hv := hvectors v (List.mem_of_getElem? hsrc)
      have hbelow := hv.below
      have hcapacity : (BitVec.ofNat 32 v.capacity).toNat = v.capacity := by
        rw [BitVec.toNat_ofNat]
        omega
      have hzero : v.capacity ≠ 0 ↔ BitVec.ofNat 32 v.capacity ≠ 0#32 := by
        rw [ne_eq, ne_eq, ← BitVec.toNat_inj, hcapacity]
        rfl
      have hexec : execVector alloc null vectors (.copy src) = addVector vectors (vectorCopy alloc null v) := by
        simp only [execVector, hsrc]
      have hrequest : requestedSlots vectors (.copy src : VectorOp α) =
          if BitVec.ofNat 32 v.capacity ≠ 0#32 then some (BitVec.ofNat 32 v.capacity).toNat else none := by
        rw [requestedSlots, hsrc, hcapacity]
        exact if_congr hzero rfl rfl
      rw [hexec]
      exact vectorCreate_stores hvectors
        (fun copy => ⟨copySlots copy.array v.array (byteCount v.size), v.size, copy.capacity⟩)
        (fun copy => copyAccesses copy.array v.array (byteCount v.size)) hrequest (fun n => Iff.rfl)
        (fun w => ⟨rfl, length_copySlots ..⟩)
        (vectorCopy_makes hv null)
  | clear i =>
    exact callVector_keeps hvectors rfl fun v hv => (vectorClear_refines hv).valid
  | shrinkToFit i => exact callVector_stores hvectors rfl fun v hv => vectorShrinkToFit_allocates hv alloc
  | resize i size => exact callVector_stores hvectors rfl fun v hv => vectorResize_allocates hv alloc size
  | insert i data position => exact callVector_stores hvectors rfl fun v hv => vectorInsert_allocates hv alloc data position
  | push i data => exact callVector_stores hvectors rfl fun v hv => vectorPush_allocates hv alloc data
  | pop i =>
    exact callVector_keeps hvectors rfl fun v hv => (vectorPop_refines hv).valid
  | get i position =>
    exact callVector_keeps hvectors rfl fun v hv => (vectorGet_refines hv position).valid
  | set i position data =>
    exact callVector_keeps hvectors rfl fun v hv => (vectorSet_refines hv position data).valid

theorem keepsStored_of_valid (null : α) (steps : List (VectorAlloc α × VectorOp α)) :
    KeepsStored null vectors steps ↔ StoragesFit null vectors steps := by
  induction steps generalizing vectors with
  | nil =>
    refine iff_of_true (fun front hfront v hv => ?_) trivial
    rw [List.prefix_nil.mp hfront] at hv
    exact (hvectors v hv).length.ge
  | cons step steps ih =>
    obtain ⟨alloc, op⟩ := step
    have hstores : StepStores alloc vectors op (execVector alloc null vectors op).2 := execVector_stores hvectors op
    constructor
    · intro hkeeps
      have hfits : StorageFits alloc vectors op := by
        by_contra hnot
        obtain ⟨v, hv, hbad⟩ := hstores.wraps hnot
        exact hbad (hkeeps [(alloc, op)] (List.cons_prefix_cons.mpr ⟨rfl, List.nil_prefix⟩) v hv)
      refine ⟨hfits, (ih (hstores.fits hfits)).mp fun front hfront => ?_⟩
      exact hkeeps ((alloc, op) :: front) (List.cons_prefix_cons.mpr ⟨rfl, hfront⟩)
    · rintro ⟨hfits, hrest⟩ front hfront v hv
      cases front with
      | nil => exact (hvectors v hv).length.ge
      | cons step front =>
        obtain ⟨rfl, hprefix⟩ := List.cons_prefix_cons.mp hfront
        exact (ih (hstores.fits hfits)).mpr hrest front hprefix v hv

end

/-- In a program that starts without vectors, each vector is stored after each call exactly when the storages that the
calls get have fewer than `2 ^ 30` slots. -/
theorem keepsStored_iff (null : α) (steps : List (VectorAlloc α × VectorOp α)) :
    KeepsStored null [] steps ↔ StoragesFit null [] steps := keepsStored_of_valid (fun _ hv => absurd hv List.not_mem_nil) null steps

/-- A vector of `2 ^ 30 + 1` elements gets the storage of one. -/
theorem keepsStored_large : ¬KeepsStored 0 [] [(zeroAlloc, .create 7 0x40000001#32)] := by
  intro hkeeps
  obtain ⟨hfits, -⟩ := (keepsStored_of_valid (fun _ hv => absurd hv List.not_mem_nil) 0 _).mp hkeeps
  exact absurd (hfits _ rfl ⟨Option.some_ne_none _, Option.some_ne_none _⟩) (by decide)

end UtkKernel.Structures
