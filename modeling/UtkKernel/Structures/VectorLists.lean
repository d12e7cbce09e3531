import Mathlib.Data.Nat.Basic
import Mathlib.Order.Nat
import UtkKernel.Foundations.Runs
import UtkKernel.Structures.Vector

/-! # Vectors are lists

The elements of a vector are the first slots of its storage. As long as a storage has fewer than `2 ^ 32` bytes, each
call changes them as the operation on lists does, or gives an error and leaves them. -/

namespace UtkKernel.Structures
open Foundations
set_option autoImplicit false

variable {α : Type}

/-! ## Lists -/

def VectorT.toList (v : VectorT α) : List α := v.array.take v.size

/-- The storage has a slot for each element there is room for, and fewer than `2 ^ 32` bytes. -/
structure VectorT.Valid (v : VectorT α) : Prop where
  size_le : v.size ≤ v.capacity
  length : v.array.length = v.capacity
  below : v.capacity * 4 < 2 ^ 32

/-- An operation on one of the lists, if it is there. -/
def onList (lists : List (List α)) (i : ℕ) (f : List α → Option (List α × Option α)) :
    Option (List (List α) × Option α) :=
  lists[i]?.bind fun l => (f l).map fun r => (lists.set i r.1, r.2)

/-- What a call means for lists, and what it stores at its data argument; it is rejected if the list or the position is
not there. -/
def listOp (lists : List (List α)) : VectorOp α → Option (List (List α) × Option α)
  | .create initData size => some (lists ++ [List.replicate size.toNat initData], none)
  | .copy src => lists[src]?.map fun l => (lists ++ [l], none)
  | .clear i => onList lists i fun _ => some ([], none)
  | .shrinkToFit i => onList lists i fun l => some (l, none)
  | .resize _ _ => none
  | .insert i data position => onList lists i fun l =>
      if position.toNat ≤ l.length then some (l.insertIdx position.toNat data, none) else none
  | .push i data => onList lists i fun l => some (l ++ [data], none)
  | .pop i => onList lists i fun l => l.getLast?.map fun data => (l.dropLast, some data)
  | .get i position => onList lists i fun l => l[position.toNat]?.map fun data => (l, some data)
  | .set i position data => onList lists i fun l =>
      if position.toNat < l.length then some (l.set position.toNat data, none) else none

/-- The call is one of those that are operations on lists. -/
def VectorOp.OnLists : VectorOp α → Prop
  | .resize _ _ => False
  | _ => True

/-- Every access is inside of its storage, no vector has more elements than room, and the lists are changed as the
operation says, or not at all where the call gives an error; it does so where the operation is rejected or an
allocation fails. -/
structure RefinesLists (vectors : List (VectorT α)) (op : VectorOp α) (r : VectorReply α × List (VectorT α)) : Prop where
  accesses : ∀ a ∈ r.1.accesses, a.Inside
  sizes : ∀ v ∈ r.2, v.size ≤ v.capacity
  ok : r.1.err = .osNoErr → listOp (vectors.map VectorT.toList) op = some (r.2.map VectorT.toList, r.1.data)
  error : r.1.err ≠ .osNoErr → r.2.map VectorT.toList = vectors.map VectorT.toList
  served : listOp (vectors.map VectorT.toList) op ≠ none → r.1.err = .osNoErr ∨ r.1.err = .osErrMalloc

/-- Each storage has fewer than `2 ^ 32` bytes. -/
def StorageBelow (vectors : List (VectorT α)) : Prop := ∀ v ∈ vectors, v.capacity * 4 < 2 ^ 32

/-- A call of a program, with any allocator. -/
def VectorStep (null : α) (vectors : List (VectorT α)) (op : VectorOp α) (vectors' : List (VectorT α)) : Prop :=
  op.OnLists ∧ StorageBelow vectors' ∧ ∃ alloc, (execVector alloc null vectors op).2 = vectors'

/-- The vectors that a program can have made. -/
abbrev VectorsReachable (null : α) : List (VectorT α) → Prop := Reachable (· = []) (VectorStep null)

variable {v v' : VectorT α} {alloc : VectorAlloc α} {array dst src storage elements : List α} {accesses : List SlotAccess}
variable {n count position : ℕ} {data : α}

/-! ## Storage -/

theorem byteCount_eq (h : n * 4 < 2 ^ 32) : byteCount n = n * 4 := Nat.mod_eq_of_lt h

theorem byteCount_div (h : n * 4 < 2 ^ 32) : byteCount n / 4 = n := by
  rw [byteCount_eq h, Nat.mul_div_cancel n (by decide)]

theorem length_fillSlots (storage elements : List α) : (fillSlots storage elements).length = storage.length := by
  unfold fillSlots
  rw [List.length_append, List.length_take, List.length_drop]
  omega

theorem take_fillSlots (h : elements.length ≤ storage.length) : (fillSlots storage elements).take elements.length = elements := by
  unfold fillSlots
  rw [List.take_of_length_le h, List.take_left]

theorem length_copySlots (dst src : List α) (bytes : ℕ) : (copySlots dst src bytes).length = dst.length :=
  length_fillSlots ..

theorem take_copySlots (hbytes : n * 4 < 2 ^ 32) (hsrc : n ≤ src.length) (hdst : n ≤ dst.length) :
    (copySlots dst src (byteCount n)).take n = src.take n := by
  have hlength : (src.take n).length = n := List.length_take_of_le hsrc
  have htake := take_fillSlots (hlength.le.trans hdst)
  rw [hlength] at htake
  unfold copySlots
  rw [byteCount_div hbytes]
  exact htake

theorem firstSlots_inside (h : n ≤ storage.length) : ∀ a ∈ firstSlots n storage, a.Inside := by
  intro a ha
  obtain ⟨i, hi, rfl⟩ := List.mem_map.mp ha
  exact (List.mem_range.mp hi).trans_le h

theorem copyAccesses_inside (hbytes : n * 4 < 2 ^ 32) (hsrc : n ≤ src.length) (hdst : n ≤ dst.length) :
    ∀ a ∈ copyAccesses dst src (byteCount n), a.Inside := by
  intro a ha
  unfold copyAccesses at ha
  rw [byteCount_div hbytes] at ha
  rcases List.mem_append.mp ha with ha | ha
  · exact firstSlots_inside hsrc a ha
  · exact firstSlots_inside hdst a ha

theorem length_malloc {call : ℕ} (hbytes : n * 4 < 2 ^ 32) (h : alloc.malloc call (byteCount n) = some storage) :
    storage.length = n := by
  rw [alloc.length_eq h, byteCount_div hbytes]

/-! ## Shifting -/

theorem length_shiftSlots (position count : ℕ) (array : List α) : (shiftSlots position count array).length = array.length := by
  induction count generalizing array with
  | zero => rfl
  | succ count ih =>
    rw [shiftSlots, ih]
    split
    · exact List.length_set
    · rfl

/-- The elements from the position on are one slot up. -/
theorem getElem?_shiftSlots (h : position + count < array.length) (i : ℕ) : (shiftSlots position count array)[i]? =
    if position < i ∧ i ≤ position + count then array[i - 1]? else array[i]? := by
  induction count generalizing array with
  | zero => rw [shiftSlots, if_neg (by omega)]
  | succ count ih =>
    obtain ⟨data, hdata⟩ : ∃ data, array[position + count]? = some data := ⟨_, List.getElem?_eq_getElem (by omega)⟩
    rw [shiftSlots, hdata]
    dsimp only
    rw [ih (by rw [List.length_set]; omega)]
    by_cases hin : position < i ∧ i ≤ position + count
    · rw [if_pos hin, if_pos (by omega), List.getElem?_set_ne (by omega)]
    · rw [if_neg hin]
      by_cases hlast : i = position + count + 1
      · rw [if_pos (by omega), hlast, List.getElem?_set_self (by omega), Nat.add_sub_cancel, hdata]
      · rw [if_neg (by omega), List.getElem?_set_ne (by omega)]

/-- Room is made at the position, and the new element is put there. -/
theorem take_shiftSlots (hposition : position ≤ n) (hroom : n < array.length) (data : α) :
    ((shiftSlots position (n - position) array).set position data).take (n + 1) = (array.take n).insertIdx position data := by
  refine List.ext_getElem? fun i => ?_
  have hshift : (shiftSlots position (n - position) array)[i]? =
      if position < i ∧ i ≤ position + (n - position) then array[i - 1]? else array[i]? := getElem?_shiftSlots (by omega) i
  have hlength : (shiftSlots position (n - position) array).length = array.length := length_shiftSlots ..
  have htake : (array.take n).length = n := List.length_take_of_le hroom.le
  rw [List.getElem?_take, List.getElem?_insertIdx, htake]
  by_cases hlow : i < position
  · rw [if_pos hlow, if_pos (by omega), List.getElem?_set_ne (by omega), hshift, if_neg (by omega), List.getElem?_take,
      if_pos (by omega)]
  · rw [if_neg hlow]
    by_cases hself : i = position
    · rw [if_pos hself, if_pos (by omega), if_pos (by omega), hself, List.getElem?_set_self (by omega)]
    · rw [if_neg hself, List.getElem?_set_ne (by omega), hshift, List.getElem?_take]
      by_cases hin : i < n + 1
      · rw [if_pos hin, if_pos (by omega), if_pos (by omega)]
      · rw [if_neg hin, if_neg (by omega)]

theorem shiftAccesses_inside (h : position + count < array.length) : ∀ a ∈ shiftAccesses position count array, a.Inside := by
  intro a ha
  obtain ⟨i, hi, ha⟩ := List.mem_flatMap.mp ha
  have hlt := List.mem_range.mp hi
  unfold SlotAccess.Inside
  rcases List.mem_cons.mp ha with rfl | ha
  · dsimp only
    omega
  · obtain rfl := List.mem_singleton.mp ha
    dsimp only
    omega

/-! ## Calls -/

/-- A call keeps the vector valid, stays in its storages, and does to the elements what the operation does. -/
structure RefinesList (v : VectorT α) (c : VectorCall α) (f : List α → Option (List α × Option α)) : Prop where
  valid : c.vector.Valid
  accesses : ∀ a ∈ c.accesses, a.Inside
  ok : c.err = .osNoErr → f v.toList = some (c.vector.toList, c.data)
  error : c.err ≠ .osNoErr → c.vector = v
  served : f v.toList ≠ none → c.err = .osNoErr ∨ c.err = .osErrMalloc

section
variable (hv : v.Valid)
include hv

theorem VectorT.Valid.length_toList : v.toList.length = v.size :=
  List.length_take_of_le (hv.size_le.trans_eq hv.length.symm)

theorem VectorT.Valid.bytes_size : v.size * 4 < 2 ^ 32 := lt_of_le_of_lt (Nat.mul_le_mul_right 4 hv.size_le) hv.below

/-- A rejected call. -/
theorem refinesList_rejected {f : List α → Option (List α × Option α)} {err : OsReturnE} (herr : err ≠ .osNoErr)
    (hf : f v.toList ≠ none → err = .osErrMalloc) : RefinesList v ⟨err, v, none, []⟩ f :=
  ⟨hv, nofun, fun h => absurd h herr, fun _ => rfl, fun h => .inr (hf h)⟩

/-- What `GROW_VECTOR_SIZE` leaves, if it returns no error. -/
theorem growVectorSize_cases (alloc : VectorAlloc α) :
    growVectorSize alloc v = .error .osErrMalloc ∨ ∃ v' accesses, growVectorSize alloc v = .ok (v', accesses) ∧
      (v'.capacity * 4 < 2 ^ 32 → v'.Valid ∧ v'.size = v.size ∧ v'.toList = v.toList ∧ v.size < v'.capacity ∧
        ∀ a ∈ accesses, a.Inside) := by
  unfold growVectorSize
  by_cases hfull : v.capacity = v.size
  · have hbelow := hv.below
    obtain ⟨newSize, hnew, hlt⟩ : ∃ newSize, (if v.capacity * 2 % 2 ^ 32 = 0 then 2 else v.capacity * 2 % 2 ^ 32) = newSize ∧
        v.capacity < newSize := by
      refine ⟨_, rfl, ?_⟩
      split_ifs <;> omega
    rw [if_pos hfull]
    dsimp only
    rw [hnew, if_neg (by omega)]
    cases hmalloc : alloc.malloc 0 (byteCount newSize) with
    | none => exact .inl rfl
    | some newArray =>
      refine .inr ⟨_, _, rfl, fun hbytes => ?_⟩
      dsimp only at hbytes
      have hlength := length_malloc hbytes hmalloc
      have hsrc : v.size ≤ v.array.length := hv.size_le.trans_eq hv.length.symm
      have hdst : v.size ≤ newArray.length := by omega
      refine ⟨⟨?_, ?_, hbytes⟩, rfl, take_copySlots hv.bytes_size hsrc hdst, ?_, copyAccesses_inside hv.bytes_size hsrc hdst⟩
      · dsimp only
        omega
      · exact (length_copySlots ..).trans hlength
      · dsimp only
        omega
  · rw [if_neg hfull]
    exact .inr ⟨v, [], rfl, fun _ => ⟨hv, rfl, rfl, lt_of_le_of_ne hv.size_le (Ne.symm hfull), nofun⟩⟩

theorem vectorClear_refines : RefinesList v (vectorClear v) fun _ => some ([], none) :=
  ⟨⟨Nat.zero_le _, hv.length, hv.below⟩, nofun, fun _ => rfl, fun h => absurd rfl h, fun _ => .inl rfl⟩

theorem vectorShrinkToFit_refines : RefinesList v (vectorShrinkToFit alloc v) fun l => some (l, none) := by
  unfold vectorShrinkToFit
  by_cases hmore : v.size < v.capacity
  · rw [if_pos hmore]
    by_cases hempty : v.size ≠ 0
    · rw [if_pos hempty]
      cases hmalloc : alloc.malloc 0 (byteCount v.size) with
      | none => exact refinesList_rejected hv OsReturnE.noConfusion fun _ => rfl
      | some newArray =>
        have hlength := length_malloc hv.bytes_size hmalloc
        have hsrc : v.size ≤ v.array.length := hv.size_le.trans_eq hv.length.symm
        refine ⟨⟨le_rfl, (length_copySlots ..).trans hlength, hv.bytes_size⟩, copyAccesses_inside hv.bytes_size hsrc hlength.ge,
          fun _ => congrArg some (Prod.ext ?_ rfl), fun h => absurd rfl h, fun _ => .inl rfl⟩
        exact (take_copySlots hv.bytes_size hsrc hlength.ge).symm
    · have hnil : v.toList = [] := List.eq_nil_of_length_eq_zero (hv.length_toList.trans (not_not.mp hempty))
      rw [if_neg hempty]
      refine ⟨⟨(not_not.mp hempty).le, rfl, Nat.two_pow_pos 32⟩, nofun, fun _ => congrArg some (Prod.ext ?_ rfl),
        fun h => absurd rfl h, fun _ => .inl rfl⟩
      rw [hnil]
      exact List.take_nil.symm
  · rw [if_neg hmore]
    exact ⟨hv, nofun, fun _ => rfl, fun h => absurd rfl h, fun _ => .inl rfl⟩

theorem vectorPush_refines (hbelow : (vectorPush alloc v data).vector.capacity * 4 < 2 ^ 32) :
    RefinesList v (vectorPush alloc v data) fun l => some (l ++ [data], none) := by
  unfold vectorPush at hbelow ⊢
  obtain herror | ⟨v', accesses, hgrow, hgrown⟩ := growVectorSize_cases hv alloc
  · rw [herror]
    exact refinesList_rejected hv OsReturnE.noConfusion fun _ => rfl
  · rw [hgrow] at hbelow ⊢
    obtain ⟨hv', hsize, hlist, hroom, hinside⟩ := hgrown hbelow
    have hlength := hv'.length
    refine ⟨⟨?_, List.length_set.trans hv'.length, hv'.below⟩, fun a ha => ?_, fun _ => congrArg some (Prod.ext ?_ rfl),
      fun h => absurd rfl h, fun _ => .inl rfl⟩
    · dsimp only
      omega
    · rcases List.mem_append.mp ha with ha | ha
      · exact hinside a ha
      · obtain rfl := List.mem_singleton.mp ha
        change v'.size < v'.array.length
        omega
    · change v.toList ++ [data] = (v'.array.set v'.size data).take (v'.size + 1)
      rw [← hlist, List.take_add_one, List.getElem?_set_self (by omega), List.take_set_of_le le_rfl]
      rfl

theorem vectorInsert_refines {pos : BitVec 32} (hbelow : (vectorInsert alloc v data pos).vector.capacity * 4 < 2 ^ 32) :
    RefinesList v (vectorInsert alloc v data pos) fun l =>
      if pos.toNat ≤ l.length then some (l.insertIdx pos.toNat data, none) else none := by
  unfold vectorInsert at hbelow ⊢
  by_cases hbad : v.size < pos.toNat
  · rw [if_pos hbad]
    refine refinesList_rejected hv OsReturnE.noConfusion fun hserved => absurd (if_neg ?_) hserved
    rw [hv.length_toList]
    omega
  · rw [if_neg hbad] at hbelow ⊢
    obtain herror | ⟨v', accesses, hgrow, hgrown⟩ := growVectorSize_cases hv alloc
    · rw [herror]
      exact refinesList_rejected hv OsReturnE.noConfusion fun _ => rfl
    · rw [hgrow] at hbelow ⊢
      obtain ⟨hv', hsize, hlist, hroom, hinside⟩ := hgrown hbelow
      have hlength := hv'.length
      have hshifted : (shiftSlots pos.toNat (v'.size - pos.toNat) v'.array).length = v'.array.length := length_shiftSlots ..
      refine ⟨⟨?_, ?_, hv'.below⟩, fun a ha => ?_, fun _ => ?_, fun h => absurd rfl h, fun _ => .inl rfl⟩
      · dsimp only
        omega
      · exact List.length_set.trans (hshifted.trans hlength)
      · rcases List.mem_append.mp ha with ha | ha
        · rcases List.mem_append.mp ha with ha | ha
          · exact hinside a ha
          · exact shiftAccesses_inside (by omega) a ha
        · obtain rfl := List.mem_singleton.mp ha
          change pos.toNat < v'.array.length
          omega
      · dsimp only
        rw [if_pos (by rw [hv.length_toList]; omega)]
        refine congrArg some (Prod.ext ?_ rfl)
        change v.toList.insertIdx pos.toNat data = ((shiftSlots _ _ _).set _ data).take (v'.size + 1)
        rw [take_shiftSlots (by omega) (by omega), ← hlist]
        rfl

theorem vectorPop_refines : RefinesList v (vectorPop v) fun l => l.getLast?.map fun data => (l.dropLast, some data) := by
  have hlength := hv.length
  have hle := hv.size_le
  have hlist := hv.length_toList
  unfold vectorPop
  by_cases hempty : v.size = 0
  · have hnil : v.toList = [] := List.eq_nil_of_length_eq_zero (hlist.trans hempty)
    rw [if_pos hempty]
    refine refinesList_rejected hv OsReturnE.noConfusion fun hserved => ?_
    rw [hnil] at hserved
    exact absurd rfl hserved
  · rw [if_neg hempty]
    refine ⟨⟨(Nat.sub_le ..).trans hle, hlength, hv.below⟩, fun a ha => ?_, fun _ => ?_, fun h => absurd rfl h,
      fun _ => .inl rfl⟩
    · obtain rfl := List.mem_singleton.mp ha
      change v.size - 1 < v.array.length
      omega
    · have hlast : v.toList.getLast? = v.array[v.size - 1]? := by
        rw [List.getLast?_eq_getElem?, hlist]
        unfold VectorT.toList
        rw [List.getElem?_take, if_pos (by omega)]
      have hdrop : v.toList.dropLast = v.array.take (v.size - 1) := by
        rw [List.dropLast_eq_take, hlist]
        unfold VectorT.toList
        rw [List.take_take, min_eq_left (Nat.sub_le ..)]
      dsimp only
      rw [hlast, hdrop, List.getElem?_eq_getElem (by omega)]
      rfl

theorem vectorGet_refines (pos : BitVec 32) :
    RefinesList v (vectorGet v pos) fun l => l[pos.toNat]?.map fun data => (l, some data) := by
  have hlength := hv.length
  have hle := hv.size_le
  unfold vectorGet
  by_cases hbad : v.size ≤ pos.toNat
  · have hnone : v.toList[pos.toNat]? = none := List.getElem?_eq_none (hv.length_toList.le.trans hbad)
    rw [if_pos hbad]
    refine refinesList_rejected hv OsReturnE.noConfusion fun hserved => ?_
    rw [hnone] at hserved
    exact absurd rfl hserved
  · have hget : v.toList[pos.toNat]? = v.array[pos.toNat]? := by
      unfold VectorT.toList
      rw [List.getElem?_take, if_pos (by omega)]
    rw [if_neg hbad]
    refine ⟨hv, fun a ha => ?_, fun _ => ?_, fun h => absurd rfl h, fun _ => .inl rfl⟩
    · obtain rfl := List.mem_singleton.mp ha
      change pos.toNat < v.array.length
      omega
    · dsimp only
      rw [hget, List.getElem?_eq_getElem (by omega)]
      rfl

theorem vectorSet_refines (pos : BitVec 32) (data : α) : RefinesList v (vectorSet v pos data) fun l =>
    if pos.toNat < l.length then some (l.set pos.toNat data, none) else none := by
  have hlength := hv.length
  have hle := hv.size_le
  have hlist := hv.length_toList
  unfold vectorSet
  by_cases hbad : v.size ≤ pos.toNat
  · rw [if_pos hbad]
    refine refinesList_rejected hv OsReturnE.noConfusion fun hserved => absurd (if_neg ?_) hserved
    omega
  · rw [if_neg hbad]
    refine ⟨⟨hle, List.length_set.trans hlength, hv.below⟩, fun a ha => ?_, fun _ => ?_, fun h => absurd rfl h,
      fun _ => .inl rfl⟩
    · obtain rfl := List.mem_singleton.mp ha
      change pos.toNat < v.array.length
      omega
    · dsimp only
      rw [if_pos (by omega)]
      refine congrArg some (Prod.ext ?_ rfl)
      exact List.take_set.symm

end

/-! ## Programs -/

theorem vectorCreate_cases (alloc : VectorAlloc α) (initData : α) (size : BitVec 32) :
    vectorCreate alloc initData size = .error .osErrMalloc ∨ ∃ v accesses, vectorCreate alloc initData size = .ok (v, accesses) ∧
      (v.capacity * 4 < 2 ^ 32 → v.Valid ∧ v.toList = List.replicate size.toNat initData ∧ v.capacity = size.toNat ∧
        ∀ a ∈ accesses, a.Inside) := by
  unfold vectorCreate
  cases hstruct : alloc.malloc 0 20 with
  | none => exact .inl rfl
  | some storage =>
    dsimp only
    by_cases hempty : size ≠ 0#32
    · rw [if_pos hempty]
      cases hmalloc : alloc.malloc 1 (byteCount size.toNat) with
      | none => exact .inl rfl
      | some array =>
        refine .inr ⟨_, _, rfl, fun hbelow => ?_⟩
        dsimp only at hbelow
        have hlength := length_malloc hbelow hmalloc
        have hreplicate : (List.replicate size.toNat initData).length = size.toNat := List.length_replicate
        have htake := take_fillSlots (hreplicate.trans_le hlength.ge)
        rw [hreplicate] at htake
        exact ⟨⟨le_rfl, (length_fillSlots ..).trans hlength, hbelow⟩, htake, rfl, firstSlots_inside hlength.ge⟩
    · rw [if_neg hempty]
      refine .inr ⟨_, _, rfl, fun _ => ⟨⟨le_rfl, rfl, Nat.two_pow_pos 32⟩, ?_, ?_, nofun⟩⟩ <;> rw [not_not.mp hempty]
      · rfl
      · rfl

/-- What is made is valid and has the elements. -/
structure MakesList (made : Except OsReturnE (VectorT α × List SlotAccess)) (l : List α) : Prop where
  error : ∀ err, made = .error err → err = .osErrMalloc
  ok : ∀ v accesses, made = .ok (v, accesses) → v.capacity * 4 < 2 ^ 32 →
    v.Valid ∧ v.toList = l ∧ ∀ a ∈ accesses, a.Inside

theorem vectorCreate_makes (initData : α) (size : BitVec 32) :
    MakesList (vectorCreate alloc initData size) (List.replicate size.toNat initData) := by
  obtain herror | ⟨v, accesses, hcreate, hmade⟩ := vectorCreate_cases alloc initData size
  · refine ⟨fun err h => (Except.error.inj (herror.symm.trans h)).symm, fun v accesses h => nomatch herror.symm.trans h⟩
  · refine ⟨fun err h => (nomatch hcreate.symm.trans h), fun v' accesses' h hbelow => ?_⟩
    obtain ⟨rfl, rfl⟩ := Prod.mk.inj (Except.ok.inj (hcreate.symm.trans h))
    obtain ⟨hvalid, hlist, -, hinside⟩ := hmade hbelow
    exact ⟨hvalid, hlist, hinside⟩

theorem vectorCopy_makes (hv : v.Valid) (null : α) : MakesList (vectorCopy alloc null v) v.toList := by
  have hbelow := hv.below
  have hcapacity : (BitVec.ofNat 32 v.capacity).toNat = v.capacity := by
    rw [BitVec.toNat_ofNat]
    omega
  unfold vectorCopy
  obtain herror | ⟨copy, accesses, hcreate, hmade⟩ := vectorCreate_cases alloc null (BitVec.ofNat 32 v.capacity)
  · rw [herror]
    exact ⟨fun err h => (Except.error.inj h).symm, fun _ _ h => by cases h⟩
  · rw [hcreate]
    refine ⟨fun err h => (by cases h), fun v' accesses' h hbytes => ?_⟩
    obtain ⟨rfl, rfl⟩ := Prod.mk.inj (Except.ok.inj h)
    obtain ⟨hvalid, -, hroom, hinside⟩ := hmade hbytes
    have hsrc : v.size ≤ v.array.length := hv.size_le.trans_eq hv.length.symm
    have hle := hv.size_le
    have hlength := hvalid.length
    have hdst : v.size ≤ copy.array.length := by omega
    refine ⟨⟨?_, (length_copySlots ..).trans hlength, hbytes⟩, take_copySlots hv.bytes_size hsrc hdst, fun a ha => ?_⟩
    · dsimp only
      omega
    · rcases List.mem_append.mp ha with ha | ha
      · exact hinside a ha
      · exact copyAccesses_inside hv.bytes_size hsrc hdst a ha

section
variable {vectors : List (VectorT α)} (hvectors : ∀ v ∈ vectors, v.Valid)
include hvectors

/-- A call for one vector. -/
theorem callVector_refines {i : ℕ} {op : VectorOp α} {call : VectorT α → VectorCall α}
    {f : List α → Option (List α × Option α)} (hop : ∀ lists : List (List α), listOp lists op = onList lists i f)
    (hcall : ∀ v, v.Valid → (call v).vector.capacity * 4 < 2 ^ 32 → RefinesList v (call v) f)
    (hbelow : StorageBelow (callVector vectors i call).2) :
    RefinesLists vectors op (callVector vectors i call) ∧ ∀ v ∈ (callVector vectors i call).2, v.Valid := by
  unfold callVector at hbelow ⊢
  cases hi : vectors[i]? with
  | none =>
    have hrejected : listOp (vectors.map VectorT.toList) op = none := by
      rw [hop, onList, List.getElem?_map, hi]
      rfl
    exact ⟨⟨nofun, fun v hv => (hvectors v hv).size_le, nofun, fun _ => rfl, fun h => absurd hrejected h⟩, hvectors⟩
  | some v =>
    rw [hi] at hbelow
    dsimp only at hbelow ⊢
    obtain ⟨hlt, hget⟩ := List.getElem?_eq_some_iff.mp hi
    obtain ⟨hvalid, haccesses, hok, herror, hserved⟩ := hcall v (hvectors v (List.mem_of_getElem? hi))
      (hbelow _ (List.mem_set hlt _))
    have hall : ∀ w ∈ vectors.set i (call v).vector, w.Valid := fun w hw =>
      (List.mem_or_eq_of_mem_set hw).elim (hvectors w) fun h => h ▸ hvalid
    have hlist : listOp (vectors.map VectorT.toList) op =
        (f v.toList).map fun r => ((vectors.map VectorT.toList).set i r.1, r.2) := by
      rw [hop, onList, List.getElem?_map, hi]
      rfl
    refine ⟨⟨haccesses, fun w hw => (hall w hw).size_le, fun h => ?_, fun h => ?_, fun h => hserved fun hnone => h ?_⟩, hall⟩
    · rw [hlist, hok h, List.map_set]
      rfl
    · dsimp only
      rw [herror h, ← hget, List.set_getElem_self]
    · rw [hlist, hnone]
      rfl

/-- A call that makes a vector. -/
theorem addVector_refines {op : VectorOp α} {made : Except OsReturnE (VectorT α × List SlotAccess)} {l : List α}
    (hop : listOp (vectors.map VectorT.toList) op = some (vectors.map VectorT.toList ++ [l], none)) (hmade : MakesList made l)
    (hbelow : StorageBelow (addVector vectors made).2) :
    RefinesLists vectors op (addVector vectors made) ∧ ∀ v ∈ (addVector vectors made).2, v.Valid := by
  obtain err | ⟨v, accesses⟩ := made
  · exact ⟨⟨nofun, fun v hv => (hvectors v hv).size_le, fun h => absurd (hmade.error err rfl ▸ h) OsReturnE.noConfusion,
      fun _ => rfl, fun _ => .inr (hmade.error err rfl)⟩, hvectors⟩
  · have hlast : v ∈ vectors ++ [v] := List.mem_append_right _ (List.mem_singleton_self v)
    obtain ⟨hvalid, hlist, hinside⟩ := hmade.ok v accesses rfl (hbelow v hlast)
    have hall : ∀ w ∈ vectors ++ [v], w.Valid := fun w hw =>
      (List.mem_append.mp hw).elim (hvectors w) fun h => List.mem_singleton.mp h ▸ hvalid
    refine ⟨⟨hinside, fun w hw => (hall w hw).size_le, fun _ => ?_, fun h => absurd rfl h, fun _ => .inl rfl⟩, hall⟩
    rw [hop]
    change _ = some ((vectors ++ [v]).map VectorT.toList, none)
    rw [List.map_append, List.map_singleton, hlist]

theorem execVector_refines {null : α} {op : VectorOp α} (hop : op.OnLists)
    (hbelow : StorageBelow (execVector alloc null vectors op).2) :
    RefinesLists vectors op (execVector alloc null vectors op) ∧ ∀ v ∈ (execVector alloc null vectors op).2, v.Valid := by
  cases op with
  | create initData size => exact addVector_refines hvectors rfl (vectorCreate_makes initData size) hbelow
  | copy src =>
    cases hsrc : vectors[src]? with
    | none =>
      have hexec : execVector alloc null vectors (.copy src) = (⟨.osErrNullPointer, none, []⟩, vectors) := by
        simp only [execVector, hsrc]
      have hrejected : listOp (vectors.map VectorT.toList) (.copy src : VectorOp α) = none := by
        rw [listOp, List.getElem?_map, hsrc]
        rfl
      rw [hexec]
      exact ⟨⟨(by simp), fun v hv => (hvectors v hv).size_le, (by simp), fun _ => rfl, fun h => absurd hrejected h⟩, hvectors⟩
    | some v =>
      have hexec : execVector alloc null vectors (.copy src) = addVector vectors (vectorCopy alloc null v) := by
        simp only [execVector, hsrc]
      rw [hexec] at hbelow ⊢
      refine addVector_refines hvectors ?_ (vectorCopy_makes (hvectors v (List.mem_of_getElem? hsrc)) null) hbelow
      rw [listOp, List.getElem?_map, hsrc]
      rfl
  | clear i => exact callVector_refines hvectors (fun _ => rfl) (fun v hv _ => vectorClear_refines hv) hbelow
  | shrinkToFit i => exact callVector_refines hvectors (fun _ => rfl) (fun v hv _ => vectorShrinkToFit_refines hv) hbelow
  | resize i size => exact absurd hop id
  | insert i data position =>
    exact callVector_refines hvectors (fun _ => rfl) (fun v hv hbytes => vectorInsert_refines hv hbytes) hbelow
  | push i data => exact callVector_refines hvectors (fun _ => rfl) (fun v hv hbytes => vectorPush_refines hv hbytes) hbelow
  | pop i => exact callVector_refines hvectors (fun _ => rfl) (fun v hv _ => vectorPop_refines hv) hbelow
  | get i position => exact callVector_refines hvectors (fun _ => rfl) (fun v hv _ => vectorGet_refines hv position) hbelow
  | set i position data =>
    exact callVector_refines hvectors (fun _ => rfl) (fun v hv _ => vectorSet_refines hv position data) hbelow

end

/-- The vectors of a program are valid. -/
theorem valid_of_reachable {null : α} {vectors : List (VectorT α)} (hreach : VectorsReachable null vectors) :
    ∀ v ∈ vectors, v.Valid := by
  refine hreach.invariant (fun vectors => ∀ v ∈ vectors, v.Valid) ?_ ?_
  · rintro vectors rfl
    exact nofun
  · rintro vectors op vectors' hvalid - ⟨hop, hbelow, alloc, rfl⟩
    exact (execVector_refines hvalid hop hbelow).2

/-- An allocator that never fails. -/
def zeroAlloc : VectorAlloc ℕ where
  malloc _ bytes := some (List.replicate (bytes / 4) 0)
  length_eq h := by
    rw [← Option.some.inj h]
    exact List.length_replicate

end UtkKernel.Structures
