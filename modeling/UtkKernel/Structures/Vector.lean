import Mathlib.Algebra.Group.Nat.Defs
import Mathlib.Data.List.Basic
import UtkKernel.Structures.KernelError

/-! # Vectors (`lib/libstruct/src/vector.c`)

A vector has a storage of slots, of which the first ones are its elements. An allocation of a call may fail; what it
gives holds anything. Byte counts are products in 32 bits. A call says which slots of which storage it accesses; what
it reads outside of one is any value. -/

namespace UtkKernel.Structures
set_option autoImplicit false

variable {α : Type}

/-- `vector_t`; the storage is empty where the array is `NULL`. -/
structure VectorT (α : Type) where
  array : List α
  size : ℕ
  capacity : ℕ

/-- The product with `sizeof(void*)`. -/
def byteCount (n : ℕ) : ℕ := n * 4 % 2 ^ 32

/-- `vector_alloc_t`: what each allocation of a call gives for a number of bytes, if it does not fail. -/
structure VectorAlloc (α : Type) where
  malloc : ℕ → ℕ → Option (List α)
  length_eq : ∀ {call bytes : ℕ} {storage : List α}, malloc call bytes = some storage → storage.length = bytes / 4

/-- An access to a slot of a storage with so many slots. -/
structure SlotAccess where
  slot : ℕ
  slots : ℕ
  deriving DecidableEq, Repr

def SlotAccess.Inside (a : SlotAccess) : Prop := a.slot < a.slots

/-- What a call leaves: its error, the vector, what it stores at its data argument, and its accesses. -/
structure VectorCall (α : Type) where
  err : OsReturnE
  vector : VectorT α
  data : Option α
  accesses : List SlotAccess

/-! ## Storage -/

/-- The first slots of a storage. -/
def firstSlots (n : ℕ) (storage : List α) : List SlotAccess := (List.range n).map fun i => ⟨i, storage.length⟩

/-- Elements are written from the first slot on. -/
def fillSlots (storage elements : List α) : List α := elements.take storage.length ++ storage.drop elements.length

/-- `memcpy` of slots between storages -/
def copySlots (dst src : List α) (bytes : ℕ) : List α := fillSlots dst (src.take (bytes / 4))

def copyAccesses (dst src : List α) (bytes : ℕ) : List SlotAccess := firstSlots (bytes / 4) src ++ firstSlots (bytes / 4) dst

/-- The loop of `vector_insert`: so many elements from a position on go up by one slot, the last one first. -/
def shiftSlots (position : ℕ) : ℕ → List α → List α
  | 0, array => array
  | count + 1, array =>
    shiftSlots position count (match array[position + count]? with
      | some data => array.set (position + count + 1) data
      | none => array)

def shiftAccesses (position count : ℕ) (array : List α) : List SlotAccess :=
  (List.range count).flatMap fun i => [⟨position + i, array.length⟩, ⟨position + i + 1, array.length⟩]

/-! ## Functions -/

/-- `GROW_VECTOR_SIZE`: the vector with room for an element, or the error that it returns. -/
def growVectorSize (alloc : VectorAlloc α) (v : VectorT α) : Except OsReturnE (VectorT α × List SlotAccess) :=
  if v.capacity = v.size then
    let newSize := v.capacity * 2 % 2 ^ 32
    let newSize := if newSize = 0 then 2 else newSize
    if newSize ≤ v.capacity then .error .osErrOutOfBound
    else
      match alloc.malloc 0 (byteCount newSize) with
      | none => .error .osErrMalloc
      | some newArray =>
        .ok (⟨copySlots newArray v.array (byteCount v.size), v.size, newSize⟩,
          copyAccesses newArray v.array (byteCount v.size))
  else .ok (v, [])

/-- `vector_create`; the structure itself is the first thing it allocates. -/
def vectorCreate (alloc : VectorAlloc α) (initData : α) (size : BitVec 32) : Except OsReturnE (VectorT α × List SlotAccess) :=
  match alloc.malloc 0 20 with
  | none => .error .osErrMalloc
  | some _ =>
    if size ≠ 0#32 then
      match alloc.malloc 1 (byteCount size.toNat) with
      | none => .error .osErrMalloc
      | some array =>
        .ok (⟨fillSlots array (List.replicate size.toNat initData), size.toNat, size.toNat⟩, firstSlots size.toNat array)
    else .ok (⟨[], 0, 0⟩, [])

/-- `vector_clear` -/
def vectorClear (v : VectorT α) : VectorCall α := ⟨.osNoErr, { v with size := 0 }, none, []⟩

/-- `vector_copy`; the new vector is created with `NULL` in each slot. -/
def vectorCopy (alloc : VectorAlloc α) (null : α) (src : VectorT α) : Except OsReturnE (VectorT α × List SlotAccess) :=
  (vectorCreate alloc null (BitVec.ofNat 32 src.capacity)).map fun (copy, accesses) =>
    (⟨copySlots copy.array src.array (byteCount src.size), src.size, copy.capacity⟩,
      accesses ++ copyAccesses copy.array src.array (byteCount src.size))

/-- `vector_shrink_to_fit` -/
def vectorShrinkToFit (alloc : VectorAlloc α) (v : VectorT α) : VectorCall α :=
  if v.size < v.capacity then
    if v.size ≠ 0 then
      match alloc.malloc 0 (byteCount v.size) with
      | none => ⟨.osErrMalloc, v, none, []⟩
      | some newArray =>
        ⟨.osNoErr, ⟨copySlots newArray v.array (byteCount v.size), v.size, v.size⟩, none,
          copyAccesses newArray v.array (byteCount v.size)⟩
    else ⟨.osNoErr, ⟨[], v.size, 0⟩, none, []⟩
  else ⟨.osNoErr, v, none, []⟩

/-- `vector_resize` -/
def vectorResize (alloc : VectorAlloc α) (v : VectorT α) (size : BitVec 32) : VectorCall α :=
  if v.capacity < size.toNat then
    if size ≠ 0#32 then
      match alloc.malloc 0 (byteCount size.toNat) with
      | none => ⟨.osErrMalloc, v, none, []⟩
      | some newArray =>
        ⟨.osNoErr, ⟨copySlots newArray v.array (byteCount (max v.size size.toNat)), size.toNat, size.toNat⟩, none,
          copyAccesses newArray v.array (byteCount (max v.size size.toNat))⟩
    else ⟨.osNoErr, ⟨[], 0, 0⟩, none, []⟩
  else ⟨.osNoErr, { v with size := size.toNat }, none, []⟩

/-- `vector_insert` -/
def vectorInsert (alloc : VectorAlloc α) (v : VectorT α) (data : α) (position : BitVec 32) : VectorCall α :=
  if v.size < position.toNat then ⟨.osErrOutOfBound, v, none, []⟩
  else
    match growVectorSize alloc v with
    | .error err => ⟨err, v, none, []⟩
    | .ok (v, accesses) =>
      let array := shiftSlots position.toNat (v.size - position.toNat) v.array
      ⟨.osNoErr, ⟨array.set position.toNat data, v.size + 1, v.capacity⟩, none,
        accesses ++ shiftAccesses position.toNat (v.size - position.toNat) v.array ++ [⟨position.toNat, v.array.length⟩]⟩

/-- `vector_push` -/
def vectorPush (alloc : VectorAlloc α) (v : VectorT α) (data : α) : VectorCall α :=
  match growVectorSize alloc v with
  | .error err => ⟨err, v, none, []⟩
  | .ok (v, accesses) =>
    ⟨.osNoErr, ⟨v.array.set v.size data, v.size + 1, v.capacity⟩, none, accesses ++ [⟨v.size, v.array.length⟩]⟩

/-- `vector_pop` -/
def vectorPop (v : VectorT α) : VectorCall α :=
  if v.size = 0 then ⟨.osErrOutOfBound, v, none, []⟩
  else ⟨.osNoErr, { v with size := v.size - 1 }, v.array[v.size - 1]?, [⟨v.size - 1, v.array.length⟩]⟩

/-- `vector_get` -/
def vectorGet (v : VectorT α) (position : BitVec 32) : VectorCall α :=
  if v.size ≤ position.toNat then ⟨.osErrOutOfBound, v, none, []⟩
  else ⟨.osNoErr, v, v.array[position.toNat]?, [⟨position.toNat, v.array.length⟩]⟩

/-- `vector_set` -/
def vectorSet (v : VectorT α) (position : BitVec 32) (data : α) : VectorCall α :=
  if v.size ≤ position.toNat then ⟨.osErrOutOfBound, v, none, []⟩
  else
    ⟨.osNoErr, { v with array := v.array.set position.toNat data }, none, [⟨position.toNat, v.array.length⟩]⟩

/-! ## Programs with vectors -/

/-- A call, for the vector of a number. -/
inductive VectorOp (α : Type) where
  | create (initData : α) (size : BitVec 32)
  | copy (src : ℕ)
  | clear (vector : ℕ)
  | shrinkToFit (vector : ℕ)
  | resize (vector : ℕ) (size : BitVec 32)
  | insert (vector : ℕ) (data : α) (position : BitVec 32)
  | push (vector : ℕ) (data : α)
  | pop (vector : ℕ)
  | get (vector : ℕ) (position : BitVec 32)
  | set (vector : ℕ) (position : BitVec 32) (data : α)

/-- What a call returns, stores at its data argument and accesses. -/
structure VectorReply (α : Type) where
  err : OsReturnE
  data : Option α
  accesses : List SlotAccess

/-- A call for one of the vectors; one that is not there is `NULL`. -/
def callVector (vectors : List (VectorT α)) (i : ℕ) (call : VectorT α → VectorCall α) :
    VectorReply α × List (VectorT α) :=
  match vectors[i]? with
  | none => (⟨.osErrNullPointer, none, []⟩, vectors)
  | some v => (⟨(call v).err, (call v).data, (call v).accesses⟩, vectors.set i (call v).vector)

/-- A vector is made. -/
def addVector (vectors : List (VectorT α)) (made : Except OsReturnE (VectorT α × List SlotAccess)) :
    VectorReply α × List (VectorT α) :=
  match made with
  | .error err => (⟨err, none, []⟩, vectors)
  | .ok (v, accesses) => (⟨.osNoErr, none, accesses⟩, vectors ++ [v])

/-- A call of a program that has these vectors. -/
def execVector (alloc : VectorAlloc α) (null : α) (vectors : List (VectorT α)) : VectorOp α →
    VectorReply α × List (VectorT α)
  | .create initData size => addVector vectors (vectorCreate alloc initData size)
  | .copy src =>
    match vectors[src]? with
    | none => (⟨.osErrNullPointer, none, []⟩, vectors)
    | some v => addVector vectors (vectorCopy alloc null v)
  | .clear i => callVector vectors i vectorClear
  | .shrinkToFit i => callVector vectors i (vectorShrinkToFit alloc)
  | .resize i size => callVector vectors i (vectorResize alloc · size)
  | .insert i data position => callVector vectors i (vectorInsert alloc · data position)
  | .push i data => callVector vectors i (vectorPush alloc · data)
  | .pop i => callVector vectors i vectorPop
  | .get i position => callVector vectors i (vectorGet · position)
  | .set i position data => callVector vectors i (vectorSet · position data)

end UtkKernel.Structures
