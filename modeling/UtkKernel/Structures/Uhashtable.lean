import UtkKernel.Foundations.Probing
import UtkKernel.Structures.KernelError

/-! # The unsigned hash table (`lib/libstruct/src/uhashtable.c`)

Keys are 32-bit `uintptr_t`, data are `void*` left abstract as a type `α`. A slot of `entries` is a
pointer that is `NULL` or points at an entry; entries are never shared, so the pointer is the entry.
`size_t` counters wrap modulo `2^32`. The two floating-point load tests are read as exact rational
comparisons. The functions take the outcomes of their calls to `allocator.malloc` as Booleans.

Every function with a probe loop takes a fuel that bounds the turns of the loop. It gives `none`
when the fuel is used up, or when it reads `entries` outside the allocated array. The checks for
`NULL` arguments and for a `NULL` `entries` have no counterpart: such a table is not a value here. -/

namespace UtkKernel.HashTable
open Foundations.Probing
set_option autoImplicit false

/-! ## Data -/

/-- The number of values of a 32-bit `size_t`. -/
abbrev sizeTMod : ℕ := 2 ^ 32

/-- `HT_INITIAL_SIZE` -/
def htInitialSize : ℕ := 16

/-- `FNV_OFFSET_BASIS` -/
def fnvOffsetBasis : BitVec 64 := 14695981039346656037#64

/-- `FNV_PRIME` -/
def fnvPrime : BitVec 64 := 1099511628211#64

/-- `uhashtable_entry_t` -/
structure UhashtableEntry (α : Type) where
  key : BitVec 32
  data : α
  isUsed : Bool
  deriving DecidableEq, Repr

/-- `uhashtable_t` without its allocator. The length of `entries` is the number of pointers the
allocator was asked for, which is `capacity` unless the byte count wrapped. -/
structure Uhashtable (α : Type) where
  entries : List (Option (UhashtableEntry α))
  capacity : ℕ
  size : ℕ
  graveyardSize : ℕ
  deriving DecidableEq, Repr

/-- The pointers that fit in the block of `malloc(sizeof(uhashtable_entry_t*) * capacity)`, all
`NULL` after the `memset`. -/
def newEntries (α : Type) (capacity : ℕ) : List (Option (UhashtableEntry α)) :=
  List.replicate (4 * capacity % sizeTMod / 4) none

variable {α : Type}

/-! ## Hashing -/

/-- `uhash_64`: FNV-1a over the four bytes of the key. -/
def uhash64 (key : BitVec 32) : BitVec 64 :=
  (List.range 4).foldl
    (fun hash i => (hash ^^^ ((key >>> (i * 8)).setWidth 8).setWidth 64) * fnvPrime) fnvOffsetBasis

/-- `hash & (capacity - 1)`: the slot where every probe for the key starts. -/
def entryIndex (capacity : ℕ) (key : BitVec 32) : ℕ :=
  (uhash64 key).toNat &&& (capacity - 1)

/-! ## Setting an entry -/

/-- The exit condition of the loops of `uhashtable_set_entry` and `uhashtable_rehash_entry`: the
slot is `NULL` or not used, or it is used for the key. -/
def setStop (key : BitVec 32) : Option (UhashtableEntry α) → Bool
  | none => true
  | some e => !e.isUsed || e.key == key

/-- `uhashtable_set_entry` -/
def uhashtableSetEntry (fuel : ℕ) (table : Uhashtable α) (key : BitVec 32) (data : α)
    (mallocEntry : Bool) : Option (OsReturnE × Uhashtable α) :=
  match probe table.entries table.capacity (setStop key) fuel (entryIndex table.capacity key) with
  | none => none
  | some i =>
    match table.entries[i]? with
    | none => none
    | some none =>
      if mallocEntry then
        some (.osNoErr, { table with
          entries := table.entries.set i (some ⟨key, data, true⟩)
          size := (table.size + 1) % sizeTMod })
      else some (.osErrMalloc, table)
    | some (some e) =>
      if e.isUsed then
        some (.osNoErr, { table with entries := table.entries.set i (some { e with data := data }) })
      else
        -- an entry of the graveyard is used again
        some (.osNoErr, { table with
          entries := table.entries.set i (some ⟨key, data, true⟩)
          graveyardSize := (table.graveyardSize + sizeTMod - 1) % sizeTMod })

/-! ## Rehashing -/

/-- `uhashtable_rehash_entry`: places a used entry of the old array in the new one. -/
def uhashtableRehashEntry (fuel : ℕ) (table : Uhashtable α) (entry : UhashtableEntry α) :
    Option (Uhashtable α) :=
  match probe table.entries table.capacity (setStop entry.key) fuel
      (entryIndex table.capacity entry.key) with
  | none => none
  | some i =>
    match table.entries[i]? with
    | none => none
    | some (some e) =>
      if e.isUsed then
        some { table with entries := table.entries.set i (some { e with data := entry.data }) }
      else some { table with entries := table.entries.set i (some entry) }
    | some none => some { table with entries := table.entries.set i (some entry) }

/-- The loop of `uhashtable_rehash` over the old array: used entries are placed again, the others
are freed. -/
def rehashLoop (fuel : ℕ) : List (Option (UhashtableEntry α)) → Uhashtable α → Option (Uhashtable α)
  | [], table => some table
  | none :: old, table => rehashLoop fuel old table
  | some e :: old, table =>
    if e.isUsed then
      match uhashtableRehashEntry fuel table e with
      | none => none
      | some table' => rehashLoop fuel old table'
    else rehashLoop fuel old table

/-- `uhashtable_rehash`, for the growth factors 1 and 2 of its callers. -/
def uhashtableRehash (fuel : ℕ) (table : Uhashtable α) (growth : ℕ) (mallocEntries : Bool) :
    Option (OsReturnE × Uhashtable α) :=
  let newCapacity := table.capacity * growth % sizeTMod
  if newCapacity ≤ table.capacity then some (.osErrOutOfBound, table)
  else if !mallocEntries then some (.osErrMalloc, table)
  else if table.entries.length < table.capacity then none
  else
    match rehashLoop fuel (table.entries.take table.capacity)
        { table with capacity := newCapacity, entries := newEntries α newCapacity } with
    | none => none
    | some table' => some (.osNoErr, { table' with graveyardSize := 0 })

/-! ## The interface -/

/-- `uhashtable_create`, with the outcomes of its two allocations. -/
def uhashtableCreate (α : Type) (mallocTable mallocEntries : Bool) :
    OsReturnE × Option (Uhashtable α) :=
  if !mallocTable then (.osErrMalloc, none)
  else if !mallocEntries then (.osErrMalloc, none)
  else (.osNoErr, some ⟨newEntries α htInitialSize, htInitialSize, 0, 0⟩)

/-- The exit condition of the loops of `uhashtable_get` and `uhashtable_remove`: the slot is `NULL`,
or it is used for the key. -/
def getStop (key : BitVec 32) : Option (UhashtableEntry α) → Bool
  | none => true
  | some e => e.key == key && e.isUsed

/-- `uhashtable_get`: the error code, and the data written to `*data` if any. -/
def uhashtableGet (fuel : ℕ) (table : Uhashtable α) (key : BitVec 32) :
    Option (OsReturnE × Option α) :=
  match probe table.entries table.capacity (getStop key) fuel (entryIndex table.capacity key) with
  | none => none
  | some i =>
    match table.entries[i]? with
    | none => none
    | some none => some (.osErrNoSuchId, none)
    | some (some e) => some (.osNoErr, some e.data)

/-- The load test of `uhashtable_set`: `capacity * HT_MAX_LOAD_FACTOR < size + graveyard_size`. -/
def loadExceeded (table : Uhashtable α) : Bool :=
  decide (table.capacity * 7 < 10 * ((table.size + table.graveyardSize) % sizeTMod))

/-- `uhashtable_set` -/
def uhashtableSet (fuel : ℕ) (table : Uhashtable α) (key : BitVec 32) (data : α)
    (mallocEntries mallocEntry : Bool) : Option (OsReturnE × Uhashtable α) :=
  if loadExceeded table then
    match uhashtableRehash fuel table 2 mallocEntries with
    | none => none
    | some (err, table') =>
      if err ≠ .osNoErr then some (err, table')
      else uhashtableSetEntry fuel table' key data mallocEntry
  else uhashtableSetEntry fuel table key data mallocEntry

/-- The graveyard test of `uhashtable_remove`: `capacity * HT_MAX_GRAVEYARD_FACTOR <
graveyard_size`. -/
def graveyardExceeded (table : Uhashtable α) : Bool :=
  decide (table.capacity * 3 < 10 * table.graveyardSize)

/-- The search of `uhashtable_remove`, from the index it computed on entry. -/
def uhashtableRemoveEntry (fuel : ℕ) (table : Uhashtable α) (key : BitVec 32) (index : ℕ) :
    Option (OsReturnE × Option α × Uhashtable α) :=
  match probe table.entries table.capacity (getStop key) fuel index with
  | none => none
  | some i =>
    match table.entries[i]? with
    | none => none
    | some none => some (.osErrNoSuchId, none, table)
    | some (some e) => some (.osNoErr, some e.data, { table with
        entries := table.entries.set i (some { e with isUsed := false })
        size := (table.size + sizeTMod - 1) % sizeTMod
        graveyardSize := (table.graveyardSize + 1) % sizeTMod })

/-- `uhashtable_remove`: the index is computed before the rehash, as in the source. -/
def uhashtableRemove (fuel : ℕ) (table : Uhashtable α) (key : BitVec 32) (mallocEntries : Bool) :
    Option (OsReturnE × Option α × Uhashtable α) :=
  let index := entryIndex table.capacity key
  if graveyardExceeded table then
    match uhashtableRehash fuel table 1 mallocEntries with
    | none => none
    | some (err, table') =>
      if err ≠ .osNoErr then some (err, none, table')
      else uhashtableRemoveEntry fuel table' key index
  else uhashtableRemoveEntry fuel table key index

end UtkKernel.HashTable
