import Mathlib.Algebra.Group.Nat.Defs
import Mathlib.Data.Int.Notation
import UtkKernel.Foundations.Accesses
import UtkKernel.Structures.KernelError

/-! # The heaps (`core/src/kheap.c`, `lib/libc/src/malloc.c`)

The kernel and each process have a heap of chunks, and the code of both is the same but for what keeps
others out: the kernel masks interrupts, a process takes a mutex. A chunk is a header in memory, linked
to the chunks before and after it in a ring and, while it is free, to the free chunks of its slot in
another ring; its free links are the first bytes of its data. The code is modelled as it accesses the
memory and the static variables, one word or byte at a time.

The debug output is left out, and with it the size of a freed chunk, which only that prints. -/

namespace UtkKernel.Heap
open Foundations
set_option autoImplicit false

/-! ## Memory -/

/-- A memory cell at an address, or a static variable. -/
inductive Cell
  | word (addr : ℕ)
  | freeChunk (n : ℤ)
  | firstChunk
  | lastChunk
  | memFree
  | heapInitFree
  | memMeta
  | init
  deriving DecidableEq

abbrev Store := Cell → ℕ

abbrev Access := Code Cell ℕ

abbrev numSizes : ℤ := 32
abbrev align : ℕ := 4
/-- `sizeof(list_t)` -/
abbrev minSize : ℕ := 8
/-- The offset of `data` and of `free` in `mem_chunk_t`, behind the byte `used` and its padding. -/
abbrev headerSize : ℕ := 12
/-- `sizeof(mem_chunk_t)` -/
abbrev chunkSize : ℕ := 20

/-- 32-bit unsigned arithmetic. -/
def uint (n : ℕ) : ℕ := n % 2 ^ 32

def uintSub (a b : ℕ) : ℕ := uint (a + 2 ^ 32 - b)

namespace Cell

/-- The fields of a `list_t`. -/
def next (node : ℕ) : Cell := .word node
def prev (node : ℕ) : Cell := .word (node + 4)

/-- The fields of a `mem_chunk_t` other than its node `all`, which comes first; `data` is in a union
with `free`, whose field `next` has the same place. -/
def used (chunk : ℕ) : Cell := .word (chunk + 8)
def data (chunk : ℕ) : Cell := .word (chunk + headerSize)

end Cell

/-- `&chunk->free` -/
def freeNode (chunk : ℕ) : ℕ := chunk + headerSize

/-- `CONTAINER(mem_chunk_t, free, node)`, and the null pointer that the list macros leave for it. -/
def freeContainer (node : ℕ) : ℕ := if node = 0 then 0 else node - headerSize

open Code Cell

def addTo (c : Cell) (n : ℕ) : Access Unit := do
  let v ← read c
  write c (uint (v + n))

def subFrom (c : Cell) (n : ℕ) : Access Unit := do
  let v ← read c
  write c (uintSub v n)

/-! ## Linked lists -/

def listInit (node : ℕ) : Access Unit := do
  write (next node) node
  write (prev node) node

def insertBefore (current new : ℕ) : Access Unit := do
  let currentPrev ← read (prev current)
  let newPrev ← read (prev new)
  write (next currentPrev) new
  write (prev new) currentPrev
  write (next newPrev) current
  write (prev current) newPrev

def insertAfter (current new : ℕ) : Access Unit := do
  let currentNext ← read (next current)
  let newPrev ← read (prev new)
  write (next current) new
  write (prev new) current
  write (next newPrev) currentNext
  write (prev currentNext) newPrev

/-- `remove` -/
def removeNode (node : ℕ) : Access Unit := do
  let nodePrev ← read (prev node)
  let nodeNext ← read (next node)
  write (next nodePrev) nodeNext
  let nodeNext ← read (next node)
  let nodePrev ← read (prev node)
  write (prev nodeNext) nodePrev
  write (next node) node
  write (prev node) node

/-- `push`: the head of the list after it. -/
def push (list node : ℕ) : Access ℕ := do
  (if list ≠ 0 then insertBefore list node else pure ())
  pure node

/-- `pop`: the node and the head of the list after it. -/
def pop (list : ℕ) : Access (ℕ × ℕ) := do
  let nextTop ← read (next list)
  removeNode list
  pure (list, if list = nextTop then 0 else nextTop)

/-- `remove_from`: the head of the list after it. -/
def removeFrom (list node : ℕ) : Access ℕ :=
  if list = node then do
    let popped ← pop list
    pure popped.2
  else do
    removeNode node
    pure list

/-- `LIST_PUSH(&free_chunk[n], chunk, free)` -/
def listPush (n : ℤ) (chunk : ℕ) : Access Unit := do
  let h ← read (.freeChunk n)
  let head ← push (if h = 0 then 0 else freeNode h) (freeNode chunk)
  write (.freeChunk n) (freeContainer head)

/-- `LIST_POP(&free_chunk[n], free)` -/
def listPop (n : ℤ) : Access ℕ := do
  let h ← read (.freeChunk n)
  let popped ← pop (freeNode h)
  write (.freeChunk n) (freeContainer popped.2)
  pure (popped.1 - headerSize)

/-- `LIST_REMOVE_FROM(&free_chunk[n], chunk, free)` -/
def listRemoveFrom (n : ℤ) (chunk : ℕ) : Access Unit := do
  let h ← read (.freeChunk n)
  let head ← removeFrom (freeNode h) (freeNode chunk)
  write (.freeChunk n) (freeContainer head)

/-! ## Chunks -/

def memoryChunkInit (chunk : ℕ) : Access Unit := do
  listInit chunk
  write (used chunk) 0
  listInit (freeNode chunk)

def memoryChunkSize (chunk : ℕ) : Access ℕ := do
  let chunkNext ← read (next chunk)
  pure (uintSub (uintSub chunkNext chunk) headerSize)

/-- The loop of `memory_chunk_slot`; the size is fuel enough for its halvings. -/
def memoryChunkSlotLoop : ℕ → ℕ → ℤ → ℤ
  | 0, _, n => n
  | fuel + 1, size, n => if size > 0 then memoryChunkSlotLoop fuel (size / 2) (n + 1) else n

/-- `memory_chunk_slot` -/
def memoryChunkSlot (size : ℕ) : ℤ := memoryChunkSlotLoop size size (-1)

def removeFree (chunk : ℕ) : Access Unit := do
  let len ← memoryChunkSize chunk
  listRemoveFrom (memoryChunkSlot len) chunk
  subFrom .memFree len

def pushFree (chunk : ℕ) : Access Unit := do
  let len ← memoryChunkSize chunk
  listPush (memoryChunkSlot len) chunk
  addTo .memFree len

/-! ## The heap -/

/-- What both initialisations do with the memory they were given. -/
def initChunks (mem size : ℕ) : Access Unit := do
  let memStart := uint (mem + align - 1) / align * align
  let memEnd := uint (mem + size) / align * align
  write .memFree 0
  write .heapInitFree 0
  write .memMeta 0
  write .firstChunk 0
  write .lastChunk 0
  write .firstChunk memStart
  let second := memStart + chunkSize
  let last := memEnd - chunkSize
  write .lastChunk last
  memoryChunkInit memStart
  memoryChunkInit second
  memoryChunkInit last
  insertAfter memStart second
  insertAfter second last
  write (used memStart) 1
  write (used last) 1
  let len ← memoryChunkSize second
  listPush (memoryChunkSlot len) second
  write .memFree len
  write .heapInitFree len
  write .memMeta (chunkSize * 2 + headerSize)

/-- The search for a slot with a free chunk, from slot `n` on; there are at most `fuel` slots left. -/
def findSlot : ℕ → ℤ → Access (Option ℤ)
  | 0, _ => pure none
  | fuel + 1, n =>
    if n ≥ numSizes then pure none
    else do
      let head ← read (.freeChunk n)
      if head = 0 then findSlot fuel (n + 1) else pure (some n)

/-- What `kmalloc` and `malloc` do while nobody else is in the heap: the chunk, or a null pointer. -/
def allocate (request : ℕ) : Access ℕ := do
  let rounded := uint (request + align - 1) / align * align
  let size := if rounded < minSize then minSize else rounded
  let slot ← findSlot 32 (memoryChunkSlot (size - 1) + 1)
  match slot with
  | none => pure 0
  | some n => do
    let chunk ← listPop n
    let size2 ← memoryChunkSize chunk
    (if uint (size + chunkSize) ≤ size2 then do
      let chunk2 := chunk + headerSize + size
      memoryChunkInit chunk2
      insertAfter chunk chunk2
      let len ← memoryChunkSize chunk2
      listPush (memoryChunkSlot len) chunk2
      addTo .memMeta headerSize
      addTo .memFree len
    else pure ())
    write (used chunk) 1
    subFrom .memFree size2
    pure chunk

/-- What `kfree` and `free` do while nobody else is in the heap. -/
def release (ptr : ℕ) : Access Unit := do
  let chunk := ptr - headerSize
  let chunkNext ← read (next chunk)
  let chunkPrev ← read (prev chunk)
  let nextUsed ← read (used chunkNext)
  (if nextUsed = 0 then do
    removeFree chunkNext
    removeNode chunkNext
    subFrom .memMeta headerSize
    addTo .memFree headerSize
  else pure ())
  let prevUsed ← read (used chunkPrev)
  if prevUsed = 0 then do
    removeFree chunkPrev
    removeNode chunk
    pushFree chunkPrev
    subFrom .memMeta headerSize
    addTo .memFree headerSize
  else do
    write (used chunk) 0
    listInit (freeNode chunk)
    pushFree chunk

/-! ## The kernel heap -/

def kheapInit (mem size : ℕ) : Access Unit := do
  initChunks mem size
  write .init 1

def kmalloc (size : ℕ) : Access ℕ := do
  let isInit ← read .init
  if isInit = 0 ∨ size = 0 then pure 0
  else do
    let chunk ← allocate size
    if chunk = 0 then pure 0 else read (data chunk)

def kfree (ptr : ℕ) : Access Unit := do
  let isInit ← read .init
  if isInit = 0 ∨ ptr = 0 then pure () else release ptr

def kheapGetFree : Access ℕ := read .memFree

/-! ## The heap of a process -/

/-- What a call gets from the kernel: the pages for the heap, with their address, and what the mutex calls return. -/
structure HeapCalls where
  pageAlloc : OsReturnE
  startAddr : ℕ
  mutexInit : OsReturnE
  mutexLock : OsReturnE
  mutexUnlock : OsReturnE

/-- `user_heap_init`, with the value of `PROCESS_HEAP_SIZE`; none if it panics. -/
def userHeapInit (processHeapSize : ℕ) (calls : HeapCalls) : Access (Option Unit) :=
  if calls.pageAlloc ≠ .osNoErr then pure (some ())
  else do
    initChunks calls.startAddr processHeapSize
    if calls.mutexInit ≠ .osNoErr then pure none
    else do
      write .init 1
      pure (some ())

/-- `malloc` behind the initialisation of the heap. -/
def lockedMalloc (calls : HeapCalls) (size : ℕ) : Access (Option ℕ) :=
  if size = 0 then pure (some 0)
  else if calls.mutexLock ≠ .osNoErr then pure none
  else do
    let chunk ← allocate size
    if calls.mutexUnlock ≠ .osNoErr then pure none
    else if chunk = 0 then pure (some 0)
    else do
      let ptr ← read (data chunk)
      pure (some ptr)

def malloc (processHeapSize : ℕ) (calls : HeapCalls) (size : ℕ) : Access (Option ℕ) := do
  let isInit ← read .init
  let started ← if isInit = 0 then userHeapInit processHeapSize calls else pure (some ())
  match started with
  | none => pure none
  | some _ => lockedMalloc calls size

def free (calls : HeapCalls) (ptr : ℕ) : Access (Option Unit) := do
  let isInit ← read .init
  if isInit = 0 ∨ ptr = 0 then pure (some ())
  else if calls.mutexLock ≠ .osNoErr then pure none
  else do
    release ptr
    pure (if calls.mutexUnlock ≠ .osNoErr then none else some ())

end UtkKernel.Heap
