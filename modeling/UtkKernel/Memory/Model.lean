import Mathlib.Data.BitVec
import UtkKernel.Memory.Blocks
import UtkKernel.Structures.KernelError

/-! # The memory manager (`arch/cpu/i386/src/memmgt.c`)

Physical memory, the frame reference table, the free blocks and the processes. Frames and pages go by
their numbers, addresses divided by the page size, and the words of a frame by their index.

The current page directory is mapped to itself by its last entry, so the source reads and writes it and
its page tables in the last four megabytes of the address space; here they are reached directly, and
nothing is mapped or unmapped in that window. A temporary page stands for the frame it was mapped to. A
function gives `none` where the source panics, and where it would access a page that is not mapped. -/

namespace UtkKernel.Memory
open Structures
set_option autoImplicit false

/-! ## Words and page table entries -/

/-- A word of memory. Read as an entry, its upper bits are the number of a frame. -/
structure Word where
  frame : ℕ
  flags : BitVec 12
  deriving DecidableEq, Repr

def pageFlagPresent : BitVec 12 := 0x001#12
def pageFlagReadWrite : BitVec 12 := 0x002#12
def pageFlagReadOnly : BitVec 12 := 0x000#12
def pageFlagCacheDisabled : BitVec 12 := 0x010#12
def pageFlagCacheWb : BitVec 12 := 0x000#12
def pageFlagRegular : BitVec 12 := 0x000#12
def pageFlagHardware : BitVec 12 := 0x200#12
def pageFlagCopyOnWrite : BitVec 12 := 0x400#12
def pageFlagPrivate : BitVec 12 := 0x600#12
def pageFlagOsCustomMask : BitVec 12 := 0xE00#12

/-- `KERNEL_PGDIR_SIZE` -/
def kernelPgdirSize : ℕ := 1024

/-- `KERNEL_FIRST_PGDIR_ENTRY` -/
def kernelFirstPgdirEntry : ℕ := 896

/-- `KERNEL_MEM_OFFSET` -/
def kernelMemOffset : ℕ := 0xE0000000

namespace Word

def zero : Word := ⟨0, 0#12⟩

def present (e : Word) : Bool := e.flags &&& pageFlagPresent != 0#12

def writable (e : Word) : Bool := e.flags &&& pageFlagReadWrite != 0#12

def custom (e : Word) : BitVec 12 := e.flags &&& pageFlagOsCustomMask

/-- An entry of a page directory that the manager writes. -/
def pgDir (table : ℕ) : Word := ⟨table, pageFlagReadWrite ||| pageFlagPresent⟩

def page (frame : ℕ) (flags : BitVec 12) : Word := ⟨frame, flags ||| pageFlagPresent⟩

/-- The word as an address. -/
def addr (e : Word) : ℕ := e.frame * kernelFrameSize + e.flags.toNat

/-- The entry of a page that is not copied on write any more. -/
def ofCow (e : Word) : Word :=
  { e with
    flags := (e.flags &&& ~~~pageFlagOsCustomMask &&& ~~~pageFlagReadOnly) ||| pageFlagRegular |||
      pageFlagReadWrite }

end Word

/-! ## State -/

/-- An entry of the frame reference table. -/
structure FrameRef where
  isHw : Bool
  count : ℕ
  deriving DecidableEq, Repr

/-- `FRAME_REF_COUNT_MASK` -/
def frameRefCountMask : ℕ := 0x00FFFFFF

/-- The fields of `kernel_process_t` that the memory manager uses. -/
structure Process where
  pageDir : ℕ
  freePageTable : List Block
  deriving DecidableEq, Repr

structure MemState where
  mem : ℕ → ℕ → Word
  frameRef : ℕ → Option FrameRef
  freeMemoryMap : List Block
  freeKernelPages : List Block
  processes : ℕ → Option Process
  current : ℕ
  cr3 : ℕ

namespace MemState

/-- The whole frame is written. -/
def setFrame (s : MemState) (frame : ℕ) (words : ℕ → Word) : MemState :=
  { s with mem := Function.update s.mem frame words }

/-- One word of a frame is written. -/
def setWord (s : MemState) (frame index : ℕ) (w : Word) : MemState :=
  s.setFrame frame (Function.update (s.mem frame) index w)

def setRef (s : MemState) (frame : ℕ) (r : FrameRef) : MemState :=
  { s with frameRef := Function.update s.frameRef frame (some r) }

/-! ## Frames -/

/-- `memory_set_ref_count` -/
def memorySetRefCount (s : MemState) (frame count : ℕ) : Option MemState :=
  (s.frameRef frame).map fun r => s.setRef frame { r with count := count }

/-- `memory_alloc_frames`: the first frame. -/
def memoryAllocFrames (s : MemState) (frameCount : ℕ) : Option (ℕ × MemState) :=
  (getBlock s.freeMemoryMap frameCount .begining).map fun r =>
    (r.1 / kernelFrameSize, { s with freeMemoryMap := r.2 })

/-- `memory_free_frames`, which sets the count of the first frame as often as there are frames. -/
def memoryFreeFramesAt (s : MemState) (addr frameCount : ℕ) : Option MemState :=
  (addBlock s.freeMemoryMap addr frameCount).bind fun list =>
    if frameCount = 0 then some { s with freeMemoryMap := list }
    else { s with freeMemoryMap := list }.memorySetRefCount (addr / kernelFrameSize) 0

def memoryFreeFrames (s : MemState) (frame frameCount : ℕ) : Option MemState :=
  s.memoryFreeFramesAt (frame * kernelFrameSize) frameCount

/-- `memory_acquire_ref` -/
def memoryAcquireRef (s : MemState) (frame : ℕ) : Option MemState :=
  (s.frameRef frame).bind fun r =>
    if r.count + 1 = frameRefCountMask then none
    else some (s.setRef frame { r with count := r.count + 1 })

/-- `memory_release_ref` -/
def memoryReleaseRef (s : MemState) (frame : ℕ) : Option MemState :=
  (s.frameRef frame).bind fun r =>
    if r.count = 0 then none
    else if r.count - 1 = 0 ∧ r.isHw = false then
      (s.setRef frame { r with count := r.count - 1 }).memoryFreeFrames frame 1
    else some (s.setRef frame { r with count := r.count - 1 })

/-! ## Pages -/

/-- `memory_alloc_pages_from` the kernel's pages, and `memory_free_pages_to` them. -/
def allocKernelPages (s : MemState) (pageCount : ℕ) : Option (ℕ × MemState) :=
  (getBlock s.freeKernelPages pageCount .begining).map fun r =>
    (r.1 / kernelFrameSize, { s with freeKernelPages := r.2 })

def freeKernelPagesTo (s : MemState) (page pageCount : ℕ) : Option MemState :=
  (addBlock s.freeKernelPages (page * kernelFrameSize) pageCount).map fun list =>
    { s with freeKernelPages := list }

/-- The same for the pages of a process. -/
def allocPagesFrom (s : MemState) (pid pageCount : ℕ) (start : MemAllocStart) :
    Option (ℕ × MemState) :=
  (s.processes pid).bind fun p =>
    (getBlock p.freePageTable pageCount start).map fun r =>
      (r.1 / kernelFrameSize,
        { s with processes := Function.update s.processes pid (some { p with freePageTable := r.2 }) })

def freePagesTo (s : MemState) (pid addr pageCount : ℕ) : Option MemState :=
  (s.processes pid).bind fun p =>
    (addBlock p.freePageTable addr pageCount).map fun list =>
      { s with processes := Function.update s.processes pid (some { p with freePageTable := list }) }

/-! ## Mapping -/

def pgdirEntry (page : ℕ) : ℕ := page / kernelPgdirSize % kernelPgdirSize

def pgtableEntry (page : ℕ) : ℕ := page % kernelPgdirSize

/-- The pages that a number of bytes reaches over. -/
def pageCount (bytes : ℕ) : ℕ := (bytes + (kernelFrameSize - 1)) / kernelFrameSize

/-- The entry of a page under a page directory, if it is present. -/
def entry (s : MemState) (pgdir page : ℕ) : Option Word :=
  if (s.mem pgdir (pgdirEntry page)).present then
    if (s.mem (s.mem pgdir (pgdirEntry page)).frame (pgtableEntry page)).present then
      some (s.mem (s.mem pgdir (pgdirEntry page)).frame (pgtableEntry page))
    else none
  else none

/-- `memory_get_phys_addr` -/
def memoryGetPhysAddr (s : MemState) (virtAddr : ℕ) : ℕ :=
  (s.entry s.cr3 (virtAddr / kernelFrameSize)).elim 0 fun e =>
    e.frame * kernelFrameSize + virtAddr % kernelFrameSize

/-- `is_mapped` -/
def isMapped (s : MemState) (page count : ℕ) : Bool :=
  (List.range count).any fun k => (s.entry s.cr3 (page + k)).isSome

/-- The page table of an entry of the current page directory is created if it is not there. -/
def createTable (s : MemState) (dirEntry : ℕ) : Option MemState :=
  if (s.mem s.cr3 dirEntry).present then some s
  else
    s.memoryAllocFrames 1 |>.map fun r =>
      (r.2.setWord s.cr3 dirEntry (Word.pgDir r.1)).setFrame r.1 fun _ => Word.zero

/-- The body of the loop of `kernel_mmap_internal`. -/
def mapPage (s : MemState) (page frame : ℕ) (flags : BitVec 12) : Option MemState :=
  if pgdirEntry page = kernelPgdirSize - 1 then none
  else
    (s.createTable (pgdirEntry page)).bind fun s1 =>
      (s1.setWord (s1.mem s1.cr3 (pgdirEntry page)).frame (pgtableEntry page)
        (Word.page frame flags)).memoryAcquireRef frame

def mapPages (flags : BitVec 12) : ℕ → ℕ → ℕ → MemState → Option MemState
  | _, _, 0, s => some s
  | page, frame, count + 1, s =>
    (s.mapPage page frame flags).bind (mapPages flags (page + 1) (frame + 1) count)

/-- `kernel_mmap_internal`. Nothing sets the error code after the first test, so what the source does
for an error at the end is never done. -/
def kernelMmapInternal (s : MemState) (page frame count : ℕ) (flags : BitVec 12) :
    Option (MemState × OsReturnE) :=
  if s.isMapped page count then some (s, .osErrMappingAlreadyExists)
  else (mapPages flags page frame count s).map fun s' => (s', .osNoErr)

/-- The flags of `memory_mmap` and `memory_mmap_direct`. -/
def mmapFlags (readOnly cacheEnabled isHw : Bool) : BitVec 12 :=
  (if readOnly then pageFlagReadOnly else pageFlagReadWrite) |||
    (if cacheEnabled then pageFlagCacheWb else pageFlagCacheDisabled) |||
    (if isHw then pageFlagHardware else pageFlagRegular)

/-- The distance of an address from the page it is in. -/
def pageOffset (addr : ℕ) : ℕ := addr % kernelFrameSize

/-- `memory_mmap`. The frames are those that fit in the size; the pages are those it reaches over. -/
def memoryMmap (s : MemState) (virtAddr mappingSize : ℕ) (readOnly : Bool) :
    Option (MemState × OsReturnE) :=
  let toMap := (mappingSize + pageOffset virtAddr) % 2 ^ 32
  (s.memoryAllocFrames (toMap / kernelFrameSize)).bind fun r =>
    (r.2.kernelMmapInternal (virtAddr / kernelFrameSize) r.1
      (pageCount ((toMap + pageOffset virtAddr) % 2 ^ 32)) (mmapFlags readOnly true false)).bind
        fun m =>
          if m.2 ≠ .osNoErr then
            (m.1.memoryFreeFrames r.1 (toMap / kernelFrameSize)).map fun s' => (s', m.2)
          else some m

/-- `memory_mmap_direct` -/
def memoryMmapDirect (s : MemState) (virtAddr physAddr mappingSize : ℕ)
    (readOnly cacheEnabled isHw : Bool) : Option (MemState × OsReturnE) :=
  s.kernelMmapInternal (virtAddr / kernelFrameSize) (physAddr / kernelFrameSize)
    (pageCount ((mappingSize + pageOffset virtAddr) % 2 ^ 32)) (mmapFlags readOnly cacheEnabled isHw)

/-- Is no entry of the page table present? -/
def tableEmpty (s : MemState) (table : ℕ) : Bool :=
  (List.range kernelPgdirSize).all fun i => !(s.mem table i).present

/-- A page table that is empty leaves the current page directory. -/
def dropTable (s : MemState) (dirEntry : ℕ) : Option MemState :=
  if s.tableEmpty (s.mem s.cr3 dirEntry).frame then
    (s.memoryFreeFrames (s.mem s.cr3 dirEntry).frame 1).map fun s1 =>
      s1.setWord s1.cr3 dirEntry Word.zero
  else some s

/-- The body of the loop of `memory_munmap`. -/
def unmapPage (s : MemState) (page : ℕ) : Option MemState :=
  if pgdirEntry page = kernelPgdirSize - 1 then none
  else if (s.mem s.cr3 (pgdirEntry page)).present then
    let table := (s.mem s.cr3 (pgdirEntry page)).frame
    if (s.mem table (pgtableEntry page)).present then
      (s.memoryReleaseRef (s.mem table (pgtableEntry page)).frame).bind fun s1 =>
        (s1.setWord table (pgtableEntry page) Word.zero).dropTable (pgdirEntry page)
    else s.dropTable (pgdirEntry page)
  else some s

def unmapPages : ℕ → ℕ → MemState → Option MemState
  | _, 0, s => some s
  | page, count + 1, s => (s.unmapPage page).bind (unmapPages (page + 1) count)

/-- `memory_munmap` -/
def memoryMunmap (s : MemState) (virtAddr mappingSize : ℕ) : Option MemState :=
  let endMap := (virtAddr + mappingSize) % 2 ^ 32
  let endAlign := if endMap % kernelFrameSize = 0 then endMap
    else (endMap - endMap % kernelFrameSize + kernelFrameSize) % 2 ^ 32
  let startMap := virtAddr - pageOffset virtAddr
  unmapPages (virtAddr / kernelFrameSize)
    (((endAlign + 2 ^ 32 - startMap) % 2 ^ 32) / kernelFrameSize) s

/-! ## Temporary pages -/

/-- A frame is mapped at a page, with `memory_mmap_direct` as the functions below call it. -/
def mapTemp (s : MemState) (page frame : ℕ) : Option (MemState × OsReturnE) :=
  s.kernelMmapInternal page frame 1 (mmapFlags false true false)

/-! ## Stacks and page allocation -/

/-- `memory_alloc_stack`: the page of the stack, if there was no error. -/
def memoryAllocStack (s : MemState) (stackSize : ℕ) (isKernel : Bool) :
    Option (MemState × Option ℕ) :=
  (s.memoryAllocFrames (pageCount stackSize)).bind fun r =>
    (r.2.allocPagesFrom s.current (pageCount stackSize) .last).bind fun q =>
      (q.2.kernelMmapInternal q.1 r.1 (pageCount stackSize)
        (pageFlagReadWrite ||| pageFlagCacheWb |||
          if isKernel then pageFlagPrivate else pageFlagRegular)).bind fun m =>
        if m.2 ≠ .osNoErr then
          (m.1.memoryFreeFrames r.1 (pageCount stackSize)).bind fun s1 =>
            (s1.freePagesTo s.current (q.1 * kernelFrameSize) (pageCount stackSize)).map
              fun s2 => (s2, none)
        else some (m.1, some q.1)

/-- `memory_free_stack` -/
def memoryFreeStack (s : MemState) (stack stackSize : ℕ) : Option MemState :=
  (s.memoryMunmap stack stackSize).bind fun s1 =>
    s1.freePagesTo s.current stack (pageCount ((stackSize + pageOffset stack) % 2 ^ 32))

/-- `memory_alloc_page`: the first page, if there was no error. -/
def memoryAllocPage (s : MemState) (count : ℕ) : Option (MemState × Option ℕ) :=
  (s.memoryAllocFrames count).bind fun r =>
    (r.2.allocPagesFrom s.current count .begining).bind fun q =>
      (q.2.kernelMmapInternal q.1 r.1 (pageCount (blockSize count))
        (pageFlagReadWrite ||| pageFlagCacheWb ||| pageFlagRegular)).bind fun m =>
        if m.2 ≠ .osNoErr then
          (m.1.memoryFreeFrames r.1 count).bind fun s1 =>
            (s1.freePagesTo s.current (q.1 * kernelFrameSize) count).map fun s2 => (s2, none)
        else some (m.1, some q.1)

/-! ## Copy on write -/

/-- `memory_invocate_cow` for a shared frame, from the allocation of the new one on. The error code is
tested before the call that sets it. -/
def cowCopy (s : MemState) (page table oldFrame : ℕ) (err : OsReturnE) :
    Option (MemState × OsReturnE) :=
  (s.memoryAllocFrames 1).bind fun r =>
    (r.2.memoryAcquireRef r.1).bind fun s1 =>
      (s1.allocPagesFrom s.current 1 .begining).bind fun q =>
        if err ≠ .osNoErr then (q.2.memoryFreeFrames r.1 kernelFrameSize).map fun s2 => (s2, err)
        else
          (q.2.mapTemp q.1 r.1).bind fun m =>
            if m.2 ≠ .osNoErr then
              (m.1.memoryFreeFrames r.1 kernelFrameSize).map fun s2 => (s2, m.2)
            else
              ((m.1.setFrame r.1 (m.1.mem oldFrame)).unmapPage q.1).bind fun s2 =>
                (s2.freePagesTo s.current (q.1 * kernelFrameSize) 1).bind fun s3 =>
                  ((s3.setWord table (pgtableEntry page)
                    { s3.mem table (pgtableEntry page) with frame := r.1 }).memoryReleaseRef
                      oldFrame).map fun s4 =>
                    (s4.setWord table (pgtableEntry page)
                      (Word.ofCow (s4.mem table (pgtableEntry page))), .osNoErr)

/-- `memory_invocate_cow` at an address in the page. -/
def memoryInvocateCow (s : MemState) (page : ℕ) : Option (MemState × OsReturnE) :=
  let err := OsReturnE.osErrMemoryNotMapped
  (s.processes s.current).bind fun _ =>
    match s.entry s.cr3 page with
    | none => some (s, err)
    | some e =>
      if e.custom ≠ pageFlagCopyOnWrite then some (s, err)
      else
        (s.frameRef e.frame).bind fun r =>
          let table := (s.mem s.cr3 (pgdirEntry page)).frame
          if r.count = 0 then none
          else if r.count > 1 then s.cowCopy page table e.frame err
          else some (s.setWord table (pgtableEntry page) e.ofCow, .osNoErr)

end MemState

end UtkKernel.Memory
