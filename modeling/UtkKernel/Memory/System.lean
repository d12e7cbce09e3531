import UtkKernel.Foundations.Runs
import UtkKernel.Memory.Fork

/-! # The memory manager as a system

What `memory_manager_init` and the creation of the main kernel process leave, and the calls the kernel
and its processes make from then on, on one processor and with interrupts disabled. -/

namespace UtkKernel.Memory
open Structures Foundations
set_option autoImplicit false

/-! ## Start -/

/-- `KERNEL_MEM_START` -/
def kernelMemStart : ℕ := 0x00100000

/-- The symbols of the linker file. -/
def kernelMemoryEnd : ℕ := 0xE0E38000
def kernelRecurPgTableBase : ℕ := 0xFFC00000

/-- `PROCESS_START_VIRT_SPACE` -/
def processStartVirtSpace : ℕ := 0x00100000

/-- `multiboot_memory_map_t` -/
structure MultibootMemoryMap where
  addr : ℕ
  len : ℕ
  type : ℕ
  deriving DecidableEq, Repr

/-- `MULTIBOOT_MEMORY_AVAILABLE` -/
def multibootMemoryAvailable : ℕ := 1

/-- A section of the kernel, from an address up to another one. -/
structure Section where
  start : ℕ
  stop : ℕ
  readOnly : Bool
  deriving DecidableEq, Repr

/-- What a machine starts from: the memory map, the sections of the kernel, the frames of its page
directory and of the first of its reserved page tables, and what memory holds. -/
structure Boot where
  entries : List MultibootMemoryMap
  sections : List Section
  kernelPgdir : ℕ
  minPgtable : ℕ
  content : ℕ → ℕ → Word

/-- The body of the loop of `detect_memory`, on the hardware map and the free memory map. A range of
the hardware map carries its type. -/
def detectEntry (maps : List (KqueueNode (MemRange × ℕ)) × List Block) (e : MultibootMemoryMap) :
    List (KqueueNode (MemRange × ℕ)) × List Block :=
  if e.addr > 0xFFFFFFFF then maps
  else
    let range : MemRange := ⟨e.addr, (e.addr + e.len) % 2 ^ 32⟩
    (kqueuePushPrio ⟨(range, e.type), e.addr⟩ maps.1,
      if e.type = multibootMemoryAvailable ∧ e.addr ≥ kernelMemStart then
        kqueuePushPrio ⟨range, e.addr⟩ maps.2
      else maps.2)

/-- `detect_memory` -/
def detectMemory (entries : List MultibootMemoryMap) :
    List (KqueueNode (MemRange × ℕ)) × List Block :=
  entries.foldl detectEntry ([], [])

/-- The first free address, which is a multiple of the frame size. -/
def freeMemHead : ℕ := kernelMemoryEnd - kernelMemOffset

theorem freeMemHead_eq : freeMemHead = 0xE38000 := rfl

/-- The address below which `init_frame_ref_table` counts a reference: the next multiple of the frame
size, even from an address that is one. -/
def nextFreeMem (addr : ℕ) : ℕ := addr + (kernelFrameSize - addr % kernelFrameSize)

/-- The entry of the reference table for a frame of available memory. -/
def initialRef (next frame : ℕ) : FrameRef :=
  if frame * kernelFrameSize ≤ kernelMemStart then ⟨true, 0⟩
  else ⟨false, if frame * kernelFrameSize < next then 1 else 0⟩

/-- The loop of `init_frame_ref_table` over the frames of one range. No frame may be there before. -/
def initFrameRange (next : ℕ) (refs : ℕ → Option FrameRef) (node : KqueueNode (MemRange × ℕ)) :
    Option (ℕ → Option FrameRef) :=
  if node.data.2 ≠ multibootMemoryAvailable then some refs
  else
    let first := node.data.1.base / kernelFrameSize
    let last := node.data.1.limit / kernelFrameSize
    if (List.range' first (last - first)).any fun f => (refs f).isSome then none
    else some fun f => if first ≤ f ∧ f < last then some (initialRef next f) else refs f

/-- `init_frame_ref_table` -/
def initFrameRefTable (hwMemoryMap : List (KqueueNode (MemRange × ℕ))) (nextFree : ℕ) :
    Option (ℕ → Option FrameRef) :=
  hwMemoryMap.foldlM (initFrameRange (nextFreeMem nextFree)) fun _ => none

/-- What `setup_mem_table` makes of the free memory map. The kernel has to be in the lowest range; the
range it is taken from is the one at the head. -/
def setupMemTable : List Block → Option (List Block)
  | [] => none
  | head :: list =>
    match (head :: list).getLast? with
    | none => none
    | some first =>
      if first.data.base ≤ freeMemHead ∧ freeMemHead ≤ first.data.limit ∧
          freeMemHead ≤ head.data.limit then
        some (⟨⟨freeMemHead, head.data.limit⟩, head.priority⟩ :: list)
      else none

/-- `map_kernel_section`, on what memory holds. -/
def mapKernelSection (b : Boot) (mem : ℕ → ℕ → Word) (sec : Section) : ℕ → ℕ → Word :=
  fun frame index =>
    let first := sec.start / kernelFrameSize
    let page := (kernelFirstPgdirEntry + (frame - b.minPgtable)) * kernelPgdirSize + index
    if frame = b.kernelPgdir ∧ first * kernelFrameSize < sec.stop ∧
        first / kernelPgdirSize ≤ index ∧
        index * kernelPgdirSize * kernelFrameSize < sec.stop then
      Word.pgDir (b.minPgtable + (index - kernelFirstPgdirEntry))
    else if b.minPgtable ≤ frame ∧ frame < b.minPgtable + 4 ∧ first ≤ page ∧
        page * kernelFrameSize < sec.stop then
      Word.page (page - kernelMemOffset / kernelFrameSize)
        (if sec.readOnly then pageFlagReadOnly else pageFlagReadWrite)
    else mem frame index

/-- `paging_init`: the page directory is cleared and maps itself, and the sections are mapped in the
reserved page tables, which are clear. -/
def pagingInit (b : Boot) : ℕ → ℕ → Word :=
  b.sections.foldl (mapKernelSection b) fun frame index =>
    if frame = b.kernelPgdir then
      if index = kernelPgdirSize - 1 then Word.pgDir b.kernelPgdir else Word.zero
    else if b.minPgtable ≤ frame ∧ frame < b.minPgtable + 4 then Word.zero
    else b.content frame index

/-- `memory_create_free_page_table` -/
def memoryCreateFreePageTable : List Block :=
  [⟨⟨processStartVirtSpace, kernelMemOffset⟩, processStartVirtSpace⟩]

/-- `memory_manager_init`, and the main kernel process, which runs on the kernel's page directory. -/
def memoryManagerInit (b : Boot) : Option MemState :=
  (setupMemTable (detectMemory b.entries).2).bind fun free =>
    (initFrameRefTable (detectMemory b.entries).1 freeMemHead).map fun refs =>
      { mem := pagingInit b
        frameRef := refs
        freeMemoryMap := free
        freeKernelPages := [⟨⟨freeMemHead + kernelMemOffset, kernelRecurPgTableBase⟩, freeMemHead⟩]
        processes := fun pid =>
          if pid = 0 then some ⟨b.kernelPgdir, memoryCreateFreePageTable⟩ else none
        current := 0
        cr3 := b.kernelPgdir }

/-! ## Steps -/

inductive MemAct
  | switch (pid : ℕ)
  | mmap (virtAddr mappingSize : ℕ) (readOnly : Bool)
  | mmapDirect (virtAddr physAddr mappingSize : ℕ) (readOnly cacheEnabled isHw : Bool)
  | munmap (virtAddr mappingSize : ℕ)
  | allocPage (count : ℕ)
  | allocStack (stackSize : ℕ) (isKernel : Bool)
  | freeStack (stack stackSize : ℕ)
  | fault (page : ℕ)
  | allocKernelPages (count : ℕ)
  | freeKernelPages (page count : ℕ)
  | fork (pid kstack kstackSize : ℕ)
  | freeProcessData (virtAddr size pid : ℕ)
  | clean (pid : ℕ)
  deriving DecidableEq, Repr

namespace MemState

/-- The scheduler elects a thread of the process. -/
def switch (s : MemState) (pid : ℕ) : Option MemState :=
  (s.processes pid).map fun p => { s with current := pid, cr3 := p.pageDir }

/-- `paging_fault_general_handler`, which panics if the fault is not resolved. -/
def fault (s : MemState) (page : ℕ) : Option MemState :=
  (s.memoryInvocateCow page).bind fun m => if m.2 = .osNoErr then some m.1 else none

/-- A fork to a process that does not live yet. -/
def fork (s : MemState) (pid kstack kstackSize : ℕ) : Option MemState :=
  if s.processes pid ≠ none then none
  else
    (s.memoryCopySelfMapping kstack kstackSize).map fun m =>
      match m.2.2 with
      | none => m.1
      | some p => { m.1 with processes := Function.update m.1.processes pid (some p) }

/-- Another process, which has ended, is cleaned. -/
def clean (s : MemState) (pid : ℕ) : Option MemState :=
  if pid = s.current then none
  else
    (s.processes pid).bind fun p =>
      (s.memoryCleanProcessMemory p.pageDir).map fun s1 =>
        { s1 with processes := Function.update s1.processes pid none }

def exec (s : MemState) : MemAct → Option MemState
  | .switch pid => s.switch pid
  | .mmap virtAddr size readOnly => (s.memoryMmap virtAddr size readOnly).map Prod.fst
  | .mmapDirect virtAddr physAddr size readOnly cacheEnabled isHw =>
    (s.memoryMmapDirect virtAddr physAddr size readOnly cacheEnabled isHw).map Prod.fst
  | .munmap virtAddr size => s.memoryMunmap virtAddr size
  | .allocPage count => (s.memoryAllocPage count).map Prod.fst
  | .allocStack size isKernel => (s.memoryAllocStack size isKernel).map Prod.fst
  | .freeStack stack size => s.memoryFreeStack stack size
  | .fault page => s.fault page
  | .allocKernelPages count => (s.allocKernelPages count).map Prod.snd
  | .freeKernelPages page count => s.freeKernelPagesTo page count
  | .fork pid kstack size => s.fork pid kstack size
  | .freeProcessData virtAddr size pid => s.memoryFreeProcessData virtAddr size pid
  | .clean pid => s.clean pid

def Step (s : MemState) (act : MemAct) (s' : MemState) : Prop := s.exec act = some s'

/-- A state that some machine starts in. -/
def Started (s : MemState) : Prop := ∃ b, memoryManagerInit b = some s

end MemState

/-! ## A machine -/

/-- A machine with 16 MiB of memory. -/
def smallBoot : Boot where
  entries := [⟨0, 0x9F000, 1⟩, ⟨0x100000, 0xF00000, 1⟩]
  sections := [⟨0xE0110000, 0xE0200000, true⟩, ⟨0xE0200000, 0xE0E38000, false⟩]
  kernelPgdir := 0x210
  minPgtable := 0x211
  content := fun _ _ => Word.zero

/-- The state the actions lead to on that machine. -/
def smallRun (acts : List MemAct) : Option MemState :=
  (memoryManagerInit smallBoot).bind fun s => runActs MemState.exec s acts

theorem reachable_of_smallRun {acts : List MemAct} {s : MemState} (h : smallRun acts = some s) :
    Reachable MemState.Started MemState.Step s := by
  obtain ⟨s0, h0, hrun⟩ := Option.bind_eq_some_iff.mp h
  have hstart : Reachable MemState.Started MemState.Step s0 := .start ⟨smallBoot, h0⟩
  exact hstart.runActs (fun _ _ _ hs => ⟨trivial, hs⟩) hrun

end UtkKernel.Memory
