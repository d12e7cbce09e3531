import UtkKernel.Foundations.SavedFlag
import UtkKernel.Structures.KernelError

/-! # Critical sections

The functions of the memory manager, of the futexes and of the scheduler that enter a critical section, with
what they call, as far as the interrupt flag and the way through the code go. What a function reads and what
the calls that are not followed report is asked for, so that a run is one outcome of all of them; a failed
assertion stops. An address is there or is `NULL`. -/

namespace UtkKernel.Critical
open Foundations
set_option autoImplicit false

/-- What is asked for: a condition, the number of turns of a loop, the error of a call, the reference count of a
frame, whether a page that is to be mapped is mapped, and what `uhashtable_get` reports. -/
inductive Query
  | test
  | turns
  | report
  | refCount
  | isMapped
  | uhashtableGet
  deriving DecidableEq, Repr

abbrev Query.Reply : Query → Type
  | .test => Bool
  | .turns => ℕ
  | .report => OsReturnE
  | .refCount => ℕ
  | .isMapped => Bool
  | .uhashtableGet => OsReturnE

abbrev Code := Prog Query Query.Reply

def test : Code Bool := .reply Query.test

/-- `ENTER_CRITICAL` -/
def enterCritical : Code Bool := Prog.enterSection

/-- `EXIT_CRITICAL` -/
def exitCritical (intState : Bool) : Code Unit := Prog.leaveSection intState

/-- A loop whose turns all run to their end. -/
def repeated (body : Code Unit) : Code Unit := do
  let n ← .reply Query.turns
  .turns n body

/-- A loop that a turn may leave; did none? -/
def looped (body : Code Bool) : Code Bool := do
  let n ← .reply Query.turns
  .loop n body

/-! ## Heap, queues and tables -/

def kmalloc : Code Bool := do
  if ← test then return false
  else
    let intState ← enterCritical
    if ← test then
      exitCritical intState
      return false
    else if ← test then
      exitCritical intState
      return false
    else
      exitCritical intState
      return true

def kfree : Code Unit := do
  if ← test then return ()
  else
    let intState ← enterCritical
    exitCritical intState

def kqueueCreateNode : Code Unit := do
  .assert (← kmalloc)

def kqueueDeleteNode : Code Unit := do
  .assert (← test)
  kfree

def kqueueCreateQueue : Code Unit := do
  .assert (← kmalloc)

def kqueueDeleteQueue : Code Unit := do
  .assert (← test)
  kfree

/-- `kqueue_remove`, which is to panic if the node is not in the queue. -/
def kqueueRemove : Code Unit := do
  .assert (← test)

def uhashtableRehash : Code OsReturnE := do
  if ← test then return .osErrOutOfBound
  else if ← kmalloc then
    repeated do .when (← test) kfree
    kfree
    return .osNoErr
  else return .osErrMalloc

def uhashtableSetEntry : Code OsReturnE := do
  if ← test then return .osNoErr
  else if ← test then
    if ← kmalloc then return .osNoErr else return .osErrMalloc
  else return .osNoErr

def uhashtableSet : Code OsReturnE := do
  if ← test then return .osErrNullPointer
  else if ← test then
    let err ← uhashtableRehash
    if err ≠ .osNoErr then return err else uhashtableSetEntry
  else uhashtableSetEntry

/-- The search of `uhashtable_remove`. -/
def uhashtableUnset : Code OsReturnE := do
  if ← test then return .osNoErr else return .osErrNoSuchId

def uhashtableRemove : Code OsReturnE := do
  if ← test then return .osErrNullPointer
  else if ← test then
    let err ← uhashtableRehash
    if err ≠ .osNoErr then return err else uhashtableUnset
  else uhashtableUnset

def uhashtableGet : Code OsReturnE := .reply Query.uhashtableGet

/-! ## Frames and pages -/

def getBlock : Code Bool := do
  if ← test then
    .when (← test) do
      kfree
      kqueueRemove
      kqueueDeleteNode
    return true
  else return false

def addBlock : Code Unit := do
  -- the block is merged with one range, or with two
  if ← test then
    .when (← test) do
      kfree
      kqueueRemove
      kqueueDeleteNode
  else
    .assert (← test)
    .assert (← kmalloc)
    kqueueCreateNode

def memoryAllocFrames : Code Unit := do
  .assert (← getBlock)

def memoryFreeFrames : Code Unit := do
  addBlock
  repeated do .assert (← test)

def memoryAllocPagesFrom : Code Unit := do
  .assert (← getBlock)

def memoryFreePagesTo : Code Unit := addBlock

def memoryAcquireRef : Code Unit := do
  .assert (← test)
  .assert (← test)

def memoryReleaseRef : Code Unit := do
  .assert (← test)
  .assert (← test)
  .when (← test) memoryFreeFrames

def memoryGetRefCount : Code ℕ := do
  .assert (← test)
  .reply Query.refCount

/-! ## Mappings -/

/-- `kernel_mmap_internal`, given a variable for the error or `NULL`. No error is set in its loop, so the part
that cleans up after one is never run. -/
def kernelMmapInternal (err : Bool) : Code OsReturnE := do
  if ← .reply Query.isMapped then
    .assert err
    return .osErrMappingAlreadyExists
  else
    repeated do
      .when (← test) memoryAllocFrames
      memoryAcquireRef
    return .osNoErr

def memoryMmapDirect (err : Bool) : Code OsReturnE := do
  let intState ← enterCritical
  let reported ← kernelMmapInternal err
  exitCritical intState
  return reported

def memoryMmap (err : Bool) : Code OsReturnE := do
  let intState ← enterCritical
  memoryAllocFrames
  let reported ← kernelMmapInternal err
  .when (reported ≠ .osNoErr) memoryFreeFrames
  exitCritical intState
  return reported

def memoryMunmap : Code Unit := do
  let intState ← enterCritical
  repeated do
    if ← test then
      .when (← test) memoryReleaseRef
      .when (← test) memoryFreeFrames
    else return ()
  exitCritical intState

/-- `memory_invocate_cow`. The allocation of the temporary page does not report an error, so `err` is still what
it was set to first when it is compared. -/
def memoryInvocateCow : Code OsReturnE := do
  let err := OsReturnE.osErrMemoryNotMapped
  .assert (← test)
  let intState ← enterCritical
  if ← test then
    if ← test then
      let refCount ← memoryGetRefCount
      .assert (refCount ≠ 0)
      if refCount > 1 then
        memoryAllocFrames
        memoryAcquireRef
        memoryAllocPagesFrom
        if err ≠ .osNoErr then
          memoryFreeFrames
          return err
        else
          let err ← memoryMmapDirect true
          if err ≠ .osNoErr then
            memoryFreeFrames
            return err
          else
            memoryMunmap
            memoryFreePagesTo
            memoryReleaseRef
            exitCritical intState
            return .osNoErr
      else
        exitCritical intState
        return .osNoErr
    else
      exitCritical intState
      return err
  else
    exitCritical intState
    return err

/-- `memory_alloc_stack`: is the address not `NULL`, and the error. -/
def memoryAllocStack (err : Bool) : Code (Bool × OsReturnE) := do
  if ← test then
    .assert err
    return (false, .osErrUnauthorizedAction)
  else
    let intState ← enterCritical
    memoryAllocFrames
    memoryAllocPagesFrom
    let reported ← kernelMmapInternal err
    if err ∧ reported ≠ .osNoErr then
      memoryFreeFrames
      memoryFreePagesTo
      return (false, reported)
    else
      exitCritical intState
      return (← test, reported)

def memoryFreeStack : Code OsReturnE := do
  let intState ← enterCritical
  memoryMunmap
  memoryFreePagesTo
  exitCritical intState
  return .osNoErr

def memoryAllocPage : Code Unit := do
  .assert (← test)
  .assert (← test)
  if ← test then return ()
  else
    let intState ← enterCritical
    memoryAllocFrames
    memoryAllocPagesFrom
    let err ← kernelMmapInternal true
    if err ≠ .osNoErr then
      memoryFreeFrames
      memoryFreePagesTo
      exitCritical intState
    else exitCritical intState

def memoryDeclareHw : Code OsReturnE := do
  let intState ← enterCritical
  let declared ← looped do
    if ← test then
      let _ ← kmalloc
      return true
    else test
  if declared then
    exitCritical intState
    return .osNoErr
  else
    repeated do .when (← test) kfree
    exitCritical intState
    return .osErrUnauthorizedAction

end UtkKernel.Critical
