import UtkKernel.Critical.Model

/-! # Critical sections of the futexes and of the scheduler

The functions above the memory manager, and the list of those that enter a critical section. -/

namespace UtkKernel.Critical
open Foundations
set_option autoImplicit false

/-- A raised interrupt comes back with the flag it was raised with. -/
def schedSchedule : Code Unit := do
  let err ← .reply Query.report
  .assert (err = .osNoErr)

def schedUnlockThread (doSchedule : Bool) : Code OsReturnE := do
  if ← test then return .osErrNoSuchId
  else if ← test then return .osErrIncorrectValue
  else
    let intState ← enterCritical
    .when doSchedule schedSchedule
    exitCritical intState
    return .osNoErr

def schedThreadAddResource : Code OsReturnE := do
  if ← test then return .osErrNullPointer
  else if ← kmalloc then
    kqueueCreateNode
    return .osNoErr
  else return .osErrMalloc

def schedThreadRemoveResource : Code OsReturnE := do
  if ← test then return .osErrNullPointer
  else
    kqueueRemove
    kfree
    kqueueDeleteNode
    return .osNoErr

/-! ## Futexes -/

/-- `recover_data_t`: is there something to undo? -/
structure RecoverData where
  createdFutexQueue : Bool
  futexTable : Bool
  lockedThread : Bool
  createdWaitNode : Bool
  pushedWaitQueue : Bool
  createdResNode : Bool
  deriving DecidableEq, Repr

def RecoverData.none : RecoverData := ⟨false, false, false, false, false, false⟩

def futexRecover (data : RecoverData) : Code Unit := do
  .when data.createdResNode do
    let err ← schedThreadRemoveResource
    .assert (err = .osNoErr)
  .when data.pushedWaitQueue kqueueRemove
  .when data.createdWaitNode kqueueDeleteNode
  .when data.lockedThread do
    let err ← schedUnlockThread false
    .assert (err = .osNoErr)
  .when data.futexTable do
    let err ← uhashtableRemove
    .assert (err = .osNoErr)
  .when data.createdFutexQueue kqueueDeleteQueue

/-- The last node has left the queue of a futex. -/
def futexDelete : Code Unit := do
  let err ← uhashtableRemove
  .assert (err = .osNoErr)
  kqueueDeleteQueue

def futexCleanup : Code Unit := do
  if ← test then return ()
  else
    let intState ← enterCritical
    let err ← uhashtableGet
    .assert (err = .osNoErr)
    .assert (← test)
    kqueueRemove
    kqueueDeleteNode
    .when (← test) futexDelete
    exitCritical intState

/-- `futex_wait` from its call of `sched_lock_thread` on. -/
def futexWaitLock (intState : Bool) (data : RecoverData) : Code Unit := do
  if ← test then
    futexRecover data
    exitCritical intState
  else
    kqueueCreateNode
    let err ← schedThreadAddResource
    if err ≠ .osNoErr then
      futexRecover { data with lockedThread := true, createdWaitNode := true, pushedWaitQueue := true }
      exitCritical intState
    else
      exitCritical intState
      schedSchedule

def futexWait : Code Unit := do
  .assert (← test)
  .assert (← test)
  .assert (← test)
  let intState ← enterCritical
  if ← test then exitCritical intState
  else
    let err ← uhashtableGet
    if err = .osNoErr then futexWaitLock intState .none
    else if err = .osErrNoSuchId then
      kqueueCreateQueue
      let err ← uhashtableSet
      if err ≠ .osNoErr then
        futexRecover { RecoverData.none with createdFutexQueue := true }
        exitCritical intState
      else futexWaitLock intState { RecoverData.none with createdFutexQueue := true, futexTable := true }
    else futexRecover .none

def futexWake : Code Unit := do
  .assert (← test)
  .assert (← test)
  .assert (← test)
  let intState ← enterCritical
  let err ← uhashtableGet
  if err ≠ .osNoErr then
    futexRecover .none
    exitCritical intState
  else
    let _ ← looped do
      if ← test then
        let err ← schedThreadRemoveResource
        .assert (err = .osNoErr)
        let err ← schedUnlockThread false
        .assert (err = .osNoErr)
        kqueueRemove
        kqueueDeleteNode
        if ← test then
          futexDelete
          return false
        else return true
      else return false
    exitCritical intState

/-! ## The memory of a process -/

def memoryDeleteFreePageTable : Code Unit := do
  if ← test then return ()
  else
    repeated do
      kfree
      kqueueDeleteNode
    kqueueDeleteQueue

def memoryCleanProcessMemory : Code Unit := do
  memoryAllocPagesFrom
  memoryAllocPagesFrom
  let _ ← memoryMmapDirect false
  repeated do
    .when (← test) do
      let _ ← memoryMmapDirect false
      repeated do .when (← test) memoryReleaseRef
      memoryMunmap
      memoryReleaseRef
  memoryMunmap
  memoryReleaseRef
  memoryFreePagesTo
  memoryFreePagesTo

def memoryFreeProcessData : Code Unit := do
  .assert (← test)
  .assert (← test)
  memoryAllocPagesFrom
  memoryAllocPagesFrom
  let err ← memoryMmapDirect true
  .assert (err = .osNoErr)
  repeated do
    .assert (← test)
    let _ ← memoryMmapDirect false
    .assert (← test)
    memoryReleaseRef
    memoryFreePagesTo
    memoryMunmap
  memoryMunmap
  memoryFreePagesTo
  memoryFreePagesTo

/-- `mem_copy_self_data_t`: is there something to undo? -/
structure MemCopySelfData where
  acquiredRefPgdir : Bool
  newPgdirFrame : Bool
  newPgdirPage : Bool
  mappedPgdir : Bool
  newPgtablePage : Bool
  newDataPage : Bool
  deriving DecidableEq, Repr

def memoryCopySelfClean (data : MemCopySelfData) (pastErr : OsReturnE) : Code OsReturnE := do
  .when data.newDataPage memoryFreePagesTo
  .when data.newPgtablePage memoryFreePagesTo
  .when data.mappedPgdir memoryMunmap
  .when data.newPgdirPage memoryFreePagesTo
  .when data.newPgdirFrame memoryFreeFrames
  .when data.acquiredRefPgdir memoryReleaseRef
  return pastErr

def memoryCreateNewPagedir : Code OsReturnE := do
  memoryAllocFrames
  memoryAcquireRef
  memoryAllocPagesFrom
  let err ← memoryMmapDirect true
  if err ≠ .osNoErr then memoryCopySelfClean ⟨true, true, true, false, false, false⟩ err
  else return .osNoErr

/-- `memory_copy_self_pgtable`. The error that it saves is the one of its last call, or was never set. -/
def memoryCopySelfPgtable : Code OsReturnE := do
  let copied ← looped do
    if ← test then
      memoryAllocFrames
      let err ← memoryMmapDirect true
      if err ≠ .osNoErr then
        memoryFreeFrames
        return false
      else
        memoryAcquireRef
        repeated do .when (← test) memoryAcquireRef
        memoryMunmap
        return true
    else return true
  let savedErr ← .reply Query.report
  .when (!copied) do
    repeated do
      .when (← test) do
        let err ← memoryMmapDirect true
        .assert (err = .osNoErr)
        repeated do .when (← test) memoryReleaseRef
        memoryMunmap
        memoryFreeFrames
  return savedErr

def memoryCopySelfStack : Code OsReturnE := do
  let copied ← looped do
    .when (← test) do
      memoryAllocFrames
      memoryAcquireRef
    let err ← memoryMmapDirect true
    if err ≠ .osNoErr then
      memoryFreeFrames
      return false
    else
      memoryAllocFrames
      memoryAcquireRef
      let err ← memoryMmapDirect true
      if err ≠ .osNoErr then
        memoryMunmap
        memoryFreeFrames
        memoryFreeFrames
        return false
      else
        memoryMunmap
        memoryMunmap
        return true
  if copied then return .osNoErr
  else
    repeated do
      let err ← memoryMmapDirect true
      .assert (err = .osNoErr)
      memoryFreeFrames
      memoryMunmap
    memoryFreeFrames
    return .osErrMemoryNotMapped

def pagingCopyFreePageTable : Code Unit := do
  kqueueCreateQueue
  repeated do
    .assert (← kmalloc)
    kqueueCreateNode

def memoryCopySelfMapping : Code OsReturnE := do
  if ← test then return .osErrNullPointer
  else
    let err ← memoryCreateNewPagedir
    if err ≠ .osNoErr then memoryCopySelfClean ⟨false, false, false, false, false, false⟩ err
    else
      memoryAllocPagesFrom
      memoryAllocPagesFrom
      let err ← memoryCopySelfPgtable
      if err ≠ .osNoErr then memoryCopySelfClean ⟨true, true, true, true, true, true⟩ err
      else
        let err ← memoryCopySelfStack
        if err ≠ .osNoErr then memoryCopySelfClean ⟨true, true, true, true, true, true⟩ err
        else
          memoryMunmap
          memoryFreePagesTo
          memoryFreePagesTo
          memoryFreePagesTo
          pagingCopyFreePageTable
          return .osNoErr

/-! ## Threads -/

def schedCleanThreadResources : Code Unit := do
  repeated do
    futexCleanup
    kqueueDeleteNode
  kqueueDeleteQueue

/-- The node of a thread leaves the queue it is in, if it is in one. -/
def dropNode : Code Unit := do
  .when (← test) do
    kqueueRemove
    kqueueDeleteNode

/-- The stacks of a thread of another process, or of the active one. -/
def cleanStacks : Code Unit := do
  if ← test then
    memoryFreeProcessData
    memoryFreeProcessData
  else
    let err ← memoryFreeStack
    .assert (err = .osNoErr)
    let err ← memoryFreeStack
    .assert (err = .osNoErr)

def schedCleanThread : Code Unit := do
  let intState ← enterCritical
  schedCleanThreadResources
  cleanStacks
  dropNode
  dropNode
  .assert (← test)
  kqueueRemove
  kqueueDeleteNode
  kfree
  exitCritical intState

def schedCopyKernelThread : Code OsReturnE := do
  .assert (← test)
  kqueueCreateQueue
  let intState ← enterCritical
  exitCritical intState
  return .osNoErr

/-- `thread_exit`, which the scheduler does not return to. -/
def threadExit : Code Unit := do
  .assert (← test)
  let intState ← enterCritical
  kqueueDeleteNode
  exitCritical intState
  schedSchedule
  .assert false

def schedJoinThread : Code OsReturnE := do
  if ← test then return .osErrNullPointer
  else if ← test then return .osErrUnauthorizedAction
  else if ← test then
    schedCleanThread
    return .osNoErr
  else
    schedSchedule
    schedCleanThread
    return .osNoErr

def schedCreateKernelThread : Code OsReturnE := do
  if ← test then return .osErrNullPointer
  else if ← test then return .osErrForbidenPriority
  else if ← test then return .osErrUnauthorizedAction
  else if ← kmalloc then
    kqueueCreateNode
    kqueueCreateNode
    let kstack ← memoryAllocStack true
    if kstack.1 = false ∨ kstack.2 ≠ .osNoErr then
      kqueueDeleteNode
      kqueueDeleteNode
      kfree
      return kstack.2
    else
      let stack ← memoryAllocStack true
      if stack.1 = false ∨ stack.2 ≠ .osNoErr then
        kqueueDeleteNode
        kqueueDeleteNode
        let internalErr ← memoryFreeStack
        .assert (internalErr = .osNoErr)
        kfree
        return stack.2
      else
        kqueueCreateQueue
        let intState ← enterCritical
        exitCritical intState
        return .osNoErr
  else return .osErrMalloc

/-! ## Processes -/

def schedCleanProcess : Code Unit := do
  let intState ← enterCritical
  repeated schedCleanThread
  memoryDeleteFreePageTable
  memoryCleanProcessMemory
  kqueueDeleteQueue
  kqueueDeleteQueue
  kfree
  exitCritical intState

/-- What a fork that fails frees outside of its critical section, after the nodes of the thread. -/
def forkFree (mainThread : Bool) : Code Unit := do
  kqueueDeleteQueue
  kqueueDeleteQueue
  kqueueDeleteNode
  .when mainThread kfree
  kfree

def schedForkProcess : Code Unit := do
  .assert (← test)
  .assert (← test)
  if ← test then return ()
  else if ← kmalloc then
    kqueueCreateNode
    let intState ← enterCritical
    kqueueCreateQueue
    kqueueCreateQueue
    kqueueCreateQueue
    if ← kmalloc then
      let err ← schedCopyKernelThread
      if err ≠ .osNoErr then
        kqueueRemove
        exitCritical intState
        forkFree true
      else
        kqueueCreateNode
        kqueueCreateNode
        let err ← memoryCopySelfMapping
        if err ≠ .osNoErr then
          kqueueRemove
          kqueueRemove
          schedCleanThreadResources
          kqueueRemove
          exitCritical intState
          kqueueDeleteNode
          kqueueDeleteNode
          forkFree true
        else exitCritical intState
    else
      kqueueRemove
      exitCritical intState
      forkFree false
  else return ()

/-- `sched_wait_process_pid`, which leaves its section a second time at its end. -/
def schedWaitProcessPid : Code Unit := do
  .assert (← test)
  .assert (← test)
  let intState ← enterCritical
  if ← test then exitCritical intState
  else
    let _ ← schedJoinThread
    exitCritical intState
    schedCleanProcess
    kqueueRemove
    exitCritical intState
    kqueueDeleteNode

/-- `sched_exit_process`, which the scheduler does not return to. -/
def schedExitProcess : Code Unit := do
  .assert (← test)
  let intState ← enterCritical
  repeated do
    dropNode
    dropNode
  .assert (← test)
  kqueueRemove
  kqueueDeleteNode
  schedSchedule
  .assert false
  exitCritical intState

/-! ## The functions that enter a critical section -/

inductive Function
  | memoryInvocateCow
  | memoryAllocStack (err : Bool)
  | memoryFreeStack
  | memoryMmap (err : Bool)
  | memoryMmapDirect (err : Bool)
  | memoryMunmap
  | memoryDeclareHw
  | memoryAllocPage
  | futexCleanup
  | futexWait
  | futexWake
  | schedCleanProcess
  | schedForkProcess
  | schedWaitProcessPid
  | schedExitProcess
  | threadExit
  | schedCopyKernelThread
  | schedCleanThread
  | schedUnlockThread (doSchedule : Bool)
  | schedCreateKernelThread
  deriving DecidableEq, Repr

/-- A call of the function, without what it returns. -/
def Function.call : Function → Code Unit
  | .memoryInvocateCow => do let _ ← Critical.memoryInvocateCow
  | .memoryAllocStack err => do let _ ← Critical.memoryAllocStack err
  | .memoryFreeStack => do let _ ← Critical.memoryFreeStack
  | .memoryMmap err => do let _ ← Critical.memoryMmap err
  | .memoryMmapDirect err => do let _ ← Critical.memoryMmapDirect err
  | .memoryMunmap => Critical.memoryMunmap
  | .memoryDeclareHw => do let _ ← Critical.memoryDeclareHw
  | .memoryAllocPage => Critical.memoryAllocPage
  | .futexCleanup => Critical.futexCleanup
  | .futexWait => Critical.futexWait
  | .futexWake => Critical.futexWake
  | .schedCleanProcess => Critical.schedCleanProcess
  | .schedForkProcess => Critical.schedForkProcess
  | .schedWaitProcessPid => Critical.schedWaitProcessPid
  | .schedExitProcess => Critical.schedExitProcess
  | .threadExit => Critical.threadExit
  | .schedCopyKernelThread => do let _ ← Critical.schedCopyKernelThread
  | .schedCleanThread => Critical.schedCleanThread
  | .schedUnlockThread doSchedule => do let _ ← Critical.schedUnlockThread doSchedule
  | .schedCreateKernelThread => do let _ ← Critical.schedCreateKernelThread

end UtkKernel.Critical
