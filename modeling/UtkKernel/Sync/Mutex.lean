import UtkKernel.Foundations.Runs
import UtkKernel.Sync.Futex

/-! # The mutex (`lib/libapi/src/mutex.c`)

Any number of threads call `mutex_lock`, `mutex_trylock` and `mutex_unlock` on one mutex. A thread is
at a program point between two of its accesses to shared data, and one step is one such access: a
read of the lock word, a compare-and-swap, the fetch-and-add, the store, or a futex call. `mutex_lock`
and `mutex_trylock` share their code up to a failed first compare-and-swap. -/

namespace UtkKernel.Sync
set_option autoImplicit false

/-! ## Data -/

abbrev mutexStateUnlocked : BitVec 32 := 0#32
abbrev mutexStateLocked : BitVec 32 := 1#32
abbrev mutexStateLockedWait : BitVec 32 := 2#32
abbrev mutexFlagNone : BitVec 32 := 0#32
abbrev mutexFlagRecursive : BitVec 32 := 1#32
abbrev mutexPriorityElevationNone : BitVec 32 := 0xFFFF#32
abbrev kernelLowestPriority : BitVec 32 := 63#32

/-- Thread identifiers; `-1` is no thread. -/
abbrev Tid := ℤ

/-- `mutex_t` without `owner`, which no function here reads. -/
structure Mutex where
  state : BitVec 32
  flags : BitVec 32
  acquiredThreadPriority : BitVec 32
  lockerTid : Tid
  deriving DecidableEq, Repr

/-- `mutex_init` -/
def mutexInit (flags : BitVec 32) (priority : BitVec 16) : Except OsReturnE Mutex :=
  if priority.setWidth 32 > kernelLowestPriority ∧
      priority.setWidth 32 ≠ mutexPriorityElevationNone then
    .error .osErrForbidenPriority
  else .ok ⟨mutexStateUnlocked, flags ||| (priority.setWidth 32 <<< 8), 0, 0⟩

/-- `(mutex->flags >> 8) & MUTEX_PRIORITY_ELEVATION_NONE` -/
def Mutex.prio (m : Mutex) : BitVec 32 := (m.flags >>> 8) &&& mutexPriorityElevationNone

/-- `mutex->flags & MUTEX_FLAG_RECURSIVE` -/
def Mutex.recursive (m : Mutex) : BitVec 32 := m.flags &&& mutexFlagRecursive

/-- The state tests at the entry of every function: the mutex is initialised and not destroyed. -/
def isMutexState (state : BitVec 32) : Bool :=
  state == mutexStateUnlocked || state == mutexStateLocked || state == mutexStateLockedWait

/-- Where a thread is. `tryOnly` tells `mutex_trylock` from `mutex_lock`, `params` is the priority
that `SYSCALL_SCHED_GET_PARAMS` wrote in the local `sched_params`, `inner` is set in the unlock that a
lock makes when it cannot set its priority. The flag `woken` has no counterpart in the code: the
thread came back from its last futex wait because another thread woke it. -/
inductive MutexPc
  | ret (err : OsReturnE) (value : Option (BitVec 32))
  | check (tryOnly : Bool)
  | getParams (tryOnly : Bool)
  | fast (tryOnly : Bool) (params : Option (BitVec 32))
  | loop (mutexState : BitVec 32) (params : Option (BitVec 32)) (woken : Bool)
  | wait (params : Option (BitVec 32))
  | blocked (params : Option (BitVec 32))
  | retry (params : Option (BitVec 32)) (woken : Bool)
  | acquired (tryOnly : Bool) (params : Option (BitVec 32))
  | unlockCheck (inner : Option Bool)
  | unlockRestore (inner : Option Bool)
  | unlockAdd (inner : Option Bool)
  | unlockStore (inner : Option Bool)
  | unlockWake (inner : Option Bool)
  | exited
  deriving DecidableEq, Repr

/-- The mutex, its futex queue and the threads. `holds t`: the last lock or trylock of the thread
succeeded and it has not yet released the lock word since. -/
structure MutexSystem where
  mutex : Mutex
  waitQueue : WaitQueue Tid
  priority : Tid → BitVec 32
  pc : Tid → MutexPc
  holds : Tid → Bool

namespace MutexSystem

def goto (s : MutexSystem) (t : Tid) (pc : MutexPc) : MutexSystem :=
  { s with pc := Function.update s.pc t pc }

def setState (s : MutexSystem) (state : BitVec 32) : MutexSystem :=
  { s with mutex := { s.mutex with state := state } }

def setHolds (s : MutexSystem) (t : Tid) (b : Bool) : MutexSystem :=
  { s with holds := Function.update s.holds t b }

/-- `ATOMIC_CAS` on the lock word, for its effect; the value it returns is the word before it. -/
def atomicCas (s : MutexSystem) (oldVal newVal : BitVec 32) : MutexSystem :=
  s.setState (if s.mutex.state = oldVal then newVal else s.mutex.state)

/-- `sched_set_thread_params`: the error code and the priority of the calling thread after it. -/
def schedSetParams (s : MutexSystem) (t : Tid) (priority : BitVec 32) : OsReturnE × MutexSystem :=
  if priority ≤ kernelLowestPriority then
    (.osNoErr, { s with priority := Function.update s.priority t priority })
  else (.osErrForbidenPriority, s)

/-! ## Locking -/

def runCheck (s : MutexSystem) (t : Tid) (tryOnly : Bool) : MutexSystem :=
  if !isMutexState s.mutex.state then s.goto t (.ret .osErrNotInitialized none)
  else if s.mutex.prio ≠ mutexPriorityElevationNone ∨ s.mutex.recursive ≠ 0 then
    s.goto t (.getParams tryOnly)
  else s.goto t (.fast tryOnly none)

/-- `SYSCALL_SCHED_GET_PARAMS`, which has no error, and the test for the recursive owner. -/
def runGetParams (s : MutexSystem) (t : Tid) (tryOnly : Bool) : MutexSystem :=
  if s.mutex.recursive ≠ 0 ∧ t = s.mutex.lockerTid then
    (s.goto t (.ret .osNoErr none)).setHolds t true
  else s.goto t (.fast tryOnly (some (s.priority t)))

def runFast (s : MutexSystem) (t : Tid) (tryOnly : Bool) (params : Option (BitVec 32)) :
    MutexSystem :=
  let mutexState := s.mutex.state
  let s' := s.atomicCas mutexStateUnlocked mutexStateLocked
  if mutexState = mutexStateUnlocked then s'.goto t (.acquired tryOnly params)
  else if tryOnly then s'.goto t (.ret .osErrUnauthorizedAction (some mutexState))
  else s'.goto t (.loop mutexState params false)

/-- The head of the loop of `mutex_lock`; the compare-and-swap is made only if the first operand of
the disjunction is false. -/
def runLoop (s : MutexSystem) (t : Tid) (mutexState : BitVec 32) (params : Option (BitVec 32))
    (woken : Bool) : MutexSystem :=
  if mutexState = mutexStateLockedWait then s.goto t (.wait params)
  else
    let s' := s.atomicCas mutexStateLocked mutexStateLockedWait
    if s.mutex.state ≠ mutexStateUnlocked then s'.goto t (.wait params)
    else s'.goto t (.retry params woken)

def runWait (s : MutexSystem) (t : Tid) (params : Option (BitVec 32)) (fault : Option OsReturnE) :
    MutexSystem :=
  match futexWait s.mutex.state mutexStateLockedWait t fault s.waitQueue with
  | (.blocked, queue) => { s with waitQueue := queue }.goto t (.blocked params)
  | (.returned err, queue) =>
    if err ≠ .osNoErr then { s with waitQueue := queue }.goto t (.ret err none)
    else { s with waitQueue := queue }.goto t (.retry params false)

def runRetry (s : MutexSystem) (t : Tid) (params : Option (BitVec 32)) (woken : Bool) :
    MutexSystem :=
  let mutexState := s.mutex.state
  let s' := s.atomicCas mutexStateUnlocked mutexStateLockedWait
  if !isMutexState mutexState then s'.goto t (.ret .osErrNotInitialized none)
  else if mutexState = mutexStateUnlocked then s'.goto t (.acquired false params)
  else s'.goto t (.loop mutexState params woken)

/-- The thread that acquired the word fills the fields that only the owner uses, sets its priority to
`prio >> 8` and returns. -/
def runAcquired (s : MutexSystem) (t : Tid) (tryOnly : Bool) (params : Option (BitVec 32)) :
    MutexSystem :=
  let s1 := if s.mutex.recursive ≠ 0 then { s with mutex := { s.mutex with lockerTid := t } } else s
  let value := if tryOnly then some mutexStateUnlocked else none
  if s.mutex.prio ≠ mutexPriorityElevationNone then
    let s2 := { s1 with mutex := { s1.mutex with acquiredThreadPriority := params.getD 0 } }
    match s2.schedSetParams t (s.mutex.prio >>> 8) with
    | (.osNoErr, s3) => (s3.goto t (.ret .osNoErr value)).setHolds t true
    | (_, s3) => s3.goto t (.unlockCheck (some tryOnly))
  else (s1.goto t (.ret .osNoErr value)).setHolds t true

/-! ## Unlocking -/

/-- The return of `mutex_unlock` to its caller: a user, or a lock that could not set its priority. -/
def finishUnlock (s : MutexSystem) (t : Tid) (inner : Option Bool) (err : OsReturnE) : MutexSystem :=
  match inner with
  | none => s.goto t (.ret err none)
  | some tryOnly =>
    if err ≠ .osNoErr then s.goto t .exited
    else
      (s.goto t (.ret .osNoErr (if tryOnly then some mutexStateUnlocked else none))).setHolds t true

def runUnlockCheck (s : MutexSystem) (t : Tid) (inner : Option Bool) : MutexSystem :=
  if !isMutexState s.mutex.state then s.finishUnlock t inner .osErrNotInitialized
  else s.goto t (.unlockRestore inner)

def runUnlockRestore (s : MutexSystem) (t : Tid) (inner : Option Bool) : MutexSystem :=
  if s.mutex.prio ≠ mutexPriorityElevationNone then
    match s.schedSetParams t s.mutex.acquiredThreadPriority with
    | (.osNoErr, s') =>
      { s' with mutex := { s'.mutex with lockerTid := -1 } }.goto t (.unlockAdd inner)
    | (err, s') => s'.finishUnlock t inner err
  else { s with mutex := { s.mutex with lockerTid := -1 } }.goto t (.unlockAdd inner)

/-- `ATOMIC_FETCH_ADD(&mutex->state, -1)`. The `else if` of the source repeats the test that failed
and is never taken. -/
def runUnlockAdd (s : MutexSystem) (t : Tid) (inner : Option Bool) : MutexSystem :=
  let s' := (s.setState (s.mutex.state - 1)).setHolds t false
  if s.mutex.state ≠ mutexStateLocked then s'.goto t (.unlockStore inner)
  else s'.finishUnlock t inner .osNoErr

def runUnlockStore (s : MutexSystem) (t : Tid) (inner : Option Bool) : MutexSystem :=
  (s.setState mutexStateUnlocked).goto t (.unlockWake inner)

/-- A blocked thread leaves its futex wait. -/
def resume : MutexPc → MutexPc
  | .blocked params => .retry params true
  | pc => pc

def runUnlockWake (s : MutexSystem) (t : Tid) (inner : Option Bool) : MutexSystem :=
  match futexWake s.mutex.state 1 s.waitQueue with
  | (err, woken, queue) =>
    { s with waitQueue := queue,
             pc := fun u => if u ∈ woken then resume (s.pc u) else s.pc u }.finishUnlock t inner err

/-! ## Steps -/

/-- A thread between two calls starts a new one, or a thread in a call goes on; a futex wait may meet
a fault. -/
inductive MutexAct
  | lock
  | trylock
  | unlock
  | run (fault : Option OsReturnE)
  deriving DecidableEq, Repr

/-- One atomic step of thread `t`. A thread unlocks only a mutex it holds. -/
def exec (s : MutexSystem) (t : Tid) : MutexAct → Option MutexSystem
  | .lock =>
    match s.pc t with
    | .ret _ _ => some (s.goto t (.check false))
    | _ => none
  | .trylock =>
    match s.pc t with
    | .ret _ _ => some (s.goto t (.check true))
    | _ => none
  | .unlock =>
    match s.pc t with
    | .ret _ _ => if s.holds t then some (s.goto t (.unlockCheck none)) else none
    | _ => none
  | .run fault =>
    match s.pc t with
    | .ret _ _ => none
    | .check tryOnly => some (s.runCheck t tryOnly)
    | .getParams tryOnly => some (s.runGetParams t tryOnly)
    | .fast tryOnly params => some (s.runFast t tryOnly params)
    | .loop mutexState params woken => some (s.runLoop t mutexState params woken)
    | .wait params => some (s.runWait t params fault)
    | .blocked _ => none
    | .retry params woken => some (s.runRetry t params woken)
    | .acquired tryOnly params => some (s.runAcquired t tryOnly params)
    | .unlockCheck inner => some (s.runUnlockCheck t inner)
    | .unlockRestore inner => some (s.runUnlockRestore t inner)
    | .unlockAdd inner => some (s.runUnlockAdd t inner)
    | .unlockStore inner => some (s.runUnlockStore t inner)
    | .unlockWake inner => some (s.runUnlockWake t inner)
    | .exited => none

/-- Some thread takes an atomic step. -/
def Step (s : MutexSystem) (a : Tid × MutexAct) (s' : MutexSystem) : Prop :=
  s.exec a.1 a.2 = some s'

/-- The mutex was just initialised as a non-recursive one and no thread has called on it. -/
structure Started (priority : BitVec 16) (s : MutexSystem) : Prop where
  mutex : mutexInit mutexFlagNone priority = .ok s.mutex
  waitQueue : s.waitQueue = none
  pc : ∀ t, s.pc t = .ret .osNoErr none
  holds : ∀ t, s.holds t = false

end MutexSystem

end UtkKernel.Sync
