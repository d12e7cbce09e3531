import UtkKernel.Foundations.Runs
import UtkKernel.Scheduler.Model

/-! # The calls of the active thread

Exit, join, fork, the system calls on processes, and the step relation: the timer elects, or the active
thread starts a call or goes on with the one it is in. -/

namespace UtkKernel.Scheduler
open Structures Sync
set_option autoImplicit false

namespace Sched

/-! ## Exit -/

/-- `thread_exit` up to its critical section. -/
def threadExit (s : Sched) (t : KernelThread) : Option Sched :=
  if s.activeThread = idleThread then none
  else some ((s.setThread s.activeThread { t with state := .zombie }).setPc .exitJoiner)

/-- The thread that joins `joined`, if any, is made ready. -/
def wakeJoiner (s : Sched) (joined : KernelThread) : Option Sched :=
  match joined.joiningThread with
  | none => some s
  | some joiner =>
    (s.threads joiner).bind fun j => if j.state = .joining then s.pushReady joiner j else some s

/-- `kqueue_delete_node(&active_thread_node)`, which panics if the node is in a queue. -/
def deleteActiveNode (s : Sched) : Option Sched :=
  if s.enlisted s.activeThread then none else some (s.setPc .yield)

/-- The critical section of `thread_exit`. -/
def threadExitJoiner (s : Sched) (t : KernelThread) : Option Sched :=
  (s.wakeJoiner t).bind deleteActiveNode

/-- The loop of `sched_exit_process` for one thread: it is a zombie and leaves the queues. -/
def stopThread (s : Sched) (tid : ℕ) : Option Sched :=
  (s.threads tid).map fun t =>
    { s.setThread tid { t with state := .zombie } with
      activeThreadsTable := Function.update s.activeThreadsTable t.priority
        ((s.activeThreadsTable t.priority).erase tid)
      sleepingThreadsTable := s.sleepingThreadsTable.eraseP fun n => n.data = tid }

/-- The process moves to the dead children of its parent; the main kernel process has none. -/
def buryProcess (s : Sched) (pid : ℕ) (p : KernelProcess) : Option Sched :=
  p.parentProcess.bind fun parent =>
    (s.processes parent).bind fun q =>
      if pid ∈ q.children then
        some (s.setProcess parent { q with
          children := q.children.erase pid, deadChildren := kqueuePush pid q.deadChildren })
      else none

/-- `sched_exit_process` up to its call of `sched_schedule`. A node that the loop took out of a queue
was freed there, so the active thread must not have been in one. -/
def schedExitProcess (s : Sched) (t : KernelThread) : Option Sched :=
  if s.enlisted s.activeThread then none
  else
    (s.processes t.process).bind fun p =>
      (p.threads.foldlM stopThread s).bind fun s1 =>
        (s1.buryProcess t.process p).bind fun s2 =>
          (s2.threads p.mainThread).bind fun main =>
            (s2.wakeJoiner main).map fun s3 => s3.setPc .yield

/-! ## Join -/

/-- The first test of `sched_join_thread`. -/
def joinStart (s : Sched) (target : ℕ) : Option Sched :=
  (s.threads target).map fun t =>
    if t.joiningThread ≠ none then s else s.setPc (.joinCheck target)

/-- The second test: a zombie is cleaned at once. -/
def joinCheck (s : Sched) (target : ℕ) : Option Sched :=
  (s.threads target).bind fun t =>
    if t.state = .zombie then (s.schedCleanThread target).map fun s' => s'.setPc .user
    else some (s.setPc (.joinState target))

def joinState (s : Sched) (t : KernelThread) (target : ℕ) : Sched :=
  (s.setThread s.activeThread { t with state := .joining }).setPc (.joinSet target)

def joinSet (s : Sched) (target : ℕ) : Option Sched :=
  (s.threads target).map fun t =>
    (s.setThread target { t with joiningThread := some s.activeThread }).setPc (.joinYield target)

/-- What a joiner does when it runs again. -/
def joinClean (s : Sched) (target : ℕ) (next : SchedPc) : Option Sched :=
  (s.schedCleanThread target).map fun s' => s'.setPc next

/-! ## Processes -/

/-- Where `sched_fork_process` fails: before the thread is copied, or when the memory is. -/
inductive ForkFault
  | thread
  | memory
  deriving DecidableEq, Repr

/-- `sched_fork_process`: the child has a ready copy of the calling thread. -/
def schedForkProcess (s : Sched) (t : KernelThread) (fault : Option ForkFault) : Option Sched :=
  if s.processCount ≥ kernelMaxProcess ∨ fault = some .thread then some s
  else if fault = some .memory then some { s with lastGivenTid := s.lastGivenTid + 1 }
  else
    (s.processes t.process).bind fun p =>
      { (s.setProcess t.process { p with children := kqueuePush s.lastGivenPid p.children }).setProcess
          s.lastGivenPid ⟨some t.process, s.lastGivenTid, [s.lastGivenTid], [], []⟩ with
        lastGivenTid := s.lastGivenTid + 1
        lastGivenPid := s.lastGivenPid + 1
        processCount := s.processCount + 1
        pc := Function.update s.pc s.lastGivenTid .user }.pushReady s.lastGivenTid
          { t with process := s.lastGivenPid, joiningThread := none, resources := [] }

/-- `sched_wait_process_pid` up to the return of `sched_join_thread` or its call of `sched_schedule`. -/
def schedWaitProcessPid (s : Sched) (t : KernelThread) (child : ℕ) : Option Sched :=
  (s.processes t.process).bind fun p =>
    if child ∉ p.children ∧ child ∉ p.deadChildren then some s
    else
      (s.processes child).bind fun c =>
        (s.threads c.mainThread).bind fun main =>
          if main.joiningThread ≠ none then some (s.setPc (.waitClean child))
          else if main.state = .zombie then s.joinClean c.mainThread (.waitClean child)
          else
            (s.setThread s.activeThread { t with state := .joining }).joinSet c.mainThread |>.map
              fun s' => s'.setPc (.waitYield child c.mainThread)

/-- The child leaves the dead children of the caller, where it has to be. -/
def waitRemove (s : Sched) (t : KernelThread) (child : ℕ) : Option Sched :=
  (s.processes t.process).bind fun p =>
    if child ∈ p.deadChildren then
      some ({ s.setProcess t.process { p with deadChildren := p.deadChildren.erase child } with
        processCount := s.processCount - 1 }.setPc .user)
    else none

/-! ## Steps -/

/-- What happens next: the timer elects at a time, the active thread starts a call, or it goes on with
the call it is in (electing at a time if that is what the call does). -/
inductive SchedAct
  | tick (currentTime : ℕ)
  | sleep (currTime timeMs : ℕ)
  | create (priority : ℕ)
  | fork (fault : Option ForkFault)
  | futexWait (addr : ℕ) (value val : BitVec 32) (fault : Option FutexFault)
  | futexWake (addr : ℕ) (value : BitVec 32) (val : ℕ)
  | setPriority (priority : ℕ)
  | join (target : ℕ)
  | exit
  | exitProcess
  | waitpid (child : ℕ)
  | go (currentTime : ℕ)
  deriving DecidableEq, Repr

/-- An election by a thread that goes on at `next` when it is elected again. -/
def yieldTo (s : Sched) (currentTime : ℕ) (next : SchedPc) : Option Sched :=
  (s.setPc next).selectThread currentTime

/-- The active thread goes on with its call. -/
def go (s : Sched) (t : KernelThread) (currentTime : ℕ) : Option Sched :=
  match s.pc s.activeThread with
  | .user => none
  | .yield => s.yieldTo currentTime .user
  | .joinCheck target => s.joinCheck target
  | .joinState target => some (s.joinState t target)
  | .joinSet target => s.joinSet target
  | .joinYield target => s.yieldTo currentTime (.joinClean target)
  | .joinClean target => s.joinClean target .user
  | .exitJoiner => s.threadExitJoiner t
  | .waitYield child main => s.yieldTo currentTime (.waitJoined child main)
  | .waitJoined child main => s.joinClean main (.waitClean child)
  | .waitClean child => (s.schedCleanProcess child).map fun s' => s'.setPc (.waitRemove child)
  | .waitRemove child => s.waitRemove t child

/-- The active thread starts a call. -/
def call (s : Sched) (t : KernelThread) : SchedAct → Option Sched
  | .sleep currTime timeMs => some (s.schedSleep t currTime timeMs)
  | .create priority => s.schedCreateKernelThread t priority
  | .fork fault => s.schedForkProcess t fault
  | .futexWait addr value val fault => s.futexWaitThread t addr value val fault
  | .futexWake addr value val => s.futexWakeThreads addr value val
  | .setPriority priority => some (s.schedSetThreadParams t priority)
  | .join target => s.joinStart target
  | .exit => s.threadExit t
  | .exitProcess => s.schedExitProcess t
  | .waitpid child => s.schedWaitProcessPid t child
  | .tick _ => none
  | .go _ => none

def exec (s : Sched) (a : SchedAct) : Option Sched :=
  (s.threads s.activeThread).bind fun t =>
    match a with
    | .tick currentTime => s.selectThread currentTime
    | .go currentTime => s.go t currentTime
    | a => if s.pc s.activeThread = .user then s.call t a else none

def Step (s : Sched) (a : SchedAct) (s' : Sched) : Prop := s.exec a = some s'

/-- The state that `sched_init` leaves: the idle thread is active, and it is ready and in its queue as
the init thread is in its. -/
def schedInit : Sched where
  threads := fun tid =>
    if tid = idleThread then some ⟨mainKprocess, kernelLowestPriority, .ready, .resource, 0, none, []⟩
    else if tid = initThread then some ⟨mainKprocess, 0, .ready, .resource, 0, none, []⟩
    else none
  processes := fun pid =>
    if pid = mainKprocess then some ⟨none, idleThread, [initThread, idleThread], [], []⟩ else none
  activeThreadsTable := fun i =>
    if i = kernelLowestPriority then [idleThread] else if i = 0 then [initThread] else []
  sleepingThreadsTable := []
  activeThread := idleThread
  futexTable := fun _ => none
  lastGivenTid := 2
  lastGivenPid := 1
  threadCount := 2
  processCount := 1
  pc := fun _ => .user

def Started (s : Sched) : Prop := s = schedInit

end Sched

end UtkKernel.Scheduler
