import UtkKernel.Structures.Kqueue
import UtkKernel.Sync.Futex

/-! # The scheduler (`core/src/scheduler.c`)

One processor, the thread tables, the process tables and the futex table. The active thread runs the
kernel functions; a stretch of one of them that no timer interrupt can cut (a critical section, or a
single statement outside of one) is one action, and between two actions the timer may elect another
thread. `SchedPc` says where a thread goes on when it runs again.

A thread has one scheduler node, so queues hold threads. Threads and processes are named by the
identifiers they are given, and a freed one is no longer in its table. A function gives `none` where
the source panics, reads a freed structure or pushes a node that is in a queue already: the run does
not go on from there. -/

namespace UtkKernel.Scheduler
open Structures Sync
set_option autoImplicit false

/-! ## Data -/

/-- `KERNEL_LOWEST_PRIORITY` -/
def kernelLowestPriority : ℕ := 63

/-- `KERNEL_MAX_PROCESS` -/
def kernelMaxProcess : ℕ := 4096

/-- The threads that `sched_init` creates. -/
def idleThread : ℕ := 0
def initThread : ℕ := 1

/-- The main kernel process. -/
def mainKprocess : ℕ := 0

/-- `THREAD_STATE_E` -/
inductive ThreadState
  | running
  | ready
  | sleeping
  | zombie
  | joining
  | copying
  | waiting
  deriving DecidableEq, Repr

/-- `THREAD_WAIT_TYPE_E` -/
inductive ThreadWaitType
  | resource
  | io
  deriving DecidableEq, Repr

/-- The fields of `kernel_thread_t` that scheduling reads. A resource is the address of the futex the
thread waits on. -/
structure KernelThread where
  process : ℕ
  priority : ℕ
  state : ThreadState
  blockType : ThreadWaitType
  wakeupTime : ℕ
  joiningThread : Option ℕ
  resources : List ℕ
  deriving DecidableEq, Repr

/-- The fields of `kernel_process_t` that scheduling reads. -/
structure KernelProcess where
  parentProcess : Option ℕ
  mainThread : ℕ
  threads : List ℕ
  children : List ℕ
  deadChildren : List ℕ
  deriving DecidableEq, Repr

/-- Where a thread goes on: in its own code, or at the named point of a kernel function. -/
inductive SchedPc
  | user
  | yield
  | joinCheck (thread : ℕ)
  | joinState (thread : ℕ)
  | joinSet (thread : ℕ)
  | joinYield (thread : ℕ)
  | joinClean (thread : ℕ)
  | exitJoiner
  | waitYield (child thread : ℕ)
  | waitJoined (child thread : ℕ)
  | waitClean (child : ℕ)
  | waitRemove (child : ℕ)
  deriving DecidableEq, Repr

structure Sched where
  threads : ℕ → Option KernelThread
  processes : ℕ → Option KernelProcess
  activeThreadsTable : ℕ → List ℕ
  sleepingThreadsTable : List (KqueueNode ℕ)
  activeThread : ℕ
  futexTable : ℕ → WaitQueue ℕ
  lastGivenTid : ℕ
  lastGivenPid : ℕ
  threadCount : ℕ
  processCount : ℕ
  pc : ℕ → SchedPc

namespace Sched

/-! ## Updates -/

def setThread (s : Sched) (tid : ℕ) (t : KernelThread) : Sched :=
  { s with threads := Function.update s.threads tid (some t) }

def setProcess (s : Sched) (pid : ℕ) (p : KernelProcess) : Sched :=
  { s with processes := Function.update s.processes pid (some p) }

def setPc (s : Sched) (pc : SchedPc) : Sched :=
  { s with pc := Function.update s.pc s.activeThread pc }

/-- Is the node of the thread in a ready queue or in the sleeping queue? -/
def enlisted (s : Sched) (tid : ℕ) : Bool :=
  (List.range (kernelLowestPriority + 1)).any (fun i => decide (tid ∈ s.activeThreadsTable i)) ||
    decide (tid ∈ s.sleepingThreadsTable.map KqueueNode.data)

/-- The thread becomes ready and its node is pushed in the queue of its priority. -/
def pushReady (s : Sched) (tid : ℕ) (t : KernelThread) : Option Sched :=
  if s.enlisted tid then none
  else some { s.setThread tid { t with state := .ready } with
    activeThreadsTable := Function.update s.activeThreadsTable t.priority
      (kqueuePush tid (s.activeThreadsTable t.priority)) }

/-! ## Election -/

/-- The first step of `select_thread`: the active thread goes to the queue of its state. -/
def enqueueActive (s : Sched) (t : KernelThread) : Option Sched :=
  match t.state with
  | .running => s.pushReady s.activeThread t
  | .sleeping =>
    if s.enlisted s.activeThread then none
    else some { s with
      sleepingThreadsTable :=
        kqueuePushPrio ⟨s.activeThread, t.wakeupTime % 2 ^ 32⟩ s.sleepingThreadsTable }
  | _ => some s

/-- The loop of `select_thread` over the sleeping queue. Every turn but the last shortens the queue, so
its length is fuel enough. -/
def wakeSleepers (currentTime : ℕ) : ℕ → Sched → Option Sched
  | 0, s => some s
  | fuel + 1, s =>
    match kqueuePop s.sleepingThreadsTable with
    | none => some s
    | some (node, rest) =>
      match s.threads node.data with
      | none => none
      | some t =>
        if t.wakeupTime < currentTime then
          ({ s with sleepingThreadsTable := rest }.pushReady node.data t).bind
            (wakeSleepers currentTime fuel)
        else some { s with
          sleepingThreadsTable := kqueuePushPrio ⟨node.data, t.wakeupTime % 2 ^ 32⟩ rest }

/-- The loop of `select_thread` over the priorities from `i` on, for at most `n` of them: the thread
popped, its queue and what is left of it. -/
def electFrom (table : ℕ → List ℕ) : ℕ → ℕ → Option (ℕ × ℕ × List ℕ)
  | 0, _ => none
  | n + 1, i =>
    match kqueuePop (table i) with
    | some (tid, rest) => some (i, tid, rest)
    | none => electFrom table n (i + 1)

/-- The last step of `select_thread`: the elected thread leaves its queue and runs. -/
def elect (s : Sched) : Option Sched :=
  (electFrom s.activeThreadsTable (kernelLowestPriority + 1) 0).bind fun r =>
    (s.threads r.2.1).map fun t =>
      { s.setThread r.2.1 { t with state := .running } with
        activeThreadsTable := Function.update s.activeThreadsTable r.1 r.2.2
        activeThread := r.2.1 }

/-- `select_thread` -/
def selectThread (s : Sched) (currentTime : ℕ) : Option Sched :=
  (s.threads s.activeThread).bind fun t =>
    (s.enqueueActive t).bind fun s1 =>
      (wakeSleepers currentTime s1.sleepingThreadsTable.length s1).bind elect

/-! ## Threads -/

/-- `sched_sleep` up to its call of `sched_schedule`. -/
def schedSleep (s : Sched) (t : KernelThread) (currTime timeMs : ℕ) : Sched :=
  if s.activeThread = idleThread then s
  else
    (s.setThread s.activeThread
      { t with wakeupTime := (currTime + timeMs * 1000000) % 2 ^ 64, state := .sleeping }).setPc .yield

/-- `sched_create_kernel_thread`, when its allocations succeed; the thread is visible to the rest of
the kernel from its last critical section on. -/
def schedCreateKernelThread (s : Sched) (t : KernelThread) (priority : ℕ) : Option Sched :=
  if priority > kernelLowestPriority then some s
  else
    (s.processes t.process).bind fun p =>
      { s.setProcess t.process { p with threads := kqueuePush s.lastGivenTid p.threads } with
        lastGivenTid := s.lastGivenTid + 1
        threadCount := s.threadCount + 1
        pc := Function.update s.pc s.lastGivenTid .user }.pushReady s.lastGivenTid
          ⟨t.process, priority, .ready, .resource, 0, none, []⟩

/-- `sched_set_thread_params` -/
def schedSetThreadParams (s : Sched) (t : KernelThread) (priority : ℕ) : Sched :=
  if priority ≤ kernelLowestPriority then s.setThread s.activeThread { t with priority := priority }
  else s

/-- `sched_lock_thread`; the idle thread cannot be locked. -/
def schedLockThread (s : Sched) (t : KernelThread) (blockType : ThreadWaitType) : Sched :=
  s.setThread s.activeThread { t with state := .waiting, blockType := blockType }

/-- `sched_unlock_thread` without a schedule; its callers panic on an error. -/
def schedUnlockThread (s : Sched) (tid : ℕ) (blockType : ThreadWaitType) : Option Sched :=
  (s.threads tid).bind fun t =>
    if tid = idleThread ∨ t.state ≠ .waiting ∨ t.blockType ≠ blockType then none
    else s.pushReady tid t

/-- Where `futex_wait` fails: before it locks the thread, or when it registers the futex as a resource
of the locked thread. -/
inductive FutexFault
  | table
  | resource
  deriving DecidableEq, Repr

/-- `futex_wait` on a word that holds `value`. The recovery of a wait that created the queue of its
address looks for the entry to remove under the virtual address, does not find it and panics. -/
def futexWaitThread (s : Sched) (t : KernelThread) (addr : ℕ) (value val : BitVec 32)
    (fault : Option FutexFault) : Option Sched :=
  match futexWait value val s.activeThread none (s.futexTable addr) with
  | (.returned _, _) => some s
  | (.blocked, queue) =>
    if fault = some .table then some s
    else if s.activeThread = idleThread then
      if s.futexTable addr = none then none else some s
    else if fault = some .resource then
      if s.futexTable addr = none then none
      else (s.schedLockThread t .resource).schedUnlockThread s.activeThread .resource
    else
      let locked := { t with resources := kqueuePush addr t.resources }
      some ({ s with futexTable := Function.update s.futexTable addr queue }.schedLockThread locked
        .resource |>.setPc .yield)

/-- The body of the loop of `futex_wake` for one woken thread. -/
def wakeWaiter (addr : ℕ) (s : Sched) (tid : ℕ) : Option Sched :=
  (s.threads tid).bind fun t =>
    if addr ∈ t.resources then
      (s.setThread tid { t with resources := t.resources.erase addr }).schedUnlockThread tid .resource
    else none

/-- `futex_wake` on a word that holds `value`. -/
def futexWakeThreads (s : Sched) (addr : ℕ) (value : BitVec 32) (val : ℕ) : Option Sched :=
  match futexWake value val (s.futexTable addr) with
  | (_, woken, queue) =>
    woken.foldlM (wakeWaiter addr) { s with futexTable := Function.update s.futexTable addr queue }

/-! ## Cleaning -/

/-- `futex_cleanup` for one resource of a thread: its entry leaves the wait queue. -/
def futexCleanup (tid : ℕ) (s : Sched) (addr : ℕ) : Option Sched :=
  (s.futexTable addr).bind fun queue =>
    if queue.any (fun w => w.waitingThread = tid) then
      some { s with
        futexTable := Function.update s.futexTable addr
          (some (queue.eraseP fun w => w.waitingThread = tid)) }
    else none

/-- `sched_clean_thread`. The resource records of a thread lie on its kernel stack, which only its own
process maps. A thread that sleeps is looked up in one queue and removed from another: a panic. -/
def schedCleanThread (s : Sched) (tid : ℕ) : Option Sched :=
  (s.threads tid).bind fun t =>
    (s.threads s.activeThread).bind fun a =>
      if tid = s.activeThread ∨ (t.resources ≠ [] ∧ t.process ≠ a.process) then none
      else
        (t.resources.foldlM (futexCleanup tid) s).bind fun s1 =>
          (s1.processes t.process).bind fun p =>
            if tid ∈ s1.sleepingThreadsTable.map KqueueNode.data ∨ tid ∉ p.threads then none
            else some { s1.setProcess t.process { p with threads := p.threads.erase tid } with
              activeThreadsTable := Function.update s1.activeThreadsTable t.priority
                ((s1.activeThreadsTable t.priority).erase tid)
              threads := Function.update s1.threads tid none }

/-- The children of a cleaned process go to the main kernel process. -/
def reparent (s : Sched) (pid : ℕ) : Option Sched :=
  (s.processes pid).bind fun p =>
    (p.children.reverse.foldlM (fun s child =>
      (s.processes child).bind fun c =>
        (s.processes mainKprocess).map fun m =>
          (s.setProcess child { c with parentProcess := some mainKprocess }).setProcess mainKprocess
            { m with children := kqueuePush child m.children }) s)

/-- `sched_clean_process` -/
def schedCleanProcess (s : Sched) (pid : ℕ) : Option Sched :=
  (s.processes pid).bind fun p =>
    (p.threads.foldlM schedCleanThread s).bind fun s1 =>
      (s1.reparent pid).map fun s2 =>
        { s2 with processes := Function.update s2.processes pid none }

end Sched

end UtkKernel.Scheduler
