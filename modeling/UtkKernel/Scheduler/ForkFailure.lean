import Mathlib.Data.Finset.Card
import Mathlib.Data.Finset.Lattice.Fold
import UtkKernel.Scheduler.Model
import UtkKernel.Structures.KernelError

/-! # What a failed fork leaves behind (`sched_fork_process`)

The queues of the scheduler with their recorded size, the blocks of the kernel heap and the interrupt flag, as
far as `sched_fork_process` uses them. A block is named by its address. The kernel heap is given by what
`kmalloc` and `kfree` do to the set of its live blocks, and the copy of the memory image by its error and by
what it does to the heap; `none` is a panic. -/

namespace UtkKernel.Scheduler
open Structures
set_option autoImplicit false

variable {H : Type}

/-! ## Heap and queues -/

/-- What `sched_fork_process` allocates. -/
inductive ForkBlock
  | kernelProcess
  | kernelThread
  | kqueueNode
  | kqueue
  deriving DecidableEq, Repr

/-- `kmalloc` hands out a block that is not live, or `NULL` and nothing happens; `kfree` ends a live block. -/
structure KernelHeap (H : Type) where
  live : H → Finset ℕ
  kmalloc : H → ForkBlock → Option ℕ × H
  kfree : H → ℕ → H
  kmalloc_null {h h' : H} {b : ForkBlock} : kmalloc h b = (none, h') → live h' = live h
  kmalloc_block {h h' : H} {b : ForkBlock} {a : ℕ} :
    kmalloc h b = (some a, h') → a ∉ live h ∧ live h' = insert a (live h)
  kfree_live {h : H} {a : ℕ} : a ∈ live h → live (kfree h a) = (live h).erase a

/-- A queue: its nodes from the head on and the `size` it records, of the type `size_t`. -/
structure SizedQueue where
  nodes : List ℕ
  size : BitVec 32
  deriving DecidableEq, Repr

/-- `kqueue_create_queue` -/
def SizedQueue.empty : SizedQueue := ⟨[], 0⟩

/-- `kqueue_push` -/
def SizedQueue.push (node : ℕ) (queue : SizedQueue) : SizedQueue :=
  ⟨kqueuePush node queue.nodes, queue.size + 1⟩

/-- `kqueue_remove`, which is to panic if the node is not in the queue. The size stays. -/
def SizedQueue.remove (queue : SizedQueue) (node : ℕ) : Option SizedQueue :=
  if node ∈ queue.nodes then some ⟨queue.nodes.erase node, queue.size⟩ else none

/-- A node pushed and removed again: the nodes are as before, and the size is not. -/
theorem SizedQueue.remove_push (node : ℕ) (queue : SizedQueue) :
    (queue.push node).remove node = some ⟨queue.nodes, queue.size + 1⟩ := by
  have hmem : node ∈ (queue.push node).nodes := List.mem_cons_self ..
  rw [SizedQueue.remove, if_pos hmem]
  have herase : (queue.push node).nodes.erase node = queue.nodes := List.erase_cons_head ..
  rw [herase]
  rfl

theorem succ_ne_self (size : BitVec 32) : size + 1 ≠ size := by
  bv_omega

/-! ## State -/

structure ForkState (H : Type) where
  heap : H
  enlisted : ℕ → Bool
  children : SizedQueue
  activeThreadsTable : ℕ → SizedQueue
  lastGivenTid : BitVec 32
  threadCount : BitVec 32
  lastGivenPid : BitVec 32
  processCount : BitVec 32
  interrupts : Bool

namespace ForkState

/-- `ENTER_CRITICAL` -/
def enterCritical (s : ForkState H) : Bool × ForkState H := (s.interrupts, { s with interrupts := false })

/-- `EXIT_CRITICAL` -/
def exitCritical (s : ForkState H) (intState : Bool) : ForkState H :=
  { s with interrupts := intState || s.interrupts }

def pushChild (s : ForkState H) (node : ℕ) : ForkState H :=
  { s with children := s.children.push node, enlisted := Function.update s.enlisted node true }

def removeChild (s : ForkState H) (node : ℕ) : Option (ForkState H) :=
  (s.children.remove node).map fun children =>
    { s with children := children, enlisted := Function.update s.enlisted node false }

def pushReady (s : ForkState H) (priority node : ℕ) : ForkState H :=
  { s with
    activeThreadsTable :=
      Function.update s.activeThreadsTable priority ((s.activeThreadsTable priority).push node)
    enlisted := Function.update s.enlisted node true }

def removeReady (s : ForkState H) (priority node : ℕ) : Option (ForkState H) :=
  ((s.activeThreadsTable priority).remove node).map fun queue =>
    { s with
      activeThreadsTable := Function.update s.activeThreadsTable priority queue
      enlisted := Function.update s.enlisted node false }

/-- The push in the queue of threads of the new process, which nothing else knows yet. -/
def pushThread (s : ForkState H) (threads : SizedQueue) (node : ℕ) : SizedQueue × ForkState H :=
  (threads.push node, { s with enlisted := Function.update s.enlisted node true })

def removeThread (s : ForkState H) (threads : SizedQueue) (node : ℕ) :
    Option (SizedQueue × ForkState H) :=
  (threads.remove node).map fun threads =>
    (threads, { s with enlisted := Function.update s.enlisted node false })

variable (K : KernelHeap H)

def kmalloc (s : ForkState H) (b : ForkBlock) : Option ℕ × ForkState H :=
  ((K.kmalloc s.heap b).1, { s with heap := (K.kmalloc s.heap b).2 })

def kfree (s : ForkState H) (a : ℕ) : ForkState H := { s with heap := K.kfree s.heap a }

/-- `kqueue_create_node` -/
def kqueueCreateNode (s : ForkState H) : Option (ℕ × ForkState H) :=
  match s.kmalloc K .kqueueNode with
  | (none, _) => none
  | (some node, s) => some (node, { s with enlisted := Function.update s.enlisted node false })

/-- `kqueue_delete_node` -/
def kqueueDeleteNode (s : ForkState H) (node : ℕ) : Option (ForkState H) :=
  if s.enlisted node then none else some (s.kfree K node)

/-- `kqueue_create_queue`: the address of an empty queue. -/
def kqueueCreateQueue (s : ForkState H) : Option (ℕ × ForkState H) :=
  match s.kmalloc K .kqueue with
  | (none, _) => none
  | (some queue, s) => some (queue, s)

/-- `kqueue_delete_queue` of the queue at an address with its contents. -/
def kqueueDeleteQueue (s : ForkState H) (queue : ℕ) (contents : SizedQueue) : Option (ForkState H) :=
  if contents.nodes = [] then some (s.kfree K queue) else none

/-! ## `sched_fork_process` -/

/-- `sched_copy_kernel_thread`: the error, the copy, and the address of its queue of resources. -/
def schedCopyKernelThread (s : ForkState H) (activeThread : KernelThread) :
    Option (OsReturnE × KernelThread × ℕ × ForkState H) := do
  let (resources, s) ← s.kqueueCreateQueue K
  let (intState, s) := s.enterCritical
  let s := { s with lastGivenTid := s.lastGivenTid + 1 }
  let s := s.exitCritical intState
  return (.osNoErr, { activeThread with state := .copying, joiningThread := none, resources := [] },
    resources, s)

/-- `sched_clean_thread_resources` of a thread whose queue of resources is still empty. -/
def schedCleanThreadResources (s : ForkState H) (resources : ℕ) : Option (ForkState H) :=
  s.kqueueDeleteQueue K resources SizedQueue.empty

/-- The way out when there is no memory for the main thread. -/
def forkNoThread (s : ForkState H) (intState : Bool) (newProc newProcNode children threads : ℕ) :
    Option (BitVec 32 × ForkState H) := do
  let s ← s.removeChild newProcNode
  let s := s.exitCritical intState
  let s ← s.kqueueDeleteQueue K children SizedQueue.empty
  let s ← s.kqueueDeleteQueue K threads SizedQueue.empty
  let s ← s.kqueueDeleteNode K newProcNode
  return (-1, s.kfree K newProc)

/-- The way out when the thread is not copied. -/
def forkNoCopy (s : ForkState H) (intState : Bool)
    (newProc newProcNode children threads mainThread : ℕ) : Option (BitVec 32 × ForkState H) := do
  let s ← s.removeChild newProcNode
  let s := s.exitCritical intState
  let s ← s.kqueueDeleteQueue K children SizedQueue.empty
  let s ← s.kqueueDeleteQueue K threads SizedQueue.empty
  let s ← s.kqueueDeleteNode K newProcNode
  let s := s.kfree K mainThread
  return (-1, s.kfree K newProc)

/-- The way out when the memory image is not copied. -/
def forkNoMemory (s : ForkState H) (intState : Bool)
    (newProc newProcNode children threads mainThread : ℕ) (procThreads : SizedQueue)
    (main : KernelThread) (resources mainThreadNode mainThreadNodeTh : ℕ) :
    Option (BitVec 32 × ForkState H) := do
  let (procThreads, s) ← s.removeThread procThreads mainThreadNode
  let s ← s.removeReady main.priority mainThreadNodeTh
  let s ← s.schedCleanThreadResources K resources
  let s ← s.removeChild newProcNode
  let s := s.exitCritical intState
  let s ← s.kqueueDeleteNode K mainThreadNode
  let s ← s.kqueueDeleteNode K mainThreadNodeTh
  let s ← s.kqueueDeleteQueue K children SizedQueue.empty
  let s ← s.kqueueDeleteQueue K threads procThreads
  let s ← s.kqueueDeleteNode K newProcNode
  let s := s.kfree K mainThread
  return (-1, s.kfree K newProc)

/-- The part of `sched_fork_process` after the copy of the thread. -/
def forkMemory (copySelfMapping : H → OsReturnE × H) (s : ForkState H) (intState : Bool)
    (newProc newProcNode children threads mainThread : ℕ) (main : KernelThread) (resources : ℕ) :
    Option (BitVec 32 × ForkState H) := do
  let (mainThreadNode, s) ← s.kqueueCreateNode K
  let (procThreads, s) := s.pushThread SizedQueue.empty mainThreadNode
  let (mainThreadNodeTh, s) ← s.kqueueCreateNode K
  let s := s.pushReady main.priority mainThreadNodeTh
  let (err, heap) := copySelfMapping s.heap
  let s := { s with heap := heap }
  if err ≠ .osNoErr then
    s.forkNoMemory K intState newProc newProcNode children threads mainThread procThreads main resources
      mainThreadNode mainThreadNodeTh
  else
    let pid := s.lastGivenPid
    let s := { s with lastGivenPid := s.lastGivenPid + 1, processCount := s.processCount + 1 }
    return (pid, s.exitCritical intState)

/-- The part of `sched_fork_process` after the allocation of the new process. -/
def forkThread (copySelfMapping : H → OsReturnE × H) (s : ForkState H) (activeThread : KernelThread)
    (newProc : ℕ) : Option (BitVec 32 × ForkState H) := do
  let (newProcNode, s) ← s.kqueueCreateNode K
  let (intState, s) := s.enterCritical
  let s := s.pushChild newProcNode
  let (children, s) ← s.kqueueCreateQueue K
  -- No way out deletes the queue of dead children.
  let (_, s) ← s.kqueueCreateQueue K
  let (threads, s) ← s.kqueueCreateQueue K
  match s.kmalloc K .kernelThread with
  | (none, s) => s.forkNoThread K intState newProc newProcNode children threads
  | (some mainThread, s) =>
    let (err, main, resources, s) ← s.schedCopyKernelThread K activeThread
    if err ≠ .osNoErr then
      s.forkNoCopy K intState newProc newProcNode children threads mainThread
    else
      s.forkMemory K copySelfMapping intState newProc newProcNode children threads mainThread main resources

/-- `sched_fork_process`: the pid it reports. -/
def schedForkProcess (copySelfMapping : H → OsReturnE × H) (s : ForkState H)
    (activeThread : KernelThread) : Option (BitVec 32 × ForkState H) :=
  if s.processCount.toNat ≥ kernelMaxProcess then some (-1, s)
  else
    match s.kmalloc K .kernelProcess with
    | (none, s) => some (-1, s)
    | (some newProc, s) => s.forkThread K copySelfMapping activeThread newProc

/-! ## What a call keeps -/

/-- Nothing but the heap, the enlisted nodes and the last identifier of a thread differs. -/
structure SameQueues (s s' : ForkState H) : Prop where
  children : s'.children = s.children
  ready : s'.activeThreadsTable = s.activeThreadsTable
  threadCount : s'.threadCount = s.threadCount
  lastGivenPid : s'.lastGivenPid = s.lastGivenPid
  processCount : s'.processCount = s.processCount
  interrupts : s'.interrupts = s.interrupts

theorem SameQueues.refl (s : ForkState H) : SameQueues s s := ⟨rfl, rfl, rfl, rfl, rfl, rfl⟩

theorem SameQueues.trans {s s1 s2 : ForkState H} (h : SameQueues s s1) (h1 : SameQueues s1 s2) :
    SameQueues s s2 :=
  ⟨h1.children.trans h.children, h1.ready.trans h.ready, h1.threadCount.trans h.threadCount,
    h1.lastGivenPid.trans h.lastGivenPid, h1.processCount.trans h.processCount,
    h1.interrupts.trans h.interrupts⟩

variable {K} {s s' : ForkState H}

theorem sameQueues_kmalloc (s : ForkState H) (b : ForkBlock) : SameQueues s (s.kmalloc K b).2 :=
  ⟨rfl, rfl, rfl, rfl, rfl, rfl⟩

theorem sameQueues_kfree (s : ForkState H) (a : ℕ) : SameQueues s (s.kfree K a) :=
  ⟨rfl, rfl, rfl, rfl, rfl, rfl⟩

theorem sameQueues_createNode {node : ℕ} (h : s.kqueueCreateNode K = some (node, s')) :
    SameQueues s s' := by
  unfold kqueueCreateNode kmalloc at h
  cases hblock : (K.kmalloc s.heap .kqueueNode).1 with
  | none =>
    rw [hblock] at h
    exact nomatch h
  | some a =>
    rw [hblock] at h
    obtain ⟨-, rfl⟩ := Prod.mk.inj (Option.some.inj h)
    exact ⟨rfl, rfl, rfl, rfl, rfl, rfl⟩

theorem sameQueues_createQueue {queue : ℕ} (h : s.kqueueCreateQueue K = some (queue, s')) :
    SameQueues s s' := by
  unfold kqueueCreateQueue kmalloc at h
  cases hblock : (K.kmalloc s.heap .kqueue).1 with
  | none =>
    rw [hblock] at h
    exact nomatch h
  | some a =>
    rw [hblock] at h
    obtain ⟨-, rfl⟩ := Prod.mk.inj (Option.some.inj h)
    exact ⟨rfl, rfl, rfl, rfl, rfl, rfl⟩

theorem sameQueues_deleteNode {node : ℕ} (h : s.kqueueDeleteNode K node = some s') :
    SameQueues s s' := by
  unfold kqueueDeleteNode at h
  split_ifs at h
  obtain rfl := Option.some.inj h
  exact sameQueues_kfree s node

theorem sameQueues_deleteQueue {queue : ℕ} {contents : SizedQueue}
    (h : s.kqueueDeleteQueue K queue contents = some s') : SameQueues s s' := by
  unfold kqueueDeleteQueue at h
  split_ifs at h
  obtain rfl := Option.some.inj h
  exact sameQueues_kfree s queue

theorem sameQueues_copyThread {activeThread main : KernelThread} {err : OsReturnE} {resources : ℕ}
    (hcritical : s.interrupts = false)
    (h : s.schedCopyKernelThread K activeThread = some (err, main, resources, s')) :
    err = .osNoErr ∧ SameQueues s s' := by
  obtain ⟨⟨queue, s1⟩, hqueue, h⟩ := Option.bind_eq_some_iff.mp h
  have hsame := sameQueues_createQueue hqueue
  simp only [Option.pure_def, Option.some.injEq, Prod.mk.injEq] at h
  obtain ⟨rfl, -, -, rfl⟩ := h
  refine ⟨rfl, hsame.trans ⟨rfl, rfl, rfl, rfl, rfl, ?_⟩⟩
  have hs1 : s1.interrupts = false := hsame.interrupts.trans hcritical
  change (s1.interrupts || false) = s1.interrupts
  rw [hs1]
  rfl

/-- Between the push of the new process and its removal, in the critical section. -/
structure Begun (s0 : ForkState H) (node : ℕ) (s : ForkState H) : Prop where
  children : s.children = s0.children.push node
  ready (i : ℕ) : (s.activeThreadsTable i).nodes = (s0.activeThreadsTable i).nodes
  threadCount : s.threadCount = s0.threadCount
  lastGivenPid : s.lastGivenPid = s0.lastGivenPid
  processCount : s.processCount = s0.processCount
  interrupts : s.interrupts = false

/-- What a way out after the first allocation leaves: all but a size as it was. -/
structure Left (s0 s : ForkState H) : Prop where
  children : s.children = ⟨s0.children.nodes, s0.children.size + 1⟩
  ready (i : ℕ) : (s.activeThreadsTable i).nodes = (s0.activeThreadsTable i).nodes
  threadCount : s.threadCount = s0.threadCount
  lastGivenPid : s.lastGivenPid = s0.lastGivenPid
  processCount : s.processCount = s0.processCount
  interrupts : s.interrupts = s0.interrupts

variable {s0 : ForkState H} {node : ℕ}

theorem Begun.same (h : Begun s0 node s) (hsame : SameQueues s s') : Begun s0 node s' :=
  ⟨hsame.children.trans h.children, fun i => (congrArg SizedQueue.nodes (congrFun hsame.ready i)).trans (h.ready i),
    hsame.threadCount.trans h.threadCount, hsame.lastGivenPid.trans h.lastGivenPid,
    hsame.processCount.trans h.processCount, hsame.interrupts.trans h.interrupts⟩

theorem Left.same (h : Left s0 s) (hsame : SameQueues s s') : Left s0 s' :=
  ⟨hsame.children.trans h.children, fun i => (congrArg SizedQueue.nodes (congrFun hsame.ready i)).trans (h.ready i),
    hsame.threadCount.trans h.threadCount, hsame.lastGivenPid.trans h.lastGivenPid,
    hsame.processCount.trans h.processCount, hsame.interrupts.trans h.interrupts⟩

theorem Left.of_same {s1 : ForkState H} (hsame : SameQueues s0 s1) (h : Left s1 s) : Left s0 s := by
  obtain ⟨hchildren, hready, hcount, hpid, hprocesses, hinterrupts⟩ := hsame
  refine ⟨?_, fun i => ?_, h.threadCount.trans hcount, h.lastGivenPid.trans hpid,
    h.processCount.trans hprocesses, h.interrupts.trans hinterrupts⟩
  · rw [h.children, hchildren]
  · rw [h.ready i, hready]

theorem begun_pushChild (s0 : ForkState H) (node : ℕ) :
    Begun s0 node (s0.enterCritical.2.pushChild node) :=
  ⟨rfl, fun _ => rfl, rfl, rfl, rfl, rfl⟩

/-- The new process leaves the children of its parent, and the critical section ends. -/
theorem Begun.leave (h : Begun s0 node s) (hremove : s.removeChild node = some s') :
    Left s0 (s'.exitCritical s0.interrupts) := by
  unfold removeChild at hremove
  rw [h.children, SizedQueue.remove_push] at hremove
  obtain rfl := Option.some.inj hremove
  refine ⟨rfl, h.ready, h.threadCount, h.lastGivenPid, h.processCount, ?_⟩
  change (s0.interrupts || s.interrupts) = s0.interrupts
  rw [h.interrupts, Bool.or_false]

theorem forkNoThread_left {newProc children threads : ℕ} {r : BitVec 32} (hbegun : Begun s0 node s)
    (h : s.forkNoThread K s0.interrupts newProc node children threads = some (r, s')) :
    r = -1 ∧ Left s0 s' := by
  obtain ⟨s1, h1, h⟩ := Option.bind_eq_some_iff.mp h
  obtain ⟨s2, h2, h⟩ := Option.bind_eq_some_iff.mp h
  obtain ⟨s3, h3, h⟩ := Option.bind_eq_some_iff.mp h
  obtain ⟨s4, h4, h⟩ := Option.bind_eq_some_iff.mp h
  obtain ⟨rfl, rfl⟩ := Prod.mk.inj (Option.some.inj h)
  have hleft := hbegun.leave h1
  exact ⟨rfl, (((hleft.same (sameQueues_deleteQueue h2)).same (sameQueues_deleteQueue h3)).same
    (sameQueues_deleteNode h4)).same (sameQueues_kfree s4 newProc)⟩

/-- The ready node of the main thread, pushed and removed. -/
theorem Begun.removeReady {priority ready : ℕ} (h : Begun s0 node s)
    (hsame : SameQueues (s.pushReady priority ready) s')
    {s'' : ForkState H} (hremove : s'.removeReady priority ready = some s'') : Begun s0 node s'' := by
  unfold ForkState.removeReady at hremove
  have htable : s'.activeThreadsTable priority = (s.activeThreadsTable priority).push ready := by
    rw [hsame.ready]
    exact Function.update_self ..
  rw [htable, SizedQueue.remove_push] at hremove
  obtain rfl := Option.some.inj hremove
  refine ⟨hsame.children.trans h.children, fun i => ?_, hsame.threadCount.trans h.threadCount,
    hsame.lastGivenPid.trans h.lastGivenPid, hsame.processCount.trans h.processCount,
    hsame.interrupts.trans h.interrupts⟩
  by_cases hi : i = priority
  · subst hi
    have hupdate : Function.update s'.activeThreadsTable i
        ⟨(s.activeThreadsTable i).nodes, (s.activeThreadsTable i).size + 1⟩ i =
        ⟨(s.activeThreadsTable i).nodes, (s.activeThreadsTable i).size + 1⟩ := Function.update_self ..
    exact (congrArg SizedQueue.nodes hupdate).trans (h.ready i)
  · rw [← h.ready i]
    have hupdate : Function.update s'.activeThreadsTable priority
        ⟨(s.activeThreadsTable priority).nodes, (s.activeThreadsTable priority).size + 1⟩ i =
        s.activeThreadsTable i := by
      rw [Function.update_of_ne hi, hsame.ready]
      exact Function.update_of_ne hi ..
    exact congrArg SizedQueue.nodes hupdate

theorem sameQueues_removeThread {threads threads' : SizedQueue}
    (h : s.removeThread threads node = some (threads', s')) : SameQueues s s' := by
  obtain ⟨queue, -, hs'⟩ := Option.map_eq_some_iff.mp h
  obtain ⟨-, rfl⟩ := Prod.mk.inj hs'
  exact ⟨rfl, rfl, rfl, rfl, rfl, rfl⟩

theorem forkNoMemory_left {newProc children threads mainThread resources threadNode readyNode : ℕ}
    {procThreads : SizedQueue} {main : KernelThread} {r : BitVec 32} {s1 : ForkState H}
    (hbegun : Begun s0 node s1) (hpushed : SameQueues (s1.pushReady main.priority readyNode) s)
    (h : s.forkNoMemory K s0.interrupts newProc node children threads mainThread procThreads main resources
      threadNode readyNode = some (r, s')) :
    r = -1 ∧ Left s0 s' := by
  obtain ⟨⟨left, t1⟩, h1, h⟩ := Option.bind_eq_some_iff.mp h
  obtain ⟨t2, h2, h⟩ := Option.bind_eq_some_iff.mp h
  obtain ⟨t3, h3, h⟩ := Option.bind_eq_some_iff.mp h
  obtain ⟨t4, h4, h⟩ := Option.bind_eq_some_iff.mp h
  obtain ⟨t5, h5, h⟩ := Option.bind_eq_some_iff.mp h
  obtain ⟨t6, h6, h⟩ := Option.bind_eq_some_iff.mp h
  obtain ⟨t7, h7, h⟩ := Option.bind_eq_some_iff.mp h
  obtain ⟨t8, h8, h⟩ := Option.bind_eq_some_iff.mp h
  obtain ⟨t9, h9, h⟩ := Option.bind_eq_some_iff.mp h
  obtain ⟨rfl, rfl⟩ := Prod.mk.inj (Option.some.inj h)
  have hremoved : Begun s0 node t2 := hbegun.removeReady (hpushed.trans (sameQueues_removeThread h1)) h2
  have hleft := (hremoved.same (sameQueues_deleteQueue h3)).leave h4
  have hnodes := (hleft.same (sameQueues_deleteNode h5)).same (sameQueues_deleteNode h6)
  have hqueues := (hnodes.same (sameQueues_deleteQueue h7)).same (sameQueues_deleteQueue h8)
  exact ⟨rfl, ((hqueues.same (sameQueues_deleteNode h9)).same (sameQueues_kfree t9 mainThread)).same
    (sameQueues_kfree _ newProc)⟩

theorem forkMemory_left {copySelfMapping : H → OsReturnE × H} {main : KernelThread}
    {newProc children threads mainThread resources : ℕ} {r : BitVec 32} (hbegun : Begun s0 node s)
    (h : s.forkMemory K copySelfMapping s0.interrupts newProc node children threads mainThread main
      resources = some (r, s')) :
    (r = -1 ∧ Left s0 s') ∨ (r = s0.lastGivenPid ∧ s'.children = s0.children.push node) := by
  obtain ⟨⟨threadNode, s1⟩, h1, h⟩ := Option.bind_eq_some_iff.mp h
  obtain ⟨⟨readyNode, s2⟩, h2, h⟩ := Option.bind_eq_some_iff.mp h
  have hthread : Begun s0 node (s1.pushThread SizedQueue.empty threadNode).2 :=
    (hbegun.same (sameQueues_createNode h1)).same ⟨rfl, rfl, rfl, rfl, rfl, rfl⟩
  have hready : Begun s0 node s2 := hthread.same (sameQueues_createNode h2)
  dsimp only at h
  split_ifs at h with herr
  · refine .inl (forkNoMemory_left hready ?_ h)
    exact ⟨rfl, rfl, rfl, rfl, rfl, rfl⟩
  · obtain ⟨hr, rfl⟩ := Prod.mk.inj (Option.some.inj h)
    exact .inr ⟨hr.symm.trans hready.lastGivenPid, hready.children⟩

theorem forkThread_left {copySelfMapping : H → OsReturnE × H} {activeThread : KernelThread} {newProc : ℕ}
    {r : BitVec 32} (h : s.forkThread K copySelfMapping activeThread newProc = some (r, s')) :
    (r = -1 ∧ Left s s') ∨ ∃ node, r = s.lastGivenPid ∧ s'.children = s.children.push node := by
  obtain ⟨⟨node, s0⟩, h0, h⟩ := Option.bind_eq_some_iff.mp h
  obtain ⟨⟨children, s1⟩, h1, h⟩ := Option.bind_eq_some_iff.mp h
  obtain ⟨⟨deadChildren, s2⟩, h2, h⟩ := Option.bind_eq_some_iff.mp h
  obtain ⟨⟨threads, s3⟩, h3, h⟩ := Option.bind_eq_some_iff.mp h
  have hsame := sameQueues_createNode h0
  have hbegun : Begun s0 node s3 := (((begun_pushChild s0 node).same (sameQueues_createQueue h1)).same
    (sameQueues_createQueue h2)).same (sameQueues_createQueue h3)
  have hthread : Begun s0 node (s3.kmalloc K .kernelThread).2 :=
    hbegun.same (sameQueues_kmalloc s3 .kernelThread)
  dsimp only at h
  generalize s3.kmalloc K .kernelThread = block at h hthread
  obtain ⟨_ | mainThread, s4⟩ := block
  · obtain ⟨hr, hleft⟩ := forkNoThread_left hthread h
    exact .inl ⟨hr, hleft.of_same hsame⟩
  · obtain ⟨⟨err, main, resources, s5⟩, h5, h⟩ := Option.bind_eq_some_iff.mp h
    obtain ⟨rfl, hcopy⟩ := sameQueues_copyThread hthread.interrupts h5
    obtain ⟨hr, hleft⟩ | ⟨hr, hpush⟩ := forkMemory_left (hthread.same hcopy) h
    · exact .inl ⟨hr, hleft.of_same hsame⟩
    · exact .inr ⟨node, hr.trans hsame.lastGivenPid, hpush.trans (by rw [hsame.children])⟩

/-! ## When a failed fork leaves no trace -/

/-- The queues with their sizes, the counters, the number of live blocks of the heap and the interrupt state are
as before. -/
structure NoTrace (K : KernelHeap H) (s s' : ForkState H) : Prop where
  children : s'.children = s.children
  ready : s'.activeThreadsTable = s.activeThreadsTable
  threadCount : s'.threadCount = s.threadCount
  processCount : s'.processCount = s.processCount
  lastGivenPid : s'.lastGivenPid = s.lastGivenPid
  blocks : (K.live s'.heap).card = (K.live s.heap).card
  interrupts : s'.interrupts = s.interrupts

/-- A reported `-1` leaves no trace just when the fork fails before it has allocated anything: no later way out
takes back the size of the queue of children. -/
theorem noTrace_iff {copySelfMapping : H → OsReturnE × H} {activeThread : KernelThread}
    (hfork : s.schedForkProcess K copySelfMapping activeThread = some (-1, s')) :
    NoTrace K s s' ↔
      s.processCount.toNat ≥ kernelMaxProcess ∨ (K.kmalloc s.heap .kernelProcess).1 = none := by
  unfold schedForkProcess at hfork
  split_ifs at hfork with hmax
  · obtain ⟨-, rfl⟩ := Prod.mk.inj (Option.some.inj hfork)
    exact iff_of_true ⟨rfl, rfl, rfl, rfl, rfl, rfl, rfl⟩ (.inl hmax)
  · cases hblock : K.kmalloc s.heap .kernelProcess with
    | mk block heap =>
      have hkmalloc : s.kmalloc K .kernelProcess = (block, { s with heap := heap }) := by
        rw [kmalloc, hblock]
      rw [hkmalloc] at hfork
      cases block with
      | none =>
        obtain ⟨-, rfl⟩ := Prod.mk.inj (Option.some.inj hfork)
        refine iff_of_true ⟨rfl, rfl, rfl, rfl, rfl, ?_, rfl⟩ (.inr rfl)
        exact congrArg Finset.card (K.kmalloc_null hblock)
      | some newProc =>
        have hsize : s'.children.size = s.children.size + 1 := by
          obtain ⟨-, hleft⟩ | ⟨node, -, hpush⟩ := forkThread_left hfork
          · rw [hleft.children]
          · rw [hpush]
            rfl
        refine iff_of_false (fun htrace => ?_) (not_or.mpr ⟨hmax, nofun⟩)
        rw [htrace.children] at hsize
        exact succ_ne_self _ hsize.symm

/-- A heap with room for `room` blocks. -/
def smallHeap (room : ℕ) : KernelHeap (Finset ℕ) where
  live h := h
  kmalloc h _ := if h.card < room then (some (h.sup id + 1), insert (h.sup id + 1) h) else (none, h)
  kfree h a := h.erase a
  kmalloc_null := by
    intro h h' b hblock
    split_ifs at hblock
    · exact nomatch hblock
    · exact (Prod.mk.inj hblock).2.symm
  kmalloc_block := by
    intro h h' b a hblock
    split_ifs at hblock
    · obtain ⟨ha, rfl⟩ := Prod.mk.inj hblock
      obtain rfl := Option.some.inj ha
      refine ⟨fun hmem => ?_, rfl⟩
      have hle : h.sup id + 1 ≤ h.sup id := Finset.le_sup (f := id) hmem
      exact absurd hle (Nat.not_succ_le_self _)
    · exact nomatch hblock
  kfree_live := fun _ => rfl

/-- A process without children, and nothing allocated. -/
def fresh : ForkState (Finset ℕ) where
  heap := ∅
  enlisted := fun _ => false
  children := SizedQueue.empty
  activeThreadsTable := fun _ => SizedQueue.empty
  lastGivenTid := 2
  threadCount := 2
  lastGivenPid := 1
  processCount := 1
  interrupts := true

def forker : KernelThread := ⟨mainKprocess, 0, .running, .resource, 0, none, []⟩

theorem noTrace_iff_no_room :
    NoTrace (smallHeap 0) fresh fresh ↔
      fresh.processCount.toNat ≥ kernelMaxProcess ∨
        ((smallHeap 0).kmalloc fresh.heap .kernelProcess).1 = none :=
  @noTrace_iff _ (smallHeap 0) fresh fresh (fun h => (.osNoErr, h)) forker rfl

/-- With room for five blocks there is none for the main thread: the caller has no child, of which it counts one,
and the queue of dead children stays live. -/
theorem no_thread_leaves_trace :
    ∃ s', fresh.schedForkProcess (smallHeap 5) (fun h => (.osNoErr, h)) forker = some (-1, s') ∧
      s'.children = ⟨[], 1⟩ ∧ s'.heap.card = 1 ∧ ¬NoTrace (smallHeap 5) fresh s' := by
  refine ⟨_, rfl, rfl, rfl, fun htrace => ?_⟩
  exact absurd htrace.children (by decide)

end ForkState
end UtkKernel.Scheduler
