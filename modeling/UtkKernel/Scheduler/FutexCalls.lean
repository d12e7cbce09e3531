import UtkKernel.Scheduler.Model
import UtkKernel.Sync.Futex

/-! # The futex calls, node by node (`core/src/futex.c`)

Both calls with the nodes of the wait queues, the size that a queue records, the resource nodes of the threads and
the queues of ready threads. Interrupts are disabled, so the word that a call reads holds one value. The
`futex_data_t` of a waiting thread lies on its kernel stack; a node has what the process of the active thread maps
there. A node that is taken out of a wait queue is freed, and so is a queue that is deleted, even where an entry of the
table is left. `none` is a panic, a push of a node that is in a ready queue, or a read of what was freed. -/

namespace UtkKernel.Scheduler
open Structures Sync
set_option autoImplicit false

/-! ## State -/

/-- A node of a wait queue with its `futex_data_t`. -/
structure WaitNode where
  node : ℕ
  waitingThread : ℕ
  wait : BitVec 32
  resourceNode : ℕ
  deriving DecidableEq, Repr

/-- A wait queue: nodes at different addresses, from the head on, and the size that it records. -/
structure WaitList where
  nodes : List WaitNode
  size : BitVec 32
  nodup : (nodes.map WaitNode.node).Nodup

/-- The futex table by physical addresses, with the queue of an entry if it is not freed; the threads, with their
resource nodes as `resources`, the ready queues and the active thread. -/
structure FutexState where
  table : ℕ → Option (Option WaitList)
  threads : ℕ → Option KernelThread
  activeThreadsTable : ℕ → List ℕ
  activeThread : ℕ

namespace WaitList

/-- `kqueue_create_queue` -/
def empty : WaitList := ⟨[], 0, List.nodup_nil⟩

/-- `kqueue_push` of a new node. -/
def push (q : WaitList) (w : WaitNode) (hnew : w.node ∉ q.nodes.map WaitNode.node) : WaitList :=
  ⟨kqueuePush w q.nodes, q.size + 1, List.nodup_cons.mpr ⟨hnew, q.nodup⟩⟩

/-- `kqueue_remove`, which does not count the size down, and `kqueue_delete_node`. -/
def remove (q : WaitList) (node : ℕ) : Option WaitList :=
  if node ∈ q.nodes.map WaitNode.node then
    some ⟨q.nodes.filter fun w => decide (w.node ≠ node), q.size,
      q.nodup.sublist (List.filter_sublist.map WaitNode.node)⟩
  else none

/-- A node with the node behind it; it is there until it is removed. -/
def read (q : WaitList) (node : ℕ) : Option (WaitNode × Option ℕ) :=
  match q.nodes.dropWhile fun w => decide (w.node ≠ node) with
  | [] => none
  | w :: rest => some (w, rest.head?.map WaitNode.node)

end WaitList

namespace FutexState

def setEntry (s : FutexState) (phys : ℕ) (entry : Option (Option WaitList)) : FutexState :=
  { s with table := Function.update s.table phys entry }

def setThread (s : FutexState) (tid : ℕ) (t : KernelThread) : FutexState :=
  { s with threads := Function.update s.threads tid (some t) }

/-- Is the node of the thread in a ready queue? -/
def enlisted (s : FutexState) (tid : ℕ) : Bool :=
  (List.range (kernelLowestPriority + 1)).any fun i => decide (tid ∈ s.activeThreadsTable i)

/-! ## The scheduler -/

/-- `sched_lock_thread` -/
def schedLockThread (s : FutexState) (blockType : ThreadWaitType) : Option (Option ℕ × FutexState) :=
  if s.activeThread = idleThread then some (none, s)
  else (s.threads s.activeThread).map fun t =>
    (some s.activeThread, s.setThread s.activeThread { t with state := .waiting, blockType := blockType })

/-- `sched_unlock_thread` without a schedule; its callers panic on an error. -/
def schedUnlockThread (s : FutexState) (tid : ℕ) (blockType : ThreadWaitType) : Option FutexState :=
  (s.threads tid).bind fun t =>
    if tid = idleThread ∨ t.state ≠ .waiting ∨ t.blockType ≠ blockType ∨ s.enlisted tid = true then none
    else some { s.setThread tid { t with state := .ready } with
      activeThreadsTable := Function.update s.activeThreadsTable t.priority
        (kqueuePush tid (s.activeThreadsTable t.priority)) }

/-- `sched_thread_add_resource`: the resource node, unless there is no memory for what it holds. -/
def schedThreadAddResource (s : FutexState) (tid : ℕ) (resourceNode : Option ℕ) :
    Option (OsReturnE × FutexState) :=
  match resourceNode with
  | none => some (.osErrMalloc, s)
  | some node => (s.threads tid).map fun t =>
      (.osNoErr, s.setThread tid { t with resources := kqueuePush node t.resources })

/-- `sched_thread_remove_resource` -/
def schedThreadRemoveResource (s : FutexState) (tid resourceNode : ℕ) : Option FutexState :=
  (s.threads tid).bind fun t =>
    if resourceNode ∈ t.resources then
      some (s.setThread tid { t with resources := t.resources.erase resourceNode })
    else none

/-! ## `futex_wake` -/

/-- The inner loop of `futex_wake`, from a cursor on: the first node whose thread waits for a change from another
value, and the cursor behind it. -/
def seekCandidate (q : WaitList) (value : BitVec 32) : ℕ → Option ℕ → Option (Option (WaitNode × Option ℕ))
  | 0, _ => none
  | _ + 1, none => some none
  | fuel + 1, some node =>
    (q.read node).bind fun r =>
      if r.1.wait ≠ value then some (some r) else seekCandidate q value fuel r.2

/-- The body of the outer loop for the node that was found; was the queue deleted? -/
def wakeNode (s : FutexState) (phys : ℕ) (w : WaitNode) : Option (Bool × FutexState) := do
  let s ← s.schedThreadRemoveResource w.waitingThread w.resourceNode
  let s ← s.schedUnlockThread w.waitingThread .resource
  let q ← (s.table phys).join
  let q ← q.remove w.node
  if q.size = 0 then
    if q.nodes = [] then return (true, s.setEntry phys none) else none
  else return (false, s.setEntry phys (some (some q)))

/-- The outer loop of `futex_wake`. -/
def wakeNodes (phys : ℕ) (value : BitVec 32) : ℕ → Option ℕ → FutexState → Option FutexState
  | 0, _, s => some s
  | val + 1, cursor, s => do
    let q ← (s.table phys).join
    match ← seekCandidate q value (q.nodes.length + 1) cursor with
    | none => return s
    | some (w, next) =>
      let (deleted, s) ← s.wakeNode phys w
      if deleted then return s else wakeNodes phys value val next s

/-- `futex_wake` on a word that holds `value`: the error that it reports. -/
def futexWake (s : FutexState) (phys : ℕ) (value : BitVec 32) (val : ℕ) : Option (OsReturnE × FutexState) :=
  match s.table phys with
  | none => some (.osErrNoSuchId, s)
  | some entry => do
    let q ← entry
    let s ← wakeNodes phys value val (q.nodes.head?.map WaitNode.node) s
    return (.osNoErr, s)

/-! ## `futex_wait` -/

/-- `recover_data_t`: what a call has done so far. -/
structure RecoverData where
  createdFutexQueue : Bool
  futexTable : Bool
  lockedThread : Option ℕ
  createdWaitNode : Option ℕ
  createdResNode : Option ℕ

/-- The resource node goes, if the call has created one. -/
def recoverResource (s : FutexState) (d : RecoverData) : Option FutexState :=
  match d.createdResNode with
  | none => some s
  | some node => d.lockedThread.bind fun tid => s.schedThreadRemoveResource tid node

/-- The wait node leaves the queue and goes, if the call has created it; it is pushed at once. -/
def recoverNode (s : FutexState) (phys : ℕ) (d : RecoverData) : Option FutexState :=
  match d.createdWaitNode with
  | none => some s
  | some node => (s.table phys).join.bind fun q =>
      (q.remove node).map fun q => s.setEntry phys (some (some q))

def recoverThread (s : FutexState) (d : RecoverData) : Option FutexState :=
  match d.lockedThread with
  | none => some s
  | some tid => s.schedUnlockThread tid .resource

/-- The entry is looked for under the virtual address, and not finding it is a panic. -/
def recoverTable (s : FutexState) (virt : ℕ) (d : RecoverData) : Option FutexState :=
  if d.futexTable then if s.table virt = none then none else some (s.setEntry virt none) else some s

/-- A queue that the call has created is deleted, with the entry of the table or without it. -/
def recoverQueue (s : FutexState) (phys : ℕ) (contents : WaitList) (d : RecoverData) : Option FutexState :=
  if d.createdFutexQueue then
    if contents.nodes = [] then some (if s.table phys = none then s else s.setEntry phys (some none)) else none
  else some s

/-- `futex_recover` -/
def futexRecover (s : FutexState) (virt phys : ℕ) (d : RecoverData) : Option FutexState := do
  let s ← s.recoverResource d
  let s ← s.recoverNode phys d
  let s ← s.recoverThread d
  let contents := (s.table phys).join.getD WaitList.empty
  let s ← s.recoverTable virt d
  s.recoverQueue phys contents d

/-- `futex_wait` from the lock of the thread on, with a node and, unless there is no memory for it, a resource
node. -/
def blockOn (s : FutexState) (virt phys : ℕ) (val : BitVec 32) (node : ℕ) (resource : Option ℕ)
    (d : RecoverData) : Option (WaitResult × FutexState) := do
  let (locked, s) ← s.schedLockThread .resource
  match locked with
  | none =>
    -- The error that is handed to the recovery here is no error.
    let s ← s.futexRecover virt phys d
    return (.returned .osNoErr, s)
  | some tid =>
    let q ← (s.table phys).join
    if hnew : node ∉ q.nodes.map WaitNode.node then
      let s := s.setEntry phys (some (some (q.push ⟨node, tid, val, resource.getD 0⟩ hnew)))
      let (err, s) ← s.schedThreadAddResource tid resource
      if err ≠ .osNoErr then
        let s ← s.futexRecover virt phys { d with lockedThread := some tid, createdWaitNode := some node }
        return (.returned err, s)
      else return (.blocked, s)
    else none

/-- `futex_wait` on a word that holds `value`, up to its call of `sched_schedule`; `setErr` is what
`uhashtable_set` reports. -/
def futexWait (s : FutexState) (virt phys : ℕ) (value val : BitVec 32) (setErr : OsReturnE) (node : ℕ)
    (resource : Option ℕ) : Option (WaitResult × FutexState) :=
  if value ≠ val then some (.returned .osNoErr, s)
  else
    match s.table phys with
    | some _ => s.blockOn virt phys val node resource ⟨false, false, none, none, none⟩
    | none =>
      if setErr ≠ .osNoErr then
        (s.futexRecover virt phys ⟨true, false, none, none, none⟩).map fun s => (.returned setErr, s)
      else (s.setEntry phys (some (some WaitList.empty))).blockOn virt phys val node resource
        ⟨true, true, none, none, none⟩

end FutexState
end UtkKernel.Scheduler
