import UtkKernel.Foundations.Runs
import UtkKernel.Foundations.Segments
import UtkKernel.Structures.Kqueue

/-! # The links of a kernel queue (`core/src/kqueue.c`)

A queue as it lies in memory: its nodes by their addresses, linked in both directions, its head, its
tail and its size. A function gives `none` where the source panics or follows a null pointer, and where
a search has not ended within its fuel. -/

namespace UtkKernel.Structures
open Foundations
set_option autoImplicit false

/-- The address of a node; `NULL` is 0. -/
abbrev Pointer := BitVec 32

/-- `kqueue_node_t` -/
structure KqueueNodeT where
  next : Pointer
  prev : Pointer
  enlisted : Bool
  priority : BitVec 32
  data : Pointer
  deriving DecidableEq, Repr

/-- `kqueue_t`, with the nodes that lie in memory. -/
structure KqueueT where
  nodes : Pointer → KqueueNodeT
  head : Pointer
  tail : Pointer
  size : BitVec 32

namespace KqueueT

def setNode (s : KqueueT) (node : Pointer) (f : KqueueNodeT → KqueueNodeT) : KqueueT :=
  { s with nodes := Function.update s.nodes node (f (s.nodes node)) }

def setNext (s : KqueueT) (node v : Pointer) : KqueueT := s.setNode node fun n => { n with next := v }

def setPrev (s : KqueueT) (node v : Pointer) : KqueueT := s.setNode node fun n => { n with prev := v }

def setEnlisted (s : KqueueT) (node : Pointer) (b : Bool) : KqueueT :=
  s.setNode node fun n => { n with enlisted := b }

/-! ## Pushing -/

/-- The node becomes the only one of an empty queue. -/
def linkAlone (s : KqueueT) (node : Pointer) : KqueueT :=
  ({ s with head := node, tail := node }.setNext node 0).setPrev node 0

/-- The node is put on the head. -/
def linkHead (s : KqueueT) (node : Pointer) : KqueueT :=
  { ((s.setNext node s.head).setPrev node 0).setPrev s.head node with head := node }

/-- The node is put in front of the cursor. -/
def linkBefore (s : KqueueT) (node cursor : Pointer) : KqueueT :=
  let s1 := ((s.setNext node cursor).setPrev node (s.nodes cursor).prev).setPrev cursor node
  if (s1.nodes node).prev ≠ 0 then s1.setNext (s1.nodes node).prev node else { s1 with head := node }

/-- The node is put on the tail. -/
def linkTail (s : KqueueT) (node : Pointer) : KqueueT :=
  { ((s.setPrev node s.tail).setNext node 0).setNext s.tail node with tail := node }

/-- What both pushes end with: the node is counted and marked, and a cycle is a panic. -/
def enlist (s : KqueueT) (node : Pointer) : Option KqueueT :=
  if (s.nodes node).next ≠ (s.nodes node).prev ∨ (s.nodes node).next = 0 ∨ (s.nodes node).prev = 0 then
    some ({ s with size := s.size + 1 }.setEnlisted node true)
  else none

/-- `kqueue_push` -/
def push (s : KqueueT) (node : Pointer) : Option KqueueT :=
  if node = 0 then none
  else if s.head = 0 then (s.linkAlone node).enlist node
  else (s.linkHead node).enlist node

/-- The loops of `kqueue_push_prio`, `kqueue_find` and `kqueue_remove`: from a cursor on, as long as
there is a node and the search goes on. -/
def seek (s : KqueueT) (goesOn : Pointer → Bool) : ℕ → Pointer → Option Pointer
  | 0, _ => none
  | fuel + 1, cursor =>
    if cursor ≠ 0 ∧ goesOn cursor = true then s.seek goesOn fuel (s.nodes cursor).next
    else some cursor

/-- `kqueue_push_prio` -/
def pushPrio (fuel : ℕ) (s : KqueueT) (node : Pointer) (priority : BitVec 32) : Option KqueueT :=
  if node = 0 then none
  else
    let s1 := s.setNode node fun n => { n with priority := priority }
    if s1.head = 0 then (s1.linkAlone node).enlist node
    else
      (s1.seek (fun n => (s1.nodes n).priority > priority) fuel s1.head).bind fun cursor =>
        if cursor ≠ 0 then (s1.linkBefore node cursor).enlist node
        else if s1.tail = 0 then none
        else (s1.linkTail node).enlist node

/-! ## Taking nodes out -/

/-- A node that is taken out forgets its links. -/
def unlist (s : KqueueT) (node : Pointer) : KqueueT :=
  ((s.setNext node 0).setPrev node 0).setEnlisted node false

/-- The tail is cut off. -/
def unlinkTail (s : KqueueT) : KqueueT :=
  if (s.nodes s.tail).prev ≠ 0 then
    { s.setNext (s.nodes s.tail).prev 0 with tail := (s.nodes s.tail).prev }
  else { s with head := 0, tail := 0 }

/-- `kqueue_pop`: the node, or `NULL` if there is none. -/
def pop (s : KqueueT) : Option (Pointer × KqueueT) :=
  if s.head = 0 then some (0, s)
  else if s.tail = 0 then none
  else some (s.tail, { s.unlinkTail with size := s.size - 1 }.unlist s.tail)

/-- `kqueue_find` -/
def find (fuel : ℕ) (s : KqueueT) (data : Pointer) : Option Pointer :=
  s.seek (fun n => (s.nodes n).data ≠ data) fuel s.head

/-- The links around a node that is removed. -/
def unlink (s : KqueueT) (cursor : Pointer) : KqueueT :=
  let prev := (s.nodes cursor).prev
  let next := (s.nodes cursor).next
  if prev ≠ 0 ∧ next ≠ 0 then (s.setNext prev next).setPrev next prev
  else if prev = 0 ∧ next ≠ 0 then { s with head := next }.setPrev next 0
  else if prev ≠ 0 ∧ next = 0 then { s with tail := prev }.setNext prev 0
  else { s with head := 0, tail := 0 }

/-- `kqueue_remove`. A node that is not found is a panic if the caller asks for one, and a null pointer
that is followed if not. -/
def remove (fuel : ℕ) (s : KqueueT) (node : Pointer) : Option KqueueT :=
  if node = 0 then none
  else
    (s.seek (fun n => n ≠ node) fuel s.head).bind fun cursor =>
      if cursor = 0 then none else some ((s.unlink cursor).unlist node)

/-! ## Steps -/

end KqueueT

inductive KqueueAct
  | push (node : Pointer)
  | pushPrio (node : Pointer) (priority : BitVec 32)
  | pop
  | find (data : Pointer)
  | remove (node : Pointer)
  deriving DecidableEq, Repr

namespace KqueueT

def exec (fuel : ℕ) (s : KqueueT) : KqueueAct → Option KqueueT
  | .push node => if (s.nodes node).enlisted then none else s.push node
  | .pushPrio node priority =>
    if (s.nodes node).enlisted then none else s.pushPrio fuel node priority
  | .pop => s.pop.map Prod.snd
  | .find data => (s.find fuel data).map fun _ => s
  | .remove node => s.remove fuel node

/-- A call that ends; a node that is pushed is not enlisted. -/
def Step (s : KqueueT) (act : KqueueAct) (s' : KqueueT) : Prop := ∃ fuel, exec fuel s act = some s'

/-- An empty queue (`kqueue_create_queue`), where only nodes of other queues are enlisted. -/
structure Started (others : Set Pointer) (s : KqueueT) : Prop where
  head : s.head = 0
  tail : s.tail = 0
  size : s.size = 0
  enlisted : ∀ n, (s.nodes n).enlisted = true ↔ n ∈ others

end KqueueT

end UtkKernel.Structures
