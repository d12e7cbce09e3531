import UtkKernel.Structures.KernelError
import UtkKernel.Structures.KqueueRepr

/-! # The queues of the library (`lib/libstruct/src/queue.c`)

They have the links of the kernel queues, and the same code but for what they do on an error: where a kernel queue
panics they report it. The pointer to the error of `queue_pop` gets `OS_NO_ERR` for every queue there is. -/

namespace UtkKernel.Structures
set_option autoImplicit false

namespace KqueueT

variable {s s' : KqueueT} {node m v : Pointer} {fuel : ℕ} {priority : BitVec 32}

/-- What both pushes end with: a cycle is reported when the node is in the queue already. -/
def queueEnlist (s : KqueueT) (node : Pointer) : OsReturnE × KqueueT :=
  let s' := { s with size := s.size + 1 }.setEnlisted node true
  if (s'.nodes node).next ≠ 0 ∧ (s'.nodes node).prev ≠ 0 ∧ (s'.nodes node).next = (s'.nodes node).prev then
    (.osErrUnauthorizedAction, s')
  else (.osNoErr, s')

/-- `queue_push_prio` -/
def queuePushPrio (fuel : ℕ) (s : KqueueT) (node : Pointer) (priority : BitVec 32) : Option (OsReturnE × KqueueT) :=
  if node = 0 then some (.osErrNullPointer, s)
  else
    let s1 := s.setNode node fun n => { n with priority := priority }
    if s1.head = 0 then some ((s1.linkAlone node).queueEnlist node)
    else
      (s1.seek (fun n => (s1.nodes n).priority > priority) fuel s1.head).bind fun cursor =>
        if cursor ≠ 0 then some ((s1.linkBefore node cursor).queueEnlist node)
        else if s1.tail = 0 then none
        else some ((s1.linkTail node).queueEnlist node)

/-- `queue_pop` -/
def queuePop (s : KqueueT) : Option (Pointer × KqueueT) := s.pop

/-- The push reports no error exactly where the kernel's does not panic, and does the same. -/
theorem queueEnlist_eq (s : KqueueT) (node : Pointer) :
    (if (s.queueEnlist node).1 = .osNoErr then some (s.queueEnlist node).2 else none) = s.enlist node := by
  have hnext : (({ s with size := s.size + 1 }.setEnlisted node true).nodes node).next = (s.nodes node).next :=
    setEnlisted_next
  have hprev : (({ s with size := s.size + 1 }.setEnlisted node true).nodes node).prev = (s.nodes node).prev :=
    setEnlisted_prev
  have hif : ∀ (p q : Prop) [Decidable p] [Decidable q] (t : KqueueT), (q ↔ ¬p) →
      (if (if p then (OsReturnE.osErrUnauthorizedAction, t) else (.osNoErr, t)).1 = .osNoErr then
        some (if p then (OsReturnE.osErrUnauthorizedAction, t) else (.osNoErr, t)).2 else none) =
        if q then some t else none := by
    intro p q _ _ t hpq
    by_cases hp : p
    · rw [if_pos hp, if_neg (fun hc => hpq.mp hc hp)]
      exact if_neg OsReturnE.noConfusion
    · rw [if_neg hp, if_pos (hpq.mpr hp)]
      exact if_pos rfl
  refine hif _ _ _ ?_
  rw [hnext, hprev]
  tauto

theorem queuePushPrio_eq (fuel : ℕ) (s : KqueueT) (node : Pointer) (priority : BitVec 32) :
    ((s.queuePushPrio fuel node priority).bind fun r => if r.1 = .osNoErr then some r.2 else none) =
      s.pushPrio fuel node priority := by
  unfold queuePushPrio pushPrio
  by_cases hnull : node = 0
  · rw [if_pos hnull, if_pos hnull, Option.bind_some, if_neg OsReturnE.noConfusion]
  · rw [if_neg hnull, if_neg hnull]
    dsimp only
    generalize s.setNode node (fun n => { n with priority := priority }) = s1
    by_cases hhead : s1.head = 0
    · rw [if_pos hhead, if_pos hhead, Option.bind_some, queueEnlist_eq]
    · rw [if_neg hhead, if_neg hhead, Option.bind_assoc]
      congr 1
      funext cursor
      split_ifs
      · exact queueEnlist_eq _ node
      · rfl
      · exact queueEnlist_eq _ node

/-! ## Priorities -/

theorem setNode_priority {f : KqueueNodeT → KqueueNodeT} (hf : ∀ n, (f n).priority = n.priority) :
    ((s.setNode node f).nodes m).priority = (s.nodes m).priority := by
  rw [setNode_nodes]
  split_ifs with h
  · rw [hf, h]
  · rfl

@[simp] theorem setNext_priority : ((s.setNext node v).nodes m).priority = (s.nodes m).priority :=
  setNode_priority fun _ => rfl

@[simp] theorem setPrev_priority : ((s.setPrev node v).nodes m).priority = (s.nodes m).priority :=
  setNode_priority fun _ => rfl

@[simp] theorem setEnlisted_priority {b : Bool} : ((s.setEnlisted node b).nodes m).priority = (s.nodes m).priority :=
  setNode_priority fun _ => rfl

theorem linkAlone_priority : ((s.linkAlone node).nodes m).priority = (s.nodes m).priority :=
  setPrev_priority.trans setNext_priority

theorem linkBefore_priority {cursor : Pointer} : ((s.linkBefore node cursor).nodes m).priority = (s.nodes m).priority := by
  unfold linkBefore
  dsimp only
  split_ifs
  · rw [setNext_priority, setPrev_priority, setPrev_priority, setNext_priority]
  · exact setPrev_priority.trans (setPrev_priority.trans setNext_priority)

theorem linkTail_priority : ((s.linkTail node).nodes m).priority = (s.nodes m).priority :=
  setNext_priority.trans (setNext_priority.trans setPrev_priority)

theorem enlist_priority (h : s.enlist node = some s') : (s'.nodes m).priority = (s.nodes m).priority := by
  unfold enlist at h
  split_ifs at h
  rw [← Option.some.inj h]
  exact setEnlisted_priority

/-- A push gives its node the priority, and leaves those of the others. -/
theorem pushPrio_priority (h : s.pushPrio fuel node priority = some s') :
    (s'.nodes m).priority = if m = node then priority else (s.nodes m).priority := by
  have hset : ((s.setNode node fun n => { n with priority := priority }).nodes m).priority =
      if m = node then priority else (s.nodes m).priority := by
    rw [setNode_nodes]
    split_ifs <;> rfl
  rw [← hset]
  unfold pushPrio at h
  dsimp only at h
  generalize s.setNode node (fun n => { n with priority := priority }) = s1 at h ⊢
  by_cases hnull : node = 0
  · rw [if_pos hnull] at h
    exact nomatch h
  rw [if_neg hnull] at h
  by_cases hhead : s1.head = 0
  · rw [if_pos hhead] at h
    exact (enlist_priority h).trans linkAlone_priority
  · rw [if_neg hhead] at h
    obtain ⟨cursor, -, hput⟩ := Option.bind_eq_some_iff.mp h
    split_ifs at hput
    · exact (enlist_priority hput).trans linkBefore_priority
    · exact (enlist_priority hput).trans linkTail_priority

theorem pop_priority {r : Pointer × KqueueT} (h : s.pop = some r) :
    (r.2.nodes m).priority = (s.nodes m).priority := by
  unfold pop at h
  split_ifs at h
  · rw [← Option.some.inj h]
  · rw [← Option.some.inj h]
    refine (setEnlisted_priority.trans (setPrev_priority.trans setNext_priority)).trans ?_
    change (s.unlinkTail.nodes m).priority = _
    unfold unlinkTail
    split_ifs
    · exact setNext_priority
    · rfl

end KqueueT

end UtkKernel.Structures
