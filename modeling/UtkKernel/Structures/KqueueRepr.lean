import Mathlib.Data.List.TakeWhile
import UtkKernel.Structures.KqueueLinks

/-! # What the links of a kernel queue stand for

A queue in memory stands for the list of its nodes from the head on. Every operation relinks the nodes
around one place of the list; only `kqueue_remove` leaves the size wrong. -/

namespace UtkKernel.Structures
open Foundations
set_option autoImplicit false

namespace KqueueT

variable {s s' : KqueueT} {others : Set Pointer} {l before after : List Pointer}
  {node n m v : Pointer} {fuel : ℕ}

/-! ## Links -/

theorem setNode_nodes (f : KqueueNodeT → KqueueNodeT) :
    (s.setNode node f).nodes m = if m = node then f (s.nodes node) else s.nodes m := by
  show Function.update s.nodes node _ m = _
  rw [Function.update_apply]

@[simp] theorem setNext_next : ((s.setNext node v).nodes m).next =
    if m = node then v else (s.nodes m).next := by
  unfold setNext
  rw [setNode_nodes]
  split_ifs <;> rfl

@[simp] theorem setNext_prev : ((s.setNext node v).nodes m).prev = (s.nodes m).prev := by
  unfold setNext
  rw [setNode_nodes]
  split_ifs with h
  · rw [h]
  · rfl

@[simp] theorem setNext_enlisted : ((s.setNext node v).nodes m).enlisted = (s.nodes m).enlisted := by
  unfold setNext
  rw [setNode_nodes]
  split_ifs with h
  · rw [h]
  · rfl

@[simp] theorem setPrev_prev : ((s.setPrev node v).nodes m).prev =
    if m = node then v else (s.nodes m).prev := by
  unfold setPrev
  rw [setNode_nodes]
  split_ifs <;> rfl

@[simp] theorem setPrev_next : ((s.setPrev node v).nodes m).next = (s.nodes m).next := by
  unfold setPrev
  rw [setNode_nodes]
  split_ifs with h
  · rw [h]
  · rfl

@[simp] theorem setPrev_enlisted : ((s.setPrev node v).nodes m).enlisted = (s.nodes m).enlisted := by
  unfold setPrev
  rw [setNode_nodes]
  split_ifs with h
  · rw [h]
  · rfl

@[simp] theorem setEnlisted_next {b : Bool} :
    ((s.setEnlisted node b).nodes m).next = (s.nodes m).next := by
  unfold setEnlisted
  rw [setNode_nodes]
  split_ifs with h
  · rw [h]
  · rfl

@[simp] theorem setEnlisted_prev {b : Bool} :
    ((s.setEnlisted node b).nodes m).prev = (s.nodes m).prev := by
  unfold setEnlisted
  rw [setNode_nodes]
  split_ifs with h
  · rw [h]
  · rfl

@[simp] theorem setEnlisted_enlisted {b : Bool} : ((s.setEnlisted node b).nodes m).enlisted =
    if m = node then b else (s.nodes m).enlisted := by
  unfold setEnlisted
  rw [setNode_nodes]
  split_ifs <;> rfl

@[simp] theorem setNext_head : (s.setNext node v).head = s.head := rfl

@[simp] theorem setNext_tail : (s.setNext node v).tail = s.tail := rfl

@[simp] theorem setNext_size : (s.setNext node v).size = s.size := rfl

@[simp] theorem setPrev_head : (s.setPrev node v).head = s.head := rfl

@[simp] theorem setPrev_tail : (s.setPrev node v).tail = s.tail := rfl

@[simp] theorem setPrev_size : (s.setPrev node v).size = s.size := rfl

/-- The queue is the list, without its size. -/
structure Linked (others : Set Pointer) (s : KqueueT) (l : List Pointer) : Prop where
  nodup : l.Nodup
  not_null : 0 ∉ l
  segment : Segment id (fun n => (s.nodes n).next) (fun n => (s.nodes n).prev) 0 l 0
  head : s.head = firstPtr id l 0
  tail : s.tail = lastPtr id 0 l
  enlisted : ∀ n, (s.nodes n).enlisted = true ↔ n ∈ l ∨ n ∈ others
  apart : ∀ n ∈ l, n ∉ others

theorem getLast?_eq_iff (hnull : 0 ∉ before) (hm : m ≠ 0) :
    before.getLast? = some m ↔ m = lastPtr id 0 before := by
  rcases List.eq_nil_or_concat before with rfl | ⟨l, a, rfl⟩
  · simpa using hm
  · rw [List.concat_eq_append, List.getLast?_concat, lastPtr_concat, Option.some.injEq]
    exact eq_comm

theorem head?_eq_iff (hm : m ≠ 0) : after.head? = some m ↔ m = firstPtr id after 0 := by
  cases after with
  | nil => simpa using hm
  | cons a l =>
    rw [List.head?_cons, Option.some.injEq]
    exact eq_comm

theorem lastPtr_eq_zero (hnull : 0 ∉ before) : lastPtr id 0 before = 0 ↔ before = [] := by
  rcases List.eq_nil_or_concat before with rfl | ⟨l, a, rfl⟩
  · simp
  · rw [List.concat_eq_append, lastPtr_concat]
    simp only [List.append_eq_nil_iff, List.cons_ne_self, and_false, iff_false]
    intro ha
    exact hnull (by simp [← ha])

theorem firstPtr_eq_zero (hnull : 0 ∉ after) : firstPtr id after 0 = 0 ↔ after = [] := by
  cases after with
  | nil => simp
  | cons a l =>
    simp only [firstPtr_cons, id_eq, reduceCtorEq, iff_false]
    intro ha
    exact hnull (by simp [ha])

/-- A node is linked between two parts of the queue. -/
theorem Linked.insert (h : Linked others s (before ++ after)) (hn : node ∉ before ++ after)
    (hnull : node ≠ 0) (hother : node ∉ others)
    (hnext : ∀ m ∈ before ++ after, (s'.nodes m).next =
      if m = lastPtr id 0 before then node else (s.nodes m).next)
    (hprev : ∀ m ∈ before ++ after, (s'.nodes m).prev =
      if m = firstPtr id after 0 then node else (s.nodes m).prev)
    (hself : (s'.nodes node).next = firstPtr id after 0 ∧ (s'.nodes node).prev = lastPtr id 0 before)
    (hhead : s'.head = if before = [] then node else s.head)
    (htail : s'.tail = if after = [] then node else s.tail)
    (henlisted : ∀ m, (s'.nodes m).enlisted = if m = node then true else (s.nodes m).enlisted) :
    Linked others s' (before ++ node :: after) := by
  have hzero : ∀ m ∈ before ++ after, m ≠ 0 := fun m hm he => h.not_null (he ▸ hm)
  have hzero' : 0 ∉ before := fun hm => h.not_null (List.mem_append_left _ hm)
  have hperm : (before ++ node :: after).Perm (node :: (before ++ after)) := List.perm_middle
  refine ⟨hperm.nodup_iff.mpr (List.nodup_cons.mpr ⟨hn, h.nodup⟩), ?_,
    h.segment.insert h.nodup ?_ ?_ hself.1 hself.2, ?_, ?_, fun m => ?_, fun m hm => ?_⟩
  · rw [hperm.mem_iff, List.mem_cons]
    rintro (h0 | h0)
    · exact hnull h0.symm
    · exact h.not_null h0
  · intro m hm
    rw [hnext m hm]
    simp only [getLast?_eq_iff hzero' (hzero m hm), id_eq]
  · intro m hm
    rw [hprev m hm]
    simp only [head?_eq_iff (hzero m hm), id_eq]
  · rw [hhead, h.head]
    cases before with
    | nil => rfl
    | cons a l => rfl
  · rw [htail, h.tail, lastPtr_append, lastPtr_append, lastPtr_cons]
    cases after with
    | nil => rfl
    | cons a l => rfl
  · rw [henlisted, hperm.mem_iff, List.mem_cons]
    split_ifs with he
    · simp [he]
    · rw [h.enlisted]
      simp [he]
  · rcases List.mem_cons.mp (hperm.mem_iff.mp hm) with rfl | hm'
    · exact hother
    · exact h.apart m hm'

/-- A node is taken out of the queue. -/
theorem Linked.erase (h : Linked others s (before ++ node :: after))
    (hnext : ∀ m ∈ before ++ after, (s'.nodes m).next =
      if m = lastPtr id 0 before then firstPtr id after 0 else (s.nodes m).next)
    (hprev : ∀ m ∈ before ++ after, (s'.nodes m).prev =
      if m = firstPtr id after 0 then lastPtr id 0 before else (s.nodes m).prev)
    (hhead : s'.head = if before = [] then firstPtr id after 0 else s.head)
    (htail : s'.tail = if after = [] then lastPtr id 0 before else s.tail)
    (henlisted : ∀ m, (s'.nodes m).enlisted = if m = node then false else (s.nodes m).enlisted) :
    Linked others s' (before ++ after) := by
  have hperm : (before ++ node :: after).Perm (node :: (before ++ after)) := List.perm_middle
  obtain ⟨hnot, hnodup⟩ := List.nodup_cons.mp (hperm.nodup_iff.mp h.nodup)
  have hnull : 0 ∉ before ++ after := fun hm =>
    h.not_null (hperm.mem_iff.mpr (List.mem_cons_of_mem _ hm))
  have hzero : ∀ m ∈ before ++ after, m ≠ 0 := fun m hm he => hnull (he ▸ hm)
  have hzero' : 0 ∉ before := fun hm => hnull (List.mem_append_left _ hm)
  refine ⟨hnodup, hnull, h.segment.erase hnodup ?_ ?_, ?_, ?_, fun m => ?_, fun m hm => ?_⟩
  · intro m hm
    rw [hnext m hm]
    simp only [getLast?_eq_iff hzero' (hzero m hm)]
  · intro m hm
    rw [hprev m hm]
    simp only [head?_eq_iff (hzero m hm)]
  · rw [hhead, h.head]
    cases before with
    | nil => rfl
    | cons a l => rfl
  · rw [htail, h.tail, lastPtr_append, lastPtr_append, lastPtr_cons]
    cases after with
    | nil => rfl
    | cons a l => rfl
  · rw [henlisted]
    split_ifs with he
    · subst he
      have := h.apart m (by simp)
      simp only [false_iff, not_or]
      exact ⟨hnot, this⟩
    · rw [h.enlisted, hperm.mem_iff, List.mem_cons]
      simp [he]
  · exact h.apart m (hperm.mem_iff.mpr (List.mem_cons_of_mem _ hm))

/-! ## Pushing -/

/-- The end of a push: the node that was linked between two parts of the queue is counted and marked. -/
theorem Linked.enlist {s1 : KqueueT} (h : Linked others s (before ++ after))
    (hn : node ∉ before ++ after) (hnull : node ≠ 0) (hother : node ∉ others)
    (hnext : ∀ m ∈ before ++ after, (s1.nodes m).next =
      if m = lastPtr id 0 before then node else (s.nodes m).next)
    (hprev : ∀ m ∈ before ++ after, (s1.nodes m).prev =
      if m = firstPtr id after 0 then node else (s.nodes m).prev)
    (hself : (s1.nodes node).next = firstPtr id after 0 ∧ (s1.nodes node).prev = lastPtr id 0 before)
    (hhead : s1.head = if before = [] then node else s.head)
    (htail : s1.tail = if after = [] then node else s.tail)
    (henlisted : ∀ m, (s1.nodes m).enlisted = (s.nodes m).enlisted) (hsize : s1.size = s.size) :
    ∃ s', s1.enlist node = some s' ∧ Linked others s' (before ++ node :: after) ∧
      s'.size = s.size + 1 := by
  have hcycle : (s1.nodes node).next ≠ (s1.nodes node).prev ∨ (s1.nodes node).next = 0 ∨
      (s1.nodes node).prev = 0 := by
    rw [hself.1, hself.2]
    cases after with
    | nil => exact .inr (.inl rfl)
    | cons a rest =>
      rcases List.eq_nil_or_concat before with rfl | ⟨l, b, rfl⟩
      · exact .inr (.inr rfl)
      · rw [List.concat_eq_append, lastPtr_concat]
        refine .inl fun hab : a = b => ?_
        have hnodup := h.nodup
        rw [List.concat_eq_append] at hnodup
        exact (List.nodup_append.mp hnodup).2.2 b (by simp) a (by simp) hab.symm
  have hne : ∀ m ∈ before ++ after, m ≠ node := fun m hm he => hn (he ▸ hm)
  unfold KqueueT.enlist
  rw [if_pos hcycle]
  refine ⟨_, rfl, h.insert hn hnull hother (fun m hm => ?_) (fun m hm => ?_) ?_ hhead htail
    (fun m => ?_), ?_⟩
  · rw [setEnlisted_next]
    exact hnext m hm
  · rw [setEnlisted_prev]
    exact hprev m hm
  · rw [setEnlisted_next, setEnlisted_prev]
    exact hself
  · rw [setEnlisted_enlisted]
    split_ifs
    · rfl
    · exact henlisted m
  · show s1.size + 1 = _
    rw [hsize]

theorem Linked.linkAlone (h : Linked others s []) (hnull : node ≠ 0) (hother : node ∉ others) :
    ∃ s', (s.linkAlone node).enlist node = some s' ∧ Linked others s' [node] ∧
      s'.size = s.size + 1 := by
  refine @Linked.enlist s others [] [] node _ h (by simp) hnull hother (by simp) (by simp)
    ?_ rfl rfl (fun m => ?_) rfl
  · simp [KqueueT.linkAlone]
  · simp [KqueueT.linkAlone]

theorem Linked.push (h : Linked others s l) (hn : node ∉ l) (hnull : node ≠ 0)
    (hother : node ∉ others) :
    ∃ s', s.push node = some s' ∧ Linked others s' (kqueuePush node l) ∧ s'.size = s.size + 1 := by
  unfold KqueueT.push
  rw [if_neg hnull]
  cases l with
  | nil =>
    rw [if_pos (show s.head = 0 from h.head)]
    exact h.linkAlone hnull hother
  | cons a rest =>
    have ha : s.head = a := h.head
    have hzero : a ≠ 0 := fun he => h.not_null (by simp [he])
    rw [if_neg (ha ▸ hzero)]
    refine @Linked.enlist s others [] (a :: rest) node _ h hn hnull hother (fun m hm => ?_)
      (fun m hm => ?_) ?_ rfl rfl (fun m => ?_) rfl
    · have hmn : m ≠ node := fun he => hn (he ▸ hm)
      have hm0 : m ≠ 0 := fun he => h.not_null (he ▸ hm)
      unfold KqueueT.linkHead
      rw [setPrev_next, setPrev_next, setNext_next, if_neg hmn]
      exact (if_neg hm0).symm
    · have hmn : m ≠ node := fun he => hn (he ▸ hm)
      unfold KqueueT.linkHead
      rw [setPrev_prev, setPrev_prev, if_neg hmn, setNext_prev, ha]
      rfl
    · have hane : node ≠ a := fun he => hn (by simp [he])
      unfold KqueueT.linkHead
      simp [ha, hane]
    · simp [KqueueT.linkHead]

/-! ## Searching -/

/-- A search stops at the first node where it does not go on. -/
theorem seek_eq {goesOn : Pointer → Bool} {p cursor : Pointer}
    (hl : Segment id (fun n => (s.nodes n).next) (fun n => (s.nodes n).prev) p l 0) (hnull : 0 ∉ l)
    (h : s.seek goesOn fuel (firstPtr id l 0) = some cursor) :
    cursor = firstPtr id (l.dropWhile goesOn) 0 := by
  induction l generalizing p fuel with
  | nil =>
    cases fuel with
    | zero => cases h
    | succ fuel =>
      unfold seek at h
      rw [if_neg fun hc => hc.1 rfl] at h
      exact (Option.some.inj h).symm
  | cons n l ih =>
    cases fuel with
    | zero => cases h
    | succ fuel =>
      have hn : n ≠ 0 := fun he => hnull (by simp [he])
      unfold seek at h
      rw [List.dropWhile_cons]
      by_cases hgo : goesOn n = true
      · rw [if_pos ⟨hn, hgo⟩, show (s.nodes (firstPtr id (n :: l) 0)).next = firstPtr id l 0 from hl.2.1] at h
        rw [if_pos hgo]
        exact ih hl.2.2 (fun hm => hnull (List.mem_cons_of_mem _ hm)) h
      · rw [if_neg fun hc => hgo hc.2] at h
        rw [if_neg hgo]
        exact (Option.some.inj h).symm

/-- With enough fuel a search ends. -/
theorem seek_ends (goesOn : Pointer → Bool) {p : Pointer}
    (hl : Segment id (fun n => (s.nodes n).next) (fun n => (s.nodes n).prev) p l 0)
    (hfuel : l.length < fuel) : ∃ cursor, s.seek goesOn fuel (firstPtr id l 0) = some cursor := by
  induction l generalizing p fuel with
  | nil =>
    obtain ⟨fuel, rfl⟩ := Nat.exists_eq_succ_of_ne_zero (Nat.pos_iff_ne_zero.mp hfuel)
    unfold seek
    rw [if_neg fun hc => hc.1 rfl]
    exact ⟨_, rfl⟩
  | cons n l ih =>
    obtain ⟨fuel, rfl⟩ := Nat.exists_eq_succ_of_ne_zero (Nat.ne_zero_of_lt hfuel)
    unfold seek
    split_ifs
    · rw [show (s.nodes (firstPtr id (n :: l) 0)).next = firstPtr id l 0 from hl.2.1]
      exact ih hl.2.2 (Nat.lt_of_succ_lt_succ hfuel)
    · exact ⟨_, rfl⟩

/-! ## Pushing by priority -/

/-- The links do not depend on the priorities. -/
theorem Linked.setPriority (h : Linked others s l) (node : Pointer) (priority : BitVec 32) :
    Linked others (s.setNode node fun n => { n with priority := priority }) l := by
  have hfield : ∀ {α : Type} (field : KqueueNodeT → α)
      (_ : ∀ n, field { n with priority := priority } = field n) (m : Pointer),
      field ((s.setNode node fun n => { n with priority := priority }).nodes m) =
        field (s.nodes m) := by
    intro α field hf m
    rw [setNode_nodes]
    split_ifs with hm
    · rw [hf, hm]
    · rfl
  refine ⟨h.nodup, h.not_null, h.segment.congr (fun m _ => ?_) (fun m _ => ?_), h.head, h.tail,
    fun m => ?_, h.apart⟩
  · exact hfield KqueueNodeT.next (fun _ => rfl) m
  · exact hfield KqueueNodeT.prev (fun _ => rfl) m
  · rw [hfield KqueueNodeT.enlisted (fun _ => rfl) m, h.enlisted]

theorem Linked.linkBefore {cursor : Pointer} {rest : List Pointer}
    (h : Linked others s (before ++ cursor :: rest))
    (hn : node ∉ before ++ cursor :: rest) (hnull : node ≠ 0) (hother : node ∉ others) :
    ∃ s', (s.linkBefore node cursor).enlist node = some s' ∧
      Linked others s' (before ++ node :: cursor :: rest) ∧ s'.size = s.size + 1 := by
  have hprev : (s.nodes cursor).prev = lastPtr id 0 before := (segment_append.mp h.segment).2.1
  have hcursor : node ≠ cursor := fun he => hn (by simp [he])
  have hnull' : 0 ∉ before := fun hm => h.not_null (List.mem_append_left _ hm)
  have hlast : node ≠ lastPtr id 0 before := by
    rcases List.eq_nil_or_concat before with rfl | ⟨l, b, rfl⟩
    · exact hnull
    · rw [List.concat_eq_append, lastPtr_concat]
      exact fun he : node = b => hn (by simp [he])
  have hself : ((((s.setNext node cursor).setPrev node (lastPtr id 0 before)).setPrev cursor node).nodes
      node).prev = lastPtr id 0 before := by
    rw [setPrev_prev, if_neg hcursor, setPrev_prev, if_pos rfl]
  have hmem : ∀ m ∈ before ++ cursor :: rest, m ≠ node ∧ m ≠ 0 := fun m hm =>
    ⟨fun he => hn (he ▸ hm), fun he => h.not_null (he ▸ hm)⟩
  unfold KqueueT.linkBefore
  dsimp only
  rw [hprev, hself]
  by_cases hbefore : before = []
  · subst hbefore
    rw [if_neg (not_not.mpr (show lastPtr id (0 : Pointer) [] = 0 from rfl))]
    refine h.enlist hn hnull hother (fun m hm => ?_) (fun m hm => ?_) ?_ rfl rfl (fun m => ?_) rfl
    · dsimp only
      rw [setPrev_next, setPrev_next, setNext_next, if_neg (hmem m hm).1]
      exact (if_neg (hmem m hm).2).symm
    · dsimp only
      rw [setPrev_prev, setPrev_prev, if_neg (hmem m hm).1, setNext_prev]
      rfl
    · refine ⟨?_, hself⟩
      dsimp only
      rw [setPrev_next, setPrev_next, setNext_next, if_pos rfl]
      rfl
    · simp
  · rw [if_pos fun he => hbefore ((lastPtr_eq_zero hnull').mp he)]
    refine h.enlist hn hnull hother (fun m hm => ?_) (fun m hm => ?_) ?_ ?_ rfl (fun m => ?_) rfl
    · rw [setNext_next, setPrev_next, setPrev_next, setNext_next, if_neg (hmem m hm).1]
    · rw [setNext_prev, setPrev_prev, setPrev_prev, if_neg (hmem m hm).1, setNext_prev]
      rfl
    · refine ⟨?_, ?_⟩
      · rw [setNext_next, if_neg hlast, setPrev_next, setPrev_next, setNext_next, if_pos rfl]
        rfl
      · rw [setNext_prev, hself]
    · rw [if_neg hbefore]
      rfl
    · simp

theorem Linked.linkTail (h : Linked others s l) (hl : l ≠ []) (hn : node ∉ l) (hnull : node ≠ 0)
    (hother : node ∉ others) :
    ∃ s', (s.linkTail node).enlist node = some s' ∧ Linked others s' (l ++ [node]) ∧
      s'.size = s.size + 1 := by
  have h' : Linked others s (l ++ []) := by rwa [List.append_nil]
  have hmem : ∀ m ∈ l ++ [], m ≠ node ∧ m ≠ 0 := by
    intro m hm
    rw [List.append_nil] at hm
    exact ⟨fun he => hn (he ▸ hm), fun he => h.not_null (he ▸ hm)⟩
  have hlast : node ≠ lastPtr id 0 l := by
    rcases List.eq_nil_or_concat l with rfl | ⟨l, b, rfl⟩
    · exact hnull
    · rw [List.concat_eq_append, lastPtr_concat]
      exact fun he : node = b => hn (by simp [he])
  unfold KqueueT.linkTail
  rw [h.tail]
  refine h'.enlist (by rwa [List.append_nil]) hnull hother (fun m hm => ?_) (fun m hm => ?_) ?_ ?_ rfl
    (fun m => ?_) rfl
  · dsimp only
    rw [setNext_next, setNext_next, if_neg (hmem m hm).1, setPrev_next]
  · dsimp only
    rw [setNext_prev, setNext_prev, setPrev_prev, if_neg (hmem m hm).1]
    exact (if_neg (hmem m hm).2).symm
  · dsimp only
    rw [setNext_next, if_neg hlast, setNext_next, if_pos rfl, setNext_prev, setNext_prev, setPrev_prev,
      if_pos rfl]
    exact ⟨rfl, rfl⟩
  · rw [if_neg hl]
    rfl
  · simp

/-- What `kqueue_push_prio` does once the search has ended: the node is put in front of the first one
whose priority is not higher. -/
theorem Linked.pushFound (h : Linked others s l) (hl : l ≠ []) (hn : node ∉ l) (hnull : node ≠ 0)
    (hother : node ∉ others) {priority : BitVec 32} {cursor : Pointer}
    (hseek : s.seek (fun n => (s.nodes n).priority > priority) fuel s.head = some cursor) :
    ∃ s', (if cursor ≠ 0 then (s.linkBefore node cursor).enlist node
        else if s.tail = 0 then none
        else (s.linkTail node).enlist node) = some s' ∧ s'.size = s.size + 1 ∧
      ∃ before after, l = before ++ after ∧ Linked others s' (before ++ node :: after) ∧
        (∀ n ∈ before, priority < (s.nodes n).priority) ∧
        ∀ n ∈ after.head?, (s.nodes n).priority ≤ priority := by
  rw [h.head] at hseek
  have hcursor := seek_eq h.segment h.not_null hseek
  set goesOn : Pointer → Bool := fun n => decide ((s.nodes n).priority > priority) with hgoesOn
  have hsplit : l.takeWhile goesOn ++ l.dropWhile goesOn = l := List.takeWhile_append_dropWhile
  have hbefore : ∀ n ∈ l.takeWhile goesOn, priority < (s.nodes n).priority := by
    intro n hm
    have hgo : goesOn n = true := List.mem_takeWhile_imp hm
    exact of_decide_eq_true hgo
  have hafter : ∀ n ∈ (l.dropWhile goesOn).head?, (s.nodes n).priority ≤ priority := by
    intro n hm
    have hstop := List.head?_dropWhile_not goesOn l
    rw [hm] at hstop
    simpa [hgoesOn] using hstop
  cases hd : l.dropWhile goesOn with
  | nil =>
    rw [hd] at hcursor hsplit
    rw [List.append_nil] at hsplit
    have htail : s.tail ≠ 0 := by
      rw [h.tail]
      exact fun he => hl ((lastPtr_eq_zero h.not_null).mp he)
    rw [hcursor, firstPtr_nil, if_neg (not_not.mpr rfl), if_neg htail]
    obtain ⟨s', hs', hlinked, hsize⟩ := h.linkTail hl hn hnull hother
    refine ⟨s', hs', hsize, l, [], (List.append_nil _).symm, hlinked, ?_, by simp⟩
    rwa [hsplit] at hbefore
  | cons c after =>
    rw [hd] at hcursor hsplit hafter
    obtain rfl : cursor = c := hcursor
    rw [← hsplit] at h hn
    have hc : cursor ≠ 0 := fun he => h.not_null (by rw [he]; simp)
    rw [if_pos hc]
    obtain ⟨s', hs', hlinked, hsize⟩ := h.linkBefore hn hnull hother
    exact ⟨s', hs', hsize, _, _, hsplit.symm, hlinked, hbefore, hafter⟩

theorem Linked.pushPrio (h : Linked others s l) (hn : node ∉ l) (hnull : node ≠ 0)
    (hother : node ∉ others) (priority : BitVec 32) :
    (l.length < fuel → (s.pushPrio fuel node priority).isSome) ∧
      ∀ s', s.pushPrio fuel node priority = some s' → s'.size = s.size + 1 ∧
        ∃ before after, l = before ++ after ∧ Linked others s' (before ++ node :: after) ∧
          (∀ n ∈ before, priority < (s.nodes n).priority) ∧
          ∀ n ∈ after.head?, (s.nodes n).priority ≤ priority := by
  have h1 := h.setPriority node priority
  have hprio : ∀ m ∈ l, ((s.setNode node fun n => { n with priority := priority }).nodes m).priority =
      (s.nodes m).priority := by
    intro m hm
    have hne : m ≠ node := fun he => hn (he ▸ hm)
    rw [setNode_nodes, if_neg hne]
  have hsize : (s.setNode node fun n => { n with priority := priority }).size = s.size := rfl
  unfold KqueueT.pushPrio
  rw [if_neg hnull]
  generalize s.setNode node (fun n => { n with priority := priority }) = s1 at h1 hprio hsize ⊢
  dsimp only
  cases l with
  | nil =>
    rw [if_pos (show s1.head = 0 from h1.head)]
    obtain ⟨s2, hs2, hlinked, hsize2⟩ := h1.linkAlone hnull hother
    rw [hs2]
    refine ⟨fun _ => rfl, fun s' hs' => ?_⟩
    obtain rfl := Option.some.inj hs'
    exact ⟨by rw [hsize2, hsize], [], [], rfl, hlinked, by simp, by simp⟩
  | cons a rest =>
    have hhead : s1.head ≠ 0 := by
      rw [h1.head]
      exact fun he : a = 0 => h1.not_null (by simp [he])
    rw [if_neg hhead]
    refine ⟨fun hfuel => ?_, fun s' hs' => ?_⟩
    · rw [h1.head]
      obtain ⟨cursor, hseek⟩ := seek_ends (s := s1)
        (fun n => (s1.nodes n).priority > priority) h1.segment hfuel
      rw [hseek, Option.bind_some]
      rw [← h1.head] at hseek
      obtain ⟨s', hs', -⟩ := h1.pushFound (List.cons_ne_nil a rest) hn hnull hother hseek
      rw [hs']
      rfl
    · obtain ⟨cursor, hseek, hput⟩ := Option.bind_eq_some_iff.mp hs'
      obtain ⟨s2, hs2, hsize2, before, after, hl, hlinked, hbefore, hafter⟩ :=
        h1.pushFound (List.cons_ne_nil a rest) hn hnull hother hseek
      obtain rfl : s2 = s' := Option.some.inj (hs2.symm.trans hput)
      refine ⟨by rw [hsize2, hsize], before, after, hl, hlinked, fun n hm => ?_, fun n hm => ?_⟩
      · rw [← hprio n (hl ▸ List.mem_append_left _ hm)]
        exact hbefore n hm
      · rw [← hprio n (hl ▸ List.mem_append_right _ (List.mem_of_head? hm))]
        exact hafter n hm

/-! ## Taking nodes out -/

@[simp] theorem unlist_next : ((s.unlist node).nodes m).next =
    if m = node then 0 else (s.nodes m).next := by
  unfold unlist
  rw [setEnlisted_next, setPrev_next, setNext_next]

@[simp] theorem unlist_prev : ((s.unlist node).nodes m).prev =
    if m = node then 0 else (s.nodes m).prev := by
  unfold unlist
  rw [setEnlisted_prev, setPrev_prev, setNext_prev]

@[simp] theorem unlist_enlisted : ((s.unlist node).nodes m).enlisted =
    if m = node then false else (s.nodes m).enlisted := by
  unfold unlist
  rw [setEnlisted_enlisted, setPrev_enlisted, setNext_enlisted]

theorem Linked.pop (h : Linked others s l) {r : Pointer × KqueueT} (hpop : s.pop = some r) :
    (l = [] ∧ r = (0, s)) ∨
      ∃ rest, l = rest ++ [r.1] ∧ Linked others r.2 rest ∧ r.2.size = s.size - 1 := by
  unfold KqueueT.pop at hpop
  rcases List.eq_nil_or_concat l with rfl | ⟨rest, node, rfl⟩
  · rw [if_pos (show s.head = 0 from h.head)] at hpop
    exact .inl ⟨rfl, (Option.some.inj hpop).symm⟩
  · rw [List.concat_eq_append] at h ⊢
    have hhead : s.head ≠ 0 := by
      rw [h.head]
      exact fun he => by simpa using (firstPtr_eq_zero h.not_null).mp he
    have htail : s.tail = node := by
      rw [h.tail, lastPtr_concat]
      rfl
    have hnode : node ≠ 0 := fun he => h.not_null (by simp [he])
    have hnull : 0 ∉ rest := fun hm => h.not_null (List.mem_append_left _ hm)
    have hprev : (s.nodes node).prev = lastPtr id 0 rest := (segment_concat.mp h.segment).2.1
    have hmem : ∀ m ∈ rest, m ≠ node := fun m hm he =>
      (List.nodup_append.mp h.nodup).2.2 m hm node (by simp) he
    rw [if_neg hhead, htail, if_neg hnode] at hpop
    obtain rfl := Option.some.inj hpop
    refine .inr ⟨rest, rfl, ?_, ?_⟩
    · have herase : Linked others
          ({ s.unlinkTail with size := s.size - 1 }.unlist node) (rest ++ []) := by
        unfold unlinkTail
        rw [htail, hprev]
        by_cases hrest : rest = []
        · subst hrest
          rw [if_neg (not_not.mpr (show lastPtr id (0 : Pointer) [] = 0 from rfl))]
          exact h.erase (by simp) (by simp) rfl rfl fun m => unlist_enlisted
        · rw [if_pos fun he => hrest ((lastPtr_eq_zero hnull).mp he)]
          refine h.erase (fun m hm => ?_) (fun m hm => ?_) ?_ rfl fun m => ?_
          · rw [List.append_nil] at hm
            rw [unlist_next, if_neg (hmem m hm)]
            exact setNext_next
          · rw [List.append_nil] at hm
            rw [unlist_prev, if_neg (hmem m hm)]
            have hm0 : m ≠ 0 := fun he => hnull (he ▸ hm)
            exact setNext_prev.trans (if_neg hm0).symm
          · rw [if_neg hrest]
            rfl
          · refine unlist_enlisted.trans ?_
            split_ifs
            · rfl
            · exact setNext_enlisted
      rwa [List.append_nil] at herase
    · show (s.size - 1) = _
      rfl

theorem Linked.pop_ends (h : Linked others s l) : ∃ r, s.pop = some r := by
  unfold KqueueT.pop
  by_cases hhead : s.head = 0
  · exact ⟨(0, s), if_pos hhead⟩
  · have htail : s.tail ≠ 0 := by
      rw [h.tail]
      rw [h.head] at hhead
      exact fun he => hhead ((firstPtr_eq_zero h.not_null).mpr ((lastPtr_eq_zero h.not_null).mp he))
    rw [if_neg hhead, if_neg htail]
    exact ⟨_, rfl⟩

theorem unlink_next (hm : m ≠ 0) : ((s.unlink node).nodes m).next =
    if m = (s.nodes node).prev then (s.nodes node).next else (s.nodes m).next := by
  unfold KqueueT.unlink
  dsimp only
  split_ifs with h1 h2 h3 h4 h5 h6 h7 <;> simp_all

theorem unlink_prev (hm : m ≠ 0) : ((s.unlink node).nodes m).prev =
    if m = (s.nodes node).next then (s.nodes node).prev else (s.nodes m).prev := by
  unfold KqueueT.unlink
  dsimp only
  split_ifs with h1 h2 h3 h4 h5 h6 h7 <;> simp_all

theorem unlink_enlisted : ((s.unlink node).nodes m).enlisted = (s.nodes m).enlisted := by
  unfold KqueueT.unlink
  dsimp only
  split_ifs <;> simp

theorem unlink_head : (s.unlink node).head =
    if (s.nodes node).prev = 0 then (s.nodes node).next else s.head := by
  unfold KqueueT.unlink
  dsimp only
  split_ifs <;> simp_all

theorem unlink_tail : (s.unlink node).tail =
    if (s.nodes node).next = 0 then (s.nodes node).prev else s.tail := by
  unfold KqueueT.unlink
  dsimp only
  split_ifs <;> simp_all

theorem unlink_size : (s.unlink node).size = s.size := by
  unfold KqueueT.unlink
  dsimp only
  split_ifs <;> rfl

/-- The links around a node are closed. -/
theorem Linked.unlink (h : Linked others s (before ++ node :: after)) :
    Linked others ((s.unlink node).unlist node) (before ++ after) := by
  have hprev : (s.nodes node).prev = lastPtr id 0 before := (segment_append.mp h.segment).2.1
  have hnext : (s.nodes node).next = firstPtr id after 0 := (segment_append.mp h.segment).2.2.1
  have hnot : ∀ m ∈ before ++ after, m ≠ node := by
    intro m hm he
    have hnodup := List.perm_middle.nodup_iff.mp h.nodup
    exact (List.nodup_cons.mp hnodup).1 (he ▸ hm)
  have hzero : ∀ m ∈ before ++ after, m ≠ 0 := fun m hm he =>
    h.not_null (List.perm_middle.mem_iff.mpr (List.mem_cons_of_mem _ (he ▸ hm)))
  have hnull : 0 ∉ before := fun hm => h.not_null (List.mem_append_left _ hm)
  have hnull' : 0 ∉ after := fun hm =>
    h.not_null (List.mem_append_right _ (List.mem_cons_of_mem _ hm))
  refine h.erase (fun m hm => ?_) (fun m hm => ?_) ?_ ?_ fun m => ?_
  · rw [unlist_next, if_neg (hnot m hm), unlink_next (hzero m hm), hprev, hnext]
  · rw [unlist_prev, if_neg (hnot m hm), unlink_prev (hzero m hm), hprev, hnext]
  · rw [show ((s.unlink node).unlist node).head = (s.unlink node).head from rfl, unlink_head, hprev, hnext]
    simp only [lastPtr_eq_zero hnull]
  · rw [show ((s.unlink node).unlist node).tail = (s.unlink node).tail from rfl, unlink_tail, hprev, hnext]
    simp only [firstPtr_eq_zero hnull']
  · rw [unlist_enlisted, unlink_enlisted]

/-- What is removed is in the queue, and the size is not counted down. -/
theorem Linked.remove (h : Linked others s l) (hremove : s.remove fuel node = some s') :
    ∃ before after, l = before ++ node :: after ∧ Linked others s' (before ++ after) ∧
      s'.size = s.size := by
  unfold KqueueT.remove at hremove
  split_ifs at hremove with hnode
  obtain ⟨cursor, hseek, hput⟩ := Option.bind_eq_some_iff.mp hremove
  rw [h.head] at hseek
  have hcursor := seek_eq h.segment h.not_null hseek
  split_ifs at hput with hc
  obtain rfl := Option.some.inj hput
  set goesOn : Pointer → Bool := fun n => decide (n ≠ node) with hgoesOn
  have hsplit : l.takeWhile goesOn ++ l.dropWhile goesOn = l := List.takeWhile_append_dropWhile
  cases hd : l.dropWhile goesOn with
  | nil =>
    rw [hd] at hcursor
    exact absurd hcursor hc
  | cons a after =>
    rw [hd] at hcursor hsplit
    obtain rfl : cursor = a := hcursor
    obtain rfl : cursor = node := by
      have hstop := List.head?_dropWhile_not goesOn l
      rw [hd] at hstop
      simpa [hgoesOn] using hstop
    refine ⟨_, after, hsplit.symm, ?_, ?_⟩
    · rw [← hsplit] at h
      exact h.unlink
    · exact unlink_size

/-! ## Runs -/

/-- The nodes that are met from a pointer on, until a null pointer. -/
inductive Visits (link : Pointer → Pointer) : Pointer → List Pointer → Prop
  | done : Visits link 0 []
  | next {node : Pointer} {l : List Pointer} (hnode : node ≠ 0) (h : Visits link (link node) l) :
    Visits link node (node :: l)

theorem Visits.unique {link : Pointer → Pointer} {p : Pointer} {l l' : List Pointer}
    (h : Visits link p l) (h' : Visits link p l') : l = l' := by
  induction h generalizing l' with
  | done =>
    cases h' with
    | done => rfl
    | next hnode _ => exact absurd rfl hnode
  | next hnode _ ih =>
    cases h' with
    | done => exact absurd rfl hnode
    | next _ h' => rw [ih h']

theorem Visits.of_segment {next prev : Pointer → Pointer} {p : Pointer}
    (h : Segment id next prev p l 0) (hnull : 0 ∉ l) : Visits next (firstPtr id l 0) l := by
  induction l generalizing p with
  | nil => exact .done
  | cons n l ih =>
    refine .next (fun he => hnull (by rw [← he]; exact List.mem_cons_self ..)) ?_
    rw [show next (firstPtr id (n :: l) 0) = firstPtr id l 0 from h.2.1]
    exact ih h.2.2 fun hm => hnull (List.mem_cons_of_mem _ hm)

theorem Visits.of_segment_prev {next prev : Pointer → Pointer} {q : Pointer}
    (h : Segment id next prev 0 l q) (hnull : 0 ∉ l) : Visits prev (lastPtr id 0 l) l.reverse := by
  induction l using List.reverseRecOn generalizing q with
  | nil => exact .done
  | append_singleton l n ih =>
    obtain ⟨h1, h2, -⟩ := segment_concat.mp h
    rw [lastPtr_concat, List.reverse_append]
    refine .next (fun he => hnull ?_) ?_
    · rw [← he]
      exact List.mem_append_right _ (List.mem_singleton_self n)
    · rw [show prev (id n) = lastPtr id 0 l from h2]
      exact ih h1 fun hm => hnull (List.mem_append_left _ hm)

/-- Forward from the head and backward from the tail the same nodes are met, in reverse order; these are
the nodes that are marked, but for those of other queues, and the size is their number. -/
def Consistent (others : Set Pointer) (s : KqueueT) : Prop :=
  ∃ l, Visits (fun n => (s.nodes n).next) s.head l ∧
    Visits (fun n => (s.nodes n).prev) s.tail l.reverse ∧
    (∀ n, n ∉ others → ((s.nodes n).enlisted = true ↔ n ∈ l)) ∧ s.size.toNat = l.length

/-- The queue is a list, and its size the length of it. -/
def Counted (others : Set Pointer) (s : KqueueT) : Prop :=
  ∃ l, Linked others s l ∧ s.size.toNat = l.length

theorem Counted.consistent (h : Counted others s) : Consistent others s := by
  obtain ⟨l, hl, hsize⟩ := h
  refine ⟨l, ?_, ?_, fun n hn => ?_, hsize⟩
  · rw [hl.head]
    exact Visits.of_segment hl.segment hl.not_null
  · rw [hl.tail]
    exact Visits.of_segment_prev hl.segment hl.not_null
  · rw [hl.enlisted, or_iff_left hn]

/-- There are fewer nodes in a queue than addresses. -/
theorem Linked.length_lt (h : Linked others s l) : l.length + 1 ≤ 2 ^ 32 := by
  have hnodup : (0 :: l).Nodup := List.nodup_cons.mpr ⟨h.not_null, h.nodup⟩
  have hfin : ((0 :: l).map BitVec.toFin).Nodup :=
    hnodup.map fun a b hab => BitVec.toFin_inj.mp hab
  have hcard := hfin.length_le_card
  rwa [List.length_map, List.length_cons, Fintype.card_fin] at hcard

/-- Does the call leave the size right? -/
def Keeps (_ : KqueueT) : KqueueAct → Prop
  | .remove _ => False
  | _ => True

theorem Started.linked (h : Started others s) : Linked others s [] := by
  refine ⟨List.nodup_nil, List.not_mem_nil, trivial, h.head, h.tail, fun n => ?_, by simp⟩
  rw [h.enlisted]
  simp

theorem Started.counted (h : Started others s) : Counted others s := by
  refine ⟨[], h.linked, ?_⟩
  rw [h.size]
  rfl

theorem Linked.counted_of_push (h : Linked others s' (before ++ node :: after))
    (hsize : s.size.toNat = (before ++ after).length) (hpush : s'.size = s.size + 1) :
    Counted others s' := by
  refine ⟨_, h, ?_⟩
  have hlt := h.length_lt
  rw [List.length_append, List.length_cons] at hlt ⊢
  rw [List.length_append] at hsize
  have hone : (1 : BitVec 32).toNat = 1 := rfl
  rw [hpush, BitVec.toNat_add, hsize, hone]
  omega

theorem Counted.step {act : KqueueAct} (h : Counted others s) (hstep : Step s act s')
    (hkeeps : Keeps s act) : Counted others s' := by
  obtain ⟨l, hl, hsize⟩ := h
  obtain ⟨fuel, hexec⟩ := hstep
  have hfresh : ∀ {n}, ¬ (s.nodes n).enlisted = true → n ∉ l ∧ n ∉ others := fun hn =>
    not_or.mp fun hc => hn ((hl.enlisted _).mpr hc)
  cases act with
  | push node =>
    unfold exec at hexec
    dsimp only at hexec
    split_ifs at hexec with hnode
    have hnull : node ≠ 0 := by
      rintro rfl
      cases hexec
    obtain ⟨s2, hs2, hlinked, hpush⟩ := hl.push (hfresh hnode).1 hnull (hfresh hnode).2
    obtain rfl : s2 = s' := Option.some.inj (hs2.symm.trans hexec)
    exact @Linked.counted_of_push _ _ _ [] _ _ hlinked hsize hpush
  | pushPrio node priority =>
    unfold exec at hexec
    dsimp only at hexec
    split_ifs at hexec with hnode
    have hnull : node ≠ 0 := by
      rintro rfl
      cases hexec
    obtain ⟨hpush, before, after, rfl, hlinked, -, -⟩ :=
      (hl.pushPrio (hfresh hnode).1 hnull (hfresh hnode).2 priority).2 s' hexec
    exact hlinked.counted_of_push hsize hpush
  | pop =>
    obtain ⟨r, hr, rfl⟩ := Option.map_eq_some_iff.mp hexec
    rcases hl.pop hr with ⟨rfl, rfl⟩ | ⟨rest, rfl, hlinked, hpop⟩
    · exact ⟨[], hl, hsize⟩
    · refine ⟨rest, hlinked, ?_⟩
      rw [List.length_append, List.length_singleton] at hsize
      have hlt := hl.length_lt
      rw [List.length_append, List.length_singleton] at hlt
      have hone : (1 : BitVec 32).toNat = 1 := rfl
      rw [hpop, BitVec.toNat_sub, hsize, hone]
      omega
  | find data =>
    obtain ⟨cursor, -, rfl⟩ := Option.map_eq_some_iff.mp hexec
    exact ⟨l, hl, hsize⟩
  | remove node => exact hkeeps.elim

/-- What a caller has to see to: a node that is pushed is no null pointer and not enlisted, one that is
removed is in the queue. -/
def Allowed (s : KqueueT) (l : List Pointer) : KqueueAct → Prop
  | .push node => node ≠ 0 ∧ (s.nodes node).enlisted = false
  | .pushPrio node _ => node ≠ 0 ∧ (s.nodes node).enlisted = false
  | .remove node => node ∈ l
  | _ => True

/-- Such a call ends: it does not panic, and no search goes on for ever. -/
theorem Linked.progress {act : KqueueAct} (h : Linked others s l) (hact : Allowed s l act) :
    ∃ s', Step s act s' := by
  have hfresh : ∀ {n}, (s.nodes n).enlisted = false → n ∉ l ∧ n ∉ others := fun hn =>
    not_or.mp fun hc => by simpa [hn] using (h.enlisted _).mpr hc
  cases act with
  | push node =>
    obtain ⟨hn, hother⟩ := hfresh hact.2
    obtain ⟨s', hs', -⟩ := h.push hn hact.1 hother
    refine ⟨s', 0, ?_⟩
    unfold exec
    dsimp only
    rw [hact.2, if_neg (by decide), hs']
  | pushPrio node priority =>
    obtain ⟨hn, hother⟩ := hfresh hact.2
    obtain ⟨s', hs'⟩ := Option.isSome_iff_exists.mp
      ((h.pushPrio hn hact.1 hother priority).1 (Nat.lt_succ_self _))
    refine ⟨s', l.length + 1, ?_⟩
    unfold exec
    dsimp only
    rw [hact.2, if_neg (by decide), hs']
  | pop =>
    obtain ⟨r, hpop⟩ := h.pop_ends
    refine ⟨r.2, 0, ?_⟩
    unfold exec
    dsimp only
    rw [hpop]
    rfl
  | find data =>
    obtain ⟨cursor, hseek⟩ := seek_ends (fun n => (s.nodes n).data ≠ data) h.segment
      (Nat.lt_succ_self _)
    rw [← h.head] at hseek
    exact ⟨s, l.length + 1, congrArg (Option.map fun _ => s) hseek⟩
  | remove node =>
    obtain ⟨cursor, hseek⟩ := seek_ends (fun n => n ≠ node) h.segment (Nat.lt_succ_self _)
    have hcursor := seek_eq h.segment h.not_null hseek
    have hnode : node ≠ 0 := fun he => h.not_null (he ▸ hact)
    have hc : cursor ≠ 0 := by
      intro he
      have hsub : l.dropWhile (fun n => n ≠ node) <:+ l := List.dropWhile_suffix _
      rw [hcursor, firstPtr_eq_zero fun hm => h.not_null (hsub.subset hm),
        List.dropWhile_eq_nil_iff] at he
      simpa using he node hact
    rw [← h.head] at hseek
    refine ⟨(s.unlink cursor).unlist node, l.length + 1, ?_⟩
    unfold exec KqueueT.remove
    dsimp only
    rw [if_neg hnode, hseek, Option.bind_some, if_neg hc]

/-- A call that removes a node leaves a size that is one too many. -/
theorem Counted.not_consistent {fuel : ℕ} (h : Counted others s)
    (hremove : s.remove fuel node = some s') : ¬ Consistent others s' := by
  rintro ⟨l', hvisits, -, -, hcount⟩
  obtain ⟨l, hl, hsize⟩ := h
  obtain ⟨before, after, rfl, hlinked, hsame⟩ := hl.remove hremove
  have hl' : before ++ after = l' := by
    refine Visits.unique ?_ hvisits
    rw [hlinked.head]
    exact Visits.of_segment hlinked.segment hlinked.not_null
  rw [← hl', hsame, hsize, List.length_append, List.length_append, List.length_cons] at hcount
  omega

/-- A queue is consistent in every state that a run visits exactly when the run removes no node. -/
theorem queue_consistent_iff (h : Started others s) {run : List (KqueueAct × KqueueT)}
    (hrun : Trace Step s run) :
    (∀ x ∈ run, Consistent others x.2) ↔ GuardedTrace Keeps s run := by
  have hkeep : ∀ s act s', Counted others s → Step s act s' → Keeps s act → Counted others s' :=
    fun s act s' hs hstep hkeeps => hs.step hstep hkeeps
  have hneed : ∀ s act s', Counted others s → Step s act s' → Consistent others s' →
      Keeps s act := by
    intro s act s' hs hstep hgood
    cases act with
    | remove node =>
      obtain ⟨fuel, hexec⟩ := hstep
      exact absurd hgood (hs.not_consistent hexec)
    | push node => trivial
    | pushPrio node priority => trivial
    | pop => trivial
    | find data => trivial
  exact hrun.forall_iff_guarded (Counted others) (Consistent others) (fun _ hs => hs.consistent)
    hkeep hneed h.counted

/-- An empty queue, and no node anywhere that is enlisted. -/
def emptyQueue : KqueueT where
  nodes := fun _ => ⟨0, 0, false, 0, 0⟩
  head := 0
  tail := 0
  size := 0

theorem emptyQueue_started : Started ∅ emptyQueue :=
  ⟨rfl, rfl, rfl, fun n => by simp [emptyQueue]⟩

theorem emptyQueue_push : (emptyQueue.push 1).isSome := by decide

/-- One node is pushed. -/
theorem queue_consistent_iff_push : ∃ s', Step emptyQueue (.push 1) s' ∧
    ((∀ x ∈ [(KqueueAct.push 1, s')], Consistent ∅ x.2) ↔
      GuardedTrace Keeps emptyQueue [(.push 1, s')]) := by
  obtain ⟨s', hs'⟩ := Option.isSome_iff_exists.mp emptyQueue_push
  have hstep : Step emptyQueue (.push 1) s' := ⟨0, hs'⟩
  exact ⟨s', hstep, queue_consistent_iff emptyQueue_started (.cons hstep (.nil s'))⟩

/-- The queue whose only node was removed has a size of one. -/
theorem queue_inconsistent_after_remove : ¬ ∀ (others : Set Pointer) (s : KqueueT)
    (run : List (KqueueAct × KqueueT)), Started others s → Trace Step s run →
      ∀ x ∈ run, Consistent others x.2 := by
  intro hclaim
  have hrun : ((emptyQueue.push 1).bind fun s => s.remove 1 1).isSome := by decide
  obtain ⟨s2, hs2⟩ := Option.isSome_iff_exists.mp hrun
  obtain ⟨s1, hs1, hremove⟩ := Option.bind_eq_some_iff.mp hs2
  have hpush : Step emptyQueue (.push 1) s1 := ⟨0, hs1⟩
  have hgood := hclaim ∅ emptyQueue [(.push 1, s1), (.remove 1, s2)] emptyQueue_started
    (.cons hpush (.cons ⟨1, hremove⟩ (.nil s2)))
  exact (emptyQueue_started.counted.step hpush trivial).not_consistent hremove
    (hgood (.remove 1, s2) (by simp))

end KqueueT

end UtkKernel.Structures
