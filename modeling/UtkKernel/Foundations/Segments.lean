import Mathlib.Data.List.Nodup
import Mathlib.Logic.Function.Basic

/-! # Doubly linked segments

Nodes linked in the order of a list by two fields, `next` and `prev`, that hold pointers. `ptr` is the
pointer to a node; the pointers before the first node and behind the last one are given, so that a
segment is a queue that ends with null pointers, a part of a longer queue, or a ring. -/

namespace UtkKernel.Foundations
set_option autoImplicit false

variable {α β : Type} (ptr : α → β)

/-- The pointer to the first node, or else `q`. -/
def firstPtr : List α → β → β
  | [], q => q
  | n :: _, _ => ptr n

/-- The pointer to the last node, or else `p`. -/
def lastPtr : β → List α → β
  | p, [] => p
  | _, n :: l => lastPtr (ptr n) l

/-- The nodes of the list are linked in its order, from the pointer `p` before them to the pointer `q`
behind them. -/
def Segment (next prev : α → β) : β → List α → β → Prop
  | _, [], _ => True
  | p, n :: l, q => prev n = p ∧ next n = firstPtr ptr l q ∧ Segment next prev (ptr n) l q

variable {ptr} {next prev next' prev' : α → β} {p q p' q' : β} {l l1 l2 before after : List α} {n : α}

@[simp] theorem firstPtr_nil : firstPtr ptr [] q = q := rfl

@[simp] theorem firstPtr_cons : firstPtr ptr (n :: l) q = ptr n := rfl

@[simp] theorem lastPtr_nil : lastPtr ptr p [] = p := rfl

theorem firstPtr_append : firstPtr ptr (l1 ++ l2) q = firstPtr ptr l1 (firstPtr ptr l2 q) := by
  cases l1 <;> rfl

theorem lastPtr_append : lastPtr ptr p (l1 ++ l2) = lastPtr ptr (lastPtr ptr p l1) l2 := by
  induction l1 generalizing p with
  | nil => rfl
  | cons n l1 ih => exact ih

@[simp] theorem lastPtr_concat : lastPtr ptr p (l ++ [n]) = ptr n := lastPtr_append

theorem lastPtr_cons : lastPtr ptr p (n :: l) = lastPtr ptr (ptr n) l := rfl

theorem segment_cons : Segment ptr next prev p (n :: l) q ↔
    prev n = p ∧ next n = firstPtr ptr l q ∧ Segment ptr next prev (ptr n) l q := Iff.rfl

theorem segment_append : Segment ptr next prev p (l1 ++ l2) q ↔
    Segment ptr next prev p l1 (firstPtr ptr l2 q) ∧
      Segment ptr next prev (lastPtr ptr p l1) l2 q := by
  induction l1 generalizing p with
  | nil => exact ⟨fun h => ⟨trivial, h⟩, fun h => h.2⟩
  | cons n l1 ih =>
    rw [List.cons_append, segment_cons, segment_cons, ih, firstPtr_append, lastPtr_cons]
    tauto

theorem segment_concat : Segment ptr next prev p (l ++ [n]) q ↔
    Segment ptr next prev p l (ptr n) ∧ prev n = lastPtr ptr p l ∧ next n = q := by
  rw [segment_append, segment_cons]
  exact ⟨fun ⟨h1, h2, h3, _⟩ => ⟨h1, h2, h3⟩, fun ⟨h1, h2, h3⟩ => ⟨h1, h2, h3, trivial⟩⟩

/-- A segment depends on the fields of its own nodes only. -/
theorem Segment.congr (h : Segment ptr next prev p l q) (hnext : ∀ n ∈ l, next' n = next n)
    (hprev : ∀ n ∈ l, prev' n = prev n) : Segment ptr next' prev' p l q := by
  induction l generalizing p with
  | nil => trivial
  | cons n l ih =>
    obtain ⟨h1, h2, h3⟩ := h
    refine ⟨(hprev n (List.mem_cons_self ..)).trans h1, (hnext n (List.mem_cons_self ..)).trans h2, ?_⟩
    exact ih h3 (fun m hm => hnext m (List.mem_cons_of_mem _ hm))
      fun m hm => hprev m (List.mem_cons_of_mem _ hm)

/-- The pointers at both ends of a segment are replaced. -/
theorem Segment.relink [DecidableEq α] (h : Segment ptr next prev p l q) (hnodup : l.Nodup)
    (hnext : ∀ n ∈ l, next' n = if l.getLast? = some n then q' else next n)
    (hprev : ∀ n ∈ l, prev' n = if l.head? = some n then p' else prev n) :
    Segment ptr next' prev' p' l q' := by
  induction l generalizing p p' prev' with
  | nil => trivial
  | cons n l ih =>
    obtain ⟨-, h2, h3⟩ := h
    obtain ⟨hnot, hnodup'⟩ := List.nodup_cons.mp hnodup
    have hlast : ∀ m ∈ l, ((n :: l).getLast? = some m ↔ l.getLast? = some m) := by
      intro m hm
      cases l with
      | nil => cases hm
      | cons a l => rw [List.getLast?_cons_cons]
    refine ⟨(hprev n (List.mem_cons_self ..)).trans (if_pos rfl), ?_, ih h3 hnodup' ?_ ?_⟩
    · rw [hnext n (List.mem_cons_self ..)]
      cases l with
      | nil => exact if_pos rfl
      | cons a l =>
        rw [if_neg, h2]
        · rfl
        · intro hl
          rw [List.getLast?_cons_cons] at hl
          exact hnot (List.mem_of_getLast? hl)
    · intro m hm
      rw [hnext m (List.mem_cons_of_mem _ hm)]
      simp only [hlast m hm]
    · intro m hm
      have hne : n ≠ m := fun he => hnot (he ▸ hm)
      rw [hprev m (List.mem_cons_of_mem _ hm), List.head?_cons,
        if_neg fun hs => hne (Option.some.inj hs)]
      split_ifs with hfirst
      · cases l with
        | nil => cases hm
        | cons a l =>
          cases hfirst
          exact h3.1
      · rfl

/-- The first node points to what is before the segment. -/
theorem Segment.prev_head (h : Segment ptr next prev p l q) (hn : l.head? = some n) : prev n = p := by
  cases l with
  | nil => cases hn
  | cons a l =>
    cases hn
    exact h.1

theorem Segment.next_last (h : Segment ptr next prev p l q) (hn : l.getLast? = some n) :
    next n = q := by
  obtain ⟨l, rfl⟩ := List.getLast?_eq_some_iff.mp hn
  exact (segment_concat.mp h).2.2

theorem Segment.relink_first [DecidableEq α] (h : Segment ptr next prev p l q) (hnodup : l.Nodup)
    (hnext : ∀ n ∈ l, next' n = next n)
    (hprev : ∀ n ∈ l, prev' n = if l.head? = some n then p' else prev n) :
    Segment ptr next' prev' p' l q := by
  refine h.relink hnodup (fun n hn => ?_) hprev
  rw [hnext n hn]
  split_ifs with hlast
  · exact h.next_last hlast
  · rfl

theorem Segment.relink_last [DecidableEq α] (h : Segment ptr next prev p l q) (hnodup : l.Nodup)
    (hnext : ∀ n ∈ l, next' n = if l.getLast? = some n then q' else next n)
    (hprev : ∀ n ∈ l, prev' n = prev n) : Segment ptr next' prev' p l q' := by
  refine h.relink hnodup hnext fun n hn => ?_
  rw [hprev n hn]
  split_ifs with hfirst
  · exact h.prev_head hfirst
  · rfl

/-- A node is put between two parts of a segment. -/
theorem Segment.insert [DecidableEq α] (h : Segment ptr next prev p (before ++ after) q)
    (hnodup : (before ++ after).Nodup)
    (hnext : ∀ m ∈ before ++ after, next' m = if before.getLast? = some m then ptr n else next m)
    (hprev : ∀ m ∈ before ++ after, prev' m = if after.head? = some m then ptr n else prev m)
    (hn : next' n = firstPtr ptr after q) (hp : prev' n = lastPtr ptr p before) :
    Segment ptr next' prev' p (before ++ n :: after) q := by
  obtain ⟨hbefore, hafter⟩ := segment_append.mp h
  obtain ⟨hnodup1, hnodup2, hdisjoint⟩ := List.nodup_append.mp hnodup
  refine segment_append.mpr ⟨hbefore.relink_last hnodup1 ?_ ?_, hp, hn,
    hafter.relink_first hnodup2 ?_ ?_⟩
  · exact fun m hm => hnext m (List.mem_append_left _ hm)
  · intro m hm
    rw [hprev m (List.mem_append_left _ hm), if_neg]
    exact fun hs => hdisjoint m hm m (List.mem_of_head? hs) rfl
  · intro m hm
    rw [hnext m (List.mem_append_right _ hm), if_neg]
    exact fun hs => hdisjoint m (List.mem_of_getLast? hs) m hm rfl
  · exact fun m hm => hprev m (List.mem_append_right _ hm)

/-- A node is taken out of a segment. -/
theorem Segment.erase [DecidableEq α] (h : Segment ptr next prev p (before ++ n :: after) q)
    (hnodup : (before ++ after).Nodup)
    (hnext : ∀ m ∈ before ++ after, next' m =
      if before.getLast? = some m then firstPtr ptr after q else next m)
    (hprev : ∀ m ∈ before ++ after, prev' m =
      if after.head? = some m then lastPtr ptr p before else prev m) :
    Segment ptr next' prev' p (before ++ after) q := by
  obtain ⟨hbefore, -, -, hafter⟩ := segment_append.mp h
  obtain ⟨hnodup1, hnodup2, hdisjoint⟩ := List.nodup_append.mp hnodup
  refine segment_append.mpr ⟨hbefore.relink_last hnodup1 ?_ ?_, hafter.relink_first hnodup2 ?_ ?_⟩
  · exact fun m hm => hnext m (List.mem_append_left _ hm)
  · intro m hm
    rw [hprev m (List.mem_append_left _ hm), if_neg]
    exact fun hs => hdisjoint m hm m (List.mem_of_head? hs) rfl
  · intro m hm
    rw [hnext m (List.mem_append_right _ hm), if_neg]
    exact fun hs => hdisjoint m (List.mem_of_getLast? hs) m hm rfl
  · exact fun m hm => hprev m (List.mem_append_right _ hm)

end UtkKernel.Foundations
