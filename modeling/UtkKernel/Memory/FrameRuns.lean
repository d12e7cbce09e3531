import UtkKernel.Memory.Frames

/-! # Freeing a run of frames

All the frames of a run go back to the free list at once. The loop that sets their counts to zero sets the count of the
first one in every turn. -/

namespace UtkKernel.Memory
open Structures Foundations
set_option autoImplicit false

variable {list list' : List Block} {node : Block} {first n f x addr : ℕ}

/-! ## Lists -/

/-- Frames next to each other are free together in one range. -/
theorem Descending.range_of_isFree (hl : Descending list) (hf : IsFree list f) (hnext : IsFree list (f + 1)) :
    ∃ node ∈ list, node.data.base < (f + 1) * kernelFrameSize ∧ (f + 1) * kernelFrameSize < node.data.limit := by
  obtain ⟨n, hn, hbase, hlimit⟩ := hf
  obtain ⟨n', hn', hbase', hlimit'⟩ := hnext
  by_cases hsame : n = n'
  · subst hsame
    refine ⟨n, hn, lt_of_le_of_lt hbase ?_, hlimit'⟩
    exact Nat.mul_lt_mul_of_pos_right (Nat.lt_succ_self f) (by decide)
  · have hsymm : list.Pairwise fun n n' => n'.data.limit < n.data.base ∨ n.data.limit < n'.data.base :=
      hl.gaps.imp Or.inl
    have _ : Std.Symm fun n n' : Block => n'.data.limit < n.data.base ∨ n.data.limit < n'.data.base := ⟨fun _ _ h => h.symm⟩
    have happ := hsymm.forall hn hn' hsame
    obtain ⟨k, hk⟩ := hl.limits n hn
    rw [kernelFrameSize_eq] at *
    omega

/-- A block of no frames is found inside of a range, which is a panic. -/
theorem mergeBlock_empty_panics (h : mergeBlock addr addr list = .panics) :
    ∃ node ∈ list, node.data.base < addr ∧ addr < node.data.limit := by
  induction list with
  | nil => cases h
  | cons head list ih =>
    unfold mergeBlock at h
    by_cases hbase : head.data.base = addr
    · rw [if_pos hbase] at h
      cases list with
      | nil => cases h
      | cons next rest =>
        dsimp only at h
        split_ifs at h
    · rw [if_neg hbase] at h
      split_ifs at h with hlimit hin hbelow
      · exact ⟨head, List.mem_cons_self .., lt_of_le_of_ne hin.1 hbase, hin.2⟩
      · cases hm : mergeBlock addr addr list with
        | panics =>
          obtain ⟨node, hnode, hinside⟩ := ih hm
          exact ⟨node, List.mem_cons_of_mem _ hnode, hinside⟩
        | unmerged => rw [hm] at h; cases h
        | merged rest => rw [hm] at h; cases h

theorem addBlock_zero (haddr : addr < 2 ^ 32) : addBlock list addr 0 = match mergeBlock addr addr list with
    | .panics => none
    | .merged list' => some list'
    | .unmerged => some (kqueuePushPrio ⟨⟨addr, addr⟩, addr⟩ list) := by
  have hlimit : uintptr (addr + blockSize 0) = addr := uintptr_of_lt haddr
  cases hm : mergeBlock addr addr list with
  | panics => simp [addBlock, hlimit, hm]
  | merged list' => simp [addBlock, hlimit, hm]
  | unmerged => simp [addBlock, hlimit, hm]

/-- Elsewhere the block changes nothing of what the list holds. -/
theorem addBlock_empty (hl : WellFormed list) (haddr : addr < 2 ^ 32) (hout : mergeBlock addr addr list ≠ .panics) :
    ∃ list', addBlock list addr 0 = some list' ∧ ∀ x, Covers list' x ↔ Covers list x := by
  rw [addBlock_zero haddr]
  cases hm : mergeBlock addr addr list with
  | panics => exact absurd hm hout
  | unmerged =>
    refine ⟨_, rfl, fun x => ?_⟩
    rw [Covers.perm (kqueuePushPrio_perm _ list), covers_cons]
    refine or_iff_right fun h => ?_
    dsimp only at h
    omega
  | merged merged =>
    obtain ⟨before, joined, after, node', rfl, rfl, hjoins, -⟩ := mergeBlock_merged hm
    refine ⟨_, rfl, fun x => ?_⟩
    rw [covers_append, covers_append, covers_append, covers_cons]
    refine or_congr_right (or_congr_left ?_)
    have hbounds : ∀ n ∈ joined, n.data.base < n.data.limit := fun n hn =>
      (hl.bounds n (List.mem_append_right _ (List.mem_append_left _ hn))).1
    cases hjoins with
    | up hbase _ =>
      rw [covers_cons, or_iff_left not_covers_nil, hbase]
    | @both node next hbase hnext =>
      have hnode := hbounds node (by simp)
      have hbelow := hbounds next (by simp)
      rw [covers_cons, covers_cons, or_iff_left not_covers_nil]
      dsimp only
      omega
    | down hbase hlow =>
      rw [covers_cons, or_iff_left not_covers_nil, hlow]

/-- The ranges of the new list end where those of the list do, or with the block. -/
theorem addBlock_limits (h : addBlock list first n = some list') (hnode : node ∈ list') :
    node.data.limit = uintptr (first + blockSize n) ∨ ∃ node' ∈ list, node.data.limit = node'.data.limit := by
  unfold addBlock at h
  generalize uintptr (first + blockSize n) = limit at *
  dsimp only at h
  cases hm : mergeBlock first limit list with
  | panics => rw [hm] at h; exact nomatch h
  | unmerged =>
    rw [hm] at h
    obtain rfl := Option.some.inj h
    rcases List.mem_cons.mp ((kqueuePushPrio_perm _ list).mem_iff.mp hnode) with rfl | hmem
    · exact .inl rfl
    · exact .inr ⟨node, hmem, rfl⟩
  | merged merged =>
    rw [hm] at h
    obtain rfl := Option.some.inj h
    obtain ⟨before, joined, after, node', rfl, rfl, hjoins, -⟩ := mergeBlock_merged hm
    simp only [List.mem_append, List.mem_cons] at hnode ⊢
    rcases hnode with hmem | rfl | hmem
    · exact .inr ⟨node, .inl hmem, rfl⟩
    · cases hjoins with
      | @up joined _ _ => exact .inr ⟨joined, by simp, rfl⟩
      | @both joined _ _ _ => exact .inr ⟨joined, by simp, rfl⟩
      | down _ _ => exact .inl rfl
    · exact .inr ⟨node, .inr (.inr hmem), rfl⟩

namespace MemState

/-! ## The run -/

variable {s s' : MemState}

/-- Each frame of the run is free and has no reference, and the others are as they were. -/
structure RunReleased (first n : ℕ) (s s' : MemState) : Prop where
  counts : ∀ f, s'.frameRef f = if first ≤ f ∧ f < first + n then (s.frameRef f).map fun r => { r with count := 0 }
    else s.frameRef f
  free : ∀ f, IsFree s'.freeMemoryMap f ↔ IsFree s.freeMemoryMap f ∨ (first ≤ f ∧ f < first + n)

def FreesEach (s : MemState) (first n : ℕ) : Prop := ∃ s', s.memoryFreeFrames first n = some s' ∧ RunReleased first n s s'

/-- The frames of the run are in the reference table and not in the free list. -/
structure IsRun (s : MemState) (first n : ℕ) : Prop where
  first_lt : first < 2 ^ 20
  last_le : first + n ≤ 2 ^ 20
  managed : ∀ f, first ≤ f → f < first + n → (s.frameRef f).isSome
  taken : ∀ f, first ≤ f → f < first + n → ¬ IsFree s.freeMemoryMap f

/-- The run is empty and does not stand between free frames; or it ends before the last frame of all, and the frames
behind the first one have no references. -/
def RunFits (s : MemState) (first n : ℕ) : Prop :=
  (n = 0 ∧ ¬ ∃ f, first = f + 1 ∧ IsFree s.freeMemoryMap f ∧ IsFree s.freeMemoryMap first) ∨
    (0 < n ∧ first + n < 2 ^ 20 ∧ ∀ f r, first < f → f < first + n → s.frameRef f = some r → r.count = 0)

/-- No frames are freed: nothing changes, or it is a panic. -/
theorem freesEach_empty_iff (hl : Descending s.freeMemoryMap) (hfirst : first < 2 ^ 20) : s.FreesEach first 0 ↔
    ¬ ∃ f, first = f + 1 ∧ IsFree s.freeMemoryMap f ∧ IsFree s.freeMemoryMap first := by
  have haddr : first * kernelFrameSize < 2 ^ 32 := by
    rw [kernelFrameSize_eq]
    omega
  constructor
  · rintro ⟨s', hfreed, -⟩ ⟨f, rfl, hf, hnext⟩
    obtain ⟨node, hnode, hbase, hlimit⟩ := hl.range_of_isFree hf hnext
    have hpanics := hl.mergeBlock_inside hnode hbase.le hbase.ne hlimit hlimit.le
    unfold memoryFreeFrames memoryFreeFramesAt at hfreed
    rw [addBlock_zero haddr, hpanics] at hfreed
    exact nomatch hfreed
  · intro hout
    have hmerge : mergeBlock (first * kernelFrameSize) (first * kernelFrameSize) s.freeMemoryMap ≠ .panics := by
      intro hm
      obtain ⟨node, hnode, hbase, hlimit⟩ := mergeBlock_empty_panics hm
      obtain ⟨k, hk⟩ := hl.wellFormed.aligned node hnode
      obtain ⟨f, rfl⟩ : ∃ f, first = f + 1 := Nat.exists_eq_succ_of_ne_zero (by rintro rfl; omega)
      have hbefore : node.data.base ≤ f * kernelFrameSize ∧ f * kernelFrameSize < node.data.limit := by
        rw [kernelFrameSize_eq] at *
        omega
      exact hout ⟨f, rfl, ⟨node, hnode, hbefore⟩, ⟨node, hnode, hbase.le, hlimit⟩⟩
    obtain ⟨list', hadd, hcovers⟩ := addBlock_empty hl.wellFormed haddr hmerge
    refine ⟨{ s with freeMemoryMap := list' }, ?_, fun f => ?_, fun f => ?_⟩
    · unfold memoryFreeFrames memoryFreeFramesAt
      rw [hadd]
      rfl
    · rw [if_neg (by omega)]
    · rw [or_iff_left (by omega)]
      exact hcovers _

/-- What is freed of a run that ends before the last frame. -/
theorem IsRun.released (hl : Descending s.freeMemoryMap) (hrun : s.IsRun first n) (hpos : 0 < n)
    (hlast : first + n < 2 ^ 20) : ∃ s', s.memoryFreeFrames first n = some s' ∧
      (∀ f, s'.frameRef f = if f = first then (s.frameRef f).map fun r => { r with count := 0 } else s.frameRef f) ∧
      ∀ f, IsFree s'.freeMemoryMap f ↔ IsFree s.freeMemoryMap f ∨ (first ≤ f ∧ f < first + n) := by
  obtain ⟨r, hr⟩ := Option.isSome_iff_exists.mp (hrun.managed first (le_refl first) (by omega))
  obtain ⟨list, hfreed, -, hfree⟩ := memoryFreeFrames_run hl.whole hpos (by rw [kernelFrameSize_eq]; omega) hrun.taken hr
  refine ⟨_, hfreed, fun f => ?_, hfree⟩
  show Function.update s.frameRef first _ f = _
  by_cases hf : f = first
  · rw [if_pos hf, hf, Function.update_self, hr]
    rfl
  · rw [if_neg hf, Function.update_of_ne hf]

/-- The last frame of all is not free behind a run that it belongs to: the block ends at zero. -/
theorem not_freesEach_last (hl : Descending s.freeMemoryMap) (hpos : 0 < n)
    (hlast : first + n = 2 ^ 20) : ¬ s.FreesEach first n := by
  rintro ⟨s', hfreed, -, hfree⟩
  obtain ⟨node, hnode, -, hlimit⟩ := (hfree (2 ^ 20 - 1)).mpr (.inr (by omega))
  unfold memoryFreeFrames memoryFreeFramesAt at hfreed
  obtain ⟨list, hadd, hset⟩ := Option.bind_eq_some_iff.mp hfreed
  rw [if_neg (by omega)] at hset
  obtain ⟨r, -, rfl⟩ := Option.map_eq_some_iff.mp hset
  have hzero : uintptr (first * kernelFrameSize + blockSize n) = 0 := by
    unfold uintptr blockSize
    rw [kernelFrameSize_eq]
    omega
  rw [kernelFrameSize_eq] at hlimit
  rcases addBlock_limits hadd hnode with heq | ⟨node', hnode', heq⟩
  · rw [hzero] at heq
    omega
  · obtain ⟨-, hbound⟩ := hl.wellFormed.bounds node' hnode'
    obtain ⟨k, hk⟩ := hl.limits node' hnode'
    rw [kernelFrameSize_eq] at hk
    omega

/-- Every frame is in use once. -/
def usedState : MemState where
  mem := fun _ _ => Word.zero
  frameRef := fun _ => some ⟨false, 1⟩
  freeMemoryMap := []
  freeKernelPages := []
  processes := fun _ => none
  current := 0
  cr3 := 0

theorem isRun_usedState {first n : ℕ} (hfirst : first < 2 ^ 20) (hlast : first + n ≤ 2 ^ 20) :
    usedState.IsRun first n :=
  ⟨hfirst, hlast, fun _ _ _ => rfl, fun _ _ _ => not_covers_nil⟩

end MemState

end UtkKernel.Memory
