import UtkKernel.Heap.Correct

/-! # The books of the kernel heap

`mem_free` is what the free chunks have for data as long as no block is given back next to a free chunk: `kfree`
counts the header of a chunk that goes away once in the chunk that takes it over and once more. -/

namespace UtkKernel.Heap
open Foundations Code Cell
set_option autoImplicit false

/-- `kheap_get_free` -/
def HeapState.getFree (s : HeapState) : ℕ := (kheapGetFree.run s.store).1

/-- What `kheap_get_free` has to return in a run from a state. -/
structure Accounted (r : HeapRegion) (start s : HeapState) : Prop where
  sum : ∃ chunks, InUse r s chunks ∧ s.getFree = freeSum s.store chunks
  initial : s.live = [] → s.getFree = start.getFree
  bound : s.getFree ≤ r.size

/-- A block that is given back lies between two taken chunks. -/
def NoMerge (s : HeapState) : HeapAct → Prop
  | .free _ ptr => s.store (used (s.store (next (ptr - headerSize)))) ≠ 0 ∧
      s.store (used (s.store (prev (ptr - headerSize)))) ≠ 0
  | _ => True

variable {r : HeapRegion} {s s' start : HeapState} {act : HeapAct}
variable {m : Store} {first last c : ℕ} {l l' chunks chunks' : List ℕ}

/-! ## Chunks -/

/-- A walk along the chunks ends in one way. -/
theorem walk_unique (h : (c :: (l ++ [last])).IsChain fun a b => m (next a) = b)
    (h' : (c :: (l' ++ [last])).IsChain fun a b => m (next a) = b) (hl : last ∉ l) (hl' : last ∉ l') : l = l' := by
  induction l generalizing c l' with
  | nil =>
    have hnext := (List.isChain_cons_cons.mp h).1
    cases l' with
    | nil => rfl
    | cons a l' =>
      have hnext' := (List.isChain_cons_cons.mp h').1
      exact absurd (hnext.symm.trans hnext' ▸ List.mem_cons_self) hl'
  | cons a l ih =>
    obtain ⟨hnext, htail⟩ := List.isChain_cons_cons.mp h
    cases l' with
    | nil =>
      have hnext' := (List.isChain_cons_cons.mp h').1
      exact absurd (hnext'.symm.trans hnext ▸ List.mem_cons_self) hl
    | cons a' l' =>
      obtain ⟨hnext', htail'⟩ := List.isChain_cons_cons.mp h'
      obtain rfl : a = a' := hnext.symm.trans hnext'
      rw [ih htail htail' (fun hin => hl (List.mem_cons_of_mem _ hin)) fun hin => hl' (List.mem_cons_of_mem _ hin)]

theorem HeapInv.last_notMem (h : HeapInv m first chunks last) : last ∉ chunks := fun hin =>
  (List.nodup_append.mp (List.nodup_cons.mp h.nodup).2).2.2 last hin last (List.mem_singleton_self _) rfl

/-- A memory is a heap in one way. -/
theorem HeapInv.unique (h : HeapInv m first chunks last) (h' : HeapInv m first chunks' last) : chunks = chunks' :=
  walk_unique (h.tiles.imp fun _ _ hab => hab.1) (h'.tiles.imp fun _ _ hab => hab.1) h.last_notMem h'.last_notMem

/-- The data of chunks behind one another fits in between. -/
theorem freeSum_le
    (h : (c :: (l ++ [last])).IsChain fun a b => m (next a) = b ∧ m (prev b) = a ∧ a + chunkSize ≤ b) :
    c + freeSum m (c :: l) ≤ last := by
  induction l generalizing c with
  | nil =>
    obtain ⟨hnext, -, hle⟩ := (List.isChain_cons_cons.mp h).1
    have husable : usable m c ≤ last - c := by
      unfold usable
      omega
    by_cases hused : m (used c) = 0
    · rw [freeSum_of_free hused]
      change c + (usable m c + 0) ≤ last
      omega
    · rw [freeSum_of_used hused]
      change c + 0 ≤ last
      omega
  | cons a l ih =>
    obtain ⟨⟨hnext, -, hle⟩, htail⟩ := List.isChain_cons_cons.mp h
    have hrest := ih htail
    have husable : usable m c ≤ a - c := by
      unfold usable
      omega
    by_cases hused : m (used c) = 0
    · rw [freeSum_of_free hused]
      omega
    · rw [freeSum_of_used hused]
      omega

theorem HeapRegion.last_le (r : HeapRegion) : r.last ≤ r.first + r.size := by
  have hroom := r.room'
  unfold HeapRegion.second HeapRegion.first HeapRegion.last at *
  unfold chunkSize align at *
  omega

theorem InUse.freeSum_le (h : InUse r s chunks) : freeSum s.store chunks ≤ r.size := by
  have hsum := Heap.freeSum_le h.inv.tiles
  rw [freeSum_of_used h.inv.usedFirst] at hsum
  have hlast := r.last_le
  omega

theorem HeapRegion.size_lt (r : HeapRegion) : r.size < 2 ^ 32 := by
  have hbound := r.bound
  omega

/-! ## Runs -/

theorem getFree_eq (s : HeapState) : s.getFree = s.store .memFree := rfl

theorem getFree_of_booked {k : ℕ} (hbooked : Booked s.store chunks k) (hk : freeSum s.store chunks + k < 2 ^ 32) :
    s.getFree = freeSum s.store chunks + k :=
  hbooked.trans (Nat.mod_eq_of_lt hk)

/-- Without a block the free chunk has all the data. -/
theorem InUse.freeSum_whole (h : InUse r s chunks) (hempty : s.live = []) :
    freeSum s.store chunks = r.last - (r.second + headerSize) := by
  obtain ⟨rfl, hused, hnext⟩ := h.inv.whole fun c hc => by
    obtain ⟨size, hmem⟩ := (h.live (c + headerSize)).mpr ⟨c, hc, rfl⟩
    rw [hempty] at hmem
    exact nomatch hmem
  rw [freeSum_of_free hused]
  unfold usable
  rw [hnext]
  rfl

theorem mergeGain_eq_zero :
    mergeGain m c = 0 ↔ m (used (m (next c))) ≠ 0 ∧ m (used (m (prev c))) ≠ 0 := by
  unfold mergeGain headerSize
  by_cases hnext : m (used (m (next c))) = 0 <;> by_cases hprev : m (used (m (prev c))) = 0 <;> simp [hnext, hprev]

theorem gain_eq_zero (s : HeapState) (act : HeapAct) : act.gain s.store = 0 ↔ NoMerge s act := by
  cases act with
  | alloc calls size => exact iff_of_true rfl trivial
  | free calls ptr => exact mergeGain_eq_zero
  | write addr value => exact iff_of_true rfl trivial

theorem gain_le (m : Store) (act : HeapAct) : act.gain m ≤ 2 * headerSize := by
  cases act with
  | alloc calls size => exact Nat.zero_le _
  | free calls ptr =>
    unfold HeapAct.gain mergeGain
    dsimp only
    split_ifs <;> decide
  | write addr value => exact Nat.zero_le _

/-- The books are right. -/
theorem InUse.accounted (h : InUse r s chunks) (hbooked : Booked s.store chunks 0)
    (hstart : start.getFree = r.last - (r.second + headerSize)) : Accounted r start s := by
  have hle := h.freeSum_le
  have hfree : s.getFree = freeSum s.store chunks := getFree_of_booked hbooked (lt_of_le_of_lt hle r.size_lt)
  refine ⟨⟨chunks, h, hfree⟩, fun hempty => ?_, ?_⟩
  · rw [hfree, h.freeSum_whole hempty, hstart]
  · rw [hfree]
    exact hle

/-- `kheap_get_free` is exact in the states of a run exactly when no chunks are merged. -/
theorem kheap_accounted_iff (r : HeapRegion) (start : HeapState) (l : List (HeapAct × HeapState))
    (hstart : Allocator.kernel.Started r start) (hrun : Trace (Allocator.kernel.Step r) start l) :
    (∀ x ∈ l, Accounted r start x.2) ↔ GuardedTrace NoMerge start l := by
  obtain ⟨⟨m, hslots, hstore⟩, hlive⟩ := hstart
  rw [kheapInit_run] at hstore
  obtain ⟨hinUse, hbooked⟩ := InUse.started hslots hstore hlive
  have hfree : start.getFree = r.last - (r.second + headerSize) := by
    have hlt := lt_of_le_of_lt hinUse.freeSum_le r.size_lt
    rw [getFree_of_booked hbooked hlt, Nat.add_zero, hinUse.freeSum_whole hlive]
  refine hrun.forall_iff_guarded (fun s => ∃ chunks, InUse r s chunks ∧ Booked s.store chunks 0)
    (Accounted r start) ?_ ?_ ?_ ⟨_, hinUse, hbooked⟩
  · rintro s ⟨chunks, h, hbooks⟩
    exact h.accounted hbooks hfree
  · rintro s act s' ⟨chunks, h, hbooks⟩ hstep hguard
    obtain ⟨chunks', h', hkept⟩ := h.step hstep
    have hbooks' := hkept 0 hbooks
    rw [(gain_eq_zero s act).mpr hguard] at hbooks'
    exact ⟨chunks', h', hbooks'⟩
  · rintro s act s' ⟨chunks, h, hbooks⟩ hstep hgood
    obtain ⟨chunks', h', hkept⟩ := h.step hstep
    obtain ⟨chunks2, h2, hsum⟩ := hgood.sum
    rw [← h'.inv.unique h2.inv] at hsum
    have hbooks' := hkept 0 hbooks
    -- the sum is too small for the counter to wrap once
    have hle := h'.freeSum_le
    have hsize := r.bound
    have hgain := gain_le s.store act
    rw [← gain_eq_zero]
    have hmod : s'.getFree = uint (freeSum s'.store chunks' + (0 + act.gain s.store)) := hbooks'
    rw [hsum] at hmod
    unfold uint headerSize at *
    omega

/-- A block alone. -/
theorem kheap_accounted_one : Accounted smallRegion (booted smallRegion) ((booted smallRegion).kmalloc 8) := by
  have hstep := kmalloc_step (r := smallRegion) (booted smallRegion) (show 8 < 2 ^ 32 by decide) noCalls
  generalize (booted smallRegion).kmalloc 8 = s at hstep ⊢
  have hiff := kheap_accounted_iff smallRegion _ _ (booted_started smallRegion) (.cons hstep (.nil s))
  have hall := hiff.mpr ⟨trivial, trivial⟩
  exact hall _ List.mem_cons_self

set_option maxRecDepth 4000 in
/-- A block is asked for and given back, and `mem_free` is a header above what it was. -/
theorem kheap_free_grows : ¬∀ l, Trace (Allocator.kernel.Step smallRegion) (booted smallRegion) l →
    ∀ x ∈ l, Accounted smallRegion (booted smallRegion) x.2 := by
  intro hall
  obtain ⟨hlive, hempty, hgrows⟩ : (4128, 8) ∈ ((booted smallRegion).kmalloc 8).live ∧
      (((booted smallRegion).kmalloc 8).kfree 4128).live = [] ∧
      (((booted smallRegion).kmalloc 8).kfree 4128).store .memFree =
        (booted smallRegion).store .memFree + headerSize := by decide +kernel
  have hrun := Trace.cons (kmalloc_step (r := smallRegion) (booted smallRegion) (show 8 < 2 ^ 32 by decide) noCalls)
    (.cons (kfree_step _ hlive noCalls) (.nil _))
  have hinitial := (hall _ hrun _ (List.mem_cons_of_mem _ List.mem_cons_self)).initial
  have hbad := hinitial hempty
  rw [getFree_eq, getFree_eq, hgrows] at hbad
  exact (Nat.lt_add_of_pos_right (show 0 < headerSize by decide)).ne' hbad

end UtkKernel.Heap
