import UtkKernel.Heap.Allocate

/-! # The initialised heap

The memory of a heap, and the one free chunk in it after the initialisation. -/

namespace UtkKernel.Heap
open Foundations Code Cell
set_option autoImplicit false

/-- Memory for a heap: it is in the address space and there is room for three chunks. -/
structure HeapRegion where
  mem : ℕ
  size : ℕ
  pos : 0 < mem
  bound : mem + size + align < 2 ^ 32
  room : (mem + align - 1) / align * align + 3 * chunkSize ≤ (mem + size) / align * align

namespace HeapRegion

def first (r : HeapRegion) : ℕ := (r.mem + align - 1) / align * align

def second (r : HeapRegion) : ℕ := r.first + chunkSize

def last (r : HeapRegion) : ℕ := (r.mem + r.size) / align * align - chunkSize

theorem first_pos (r : HeapRegion) : 0 < r.first := by
  have hpos := r.pos
  unfold first align
  omega

theorem room' (r : HeapRegion) : r.second + chunkSize ≤ r.last ∧ r.last < 2 ^ 32 := by
  have hroom := r.room
  have hbound := r.bound
  unfold second first last
  unfold chunkSize align at *
  omega

theorem aligned (r : HeapRegion) : align ∣ r.first ∧ align ∣ r.second ∧ align ∣ r.last := by
  have hfirst : align ∣ r.first := Nat.dvd_mul_left ..
  exact ⟨hfirst, Nat.dvd_add hfirst (by decide), Nat.dvd_sub (Nat.dvd_mul_left ..) (by decide)⟩

theorem spaced (r : HeapRegion) : [r.first, r.second, r.last].Pairwise Before := by
  have hroom := r.room'
  simp only [List.pairwise_cons, List.mem_cons, List.not_mem_nil, or_false, false_imp_iff,
    implies_true, List.Pairwise.nil, and_true, forall_eq_or_imp, forall_eq]
  unfold Before second at *
  unfold chunkSize at *
  omega

end HeapRegion

variable {m m' : Store} {r : HeapRegion}

/-- The first chunk alone, with no chunk in a list. -/
theorem arranged_first (hfirst : Linked m r.first r.first)
    (hslots : ∀ n, 0 ≤ n → n < numSizes → m (.freeChunk n) = 0) : Arranged m ([] ++ r.first :: []) fun _ => False := by
  have hroom := r.room'
  refine ⟨⟨ring_singleton.mpr hfirst, List.pairwise_singleton _ _, fun a ha => ?_, fun a ha => ?_⟩,
    ⟨fun _ => [], fun n h0 hn => ⟨hslots n h0 hn, Cycle.Chain.nil _⟩, fun _ => List.nodup_nil,
      fun n a => by simp⟩, fun a ha => ha.elim⟩
  · rw [List.mem_singleton.mp ha]
    exact r.aligned.1
  · rw [List.mem_singleton.mp ha]
    refine ⟨r.first_pos, ?_⟩
    unfold HeapRegion.second at hroom
    omega

/-- The three chunks of an empty heap are built; the second is free. -/
theorem buildChunks_ensures (hslots : ∀ n, 0 ≤ n → n < numSizes → m (.freeChunk n) = 0) :
    Ensures fixedCellsᶜ (fun _ m' => HeapInv m' r.first [r.second] r.last ∧ Booked m' [r.second] 0 ∧ m' (used r.second) = 0)
      (do
        memoryChunkInit r.first
        memoryChunkInit r.second
        memoryChunkInit r.last
        insertAfter r.first r.second
        insertAfter r.second r.last
        write (used r.first) 1
        write (used r.last) 1
        let len ← memoryChunkSize r.second
        listPush (memoryChunkSlot len) r.second
        write .memFree len
        write .heapInitFree len
        write .memMeta (chunkSize * 2 + headerSize)) m := by
  have hspaced := r.spaced
  have hne : ∀ a ∈ [r.first, r.second, r.last], ∀ b ∈ [r.first, r.second, r.last], a ≠ b →
      ∀ i < chunkSize, Cell.word (a + i) ∉ chunkCells b :=
    fun a ha b hb hab i hi => chunkCells_disjoint hspaced hb ha hab hi
  have hfs : r.first ≠ r.second := ne_of_before ((List.pairwise_cons.mp hspaced).1 _ (by simp))
  have hfl : r.first ≠ r.last := ne_of_before ((List.pairwise_cons.mp hspaced).1 _ (by simp))
  have hsl : r.second ≠ r.last :=
    ne_of_before ((List.pairwise_cons.mp (List.pairwise_cons.mp hspaced).2).1 _ (by simp))
  have hchunk : ∀ c, chunkCells c ⊆ fixedCellsᶜ := by
    rintro c x ⟨i, -, rfl⟩
    exact word_notMem_fixedCells _
  have hnodes : ∀ l, nodeCells l ⊆ fixedCellsᶜ := by
    rintro l x ⟨a, -, rfl | rfl⟩ <;> exact word_notMem_fixedCells _
  have hlinks : ∀ S, linkCells S ⊆ fixedCellsᶜ := by
    rintro S x (⟨n, rfl⟩ | ⟨a, -, rfl | rfl⟩)
    · rintro (h | h | h) <;> cases h
    · exact word_notMem_fixedCells _
    · exact word_notMem_fixedCells _
  have hslot : ∀ {c n}, Cell.freeChunk n ∉ chunkCells c := by
    rintro c n ⟨i, -, h⟩
    cases h
  -- the chunks one by one
  rw [ensures_bind]
  refine memoryChunkInit_ensures.frame.mono (hchunk _) ?_
  rintro _ m1 ⟨⟨hlinked1, hused1, -⟩, hframe1⟩
  rw [ensures_bind]
  refine memoryChunkInit_ensures.frame.mono (hchunk _) ?_
  rintro _ m2 ⟨⟨hlinked2, hused2, hsingle2⟩, hframe2⟩
  rw [ensures_bind]
  refine memoryChunkInit_ensures.frame.mono (hchunk _) ?_
  rintro _ m3 ⟨⟨hlinked3, -, -⟩, hframe3⟩
  have hkeep2 : ∀ i < chunkSize, m3 (.word (r.first + i)) = m1 (.word (r.first + i)) := fun i hi =>
    (hframe3 _ (hne _ (by simp) _ (by simp) hfl i hi)).trans
      (hframe2 _ (hne _ (by simp) _ (by simp) hfs i hi))
  have hkeep3 : ∀ i < chunkSize, m3 (.word (r.second + i)) = m2 (.word (r.second + i)) := fun i hi =>
    hframe3 _ (hne _ (by simp) _ (by simp) hsl i hi)
  have hslots3 : ∀ n, 0 ≤ n → n < numSizes → m3 (.freeChunk n) = 0 := fun n h0 hn => by
    rw [hframe3 _ hslot, hframe2 _ hslot, hframe1 _ hslot, hslots n h0 hn]
  have hfirst3 : Linked m3 r.first r.first :=
    linked_congr hlinked1 (hkeep2 0 (by decide)) (hkeep2 4 (by decide))
  have hsecond3 : Linked m3 r.second r.second :=
    linked_congr hlinked2 (hkeep3 0 (by decide)) (hkeep3 4 (by decide))
  have hsingle3 : Single m3 r.second :=
    linked_congr hsingle2 (hkeep3 12 (by decide)) (hkeep3 16 (by decide))
  -- the ring of the three
  have hroom := r.room'
  have hspaced2 : ([] ++ r.first :: r.second :: []).Pairwise Before :=
    hspaced.sublist (by simp)
  rw [ensures_bind]
  refine ((arranged_first hfirst3 hslots3).insertAfter (fun h => h) hsecond3 hspaced2 r.aligned.2.1
    (by omega)).frame.mono (hnodes _) ?_
  rintro _ m4 ⟨⟨harr4, hsingle4, -, hused4⟩, hframe4⟩
  have hlast4 : Linked m4 r.last r.last := by
    have hoff : ∀ i < chunkSize, Cell.word (r.last + i) ∉ nodeCells ([] ++ r.first :: r.second :: []) :=
      fun i hi => word_notMem_nodeCells hspaced (by simp) (by simp [hfl, hsl]) hi
    exact linked_congr hlinked3 (hframe4 _ (hoff 0 (by decide))) (hframe4 _ (hoff 4 (by decide)))
  have harr4' : Arranged m4 ([r.first] ++ r.second :: []) fun _ => False := harr4
  rw [ensures_bind]
  refine (harr4'.insertAfter (fun h => h) hlast4 hspaced r.aligned.2.2 hroom.2).frame.mono (hnodes _) ?_
  rintro _ m5 ⟨⟨harr5, hsingle5, -, hused5⟩, hframe5⟩
  have hsecond5 : m5 (used r.second) = 0 := by
    rw [hused5 r.second (by simp), hused4 r.second (by simp)]
    exact (hkeep3 8 (by decide)).trans hused2
  simp only [ensures_bind, ensures_write]
  refine ⟨word_notMem_fixedCells _, word_notMem_fixedCells _, ?_⟩
  -- the ends are marked
  generalize hm6 : Function.update (Function.update m5 (used r.first) 1) (used r.last) 1 = m6
  have hframe6 : ∀ x, x ≠ used r.first → x ≠ used r.last → m6 x = m5 x := by
    intro x h1 h2
    rw [← hm6, Function.update_of_ne h2, Function.update_of_ne h1]
  have harr6 : Arranged m6 ([r.first] ++ r.second :: r.last :: []) fun _ => False := by
    have hmem : r.first ∈ [r.first] ++ r.second :: r.last :: [] ∧
        r.last ∈ [r.first] ++ r.second :: r.last :: [] := by simp
    refine harr5.congr (fun x hx => hframe6 x ?_ ?_) fun x hx => hframe6 x ?_ ?_
    · exact fun he => used_notMem_nodeCells hspaced hmem.1 (he ▸ hx)
    · exact fun he => used_notMem_nodeCells hspaced hmem.2 (he ▸ hx)
    · exact fun he => used_notMem_linkCells hspaced (fun a ha => ha.elim) hmem.1 (he ▸ hx)
    · exact fun he => used_notMem_linkCells hspaced (fun a ha => ha.elim) hmem.2 (he ▸ hx)
  have hnode6 : ∀ i, i = 12 ∨ i = 16 → m6 (.word (r.second + i)) = m5 (.word (r.second + i)) := by
    intro i hi
    have hne8 : ∀ a ∈ [r.first, r.second, r.last], Cell.word (r.second + i) ≠ used a := by
      intro a ha he
      have hi8 := (eq_of_add_eq hspaced (by simp) ha (by unfold chunkSize; omega) (by decide)
        (Cell.word.inj he)).2
      omega
    exact hframe6 _ (hne8 _ (by simp)) (hne8 _ (by simp))
  have hsingle6 : Single m6 r.second :=
    linked_congr (hsingle5 _ (by simp) (hsingle4 _ (by simp) hsingle3)) (hnode6 12 (.inl rfl))
      (hnode6 16 (.inr rfl))
  have hin6 : Inside m6 r.second := harr6.tiled.inside
  rw [ensures_memoryChunkSize hin6]
  refine (harr6.listPush (fun h => h) (by simp) hin6 hsingle6).mono (hlinks _) ?_
  rintro _ m7 ⟨harr7, hchunks7⟩
  have hstatic : ∀ c, c = Cell.memFree ∨ c = .heapInitFree ∨ c = .memMeta → c ∈ fixedCellsᶜ := by
    rintro c (rfl | rfl | rfl) (h | h | h) <;> cases h
  refine ⟨hstatic _ (.inl rfl), hstatic _ (.inr (.inl rfl)), hstatic _ (.inr (.inr rfl)), ?_⟩
  generalize hm8 : Function.update (Function.update (Function.update m7 Cell.memFree _)
    Cell.heapInitFree _) Cell.memMeta _ = m8
  have hword : ∀ w, m8 (.word w) = m7 (.word w) := by
    intro w
    rw [← hm8, Function.update_of_ne (by rintro ⟨⟩), Function.update_of_ne (by rintro ⟨⟩),
      Function.update_of_ne (by rintro ⟨⟩)]
  have hused8 : ∀ a ∈ [r.first] ++ r.second :: r.last :: [], m8 (used a) = m6 (used a) :=
    fun a ha => (hword _).trans (hchunks7.used a ha)
  have hzero : m8 (used r.second) = 0 := by
    rw [hused8 r.second (by simp), hframe6 _ (used_ne_used hfs.symm) (used_ne_used hsl), hsecond5]
  have hone : m8 (used r.first) = 1 ∧ m8 (used r.last) = 1 := by
    rw [hused8 r.first (by simp), hused8 r.last (by simp), ← hm6, Function.update_self,
      Function.update_of_ne (used_ne_used hfl), Function.update_self]
    exact ⟨rfl, rfl⟩
  have hlinks8 : ∀ x ∈ linkCells fun a => False ∨ a = r.second, m8 x = m7 x := by
    rintro x (⟨n, rfl⟩ | ⟨a, -, rfl | rfl⟩)
    · rw [← hm8, Function.update_of_ne (by rintro ⟨⟩), Function.update_of_ne (by rintro ⟨⟩),
        Function.update_of_ne (by rintro ⟨⟩)]
    · exact hword _
    · exact hword _
  have harr8 : Arranged m8 ([r.first] ++ r.second :: r.last :: []) fun a => False ∨ a = r.second := by
    refine harr7.congr ?_ hlinks8
    rintro x ⟨a, -, rfl | rfl⟩ <;> exact hword _
  refine ⟨⟨harr8.of_iff fun a => ?_, ?_, ?_, List.isChain_singleton _, rfl⟩, ?_, hzero⟩
  · unfold IsFree
    rw [List.mem_singleton, false_or]
    exact and_iff_left_of_imp fun he => he ▸ hzero
  · rw [hone.1]
    exact Nat.one_ne_zero
  · rw [hone.2]
    exact Nat.one_ne_zero
  · have husable : usable m8 r.second = usable m6 r.second := by
      have hnext : m8 (next r.second) = m6 (next r.second) := (hword _).trans (hchunks7.next r.second (by simp))
      unfold usable
      rw [hnext]
    have hfree : m8 .memFree = usable m6 r.second := by
      rw [← hm8, Function.update_of_ne (by rintro ⟨⟩), Function.update_of_ne (by rintro ⟨⟩), Function.update_self]
    have hlt := hin6.usable_lt
    unfold Booked
    rw [freeSum_of_free hzero, husable, hfree]
    unfold freeSum uint
    rw [List.map_nil, List.sum_nil]
    omega

/-- What both initialisations leave behind. -/
theorem initChunks_ensures (r : HeapRegion)
    (hslots : ∀ n, 0 ≤ n → n < numSizes → m (.freeChunk n) = 0) :
    Ensures Set.univ
      (fun _ m' => (HeapInv m' r.first [r.second] r.last ∧ Booked m' [r.second] 0 ∧ m' (used r.second) = 0) ∧
        m' .firstChunk = r.first ∧ m' .lastChunk = r.last) (initChunks r.mem r.size) m := by
  have hstart : uint (r.mem + align - 1) / align * align = r.first := by
    have hbound := r.bound
    unfold uint HeapRegion.first
    rw [Nat.mod_eq_of_lt (by omega)]
  have hend : uint (r.mem + r.size) / align * align - chunkSize = r.last := by
    have hbound := r.bound
    unfold uint HeapRegion.last
    rw [Nat.mod_eq_of_lt (by omega)]
  unfold initChunks
  simp only [hstart, hend]
  iterate 7
    rw [ensures_bind, ensures_write]
    refine ⟨Set.mem_univ _, ?_⟩
  generalize hm1 : Function.update (Function.update (Function.update (Function.update (Function.update
    (Function.update (Function.update m .memFree 0) .heapInitFree 0) .memMeta 0) .firstChunk 0) .lastChunk 0)
    .firstChunk r.first) .lastChunk r.last = m1
  have hslots1 : ∀ n, 0 ≤ n → n < numSizes → m1 (.freeChunk n) = 0 := by
    intro n h0 hn
    rw [← hm1]
    iterate 7 rw [Function.update_of_ne (by rintro ⟨⟩)]
    exact hslots n h0 hn
  have hfirst : m1 .firstChunk = r.first := by
    rw [← hm1, Function.update_of_ne (by rintro ⟨⟩), Function.update_self]
  have hlast : m1 .lastChunk = r.last := by
    rw [← hm1, Function.update_self]
  refine (buildChunks_ensures hslots1).frame.mono (Set.subset_univ _) ?_
  rintro _ m2 ⟨hinv, hframe⟩
  refine ⟨hinv, (hframe _ fun hc => hc (.inl rfl)).trans hfirst, (hframe _ fun hc => hc (.inr (.inl rfl))).trans hlast⟩

end UtkKernel.Heap
