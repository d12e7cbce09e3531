import Mathlib.Data.Nat.Log
import Mathlib.Tactic.Ring
import UtkKernel.Heap.FreeLists

/-! # The chunks of a heap

Chunks lie behind one another in the order of their ring, each with room for its header and a free node.
The free lists hold some chunks, each in the slot of its size. -/

namespace UtkKernel.Heap
open Foundations Code Cell
set_option autoImplicit false

/-! ## Sizes and slots -/

/-- The room for data in a chunk that ends where the next one of the ring begins. -/
def usable (m : Store) (a : ℕ) : ℕ := m (next a) - (a + headerSize)

/-- The chunk has room for its header and a free node. -/
def Inside (m : Store) (a : ℕ) : Prop := a + chunkSize ≤ m (next a) ∧ m (next a) < 2 ^ 32

variable {m m' : Store} {a b c x : ℕ} {i j : ℕ} {n : ℤ} {l l1 l2 all : List ℕ} {W : Set Cell}

theorem uintSub_eq (h : b ≤ a) (ha : a < 2 ^ 32) : uintSub a b = a - b := by
  unfold uintSub uint
  omega

theorem addTo_ensures {c : Cell} {k : ℕ} (hc : c ∈ W) :
    Ensures W (fun _ m' => m' c = uint (m c + k) ∧ ∀ x, x ≠ c → m' x = m x) (addTo c k) m := by
  unfold addTo
  simp only [ensures_bind, ensures_read, ensures_write]
  exact ⟨hc, Function.update_self .., fun x hx => Function.update_of_ne hx ..⟩

theorem subFrom_ensures {c : Cell} {k : ℕ} (hc : c ∈ W) :
    Ensures W (fun _ m' => m' c = uintSub (m c) k ∧ ∀ x, x ≠ c → m' x = m x) (subFrom c k) m := by
  unfold subFrom
  simp only [ensures_bind, ensures_read, ensures_write]
  exact ⟨hc, Function.update_self .., fun x hx => Function.update_of_ne hx ..⟩

theorem ensures_memoryChunkSize {Q : ℕ → Store → Prop} (h : Inside m a) :
    Ensures W Q (memoryChunkSize a) m ↔ Q (usable m a) m := by
  obtain ⟨h1, h2⟩ := h
  have hsize : uintSub (uintSub (m (next a)) a) headerSize = usable m a := by
    unfold usable headerSize chunkSize at *
    rw [uintSub_eq (by omega) h2, uintSub_eq (by omega) (by omega)]
    omega
  unfold memoryChunkSize
  rw [ensures_bind, ensures_read, ensures_pure, hsize]

theorem Inside.le_usable (h : Inside m a) : minSize ≤ usable m a := by
  have h1 := h.1
  unfold usable minSize headerSize
  unfold chunkSize at h1
  omega

theorem Inside.usable_lt (h : Inside m a) : usable m a < 2 ^ 32 :=
  lt_of_le_of_lt (Nat.sub_le ..) h.2

theorem memoryChunkSlotLoop_eq {fuel size : ℕ} (h : size ≤ fuel) (hpos : 0 < size) (n : ℤ) :
    memoryChunkSlotLoop fuel size n = n + 1 + Nat.log 2 size := by
  induction fuel generalizing size n with
  | zero => omega
  | succ fuel ih =>
    rw [memoryChunkSlotLoop, if_pos hpos]
    rcases Nat.lt_or_ge 1 size with hlt | hge
    · rw [ih (by omega) (by omega), Nat.log_of_one_lt_of_le (by omega) hlt]
      push_cast
      ring
    · have hone : size = 1 := by omega
      rw [hone]
      cases fuel <;> simp [memoryChunkSlotLoop]

theorem memoryChunkSlot_eq {size : ℕ} (hpos : 0 < size) : memoryChunkSlot size = Nat.log 2 size := by
  unfold memoryChunkSlot
  rw [memoryChunkSlotLoop_eq le_rfl hpos]
  omega

/-- The slot of a chunk is one of the table. -/
theorem Inside.slot (h : Inside m a) :
    0 ≤ memoryChunkSlot (usable m a) ∧ memoryChunkSlot (usable m a) < numSizes := by
  have hpos : 0 < usable m a := lt_of_lt_of_le (by decide) h.le_usable
  have hlog : Nat.log 2 (usable m a) < 32 := Nat.log_lt_of_lt_pow hpos.ne' h.usable_lt
  rw [memoryChunkSlot_eq hpos]
  unfold numSizes
  omega

/-! ## Chunks apart -/

def Before (a b : ℕ) : Prop := a + chunkSize ≤ b

theorem before_or (h : l.Pairwise Before) (ha : a ∈ l) (hb : b ∈ l) (hne : a ≠ b) :
    Before a b ∨ Before b a := by
  have hor : l.Pairwise fun a b => Before a b ∨ Before b a := h.imp Or.inl
  have : Std.Symm fun a b => Before a b ∨ Before b a := ⟨fun _ _ h => h.symm⟩
  exact hor.forall ha hb hne

/-- Bytes of two chunks have one address only if they are the same one of the same chunk. -/
theorem eq_of_add_eq (h : l.Pairwise Before) (ha : a ∈ l) (hb : b ∈ l) (hi : i < chunkSize)
    (hj : j < chunkSize) (he : a + i = b + j) : a = b ∧ i = j := by
  by_cases hne : a = b
  · omega
  · have hab := before_or h ha hb hne
    unfold Before at hab
    omega

theorem ne_of_before (h : Before a b) : a ≠ b := by
  unfold Before chunkSize at h
  omega

theorem apart_of_spaced (h : l.Pairwise Before) : l.Pairwise Apart := by
  refine h.imp fun {a b} hab => Or.inl ?_
  unfold Before chunkSize at hab
  omega

theorem apart_freeNode (h : all.Pairwise Before) (hl : ∀ a ∈ l, a ∈ all) (hnodup : l.Nodup) :
    (l.map freeNode).Pairwise Apart := by
  have : Std.Symm Apart := inferInstance
  rw [List.pairwise_map]
  refine hnodup.pairwise_of_forall_ne fun a ha b hb hne => ?_
  have hab := (apart_of_spaced h).forall (hl a ha) (hl b hb) hne
  unfold Apart freeNode at *
  omega

/-! ## Cells of the free lists -/

/-- The pointers of the slots and the free nodes of some chunks. -/
def linkCells (S : ℕ → Prop) : Set Cell :=
  {c | (∃ n, c = .freeChunk n) ∨ ∃ a, S a ∧ (c = next (freeNode a) ∨ c = prev (freeNode a))}

variable {S S' : ℕ → Prop} {free : ℤ → List ℕ}

theorem slotCells_subset (h : ∀ a ∈ l, S a) : slotCells n l ⊆ linkCells S := by
  rintro c (rfl | ⟨p, hp, hc⟩)
  · exact .inl ⟨n, rfl⟩
  · obtain ⟨a, ha, rfl⟩ := List.mem_map.mp hp
    exact .inr ⟨a, h a ha, hc⟩

theorem memFree_notMem_slotCells : Cell.memFree ∉ slotCells n l := by
  rintro (h | ⟨p, -, h | h⟩) <;> cases h

theorem memFree_notMem_linkCells : Cell.memFree ∉ linkCells S := by
  rintro (⟨n, h⟩ | ⟨a, -, h | h⟩) <;> cases h

/-- The free nodes do not overlap the headers. -/
theorem header_notMem_linkCells (h : all.Pairwise Before) (hS : ∀ a, S a → a ∈ all) (ha : a ∈ all)
    (hi : i < headerSize) : Cell.word (a + i) ∉ linkCells S := by
  have hi' : i < chunkSize := hi.trans (by decide)
  rintro (⟨n, he⟩ | ⟨b, hb, he | he⟩)
  · cases he
  · have heq := (eq_of_add_eq h ha (hS b hb) hi' (by decide) (Cell.word.inj he)).2
    exact hi.ne heq
  · have he' : a + i = b + 16 := Cell.word.inj he
    have heq := (eq_of_add_eq h ha (hS b hb) hi' (by decide) he').2
    exact absurd (heq ▸ hi) (by decide)

/-- Two slots with different chunks have no cell in common. -/
theorem slotCells_disjoint {n' : ℤ} (h : all.Pairwise Before) (h1 : ∀ a ∈ l1, a ∈ all)
    (h2 : ∀ a ∈ l2, a ∈ all) (hne : n ≠ n') (hdisj : ∀ a ∈ l1, a ∉ l2) {c : Cell}
    (hc : c ∈ slotCells n l1) : c ∉ slotCells n' l2 := by
  have hnode : ∀ p ∈ l1.map freeNode, ∀ q ∈ l2.map freeNode, Apart p q := by
    intro p hp q hq
    obtain ⟨a, ha, rfl⟩ := List.mem_map.mp hp
    obtain ⟨b, hb, rfl⟩ := List.mem_map.mp hq
    have hab := (apart_of_spaced h).forall (h1 a ha) (h2 b hb) fun he => hdisj a ha (he ▸ hb)
    unfold Apart freeNode at *
    omega
  rintro (rfl | ⟨q, hq, hcq⟩)
  · rcases hc with hc | hc
    · exact hne (Cell.freeChunk.inj hc).symm
    · exact slot_notMem_nodeCells hc
  · rcases hc with rfl | ⟨p, hp, hcp⟩
    · rcases hcq with h | h <;> cases h
    · have hpq := hnode p hp q hq
      rcases hcp with rfl | rfl <;> rcases hcq with he | he <;> have he' := Cell.word.inj he <;>
        unfold Apart at hpq <;> omega

/-! ## Chunks in the free lists -/

/-- Each chunk with the property is in the free list of its slot, and nothing else is in any. -/
structure Listed (m : Store) (S : ℕ → Prop) (free : ℤ → List ℕ) : Prop where
  slots : ∀ n, 0 ≤ n → n < numSizes → InSlot m n (free n)
  nodup : ∀ n, (free n).Nodup
  mem : ∀ n a, a ∈ free n ↔ S a ∧ memoryChunkSlot (usable m a) = n

theorem Listed.congr (h : Listed m S free) (hS : ∀ a, S' a ↔ S a)
    (hcells : ∀ c ∈ linkCells S, m' c = m c) (hnext : ∀ a, S a → m' (next a) = m (next a)) :
    Listed m' S' free := by
  refine ⟨fun n h0 hn => (h.slots n h0 hn).congr fun c hc => ?_, h.nodup, fun n a => ?_⟩
  · exact hcells c (slotCells_subset (fun a ha => ((h.mem n a).mp ha).1) hc)
  · rw [h.mem, hS]
    refine and_congr_right fun ha => ?_
    unfold usable
    rw [hnext a ha]

/-- One slot comes to hold other chunks of its size. -/
theorem Listed.change (h : Listed m S free) (hall : all.Pairwise Before) (hS : ∀ a, S a → a ∈ all)
    {l big : List ℕ} (hslot : InSlot m' n l) (hnodup : l.Nodup)
    (hmem : ∀ a, a ∈ l ↔ S' a ∧ memoryChunkSlot (usable m a) = n)
    (hother : ∀ a, memoryChunkSlot (usable m a) ≠ n → (S' a ↔ S a))
    (hbig : ∀ a ∈ big, a ∈ all ∧ memoryChunkSlot (usable m a) = n)
    (hS' : ∀ a, S' a → a ∈ all)
    (hframe : ∀ c, c ∉ slotCells n big → m' c = m c) :
    Listed m' S' (Function.update free n l) := by
  have hdisj : ∀ n' ≠ n, ∀ c ∈ slotCells n' (free n'), c ∉ slotCells n big := by
    intro n' hn' c hc
    refine slotCells_disjoint hall (fun a ha => hS a ((h.mem n' a).mp ha).1)
      (fun a ha => (hbig a ha).1) hn' (fun a ha hab => hn' ?_) hc
    exact ((h.mem n' a).mp ha).2.symm.trans (hbig a hab).2
  have hnext : ∀ a ∈ all, m' (next a) = m (next a) := by
    intro a ha
    refine hframe _ fun hc => ?_
    exact header_notMem_linkCells (i := 0) hall (S := (· ∈ all)) (fun _ h => h) ha (by decide)
      (slotCells_subset (fun b hb => (hbig b hb).1) hc)
  have husable : ∀ a, S' a → usable m' a = usable m a := by
    intro a ha
    unfold usable
    rw [hnext a (hS' a ha)]
  refine ⟨fun n' h0 hn => ?_, fun n' => ?_, fun n' a => ?_⟩
  · by_cases he : n' = n
    · subst he
      rw [Function.update_self]
      exact hslot
    · rw [Function.update_of_ne he]
      exact (h.slots n' h0 hn).congr fun c hc => hframe c (hdisj n' he c hc)
  · by_cases he : n' = n
    · subst he
      rw [Function.update_self]
      exact hnodup
    · rw [Function.update_of_ne he]
      exact h.nodup n'
  · by_cases he : n' = n
    · subst he
      rw [Function.update_self, hmem]
      exact and_congr_right fun ha => by rw [husable a ha]
    · rw [Function.update_of_ne he, h.mem]
      constructor
      · rintro ⟨ha, hn⟩
        have ha' := (hother a (by rw [hn]; exact he)).mpr ha
        exact ⟨ha', by rw [husable a ha', hn]⟩
      · rintro ⟨ha, hn⟩
        rw [husable a ha] at hn
        exact ⟨(hother a (by rw [hn]; exact he)).mp ha, hn⟩

section
variable (hall : all.Pairwise Before) (h : Listed m S free) (hS : ∀ a, S a → a ∈ all)
include hall h hS

/-- The first chunk of a slot is taken out of its list. -/
theorem listPop_listed (hfree : free n = c :: l) (h0 : 0 ≤ n) (hn : n < numSizes) :
    Ensures (linkCells S)
      (fun r m' => r = c ∧ Linked m' (freeNode c) (freeNode c) ∧
        ∃ free', Listed m' (fun a => S a ∧ a ≠ c) free') (listPop n) m := by
  have hin : ∀ a ∈ c :: l, S a ∧ memoryChunkSlot (usable m a) = n := by
    intro a ha
    exact (h.mem n a).mp (hfree ▸ ha)
  have hnodup : (c :: l).Nodup := hfree ▸ h.nodup n
  have hslot : InSlot m n (c :: l) := hfree ▸ h.slots n h0 hn
  have ha := apart_freeNode hall (fun a ha => hS a (hin a ha).1) hnodup
  refine (listPop_ensures hslot ha).frame.mono (slotCells_subset fun a ha => (hin a ha).1) ?_
  rintro r m' ⟨⟨rfl, hslot', hself⟩, hframe⟩
  refine ⟨rfl, hself, _, h.change hall hS hslot' (List.nodup_cons.mp hnodup).2 (fun a => ?_)
    (fun a ha => ?_) (fun a ha => ⟨hS a (hin a ha).1, (hin a ha).2⟩) (fun a ha => hS a ha.1) hframe⟩
  · have hiff := h.mem n a
    rw [hfree, List.mem_cons] at hiff
    constructor
    · intro hal
      exact ⟨⟨(hin a (List.mem_cons_of_mem _ hal)).1,
        fun he => (List.nodup_cons.mp hnodup).1 (he ▸ hal)⟩, (hin a (List.mem_cons_of_mem _ hal)).2⟩
    · rintro ⟨⟨hSa, hne⟩, hsl⟩
      exact (hiff.mpr ⟨hSa, hsl⟩).resolve_left hne
  · refine and_iff_left fun he => ha ?_
    rw [he]
    exact (hin _ (List.mem_cons_self ..)).2

/-- A chunk is taken out of its list. -/
theorem removeFree_ensures (hc : S c) (hinside : Inside m c) :
    Ensures (insert .memFree (linkCells S))
      (fun _ m' => Linked m' (freeNode c) (freeNode c) ∧ (∃ free', Listed m' (fun a => S a ∧ a ≠ c) free') ∧
        m' .memFree = uintSub (m .memFree) (usable m c)) (removeFree c) m := by
  obtain ⟨h0, hn⟩ := hinside.slot
  have hmem := (h.mem _ c).mpr ⟨hc, rfl⟩
  obtain ⟨l1, l2, hfree⟩ := List.append_of_mem hmem
  have hin : ∀ a ∈ l1 ++ c :: l2, S a ∧ memoryChunkSlot (usable m a) = memoryChunkSlot (usable m c) := by
    intro a ha
    exact (h.mem _ a).mp (hfree ▸ ha)
  have hnodup : (l1 ++ c :: l2).Nodup := hfree ▸ h.nodup _
  have hslot : InSlot m (memoryChunkSlot (usable m c)) (l1 ++ c :: l2) := hfree ▸ h.slots _ h0 hn
  have ha := apart_freeNode hall (fun a ha => hS a (hin a ha).1) hnodup
  have hnodup' := List.nodup_middle.mp hnodup
  unfold removeFree
  rw [ensures_bind, ensures_memoryChunkSize hinside]
  refine (listRemoveFrom_ensures hslot ha).bind
    ((slotCells_subset fun a ha => (hin a ha).1).trans (Set.subset_insert _ _)) ?_
  rintro _ m' ⟨hslot', hself⟩ hframe
  have hlisted : Listed m' (fun a => S a ∧ a ≠ c) _ := h.change hall hS hslot' (List.nodup_cons.mp hnodup').2
    (fun a => ?_) (fun a ha => ?_) (fun a ha => ⟨hS a (hin a ha).1, (hin a ha).2⟩)
    (fun a ha => hS a ha.1) hframe
  · refine (subFrom_ensures (Set.mem_insert _ _)).mono subset_rfl ?_
    rintro _ m2 ⟨hfree2, hsame2⟩
    have hword : ∀ w, m2 (.word w) = m' (.word w) := fun w => hsame2 _ (by rintro ⟨⟩)
    refine ⟨linked_congr hself (hword _) (hword _), ⟨_, hlisted.congr (fun _ => Iff.rfl) (fun c hc => ?_) ?_⟩, ?_⟩
    · exact hsame2 _ fun he => memFree_notMem_linkCells (he ▸ hc)
    · exact fun a _ => hword _
    · rw [hfree2, hframe _ memFree_notMem_slotCells]
  · have hiff := h.mem (memoryChunkSlot (usable m c)) a
    rw [hfree] at hiff
    constructor
    · intro hal
      have hal' : a ∈ l1 ++ c :: l2 := by
        rw [List.mem_append] at hal
        rcases hal with hal | hal <;> simp [hal]
      refine ⟨⟨(hin a hal').1, fun he => ?_⟩, (hin a hal').2⟩
      exact (List.nodup_cons.mp hnodup').1 (he ▸ hal)
    · rintro ⟨⟨hSa, hne⟩, hsl⟩
      have hal := hiff.mpr ⟨hSa, hsl⟩
      rw [List.mem_append, List.mem_cons] at hal
      rw [List.mem_append]
      tauto
  · refine and_iff_left fun he => ha ?_
    rw [he]

/-- A chunk in no list joins the list of its slot. -/
theorem listPush_listed (hc : ¬ S c) (hcall : c ∈ all) (hinside : Inside m c)
    (hpos : ∀ a ∈ all, a ≠ 0) (hself : Linked m (freeNode c) (freeNode c)) :
    Ensures (linkCells fun a => S a ∨ a = c)
      (fun _ m' => ∃ free', Listed m' (fun a => S a ∨ a = c) free')
      (listPush (memoryChunkSlot (usable m c)) c) m := by
  obtain ⟨h0, hn⟩ := hinside.slot
  have hin : ∀ a ∈ free (memoryChunkSlot (usable m c)),
      S a ∧ memoryChunkSlot (usable m a) = memoryChunkSlot (usable m c) := fun a ha => (h.mem _ a).mp ha
  have hcall' : ∀ a ∈ c :: free (memoryChunkSlot (usable m c)),
      a ∈ all ∧ memoryChunkSlot (usable m a) = memoryChunkSlot (usable m c) := by
    intro a ha
    rcases List.mem_cons.mp ha with rfl | ha
    · exact ⟨hcall, rfl⟩
    · exact ⟨hS a (hin a ha).1, (hin a ha).2⟩
  have hnodup : (c :: free (memoryChunkSlot (usable m c))).Nodup :=
    List.nodup_cons.mpr ⟨fun ha => hc (hin c ha).1, h.nodup _⟩
  have ha := apart_freeNode hall (fun a ha => (hcall' a ha).1) hnodup
  refine (listPush_ensures (h.slots _ h0 hn) hself ha
    fun a ha => hpos a (hS a (hin a ha).1)).frame.mono (slotCells_subset fun a ha => ?_) ?_
  · rcases List.mem_cons.mp ha with rfl | ha
    · exact .inr rfl
    · exact .inl (hin a ha).1
  · rintro _ m' ⟨hslot', hframe⟩
    refine ⟨_, h.change hall hS hslot' hnodup (fun a => ?_) (fun a ha => ?_) hcall' ?_ hframe⟩
    · rw [List.mem_cons, h.mem]
      constructor
      · rintro (rfl | ⟨hSa, hsl⟩)
        · exact ⟨.inr rfl, rfl⟩
        · exact ⟨.inl hSa, hsl⟩
      · rintro ⟨hSa | rfl, hsl⟩
        · exact .inr ⟨hSa, hsl⟩
        · exact .inl rfl
    · refine or_iff_left fun he => ha ?_
      rw [he]
    · rintro a (ha | rfl)
      · exact hS a ha
      · exact hcall

theorem pushFree_ensures (hc : ¬ S c) (hcall : c ∈ all) (hinside : Inside m c)
    (hpos : ∀ a ∈ all, a ≠ 0) (hself : Linked m (freeNode c) (freeNode c)) :
    Ensures (insert .memFree (linkCells fun a => S a ∨ a = c))
      (fun _ m' => (∃ free', Listed m' (fun a => S a ∨ a = c) free') ∧
        m' .memFree = uint (m .memFree + usable m c)) (pushFree c) m := by
  unfold pushFree
  rw [ensures_bind, ensures_memoryChunkSize hinside]
  refine (listPush_listed hall h hS hc hcall hinside hpos hself).bind (Set.subset_insert _ _) ?_
  rintro _ m' ⟨free', hlisted⟩ hframe
  refine (addTo_ensures (Set.mem_insert _ _)).mono subset_rfl ?_
  rintro _ m2 ⟨hfree2, hsame2⟩
  refine ⟨⟨_, hlisted.congr (fun _ => Iff.rfl) (fun c hc => ?_) fun a _ => hsame2 _ (by rintro ⟨⟩)⟩, ?_⟩
  · exact hsame2 _ fun he => memFree_notMem_linkCells (he ▸ hc)
  · rw [hfree2, hframe _ memFree_notMem_linkCells]

end

end UtkKernel.Heap
