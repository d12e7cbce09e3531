import UtkKernel.Heap.Chunks

/-! # The layout of a heap

The chunks from the first to the last tile the memory of the heap, the free ones are in the free lists,
and of two chunks behind one another one is taken. The first and the last chunk are never free. -/

namespace UtkKernel.Heap
open Foundations Code Cell
set_option autoImplicit false

variable {m m' : Store} {a b c d x : ℕ} {i : ℕ} {n : ℤ} {l l1 l2 all : List ℕ} {S S' : ℕ → Prop}

/-! ## Tiles -/

/-- The ring of all chunks goes through the memory in order, and each chunk ends where the next one
begins. -/
structure Tiled (m : Store) (l : List ℕ) : Prop where
  ring : Ring m l
  spaced : l.Pairwise Before
  aligned : ∀ a ∈ l, align ∣ a
  bounded : ∀ a ∈ l, 0 < a ∧ a < 2 ^ 32

theorem Tiled.congr (h : Tiled m l) (hsame : ∀ c ∈ nodeCells l, m' c = m c) : Tiled m' l :=
  ⟨h.ring.congr hsame, h.spaced, h.aligned, h.bounded⟩

theorem Tiled.next_eq (h : Tiled m (l1 ++ a :: b :: l2)) : m (next a) = b := by
  have hring := h.ring.rotate
  exact hring.next_eq

theorem Tiled.prev_eq (h : Tiled m (l1 ++ a :: b :: l2)) : m (prev b) = a := by
  have hring : Ring m (a :: b :: (l2 ++ l1)) := h.ring.rotate
  have hchain := (ring_cons.mp hring).1
  rw [List.isChain_cons_cons] at hchain
  exact hchain.1.2

theorem Tiled.inside (h : Tiled m (l1 ++ a :: b :: l2)) : Inside m a := by
  unfold Inside
  rw [h.next_eq]
  have hab := (List.pairwise_cons.mp (List.pairwise_append.mp h.spaced).2.1).1 b (by simp)
  exact ⟨hab, (h.bounded b (by simp)).2⟩

/-- What is behind a chunk is behind its end. -/
theorem Tiled.next_le (h : Tiled m l) (ha : a ∈ l) (hx : x ∈ l) (hax : a < x) : m (next a) ≤ x := by
  obtain ⟨l1, l2, rfl⟩ := List.append_of_mem ha
  have hpair := List.pairwise_append.mp h.spaced
  have hx2 : x ∈ l2 := by
    rcases List.mem_append.mp hx with hx | hx
    · have hxa := hpair.2.2 x hx a (List.mem_cons_self ..)
      unfold Before at hxa
      omega
    · rcases List.mem_cons.mp hx with rfl | hx
      · omega
      · exact hx
  cases l2 with
  | nil => cases hx2
  | cons b l2 =>
    rw [h.next_eq]
    rcases List.mem_cons.mp hx2 with rfl | hx2
    · exact le_rfl
    · have hbx := (List.pairwise_cons.mp (List.pairwise_cons.mp hpair.2.1).2).1 x hx2
      unfold Before at hbx
      omega

theorem Tiled.ne_zero (h : Tiled m l) (ha : a ∈ l) : a ≠ 0 := (h.bounded a ha).1.ne'

/-- A chunk is taken out of the ring, and the chunk before it grows. -/
theorem Tiled.remove (h : Tiled m (l1 ++ a :: x :: l2)) :
    Ensures (nodeCells (l1 ++ a :: x :: l2))
      (fun _ m' => Tiled m' (l1 ++ a :: l2) ∧
        ∀ u ∈ l1 ++ a :: l2, u ≠ a → m' (next u) = m (next u)) (removeNode x) m := by
  have hsub : (l1 ++ a :: l2).Sublist (l1 ++ a :: x :: l2) :=
    (((List.sublist_cons_self x l2).cons_cons a).append_left l1)
  have hlist : l1 ++ a :: x :: l2 = (l1 ++ [a]) ++ x :: l2 := by simp
  have hperm : (l1 ++ a :: x :: l2).Perm (x :: (l2 ++ (l1 ++ [a]))) := by
    rw [hlist]
    exact List.perm_append_comm
  have hring : Ring m (x :: (l2 ++ (l1 ++ [a]))) := by
    have hring := h.ring
    rw [hlist] at hring
    exact hring.rotate
  have hapart := (hperm.pairwise_iff fun h => Apart.symm h).mp (apart_of_spaced h.spaced)
  refine (removeNode_ensures hring hapart).mono (nodeCells_mono hperm.symm.subset) ?_
  rintro _ m' ⟨⟨hring', -⟩, hnext⟩
  refine ⟨⟨?_, h.spaced.sublist hsub, fun u hu => h.aligned u (hsub.subset hu),
    fun u hu => h.bounded u (hsub.subset hu)⟩, fun u hu hua => hnext u ?_ ?_⟩
  · have hrot := hring'.rotate
    rwa [List.append_assoc, List.singleton_append] at hrot
  · simp only [List.mem_append, List.mem_cons, List.not_mem_nil, or_false] at hu ⊢
    tauto
  · rwa [h.prev_eq]

/-- A chunk is put into the ring, and the chunk before it shrinks. -/
theorem Tiled.insert (h : Tiled m (l1 ++ a :: l2)) (hx : Linked m x x)
    (hspaced : (l1 ++ a :: x :: l2).Pairwise Before) (haligned : align ∣ x) (hbound : x < 2 ^ 32) :
    Ensures (nodeCells (l1 ++ a :: x :: l2))
      (fun _ m' => Tiled m' (l1 ++ a :: x :: l2) ∧
        ∀ u ∈ l1 ++ a :: l2, u ≠ a → m' (next u) = m (next u)) (insertAfter a x) m := by
  have hperm : (l1 ++ a :: x :: l2).Perm (a :: x :: (l2 ++ l1)) := List.perm_append_comm
  have hring : Ring m (a :: (l2 ++ l1)) := h.ring.rotate
  have hapart := (hperm.pairwise_iff fun h => Apart.symm h).mp (apart_of_spaced hspaced)
  have hmem : ∀ u ∈ l1 ++ a :: x :: l2, u = x ∨ u ∈ l1 ++ a :: l2 := by
    intro u hu
    simp only [List.mem_append, List.mem_cons] at hu ⊢
    tauto
  have hax : Before a x :=
    (List.pairwise_cons.mp (List.pairwise_append.mp hspaced).2.1).1 x (List.mem_cons_self ..)
  refine (insertAfter_ensures hring hx hapart).mono (nodeCells_mono hperm.symm.subset) ?_
  rintro _ m' ⟨hring', hnext⟩
  refine ⟨⟨?_, hspaced, fun u hu => ?_, fun u hu => ?_⟩, fun u hu hua => hnext u ?_⟩
  · have hcat : Ring m' ((a :: x :: l2) ++ l1) := hring'
    exact hcat.rotate
  · rcases hmem u hu with rfl | hu
    · exact haligned
    · exact h.aligned u hu
  · rcases hmem u hu with rfl | hu
    · unfold Before chunkSize at hax
      omega
    · exact h.bounded u hu
  · simp only [List.mem_append, List.mem_cons] at hu ⊢
    tauto

/-! ## Fields -/

theorem nodeCells_disjoint_linkCells (h : all.Pairwise Before) (hS : ∀ a, S a → a ∈ all)
    {c : Cell} (hc : c ∈ nodeCells all) : c ∉ linkCells S := by
  obtain ⟨a, ha, rfl | rfl⟩ := hc
  · exact header_notMem_linkCells (i := 0) h hS ha (by decide)
  · exact header_notMem_linkCells (i := 4) h hS ha (by decide)

theorem used_notMem_linkCells (h : all.Pairwise Before) (hS : ∀ a, S a → a ∈ all) (ha : a ∈ all) :
    used a ∉ linkCells S :=
  header_notMem_linkCells (i := 8) h hS ha (by decide)

theorem used_notMem_nodeCells (h : all.Pairwise Before) (ha : a ∈ all) : used a ∉ nodeCells all := by
  rintro ⟨b, hb, he | he⟩
  · have hi := (eq_of_add_eq (i := 8) (j := 0) h ha hb (by decide) (by decide) (Cell.word.inj he)).2
    cases hi
  · have hi := (eq_of_add_eq (i := 8) (j := 4) h ha hb (by decide) (by decide) (Cell.word.inj he)).2
    cases hi

/-- The fields of other chunks are none of some nodes. -/
theorem word_notMem_nodeCells (h : all.Pairwise Before) (hx : x ∈ all)
    (hl : ∀ a ∈ l, a ∈ all ∧ a ≠ x) (hi : i < chunkSize) : Cell.word (x + i) ∉ nodeCells l := by
  rintro ⟨a, ha, he | he⟩
  · exact (hl a ha).2 (eq_of_add_eq (j := 0) h hx (hl a ha).1 hi (by decide) (Cell.word.inj he)).1.symm
  · exact (hl a ha).2 (eq_of_add_eq (j := 4) h hx (hl a ha).1 hi (by decide) (Cell.word.inj he)).1.symm

theorem used_ne_used (h : a ≠ b) : used a ≠ used b :=
  fun he => h (Nat.add_right_cancel (Cell.word.inj he))

/-- The free node of a chunk that is not in a list is left alone by the list functions. -/
theorem freeNode_notMem_linkCells (h : all.Pairwise Before) (hS : ∀ a, S a → a ∈ all) (ha : a ∈ all)
    (hnot : ¬ S a) : next (freeNode a) ∉ linkCells S ∧ prev (freeNode a) ∉ linkCells S := by
  constructor
  · rintro (⟨n, he⟩ | ⟨b, hb, he | he⟩)
    · cases he
    · have hab := (eq_of_add_eq (i := 12) (j := 12) h ha (hS b hb) (by decide) (by decide)
        (Cell.word.inj he)).1
      exact hnot (hab ▸ hb)
    · have hi := (eq_of_add_eq (i := 12) (j := 16) h ha (hS b hb) (by decide) (by decide)
        (Cell.word.inj he)).2
      cases hi
  · rintro (⟨n, he⟩ | ⟨b, hb, he | he⟩)
    · cases he
    · have hi := (eq_of_add_eq (i := 16) (j := 12) h ha (hS b hb) (by decide) (by decide)
        (Cell.word.inj he)).2
      cases hi
    · have hab := (eq_of_add_eq (i := 16) (j := 16) h ha (hS b hb) (by decide) (by decide)
        (Cell.word.inj he)).1
      exact hnot (hab ▸ hb)

theorem nodeCells_freeNode_subset : nodeCells [freeNode c] ⊆ linkCells (· = c) := by
  rintro x ⟨p, hp, hx⟩
  obtain rfl := List.mem_singleton.mp hp
  exact .inr ⟨c, rfl, hx⟩

/-- The free node of a chunk in no list is no field of the ring or the lists. -/
theorem notMem_nodeCells_freeNode (h : all.Pairwise Before) (hS : ∀ a, S a → a ∈ all) (hc : c ∈ all)
    (hnot : ¬ S c) {y : Cell} (hy : y ∈ nodeCells all ∨ y ∈ linkCells S ∨ ∃ a ∈ all, y = used a) :
    y ∉ nodeCells [freeNode c] := by
  have hc' : ∀ a, a = c → a ∈ all := fun a ha => ha ▸ hc
  intro hnode
  have hlink := nodeCells_freeNode_subset hnode
  rcases hy with hy | hy | ⟨a, ha, rfl⟩
  · exact nodeCells_disjoint_linkCells h hc' hy hlink
  · obtain ⟨p, hp, hx⟩ := hnode
    obtain rfl := List.mem_singleton.mp hp
    obtain ⟨h1, h2⟩ := freeNode_notMem_linkCells h hS hc hnot
    rcases hx with rfl | rfl
    · exact h1 hy
    · exact h2 hy
  · exact used_notMem_linkCells h hc' ha hlink

/-! ## Protected data -/

/-- The words of the data of a chunk. -/
def dataCells (m : Store) (a : ℕ) : Set Cell :=
  {x | ∃ w, x = .word w ∧ a + headerSize ≤ w ∧ w + 4 ≤ m (next a)}

/-- What only the initialisation writes. -/
def fixedCells : Set Cell := {.firstChunk, .lastChunk, .init}

/-- What a call may write when the data of some chunks is not its own. -/
def Outside (m : Store) (S : ℕ → Prop) : Set Cell :=
  {x | x ∉ fixedCells ∧ ∀ a, S a → x ∉ dataCells m a}

theorem word_notMem_fixedCells (w : ℕ) : Cell.word w ∉ fixedCells := by
  rintro (h | h | h) <;> cases h

/-- The header of a chunk and the free node of another one are not in the data of a chunk. -/
theorem Tiled.notMem_dataCells (h : Tiled m all) (ha : a ∈ all) (hx : x ∈ all) (hi : i < chunkSize)
    (hax : x ≠ a ∨ i < headerSize) : Cell.word (x + i) ∉ dataCells m a := by
  rintro ⟨w, he, hlow, hhigh⟩
  have hw : x + i = w := Cell.word.inj he
  rcases lt_trichotomy x a with hlt | rfl | hgt
  · have hxa := before_or h.spaced hx ha hlt.ne
    unfold Before chunkSize at *
    unfold headerSize at hlow
    omega
  · have hi' := hax.resolve_left fun h => h rfl
    omega
  · have hle := h.next_le ha hx hgt
    omega

theorem static_mem_outside {c : Cell} (hfixed : c ∉ fixedCells) (hc : ∀ w, c ≠ .word w) :
    c ∈ Outside m S := by
  refine ⟨hfixed, ?_⟩
  rintro a - ⟨w, rfl, -, -⟩
  exact hc w rfl

theorem freeChunk_mem_outside (n : ℤ) : Cell.freeChunk n ∈ Outside m S :=
  static_mem_outside (by rintro (h | h | h) <;> cases h) fun w => by rintro ⟨⟩

theorem Tiled.header_mem_outside (h : Tiled m all) (hS : ∀ a, S a → a ∈ all) (hx : x ∈ all)
    (hi : i < headerSize) : Cell.word (x + i) ∈ Outside m S :=
  ⟨word_notMem_fixedCells _,
    fun a ha => h.notMem_dataCells (hS a ha) hx (hi.trans (by decide)) (.inr hi)⟩

theorem Tiled.nodeCells_subset (h : Tiled m all) (hS : ∀ a, S a → a ∈ all) :
    nodeCells all ⊆ Outside m S := by
  rintro c ⟨x, hx, rfl | rfl⟩
  · exact h.header_mem_outside (i := 0) hS hx (by decide)
  · exact h.header_mem_outside (i := 4) hS hx (by decide)

theorem Tiled.linkCells_subset (h : Tiled m all) (hS : ∀ a, S a → a ∈ all)
    (hS' : ∀ a, S' a → a ∈ all ∧ ¬ S a) : linkCells S' ⊆ Outside m S := by
  rintro c (⟨n, rfl⟩ | ⟨x, hx, hc⟩)
  · exact freeChunk_mem_outside n
  · obtain ⟨hxall, hxS⟩ := hS' x hx
    have hne : ∀ a, S a → x ≠ a := fun a ha he => hxS (he ▸ ha)
    rcases hc with rfl | rfl
    · exact ⟨word_notMem_fixedCells _, fun a ha =>
        h.notMem_dataCells (i := 12) (hS a ha) hxall (by decide) (.inl (hne a ha))⟩
    · exact ⟨word_notMem_fixedCells _, fun a ha =>
        h.notMem_dataCells (i := 16) (hS a ha) hxall (by decide) (.inl (hne a ha))⟩

/-! ## Tiles and free lists -/

/-- The chunks tile the memory, and some are in the free lists. -/
structure Arranged (m : Store) (all : List ℕ) (S : ℕ → Prop) : Prop where
  tiled : Tiled m all
  listed : ∃ free, Listed m S free
  inside : ∀ a, S a → a ∈ all ∧ Inside m a

/-- The free node of a chunk that is in no list. -/
def Single (m : Store) (c : ℕ) : Prop := Linked m (freeNode c) (freeNode c)

/-- The chunks end where they ended and are taken or free as they were. -/
structure SameChunks (m m' : Store) (l : List ℕ) : Prop where
  next : ∀ a ∈ l, m' (next a) = m (next a)
  used : ∀ a ∈ l, m' (used a) = m (used a)

theorem SameChunks.inside (h : SameChunks m m' l) (ha : a ∈ l) (hin : Inside m a) : Inside m' a := by
  unfold Inside
  rw [h.next a ha]
  exact hin

theorem Arranged.mem (h : Arranged m all S) (ha : S a) : a ∈ all := (h.inside a ha).1

theorem Arranged.of_iff (h : Arranged m all S) (hS : ∀ a, S' a ↔ S a) : Arranged m all S' := by
  obtain ⟨free, hlisted⟩ := h.listed
  exact ⟨h.tiled, ⟨free, hlisted.congr hS (fun _ _ => rfl) fun _ _ => rfl⟩,
    fun a ha => h.inside a ((hS a).mp ha)⟩

theorem Arranged.congr (h : Arranged m all S) (hnode : ∀ x ∈ nodeCells all, m' x = m x)
    (hlink : ∀ x ∈ linkCells S, m' x = m x) : Arranged m' all S := by
  obtain ⟨free, hlisted⟩ := h.listed
  have hnext : ∀ a ∈ all, m' (Cell.next a) = m (Cell.next a) :=
    fun a ha => hnode _ (next_mem_nodeCells ha)
  refine ⟨h.tiled.congr hnode,
    ⟨free, hlisted.congr (fun _ => Iff.rfl) hlink fun a ha => hnext a (h.mem ha)⟩, fun a ha => ?_⟩
  unfold Inside
  rw [hnext a (h.mem ha)]
  exact h.inside a ha

theorem header_ne_memFree : next a ≠ .memFree ∧ prev a ≠ .memFree ∧ used a ≠ .memFree :=
  ⟨by rintro ⟨⟩, by rintro ⟨⟩, by rintro ⟨⟩⟩

/-- What writes only links of the free lists leaves the tiles. -/
theorem sameChunks_of_links (h : all.Pairwise Before) (hS : ∀ a, S a → a ∈ all)
    (hsame : ∀ x, x ∉ insert .memFree (linkCells S) → m' x = m x) : SameChunks m m' all := by
  refine ⟨fun a ha => hsame _ ?_, fun a ha => hsame _ ?_⟩
  · rintro (hx | hx)
    · exact header_ne_memFree.1 hx
    · exact nodeCells_disjoint_linkCells h hS (next_mem_nodeCells ha) hx
  · rintro (hx | hx)
    · exact header_ne_memFree.2.2 hx
    · exact used_notMem_linkCells h hS ha hx

theorem tiled_of_links (h : Tiled m all) (hS : ∀ a, S a → a ∈ all)
    (hsame : ∀ x, x ∉ insert .memFree (linkCells S) → m' x = m x) : Tiled m' all := by
  refine h.congr fun x hx => hsame x ?_
  rintro (rfl | hlink)
  · obtain ⟨p, -, he | he⟩ := hx <;> cases he
  · exact nodeCells_disjoint_linkCells h.spaced hS hx hlink

theorem Arranged.removeFree (h : Arranged m all S) (hc : S c) :
    Ensures (insert .memFree (linkCells S))
      (fun _ m' => Arranged m' all (fun a => S a ∧ a ≠ c) ∧ Single m' c ∧ SameChunks m m' all ∧
        m' .memFree = uintSub (m .memFree) (usable m c)) (removeFree c) m := by
  obtain ⟨free, hlisted⟩ := h.listed
  have hS : ∀ a, S a → a ∈ all := fun a ha => h.mem ha
  refine (removeFree_ensures h.tiled.spaced hlisted hS hc (h.inside c hc).2).frame.mono subset_rfl ?_
  rintro _ m' ⟨⟨hsingle, hlisted', hfree⟩, hsame⟩
  have hchunks := sameChunks_of_links h.tiled.spaced hS hsame
  refine ⟨⟨tiled_of_links h.tiled hS hsame, hlisted', fun a ha => ⟨hS a ha.1, ?_⟩⟩, hsingle, hchunks, hfree⟩
  exact hchunks.inside (hS a ha.1) (h.inside a ha.1).2

theorem Arranged.pushFree (h : Arranged m all S) (hc : ¬ S c) (hcall : c ∈ all) (hin : Inside m c)
    (hsingle : Single m c) :
    Ensures (insert .memFree (linkCells fun a => S a ∨ a = c))
      (fun _ m' => Arranged m' all (fun a => S a ∨ a = c) ∧ SameChunks m m' all ∧
        m' .memFree = uint (m .memFree + usable m c)) (pushFree c) m := by
  obtain ⟨free, hlisted⟩ := h.listed
  have hS : ∀ a, S a ∨ a = c → a ∈ all ∧ Inside m a := by
    rintro a (ha | rfl)
    · exact h.inside a ha
    · exact ⟨hcall, hin⟩
  refine (pushFree_ensures h.tiled.spaced hlisted (fun a ha => h.mem ha) hc hcall hin
    (fun a ha => h.tiled.ne_zero ha) hsingle).frame.mono subset_rfl ?_
  rintro _ m' ⟨⟨hlisted', hfree⟩, hsame⟩
  have hchunks := sameChunks_of_links h.tiled.spaced (fun a ha => (hS a ha).1) hsame
  refine ⟨⟨tiled_of_links h.tiled (fun a ha => (hS a ha).1) hsame, hlisted', fun a ha => ?_⟩, hchunks, hfree⟩
  exact ⟨(hS a ha).1, hchunks.inside (hS a ha).1 (hS a ha).2⟩

/-- What writes only links of the ring leaves the free lists of chunks that end where they ended. -/
theorem Arranged.listed_of_nodes (h : Arranged m all S) (hsame : ∀ x, x ∉ nodeCells l → m' x = m x)
    (hl : l.Pairwise Before) (hsub : all ⊆ l) (hnext : ∀ a, S a → m' (next a) = m (next a)) :
    ∃ free, Listed m' S free := by
  obtain ⟨free, hlisted⟩ := h.listed
  refine ⟨free, hlisted.congr (fun _ => Iff.rfl) (fun x hx => hsame x fun hnode => ?_) hnext⟩
  exact nodeCells_disjoint_linkCells hl (fun a ha => hsub (h.mem ha)) hnode hx

theorem single_of_nodes (h : Single m c) (hl : l.Pairwise Before) (hc : c ∈ l)
    (hsame : ∀ x, x ∉ nodeCells l → m' x = m x) : Single m' c := by
  have hlink : ∀ x ∈ linkCells (· = c), x ∉ nodeCells l := fun x hx hnode =>
    nodeCells_disjoint_linkCells hl (fun a (ha : a = c) => ha ▸ hc) hnode hx
  exact linked_congr h (hsame _ (hlink _ (.inr ⟨c, rfl, .inl rfl⟩)))
    (hsame _ (hlink _ (.inr ⟨c, rfl, .inr rfl⟩)))

/-- A chunk that is in no list leaves the ring, and the chunk before it, in no list either, grows. -/
theorem Arranged.removeNode (h : Arranged m (l1 ++ a :: x :: l2) S) (ha : ¬ S a) (hx : ¬ S x) :
    Ensures (nodeCells (l1 ++ a :: x :: l2))
      (fun _ m' => Arranged m' (l1 ++ a :: l2) S ∧ (Single m a → Single m' a) ∧
        (∀ u ∈ l1 ++ a :: l2, u ≠ a → m' (next u) = m (next u)) ∧
        ∀ u ∈ l1 ++ a :: x :: l2, m' (used u) = m (used u)) (removeNode x) m := by
  refine h.tiled.remove.frame.mono subset_rfl ?_
  rintro _ m' ⟨⟨htiled, hnext⟩, hsame⟩
  have hmem : ∀ u, S u → u ∈ l1 ++ a :: l2 ∧ u ≠ a := by
    intro u hu
    have hne : u ≠ a := fun he => ha (he ▸ hu)
    have hne' : u ≠ x := fun he => hx (he ▸ hu)
    have hmem := h.mem hu
    simp only [List.mem_append, List.mem_cons] at hmem ⊢
    tauto
  have hnextS : ∀ u, S u → m' (next u) = m (next u) := fun u hu => hnext u (hmem u hu).1 (hmem u hu).2
  refine ⟨⟨htiled, h.listed_of_nodes hsame h.tiled.spaced (List.Subset.refl _) hnextS, fun u hu => ?_⟩,
    fun hs => single_of_nodes hs h.tiled.spaced (by simp) hsame, hnext,
    fun u hu => hsame _ (used_notMem_nodeCells h.tiled.spaced hu)⟩
  refine ⟨(hmem u hu).1, ?_⟩
  unfold Inside
  rw [hnextS u hu]
  exact (h.inside u hu).2

end UtkKernel.Heap
