import UtkKernel.Heap.Layout

/-! # Giving a chunk back

A chunk that is given back first takes over the chunk behind it if that one is free, and is then taken
over by a free chunk before it or becomes a free chunk itself. -/

namespace UtkKernel.Heap
open Foundations Code Cell
set_option autoImplicit false

/-! ## The invariant -/

def IsFree (m : Store) (chunks : List ℕ) (a : ℕ) : Prop := a ∈ chunks ∧ m (used a) = 0

def Taken (m : Store) (chunks : List ℕ) (a : ℕ) : Prop := a ∈ chunks ∧ m (used a) ≠ 0

/-- The state of a heap between two calls; `chunks` are those between the first and the last one. -/
structure HeapInv (m : Store) (first : ℕ) (chunks : List ℕ) (last : ℕ) : Prop where
  arrangement : Arranged m (first :: (chunks ++ [last])) (IsFree m chunks)
  usedFirst : m (used first) ≠ 0
  usedLast : m (used last) ≠ 0
  coalesced : chunks.IsChain fun a b => m (used a) ≠ 0 ∨ m (used b) ≠ 0
  head : chunks.head? = some (first + chunkSize)

/-- The accounts, which nothing depends on. -/
def accounts : Set Cell := {.memFree, .memMeta}

variable {m m' : Store} {first last a c d x : ℕ} {n : ℕ} {l l1 l2 chunks : List ℕ}
variable {S S' : ℕ → Prop} {W : Set Cell}

theorem accounts_subset : accounts ⊆ Outside m S := by
  rintro c (rfl | rfl) <;>
    exact static_mem_outside (by rintro (h | h | h) <;> cases h) fun w => by rintro ⟨⟩

theorem word_notMem_accounts (w : ℕ) : Cell.word w ∉ accounts := by
  rintro (h | h) <;> cases h

theorem freeChunk_notMem_accounts (n : ℤ) : Cell.freeChunk n ∉ accounts := by
  rintro (h | h) <;> cases h

theorem nodeCells_notMem_accounts {x : Cell} (hx : x ∈ nodeCells l) : x ∉ accounts := by
  obtain ⟨a, -, rfl | rfl⟩ := hx <;> exact word_notMem_accounts _

theorem linkCells_notMem_accounts {x : Cell} (hx : x ∈ linkCells S) : x ∉ accounts := by
  rcases hx with ⟨n, rfl⟩ | ⟨a, -, rfl | rfl⟩
  · exact freeChunk_notMem_accounts n
  · exact word_notMem_accounts _
  · exact word_notMem_accounts _

theorem Arranged.accounts {all : List ℕ} (h : Arranged m all S)
    (hsame : ∀ x, x ∉ Heap.accounts → m' x = m x) : Arranged m' all S :=
  h.congr (fun x hx => hsame x (nodeCells_notMem_accounts hx))
    fun x hx => hsame x (linkCells_notMem_accounts hx)

/-- The variables of a heap other than its slots may change. -/
theorem HeapInv.congr (h : HeapInv m first chunks last) (hword : ∀ w, m' (.word w) = m (.word w))
    (hslot : ∀ n, m' (.freeChunk n) = m (.freeChunk n)) : HeapInv m' first chunks last := by
  have hnode : ∀ l, ∀ x ∈ nodeCells l, m' x = m x := by
    rintro l x ⟨a, -, rfl | rfl⟩
    · exact hword _
    · exact hword _
  have hlink : ∀ S, ∀ x ∈ linkCells S, m' x = m x := by
    rintro S x (⟨n, rfl⟩ | ⟨a, -, rfl | rfl⟩)
    · exact hslot n
    · exact hword _
    · exact hword _
  have hused : ∀ a, m' (used a) = m (used a) := fun a => hword _
  refine ⟨(h.arrangement.congr (hnode _) (hlink _)).of_iff fun a => ?_, ?_, ?_, ?_, h.head⟩
  · unfold IsFree
    rw [hused]
  · rw [hused]
    exact h.usedFirst
  · rw [hused]
    exact h.usedLast
  · exact h.coalesced.imp fun a b hab => by rwa [hused, hused]

theorem HeapInv.inside (h : HeapInv m first chunks last) (ha : a ∈ chunks) : Inside m a := by
  obtain ⟨l1, l2, rfl⟩ := List.append_of_mem ha
  have ht := h.arrangement.tiled
  obtain ⟨e, rest, he⟩ : ∃ e rest, l2 ++ [last] = e :: rest := by
    cases l2 with
    | nil => exact ⟨last, [], rfl⟩
    | cons e l2 => exact ⟨e, l2 ++ [last], rfl⟩
  rw [List.append_assoc, List.cons_append, he, ← List.cons_append] at ht
  exact ht.inside

theorem HeapInv.nodup (h : HeapInv m first chunks last) : (first :: (chunks ++ [last])).Nodup :=
  nodup_of_apart (apart_of_spaced h.arrangement.tiled.spaced)

theorem memFree_notMem_nodeCells : Cell.memFree ∉ nodeCells l := by
  rintro ⟨a, -, h | h⟩ <;> cases h

/-- The booking of a header that is no longer one. -/
theorem account_ensures :
    Ensures accounts (fun _ m' => m' .memFree = uint (m .memFree + headerSize))
      (do subFrom .memMeta headerSize; addTo .memFree headerSize) m := by
  refine (subFrom_ensures (W := accounts) (.inr rfl)).bind subset_rfl fun _ m1 hmeta _ => ?_
  refine (addTo_ensures (.inl rfl)).mono subset_rfl fun _ m2 hfree => ?_
  rw [hfree.1, hmeta.2 _ (by rintro ⟨⟩)]

theorem outside_congr (h : ∀ a, S a → m' (next a) = m (next a)) : Outside m' S = Outside m S := by
  unfold Outside dataCells
  ext x
  refine and_congr_right fun _ => forall_congr' fun a => forall_congr' fun ha => ?_
  rw [h a ha]

theorem HeapInv.nodeCells_subset (h : HeapInv m first chunks last) (hS : ∀ a, S a → Taken m chunks a) :
    nodeCells (first :: (chunks ++ [last])) ⊆ Outside m S :=
  h.arrangement.tiled.nodeCells_subset fun a ha =>
    List.mem_cons_of_mem _ (List.mem_append_left _ (hS a ha).1)

/-- The list functions do not write into data. -/
theorem HeapInv.linkCells_subset (h : HeapInv m first chunks last) (hS : ∀ a, S a → Taken m chunks a)
    (hS' : ∀ a, S' a → a ∈ chunks ∧ ¬ S a) :
    insert .memFree (linkCells S') ⊆ Outside m S := by
  have hmem : ∀ a ∈ chunks, a ∈ first :: (chunks ++ [last]) :=
    fun a ha => List.mem_cons_of_mem _ (List.mem_append_left _ ha)
  refine Set.insert_subset (accounts_subset (.inl rfl)) ?_
  exact h.arrangement.tiled.linkCells_subset (fun a ha => hmem a (hS a ha).1)
    fun a ha => ⟨hmem a (hS' a ha).1, (hS' a ha).2⟩

/-! ## The books -/

/-- The bytes that the free chunks have for data. -/
def freeSum (m : Store) (chunks : List ℕ) : ℕ :=
  (chunks.map fun a => if m (used a) = 0 then usable m a else 0).sum

/-- `mem_free` is so much above the bytes of the free chunks. -/
def Booked (m : Store) (chunks : List ℕ) (k : ℕ) : Prop := m .memFree = uint (freeSum m chunks + k)

theorem freeSum_append : freeSum m (l1 ++ l2) = freeSum m l1 + freeSum m l2 := by
  unfold freeSum
  rw [List.map_append, List.sum_append]

theorem freeSum_of_used (hc : m (used c) ≠ 0) : freeSum m (c :: l) = freeSum m l := by
  unfold freeSum
  rw [List.map_cons, List.sum_cons, if_neg hc, Nat.zero_add]

theorem freeSum_of_free (hc : m (used c) = 0) : freeSum m (c :: l) = usable m c + freeSum m l := by
  unfold freeSum
  rw [List.map_cons, List.sum_cons, if_pos hc]

theorem freeSum_congr (hused : ∀ a ∈ l, m' (used a) = m (used a))
    (hnext : ∀ a ∈ l, m (used a) = 0 → m' (next a) = m (next a)) : freeSum m' l = freeSum m l := by
  refine congrArg List.sum (List.map_congr_left fun a ha => ?_)
  rw [hused a ha]
  split_ifs with hfree
  · unfold usable
    rw [hnext a ha hfree]
  · rfl

/-! ## The chunk behind -/

/-- The chunk behind a taken one is taken. -/
def NextUsed (m : Store) (last : ℕ) (l : List ℕ) : Prop :=
  ∀ e rest, l ++ [last] = e :: rest → m (used e) ≠ 0

theorem HeapInv.nextUsed (h : HeapInv m first (l1 ++ c :: l2) last) (hc : m (used c) = 0) :
    NextUsed m last l2 := by
  intro e rest he
  cases l2 with
  | nil =>
    cases he
    exact h.usedLast
  | cons e' l2 =>
    cases he
    have hchain := (List.isChain_split.mp h.coalesced).2
    exact (List.isChain_cons_cons.mp hchain).1.resolve_left fun hu => hu hc

/-- Two heaps with the same flags. -/
theorem coalesced_congr (h : l.IsChain fun a b => m (used a) ≠ 0 ∨ m (used b) ≠ 0)
    (hused : ∀ a ∈ l, m' (used a) = m (used a)) :
    l.IsChain fun a b => m' (used a) ≠ 0 ∨ m' (used b) ≠ 0 :=
  h.imp_of_mem_imp fun a b ha hb hab => by rwa [hused a ha, hused b hb]

theorem mem_middle {u : ℕ} : u ∈ l1 ++ a :: x :: l2 ↔ u = x ∨ u ∈ l1 ++ a :: l2 := by
  simp only [List.mem_append, List.mem_cons]
  tauto

theorem ne_of_mem_middle {u : ℕ} (h : (l1 ++ a :: x :: l2).Nodup) (hu : u ∈ l1 ++ a :: l2) : u ≠ x := by
  rintro rfl
  have hlist : l1 ++ a :: u :: l2 = (l1 ++ [a]) ++ u :: l2 := by simp
  rw [hlist, List.nodup_middle, List.nodup_cons, List.append_assoc] at h
  exact h.1 hu

theorem HeapInv.chunks_nodup (h : HeapInv m first chunks last) : chunks.Nodup :=
  (List.nodup_append.mp (List.nodup_cons.mp h.nodup).2).1

theorem mem_all (ha : a ∈ chunks) : a ∈ first :: (chunks ++ [last]) :=
  List.mem_cons_of_mem _ (List.mem_append_left _ ha)

section
variable (h : HeapInv m first (l1 ++ a :: x :: l2) last)
  (hused : ∀ u ∈ first :: ((l1 ++ a :: x :: l2) ++ [last]), m' (used u) = m (used u))
include h hused

/-- The chunks that are left when one has gone. -/
theorem HeapInv.taken_middle (u : ℕ) :
    Taken m' (l1 ++ a :: l2) u ↔ Taken m (l1 ++ a :: x :: l2) u ∧ u ≠ x := by
  unfold Taken
  rw [mem_middle]
  constructor
  · rintro ⟨hu, hne⟩
    rw [hused u (mem_all (mem_middle.mpr (.inr hu)))] at hne
    exact ⟨⟨.inr hu, hne⟩, ne_of_mem_middle h.chunks_nodup hu⟩
  · rintro ⟨⟨hu, hne⟩, hux⟩
    have hu' := hu.resolve_left hux
    rw [hused u (mem_all (mem_middle.mpr hu))]
    exact ⟨hu', hne⟩

/-- A chunk that has gone leaves a heap if the neighbours it had are not both free. -/
theorem HeapInv.merge (harr : Arranged m' ((first :: l1) ++ a :: (l2 ++ [last])) S)
    (hS : ∀ u, S u ↔ IsFree m (l1 ++ a :: x :: l2) u ∧ u ≠ x)
    (hnext : m (used a) ≠ 0 ∨ NextUsed m last l2) : HeapInv m' first (l1 ++ a :: l2) last := by
  have hlist : (first :: l1) ++ a :: (l2 ++ [last]) = first :: ((l1 ++ a :: l2) ++ [last]) := by simp
  have hhead : (l1 ++ a :: l2).head? = some (first + chunkSize) := by
    rw [← h.head]
    cases l1 <;> rfl
  refine ⟨?_, ?_, ?_, ?_, hhead⟩
  · rw [← hlist]
    refine harr.of_iff fun u => ?_
    rw [hS]
    unfold IsFree
    rw [mem_middle]
    constructor
    · rintro ⟨hu, hzero⟩
      rw [hused u (mem_all (mem_middle.mpr (.inr hu)))] at hzero
      exact ⟨⟨.inr hu, hzero⟩, ne_of_mem_middle h.chunks_nodup hu⟩
    · rintro ⟨⟨hu, hzero⟩, hux⟩
      have hu' := hu.resolve_left hux
      rw [hused u (mem_all (mem_middle.mpr hu))]
      exact ⟨hu', hzero⟩
  · rw [hused first (List.mem_cons_self ..)]
    exact h.usedFirst
  · rw [hused last (by simp)]
    exact h.usedLast
  · have hchain := coalesced_congr h.coalesced fun u hu => hused u (mem_all hu)
    rw [List.isChain_split] at hchain ⊢
    refine ⟨hchain.1, List.isChain_cons.mpr ⟨fun e he => ?_, hchain.2.tail.tail⟩⟩
    cases l2 with
    | nil => cases he
    | cons e' l2 =>
      cases he
      rw [hused a (by simp), hused e (by simp)]
      exact hnext.imp_right fun hn => hn e (l2 ++ [last]) rfl

end

/-- A taken chunk takes over the chunk behind it if that is free. -/
theorem absorb_ensures (h : HeapInv m first (l1 ++ c :: l2) last) (hc : m (used c) ≠ 0)
    (hd : m (next c) = d) :
    Ensures (Outside m fun a => Taken m (l1 ++ c :: l2) a ∧ a ≠ c)
      (fun _ m' => ∃ l2', HeapInv m' first (l1 ++ c :: l2') last ∧ NextUsed m' last l2' ∧
        (∀ a, Taken m' (l1 ++ c :: l2') a ↔ Taken m (l1 ++ c :: l2) a) ∧
        (∀ a, Taken m (l1 ++ c :: l2) a → a ≠ c → m' (next a) = m (next a)) ∧
        (∀ u ∈ first :: l1, m' (used u) = m (used u)) ∧
        ∀ k, Booked m (l1 ++ c :: l2) k →
          Booked m' (l1 ++ c :: l2') (k + if m (used d) = 0 then headerSize else 0))
      (if m (used d) = 0 then do
        removeFree d
        removeNode d
        subFrom .memMeta headerSize
        addTo .memFree headerSize
      else pure ()) m := by
  obtain ⟨e, rest, hrest⟩ : ∃ e rest, l2 ++ [last] = e :: rest := by
    cases l2 with
    | nil => exact ⟨last, [], rfl⟩
    | cons e l2 => exact ⟨e, l2 ++ [last], rfl⟩
  have htiled := h.arrangement.tiled
  rw [List.append_assoc, List.cons_append, hrest, ← List.cons_append] at htiled
  obtain rfl : e = d := htiled.next_eq.symm.trans hd
  by_cases hfree : m (used e) = 0
  swap
  · rw [if_neg hfree, if_neg hfree]
    refine ⟨l2, h, fun e' rest' he => ?_, fun a => Iff.rfl, fun a _ _ => rfl, fun u _ => rfl, fun k hk => hk⟩
    rw [hrest] at he
    cases he
    exact hfree
  rw [if_pos hfree, if_pos hfree]
  -- the last chunk is not free
  obtain ⟨l2', rfl, rfl⟩ : ∃ l2', l2 = e :: l2' ∧ rest = l2' ++ [last] := by
    cases l2 with
    | nil =>
      cases hrest
      exact absurd hfree h.usedLast
    | cons e' l2' =>
      cases hrest
      exact ⟨l2', rfl, rfl⟩
  have hTaken : ∀ a, (Taken m (l1 ++ c :: e :: l2') a ∧ a ≠ c) → Taken m (l1 ++ c :: e :: l2') a :=
    fun a ha => ha.1
  have hall : first :: ((l1 ++ c :: e :: l2') ++ [last]) =
      (first :: l1) ++ c :: e :: (l2' ++ [last]) := by simp
  have hfree' : IsFree m (l1 ++ c :: e :: l2') e := ⟨by simp, hfree⟩
  refine (h.arrangement.removeFree hfree').bind
    (h.linkCells_subset hTaken fun a ha => ⟨ha.1, fun ht => ht.1.2 ha.2⟩) ?_
  rintro _ m1 ⟨harr1, -, hchunks1, hfree1⟩ -
  rw [hall] at harr1
  refine (harr1.removeNode (fun hS => hc hS.1.2) fun hS => hS.2 rfl).frame.bind ?_ ?_
  · rw [← hall]
    exact h.nodeCells_subset hTaken
  rintro _ m2 ⟨⟨harr2, -, hnext2, hused2⟩, hframe2⟩ -
  refine account_ensures.frame.mono accounts_subset ?_
  rintro _ m3 ⟨hfree3, hsame3⟩
  have hword : ∀ w, m3 (.word w) = m2 (.word w) := fun w => hsame3 _ (word_notMem_accounts w)
  have hused : ∀ u ∈ first :: ((l1 ++ c :: e :: l2') ++ [last]), m3 (used u) = m (used u) :=
    fun u hu => (hword _).trans ((hused2 u (hall ▸ hu)).trans (hchunks1.used u hu))
  have hmid : HeapInv m first ((l1 ++ [c]) ++ e :: l2') last := by simpa using h
  have hnext := hmid.nextUsed hfree
  have hends : ∀ a ∈ l1 ++ c :: l2', a ≠ c → m3 (next a) = m (next a) := by
    intro a ha hac
    have hin : a ∈ (first :: l1) ++ c :: (l2' ++ [last]) := by
      simp only [List.mem_append, List.mem_cons] at ha ⊢
      tauto
    exact (hword _).trans ((hnext2 a hin hac).trans (hchunks1.next a (mem_all (mem_middle.mpr (.inr ha)))))
  refine ⟨l2', h.merge hused (harr2.accounts hsame3) (fun _ => Iff.rfl) (.inr hnext),
    fun e' rest' he' => ?_, fun a => ?_, fun a ha hac => ?_, fun u hu => hused u ?_, fun k hk => ?_⟩
  · have hin : e' ∈ l2' ++ [last] := he' ▸ List.mem_cons_self ..
    rw [hused e' (by simp only [List.mem_cons, List.mem_append] at hin ⊢; tauto)]
    exact hnext e' rest' he'
  · rw [h.taken_middle hused]
    exact and_iff_left_of_imp fun ha he => ha.2 (he ▸ hfree)
  · have hae : a ≠ e := fun he => ha.2 (he ▸ hfree)
    exact hends a ((mem_middle.mp ha.1).resolve_left hae) hac
  · simp only [List.mem_cons, List.mem_append] at hu ⊢
    tauto
  · have husedc : m3 (used c) ≠ 0 := by
      rw [hused c (by simp)]
      exact hc
    have hsum1 : freeSum m3 l1 = freeSum m l1 := by
      refine freeSum_congr (fun a ha => hused a (by simp [ha])) fun a ha hzero => hends a (by simp [ha]) ?_
      rintro rfl
      exact hc hzero
    have hsum2 : freeSum m3 l2' = freeSum m l2' := by
      refine freeSum_congr (fun a ha => hused a (by simp [ha])) fun a ha hzero => hends a (by simp [ha]) ?_
      rintro rfl
      exact hc hzero
    have husable := (h.inside hfree'.1).usable_lt
    unfold Booked at hk ⊢
    rw [freeSum_append, freeSum_of_used hc, freeSum_of_free hfree] at hk
    rw [freeSum_append, freeSum_of_used husedc, hsum1, hsum2, hfree3, hframe2 _ memFree_notMem_nodeCells, hfree1, hk]
    unfold uintSub uint
    omega

/-! ## The chunk before -/

/-- A taken chunk between taken ones becomes free. -/
theorem free_ensures (h : HeapInv m first (l1 ++ c :: l2) last) (hc : m (used c) ≠ 0)
    (hn : NextUsed m last l2) (hp : ∀ u ∈ l1.getLast?, m (used u) ≠ 0) :
    Ensures (Outside m fun a => Taken m (l1 ++ c :: l2) a ∧ a ≠ c)
      (fun _ m' => ∃ chunks', HeapInv m' first chunks' last ∧
        (∀ a, Taken m' chunks' a ↔ Taken m (l1 ++ c :: l2) a ∧ a ≠ c) ∧
        (∀ a, Taken m (l1 ++ c :: l2) a → a ≠ c → m' (next a) = m (next a)) ∧
        ∀ k, Booked m (l1 ++ c :: l2) k → Booked m' chunks' k)
      (do
        write (used c) 0
        listInit (freeNode c)
        pushFree c) m := by
  have hcin : c ∈ l1 ++ c :: l2 := by simp
  have hTaken : ∀ a, (Taken m (l1 ++ c :: l2) a ∧ a ≠ c) → Taken m (l1 ++ c :: l2) a :=
    fun a ha => ha.1
  have hspaced := h.arrangement.tiled.spaced
  have hmem : ∀ a, IsFree m (l1 ++ c :: l2) a → a ∈ first :: ((l1 ++ c :: l2) ++ [last]) :=
    fun a ha => h.arrangement.mem ha
  have hnot : ¬ IsFree m (l1 ++ c :: l2) c := fun hf => hc hf.2
  rw [ensures_bind, ensures_write]
  refine ⟨h.arrangement.tiled.header_mem_outside (i := 8)
    (fun a ha => mem_all (hTaken a ha).1) (mem_all hcin) (by decide), ?_⟩
  refine (listInit_ensures (W := nodeCells [freeNode c]) (next_mem_nodeCells (by simp))
    (prev_mem_nodeCells (by simp))).bind ?_ ?_
  · refine nodeCells_freeNode_subset.trans ((Set.subset_insert _ _).trans
      (h.linkCells_subset hTaken fun a ha => ?_))
    obtain rfl : a = c := ha
    exact ⟨hcin, fun ht => ht.2 rfl⟩
  rintro _ m1 hm1 hframe1
  have hsingle : Single m1 c := hm1 ▸ linked_link (ne_add_of_apart (List.pairwise_singleton _ _)
    (List.mem_singleton_self _) (List.mem_singleton_self _))
  -- of the ring and the lists only the flag of the chunk is written
  have hkept : ∀ x, x ∈ nodeCells (first :: ((l1 ++ c :: l2) ++ [last])) ∨
      x ∈ linkCells (IsFree m (l1 ++ c :: l2)) → m1 x = m x := by
    intro x hx
    have hne : x ≠ used c := by
      rintro rfl
      rcases hx with hx | hx
      · exact used_notMem_nodeCells hspaced (mem_all hcin) hx
      · exact used_notMem_linkCells hspaced hmem (mem_all hcin) hx
    have hx' := notMem_nodeCells_freeNode hspaced hmem (mem_all hcin) hnot (hx.imp_right .inl)
    rw [hframe1 x hx', Function.update_of_ne hne]
  have hused1 : ∀ a ∈ first :: ((l1 ++ c :: l2) ++ [last]), m1 (used a) =
      Function.update m (used c) 0 (used a) := fun a ha =>
    hframe1 _ (notMem_nodeCells_freeNode hspaced hmem (mem_all hcin) hnot (.inr (.inr ⟨a, ha, rfl⟩)))
  have harr1 : Arranged m1 (first :: ((l1 ++ c :: l2) ++ [last])) (IsFree m (l1 ++ c :: l2)) :=
    h.arrangement.congr (fun x hx => hkept x (.inl hx)) fun x hx => hkept x (.inr hx)
  have hnext1 : ∀ a ∈ first :: ((l1 ++ c :: l2) ++ [last]), m1 (next a) = m (next a) :=
    fun a ha => hkept _ (.inl (next_mem_nodeCells ha))
  have hin : Inside m1 c := by
    have hin := h.inside hcin
    unfold Inside at hin ⊢
    rwa [hnext1 c (mem_all hcin)]
  refine (harr1.pushFree hnot (mem_all hcin) hin hsingle).mono (h.linkCells_subset hTaken ?_) ?_
  · rintro a (ha | rfl)
    · exact ⟨ha.1, fun ht => ht.1.2 ha.2⟩
    · exact ⟨hcin, fun ht => ht.2 rfl⟩
  rintro _ m2 ⟨harr2, hchunks2, hfree2⟩
  have hself : m2 (used c) = 0 := by
    rw [hchunks2.used c (mem_all hcin), hused1 c (mem_all hcin), Function.update_self]
  have hother : ∀ a ∈ first :: ((l1 ++ c :: l2) ++ [last]), a ≠ c → m2 (used a) = m (used a) := by
    intro a ha hac
    rw [hchunks2.used a ha, hused1 a ha, Function.update_of_ne (used_ne_used hac)]
  have hfirst : first ≠ c := by
    rintro rfl
    exact (List.nodup_cons.mp h.nodup).1 (List.mem_append_left _ hcin)
  have hlast : last ≠ c := by
    rintro rfl
    exact (List.nodup_append.mp (List.nodup_cons.mp h.nodup).2).2.2 last hcin last (by simp) rfl
  have hl1 : ∀ a ∈ l1, a ≠ c := by
    rintro a ha rfl
    exact (List.nodup_append.mp h.chunks_nodup).2.2 a ha a (List.mem_cons_self ..) rfl
  have hl2 : ∀ a ∈ l2, a ≠ c := by
    rintro a ha rfl
    exact (List.nodup_cons.mp (List.nodup_append.mp h.chunks_nodup).2.1).1 ha
  refine ⟨l1 ++ c :: l2, ⟨harr2.of_iff fun a => ?_, ?_, ?_, ?_, h.head⟩, fun a => ?_, fun a ha _ => ?_,
    fun k hk => ?_⟩
  · constructor
    · rintro ⟨ha, hzero⟩
      by_cases hac : a = c
      · exact .inr hac
      · rw [hother a (mem_all ha) hac] at hzero
        exact .inl ⟨ha, hzero⟩
    · rintro (⟨ha, hzero⟩ | rfl)
      · have hac : a ≠ c := fun he => hc (he ▸ hzero)
        refine ⟨ha, ?_⟩
        rw [hother a (mem_all ha) hac]
        exact hzero
      · exact ⟨hcin, hself⟩
  · rw [hother first (List.mem_cons_self ..) hfirst]
    exact h.usedFirst
  · rw [hother last (by simp) hlast]
    exact h.usedLast
  · obtain ⟨hchain1, hchain2, -⟩ := List.isChain_append.mp h.coalesced
    have hkeep1 := coalesced_congr hchain1 fun a ha => hother a (mem_all (by simp [ha])) (hl1 a ha)
    have hkeep2 := coalesced_congr hchain2.tail fun a ha => hother a (mem_all (by simp_all)) (hl2 a ha)
    refine List.isChain_append.mpr ⟨hkeep1, List.isChain_cons.mpr ⟨fun e he => .inr ?_, hkeep2⟩, ?_⟩
    · have hel : e ∈ l2 := List.mem_of_head? he
      rw [hother e (mem_all (by simp [hel])) (hl2 e hel)]
      cases l2 with
      | nil => cases he
      | cons e' l2 =>
        cases he
        exact hn e (l2 ++ [last]) rfl
    · intro u hu _ _
      have hul : u ∈ l1 := List.mem_of_getLast? hu
      rw [hother u (mem_all (by simp [hul])) (hl1 u hul)]
      exact .inl (hp u hu)
  · unfold Taken
    constructor
    · rintro ⟨ha, hne⟩
      have hac : a ≠ c := fun he => hne (he ▸ hself)
      rw [hother a (mem_all ha) hac] at hne
      exact ⟨⟨ha, hne⟩, hac⟩
    · rintro ⟨⟨ha, hne⟩, hac⟩
      rw [hother a (mem_all ha) hac]
      exact ⟨ha, hne⟩
  · rw [hchunks2.next a (mem_all ha.1), hnext1 a (mem_all ha.1)]
  · have hsum : ∀ l, (∀ a ∈ l, a ≠ c ∧ a ∈ l1 ++ c :: l2) → freeSum m2 l = freeSum m l := by
      intro l hl
      refine freeSum_congr (fun a ha => hother a (mem_all (hl a ha).2) (hl a ha).1) fun a ha _ => ?_
      rw [hchunks2.next a (mem_all (hl a ha).2), hnext1 a (mem_all (hl a ha).2)]
    have husable1 : usable m1 c = usable m c := by
      unfold usable
      rw [hnext1 c (mem_all hcin)]
    have husable2 : usable m2 c = usable m1 c := by
      unfold usable
      rw [hchunks2.next c (mem_all hcin)]
    have hfree1 : m1 .memFree = m .memFree :=
      (hframe1 _ memFree_notMem_nodeCells).trans (Function.update_of_ne (by rintro ⟨⟩) ..)
    unfold Booked at hk ⊢
    rw [freeSum_append, freeSum_of_used hc] at hk
    rw [freeSum_append, freeSum_of_free hself, hsum l1 fun a ha => ⟨hl1 a ha, by simp [ha]⟩,
      hsum l2 fun a ha => ⟨hl2 a ha, by simp [ha]⟩, hfree2, hfree1, husable2, husable1, hk]
    unfold uint
    omega

/-- A taken chunk is taken over by the chunk before it if that is free, or becomes free itself. -/
theorem detach_ensures {p : ℕ} (h : HeapInv m first (l1 ++ c :: l2) last) (hc : m (used c) ≠ 0)
    (hp : m (prev c) = p) (hn : NextUsed m last l2) :
    Ensures (Outside m fun a => Taken m (l1 ++ c :: l2) a ∧ a ≠ c)
      (fun _ m' => ∃ chunks', HeapInv m' first chunks' last ∧
        (∀ a, Taken m' chunks' a ↔ Taken m (l1 ++ c :: l2) a ∧ a ≠ c) ∧
        (∀ a, Taken m (l1 ++ c :: l2) a → a ≠ c → m' (next a) = m (next a)) ∧
        ∀ k, Booked m (l1 ++ c :: l2) k → Booked m' chunks' (k + if m (used p) = 0 then headerSize else 0))
      (if m (used p) = 0 then do
        removeFree p
        removeNode c
        pushFree p
        subFrom .memMeta headerSize
        addTo .memFree headerSize
      else do
        write (used c) 0
        listInit (freeNode c)
        pushFree c) m := by
  obtain ⟨e, rest, hrest⟩ : ∃ e rest, l2 ++ [last] = e :: rest := by
    cases l2 with
    | nil => exact ⟨last, [], rfl⟩
    | cons e l2 => exact ⟨e, l2 ++ [last], rfl⟩
  obtain ⟨s, q, hs⟩ : ∃ s q, first :: l1 = s ++ [q] :=
    ⟨_, _, (List.dropLast_append_getLast (List.cons_ne_nil first l1)).symm⟩
  have htiled := h.arrangement.tiled
  rw [List.append_assoc, ← List.cons_append, hs, List.append_assoc, List.singleton_append,
    List.cons_append] at htiled
  obtain rfl : q = p := htiled.prev_eq.symm.trans hp
  by_cases hfree : m (used q) = 0
  · rw [if_pos hfree, if_pos hfree]
    -- the first chunk is not free
    obtain ⟨l1', rfl, rfl⟩ : ∃ l1', l1 = l1' ++ [q] ∧ s = first :: l1' := by
      cases s with
      | nil =>
        cases hs
        exact absurd hfree h.usedFirst
      | cons f s =>
        cases hs
        exact ⟨s, rfl, rfl⟩
    rw [List.append_assoc, List.singleton_append] at h ⊢
    have hTaken : ∀ a, (Taken m (l1' ++ q :: c :: l2) a ∧ a ≠ c) → Taken m (l1' ++ q :: c :: l2) a :=
      fun a ha => ha.1
    have hall : first :: ((l1' ++ q :: c :: l2) ++ [last]) =
        (first :: l1') ++ q :: c :: (l2 ++ [last]) := by simp
    have hfree' : IsFree m (l1' ++ q :: c :: l2) q := ⟨by simp, hfree⟩
    refine (h.arrangement.removeFree hfree').bind
      (h.linkCells_subset hTaken fun a ha => ⟨ha.1, fun ht => ht.1.2 ha.2⟩) ?_
    rintro _ m1 ⟨harr1, hsingle1, hchunks1, hfree1⟩ -
    rw [hall] at harr1
    refine (harr1.removeNode (fun hS => hS.2 rfl) fun hS => hc hS.1.2).frame.bind ?_ ?_
    · rw [← hall]
      exact h.nodeCells_subset hTaken
    rintro _ m2 ⟨⟨harr2, hsingle2, hnext2, hused2⟩, hframe2⟩ -
    have hin : Inside m2 q := by
      have ht2 := harr2.tiled
      rw [hrest] at ht2
      exact ht2.inside
    have hpushed : ∀ a, (IsFree m (l1' ++ q :: c :: l2) a ∧ a ≠ q) ∨ a = q →
        IsFree m (l1' ++ q :: c :: l2) a := by
      rintro a (ha | rfl)
      · exact ha.1
      · exact hfree'
    refine (harr2.pushFree (fun hS => hS.2 rfl) (by simp) hin (hsingle2 hsingle1)).bind
      (h.linkCells_subset hTaken fun a ha => ⟨(hpushed a ha).1, fun ht => ht.1.2 (hpushed a ha).2⟩) ?_
    rintro _ m3 ⟨harr3, hchunks3, hfree3⟩ hframe3
    refine account_ensures.frame.mono accounts_subset ?_
    rintro _ m4 ⟨hfree4, hsame4⟩
    have hword : ∀ w, m4 (.word w) = m3 (.word w) := fun w => hsame4 _ (word_notMem_accounts w)
    have hused : ∀ u ∈ first :: ((l1' ++ q :: c :: l2) ++ [last]), m4 (used u) = m (used u) := by
      intro u hu
      have h3 : m3 (used u) = m2 (used u) := by
        refine hframe3 _ ?_
        rintro (hx | hx)
        · exact header_ne_memFree.2.2 hx
        · exact used_notMem_linkCells h.arrangement.tiled.spaced
            (fun a ha => h.arrangement.mem (hpushed a ha)) hu hx
      exact (hword _).trans (h3.trans ((hused2 u (hall ▸ hu)).trans (hchunks1.used u hu)))
    have hends : ∀ a ∈ l1' ++ q :: l2, a ≠ q → m4 (next a) = m (next a) := by
      intro a ha haq
      have hin : a ∈ (first :: l1') ++ q :: (l2 ++ [last]) := by
        simp only [List.mem_append, List.mem_cons] at ha ⊢
        tauto
      refine (hword _).trans ((hchunks3.next a hin).trans ((hnext2 a hin haq).trans ?_))
      exact hchunks1.next a (mem_all (mem_middle.mpr (.inr ha)))
    refine ⟨l1' ++ q :: l2, h.merge hused (harr3.accounts hsame4) (fun u => ?_) (.inr hn),
      fun a => h.taken_middle hused a, fun a ha hac => ?_, fun k hk => ?_⟩
    · constructor
      · intro hu
        exact ⟨hpushed u hu, fun he => hc (he ▸ (hpushed u hu).2)⟩
      · rintro ⟨hu, -⟩
        exact (eq_or_ne u q).elim .inr fun hne => .inl ⟨hu, hne⟩
    · have haq : a ≠ q := fun he => ha.2 (he ▸ hfree)
      exact hends a ((mem_middle.mp ha.1).resolve_left hac) haq
    · have hfreeq : m4 (used q) = 0 := by
        rw [hused q (by simp)]
        exact hfree
      have hnodup := (List.nodup_append.mp h.chunks_nodup)
      have hsum : ∀ l, (∀ a ∈ l, a ≠ q ∧ a ∈ l1' ++ q :: l2) → freeSum m4 l = freeSum m l := by
        intro l hl
        refine freeSum_congr (fun a ha => hused a (mem_all (mem_middle.mpr (.inr (hl a ha).2)))) fun a ha _ => ?_
        exact hends a (hl a ha).2 (hl a ha).1
      have hl1 : ∀ a ∈ l1', a ≠ q ∧ a ∈ l1' ++ q :: l2 := fun a ha =>
        ⟨hnodup.2.2 a ha q List.mem_cons_self, by simp [ha]⟩
      have hl2 : ∀ a ∈ l2, a ≠ q ∧ a ∈ l1' ++ q :: l2 := by
        refine fun a ha => ⟨?_, by simp [ha]⟩
        rintro rfl
        exact (List.nodup_cons.mp hnodup.2.1).1 (List.mem_cons_of_mem _ ha)
      have hnextq : m4 (next q) = m2 (next q) := (hword q).trans (hchunks3.next q (by simp))
      have husable : usable m4 q = usable m2 q := by
        unfold usable
        rw [hnextq]
      have hlt := (h.inside hfree'.1).usable_lt
      unfold Booked at hk ⊢
      rw [freeSum_append, freeSum_of_free hfree, freeSum_of_used hc] at hk
      rw [freeSum_append, freeSum_of_free hfreeq, hsum l1' hl1, hsum l2 hl2, husable, hfree4, hfree3,
        hframe2 _ memFree_notMem_nodeCells, hfree1, hk]
      unfold uintSub uint
      omega
  · rw [if_neg hfree, if_neg hfree]
    refine free_ensures h hc hn fun u hu => ?_
    -- the chunk before is the last one of the first part
    obtain ⟨t, rfl⟩ := List.getLast?_eq_some_iff.mp hu
    have hcat : (first :: t) ++ [u] = s ++ [q] := hs
    have huq : [u] = [q] := List.append_inj_right' hcat rfl
    cases huq
    exact hfree

/-- What `mem_free` gains too much when a chunk is given back: each merge counts a header twice. -/
def mergeGain (m : Store) (c : ℕ) : ℕ :=
  (if m (used (m (next c))) = 0 then headerSize else 0) + if m (used (m (prev c))) = 0 then headerSize else 0

/-- A taken chunk is given back, and the data of the others stays. -/
theorem release_ensures (h : HeapInv m first chunks last) (hc : Taken m chunks c) :
    Ensures (Outside m fun a => Taken m chunks a ∧ a ≠ c)
      (fun _ m' => ∃ chunks', HeapInv m' first chunks' last ∧
        (∀ a, Taken m' chunks' a ↔ Taken m chunks a ∧ a ≠ c) ∧
        (∀ a, Taken m chunks a → a ≠ c → m' (next a) = m (next a)) ∧
        ∀ k, Booked m chunks k → Booked m' chunks' (k + mergeGain m c)) (release (c + headerSize)) m := by
  obtain ⟨l1, l2, rfl⟩ := List.append_of_mem hc.1
  obtain ⟨s, q, hs⟩ : ∃ s q, first :: l1 = s ++ [q] :=
    ⟨_, _, (List.dropLast_append_getLast (List.cons_ne_nil first l1)).symm⟩
  have hprev : ∀ {m' : Store} {l : List ℕ}, HeapInv m' first (l1 ++ c :: l) last → m' (prev c) = q := by
    intro m' l h'
    have ht := h'.arrangement.tiled
    rw [List.append_assoc, ← List.cons_append, hs, List.append_assoc, List.singleton_append,
      List.cons_append] at ht
    exact ht.prev_eq
  unfold release
  rw [Nat.add_sub_cancel]
  simp only [ensures_bind, ensures_read]
  refine (absorb_ensures h hc.2 rfl).mono subset_rfl ?_
  rintro _ m1 ⟨l2', h1, hn1, htaken1, hnext1, hused1, hbooked1⟩
  have hc1 : Taken m1 (l1 ++ c :: l2') c := (htaken1 c).mpr hc
  have hS : (fun a => Taken m1 (l1 ++ c :: l2') a ∧ a ≠ c) = fun a => Taken m (l1 ++ c :: l2) a ∧ a ≠ c :=
    funext fun a => propext (and_congr_left' (htaken1 a))
  have hdetach := detach_ensures h1 hc1.2 ((hprev h1).trans (hprev h).symm) hn1
  rw [hS, outside_congr fun a ha => hnext1 a ha.1 ha.2] at hdetach
  refine hdetach.mono subset_rfl ?_
  rintro _ m2 ⟨chunks', h2, htaken2, hnext2, hbooked2⟩
  refine ⟨chunks', h2, fun a => ?_, fun a ha hac => ?_, fun k hk => ?_⟩
  · rw [htaken2, htaken1]
  · rw [hnext2 a ((htaken1 a).mpr ha) hac, hnext1 a ha hac]
  · have hq : m1 (used (m (prev c))) = m (used (m (prev c))) := by
      refine hused1 _ ?_
      rw [hprev h, hs]
      exact List.mem_append_right _ (List.mem_singleton_self q)
    have hbooked := hbooked2 _ (hbooked1 k hk)
    rw [hq, Nat.add_assoc] at hbooked
    exact hbooked

end UtkKernel.Heap
