import UtkKernel.Heap.Release

/-! # Taking a chunk

An allocation takes the first chunk of a slot whose chunks are all large enough, and cuts off what it
does not need of it when that is enough for a chunk. -/

namespace UtkKernel.Heap
open Foundations Code Cell
set_option autoImplicit false

variable {m m' : Store} {first last a c x w : ℕ} {i : ℕ} {n : ℤ} {l l1 l2 all chunks : List ℕ}
variable {S S' : ℕ → Prop} {W : Set Cell}

/-! ## Slots -/

theorem findSlot_ensures (fuel : ℕ) (n : ℤ) (hfuel : numSizes ≤ n + fuel) :
    Ensures ∅ (fun r m' => m' = m ∧ (∀ k, r = some k → n ≤ k ∧ k < numSizes ∧ m (.freeChunk k) ≠ 0) ∧
        (r = none → ∀ k, n ≤ k → k < numSizes → m (.freeChunk k) = 0)) (findSlot fuel n) m := by
  induction fuel generalizing n with
  | zero => exact ⟨rfl, fun k hk => (by cases hk), fun _ k hk hlt => by omega⟩
  | succ fuel ih =>
    unfold findSlot
    by_cases hn : n ≥ numSizes
    · rw [if_pos hn]
      exact ⟨rfl, fun k hk => (by cases hk), fun _ k hk hlt => by omega⟩
    · rw [if_neg hn, ensures_bind, ensures_read]
      by_cases hhead : m (.freeChunk n) = 0
      · rw [if_pos hhead]
        refine (ih (n + 1) (by omega)).mono subset_rfl ?_
        rintro r m' ⟨hm, hsome, hnone⟩
        refine ⟨hm, fun k hk => ?_, fun hr k hk hlt => ?_⟩
        · obtain ⟨h1, h2⟩ := hsome k hk
          exact ⟨by omega, h2⟩
        · rcases hk.lt_or_eq with hk | rfl
          · exact hnone hr k (by omega) hlt
          · exact hhead
      · rw [if_neg hhead]
        refine ⟨rfl, fun k hk => ?_, fun hr => (by cases hr)⟩
        cases hk
        exact ⟨le_rfl, lt_of_not_ge hn, hhead⟩

/-- The size that a request is rounded up to. -/
def roundedSize (request : ℕ) : ℕ :=
  if uint (request + align - 1) / align * align < minSize then minSize
  else uint (request + align - 1) / align * align

theorem le_roundedSize (request : ℕ) : minSize ≤ roundedSize request := by
  unfold roundedSize
  split_ifs with h
  · exact le_rfl
  · exact not_lt.mp h

theorem align_dvd_roundedSize (request : ℕ) : align ∣ roundedSize request := by
  unfold roundedSize
  split_ifs
  · decide
  · exact Nat.dvd_mul_left ..

/-- A request whose rounding up does not wrap is met. -/
theorem request_le_roundedSize {request : ℕ} (h : request + align - 1 < 2 ^ 32) :
    request ≤ roundedSize request := by
  unfold roundedSize uint align minSize at *
  rw [Nat.mod_eq_of_lt h]
  split_ifs <;> omega

/-- A chunk of a slot from the searched one on is large enough. -/
theorem roundedSize_le {request size : ℕ} (hpos : 0 < size)
    (h : memoryChunkSlot (roundedSize request - 1) + 1 ≤ memoryChunkSlot size) :
    roundedSize request ≤ size := by
  have hmin := le_roundedSize request
  unfold minSize at hmin
  rw [memoryChunkSlot_eq hpos, memoryChunkSlot_eq (by omega)] at h
  have hlog : Nat.log 2 (roundedSize request - 1) < Nat.log 2 size := by omega
  have hpow := Nat.lt_pow_of_log_lt (by decide) hlog
  have hle := Nat.pow_log_le_self 2 hpos.ne'
  omega

theorem Arranged.listPop (h : Arranged m all S) (h0 : 0 ≤ n) (hn : n < numSizes)
    (hne : m (.freeChunk n) ≠ 0) :
    Ensures (linkCells S)
      (fun r m' => (S r ∧ memoryChunkSlot (usable m r) = n) ∧
        Arranged m' all (fun a => S a ∧ a ≠ r) ∧ Single m' r ∧ SameChunks m m' all)
      (listPop n) m := by
  obtain ⟨free, hlisted⟩ := h.listed
  have hhead := (hlisted.slots n h0 hn).head
  obtain ⟨c, l, hfree⟩ : ∃ c l, free n = c :: l := by
    cases hl : free n with
    | nil =>
      rw [hl, List.headD_nil] at hhead
      exact absurd hhead hne
    | cons c l => exact ⟨c, l, rfl⟩
  have hc := (hlisted.mem n c).mp (hfree ▸ List.mem_cons_self ..)
  have hS : ∀ a, S a → a ∈ all := fun a ha => h.mem ha
  refine (listPop_listed h.tiled.spaced hlisted hS hfree h0 hn).frame.mono subset_rfl ?_
  rintro r m' ⟨⟨rfl, hsingle, hlisted'⟩, hsame⟩
  have hsame' : ∀ x, x ∉ insert .memFree (linkCells S) → m' x = m x :=
    fun x hx => hsame x fun hl => hx (Set.mem_insert_of_mem _ hl)
  have hchunks := sameChunks_of_links h.tiled.spaced hS hsame'
  refine ⟨hc, ⟨tiled_of_links h.tiled hS hsame', hlisted', fun a ha => ⟨hS a ha.1, ?_⟩⟩, hsingle, hchunks⟩
  exact hchunks.inside (hS a ha.1) (h.inside a ha.1).2

theorem Arranged.listPush (h : Arranged m all S) (hc : ¬ S c) (hcall : c ∈ all) (hin : Inside m c)
    (hsingle : Single m c) :
    Ensures (linkCells fun a => S a ∨ a = c)
      (fun _ m' => Arranged m' all (fun a => S a ∨ a = c) ∧ SameChunks m m' all)
      (listPush (memoryChunkSlot (usable m c)) c) m := by
  obtain ⟨free, hlisted⟩ := h.listed
  have hS : ∀ a, S a ∨ a = c → a ∈ all ∧ Inside m a := by
    rintro a (ha | rfl)
    · exact h.inside a ha
    · exact ⟨hcall, hin⟩
  refine (listPush_listed h.tiled.spaced hlisted (fun a ha => h.mem ha) hc hcall hin
    (fun a ha => h.tiled.ne_zero ha) hsingle).frame.mono subset_rfl ?_
  rintro _ m' ⟨hlisted', hsame⟩
  have hsame' : ∀ x, x ∉ insert .memFree (linkCells fun a => S a ∨ a = c) → m' x = m x :=
    fun x hx => hsame x fun hl => hx (Set.mem_insert_of_mem _ hl)
  have hchunks := sameChunks_of_links h.tiled.spaced (fun a ha => (hS a ha).1) hsame'
  refine ⟨⟨tiled_of_links h.tiled (fun a ha => (hS a ha).1) hsame', hlisted', fun a ha => ?_⟩, hchunks⟩
  exact ⟨(hS a ha).1, hchunks.inside (hS a ha).1 (hS a ha).2⟩

/-- A chunk joins the ring behind one that is in no list and shrinks. -/
theorem Arranged.insertAfter (h : Arranged m (l1 ++ a :: l2) S) (ha : ¬ S a) (hx : Linked m x x)
    (hspaced : (l1 ++ a :: x :: l2).Pairwise Before) (haligned : align ∣ x) (hbound : x < 2 ^ 32) :
    Ensures (nodeCells (l1 ++ a :: x :: l2))
      (fun _ m' => Arranged m' (l1 ++ a :: x :: l2) S ∧
        (∀ u ∈ l1 ++ a :: x :: l2, Single m u → Single m' u) ∧
        (∀ u ∈ l1 ++ a :: l2, u ≠ a → m' (next u) = m (next u)) ∧
        ∀ u ∈ l1 ++ a :: x :: l2, m' (used u) = m (used u)) (insertAfter a x) m := by
  refine (h.tiled.insert hx hspaced haligned hbound).frame.mono subset_rfl ?_
  rintro _ m' ⟨⟨htiled, hnext⟩, hsame⟩
  have hsub : l1 ++ a :: l2 ⊆ l1 ++ a :: x :: l2 := fun u hu => mem_middle.mpr (.inr hu)
  have hnextS : ∀ u, S u → m' (next u) = m (next u) :=
    fun u hu => hnext u (h.mem hu) fun he => ha (he ▸ hu)
  refine ⟨⟨htiled, h.listed_of_nodes hsame hspaced hsub hnextS, fun u hu => ⟨hsub (h.mem hu), ?_⟩⟩,
    fun u hu hs => single_of_nodes hs hspaced hu hsame, hnext,
    fun u hu => hsame _ (used_notMem_nodeCells hspaced hu)⟩
  unfold Inside
  rw [hnextS u hu]
  exact (h.inside u hu).2

/-! ## New chunks -/

/-- The fields of a chunk and its free node. -/
def chunkCells (c : ℕ) : Set Cell := {x | ∃ i, i + 4 ≤ chunkSize ∧ x = .word (c + i)}

theorem word_mem_chunkCells (hi : i + 4 ≤ chunkSize) : Cell.word (c + i) ∈ chunkCells c := ⟨i, hi, rfl⟩

theorem chunkCells_disjoint (h : all.Pairwise Before) (hc : c ∈ all) (ha : a ∈ all) (hne : a ≠ c)
    (hi : i < chunkSize) : Cell.word (a + i) ∉ chunkCells c := by
  rintro ⟨j, hj, he⟩
  have hj' : j < chunkSize := by omega
  exact hne (eq_of_add_eq h ha hc hi hj' (Cell.word.inj he)).1

theorem memoryChunkInit_ensures :
    Ensures (chunkCells c)
      (fun _ m' => Linked m' c c ∧ m' (used c) = 0 ∧ Single m' c) (memoryChunkInit c) m := by
  have hself : ∀ p : ℕ, p ≠ p + 4 := fun p => by omega
  have h0 : next c ∈ chunkCells c := word_mem_chunkCells (i := 0) (by decide)
  have h4 : prev c ∈ chunkCells c := word_mem_chunkCells (i := 4) (by decide)
  have h8 : used c ∈ chunkCells c := word_mem_chunkCells (i := 8) (by decide)
  have h12 : next (freeNode c) ∈ chunkCells c := word_mem_chunkCells (i := 12) (by decide)
  have h16 : prev (freeNode c) ∈ chunkCells c := word_mem_chunkCells (i := 16) (by decide)
  have hword : ∀ i j : ℕ, i ≠ j → Cell.word (c + i) ≠ Cell.word (c + j) :=
    fun i j hij he => hij (Nat.add_left_cancel (Cell.word.inj he))
  unfold memoryChunkInit
  rw [ensures_bind]
  refine (listInit_ensures h0 h4).mono subset_rfl ?_
  rintro _ m1 rfl
  rw [ensures_bind, ensures_write]
  refine ⟨h8, (listInit_ensures h12 h16).mono subset_rfl ?_⟩
  rintro _ m2 rfl
  have hlinked : Linked (link m c c) c c := linked_link (hself c)
  have hkept : ∀ i : ℕ, i ≠ 8 → i ≠ 12 → i ≠ 16 →
      link (Function.update (link m c c) (used c) 0) (freeNode c) (freeNode c) (.word (c + i)) =
        link m c c (.word (c + i)) := fun i h8 h12 h16 =>
    (link_of_ne (hword i 12 h12) (hword i 16 h16)).trans (Function.update_of_ne (hword i 8 h8) ..)
  refine ⟨linked_congr hlinked (hkept 0 (by decide) (by decide) (by decide))
    (hkept 4 (by decide) (by decide) (by decide)), ?_, linked_link (hself (freeNode c))⟩
  exact (link_of_ne (hword 8 12 (by decide)) (hword 8 16 (by decide))).trans (Function.update_self ..)

/-- The words of one chunk are not in the data of another. -/
theorem Tiled.word_notMem_dataCells (h : Tiled m all) (ha : a ∈ all) (hc : c ∈ all) (hne : a ≠ c)
    (hlow : c ≤ w) (hhigh : w + 4 ≤ m (next c)) : Cell.word w ∉ dataCells m a := by
  rintro ⟨v, he, hv1, hv2⟩
  obtain rfl : w = v := Cell.word.inj he
  rcases lt_or_gt_of_ne hne with hlt | hgt
  · have hle := h.next_le ha hc hlt
    omega
  · have hle := h.next_le hc ha hgt
    omega

/-- There is room for a chunk between two. -/
theorem spaced_insert {e : ℕ} (h : (l1 ++ c :: e :: l2).Pairwise Before) (hcx : Before c x)
    (hxe : Before x e) : (l1 ++ c :: x :: e :: l2).Pairwise Before := by
  obtain ⟨hpair1, hpair2, hcross⟩ := List.pairwise_append.mp h
  obtain ⟨hce, hpair3⟩ := List.pairwise_cons.mp hpair2
  have hbehind : ∀ u ∈ e :: l2, Before x u := by
    intro u hu
    rcases List.mem_cons.mp hu with rfl | hu
    · exact hxe
    · have heu := (List.pairwise_cons.mp hpair3).1 u hu
      unfold Before at *
      omega
  refine List.pairwise_append.mpr ⟨hpair1, List.pairwise_cons.mpr ⟨?_, List.pairwise_cons.mpr
    ⟨hbehind, hpair3⟩⟩, fun u hu v hv => ?_⟩
  · intro u hu
    rcases List.mem_cons.mp hu with rfl | hu
    · exact hcx
    · exact hce u hu
  · rcases List.mem_cons.mp hv with rfl | hv
    · exact hcross u hu v (List.mem_cons_self ..)
    · rcases List.mem_cons.mp hv with rfl | hv
      · have huc := hcross u hu c (List.mem_cons_self ..)
        unfold Before at *
        omega
      · exact hcross u hu v (List.mem_cons_of_mem _ hv)

/-- A chunk that is no part of the ring yet is written without harm to the others. -/
theorem Arranged.of_chunkCells {l : List ℕ} (h : Arranged m all S) (hl : l.Pairwise Before) (hx : x ∈ l)
    (hsub : ∀ a ∈ all, a ∈ l ∧ a ≠ x) (hsame : ∀ y, y ∉ chunkCells x → m' y = m y) :
    Arranged m' all S := by
  have hoff : ∀ a ∈ all, ∀ i < chunkSize, m' (.word (a + i)) = m (.word (a + i)) := fun a ha i hi =>
    hsame _ (chunkCells_disjoint hl hx (hsub a ha).1 (hsub a ha).2 hi)
  refine h.congr ?_ ?_
  · rintro y ⟨a, ha, rfl | rfl⟩
    · exact hoff a ha 0 (by decide)
    · exact hoff a ha 4 (by decide)
  · rintro y (⟨n, rfl⟩ | ⟨a, ha, rfl | rfl⟩)
    · refine hsame _ ?_
      rintro ⟨i, -, he⟩
      cases he
    · exact hoff a (h.mem ha) 12 (by decide)
    · exact hoff a (h.mem ha) 16 (by decide)

section
variable {e size : ℕ} {P : ℕ → Prop}

/-- What an allocation does not need of a chunk becomes a free chunk behind it. -/
theorem split_ensures (h : Arranged m (l1 ++ c :: e :: l2) S) (hc : ¬ S c) (hsingle : Single m c)
    (haligned : align ∣ size) (hmin : minSize ≤ size) (hroom : size + chunkSize ≤ usable m c)
    (hP : ∀ a, P a → a ∈ l1 ++ c :: e :: l2 ∧ a ≠ c ∧ ¬ S a) (hx : c + headerSize + size = x) :
    Ensures (Outside m P)
      (fun _ m' => Arranged m' (l1 ++ c :: x :: e :: l2) (fun a => S a ∨ a = x) ∧ m' (used x) = 0 ∧
        Single m' c ∧ m' (next c) = x ∧
        (∀ u ∈ l1 ++ c :: e :: l2, u ≠ c → m' (next u) = m (next u)) ∧
        (∀ u ∈ l1 ++ c :: e :: l2, m' (used u) = m (used u)) ∧
        m' .memFree = uint (m .memFree + usable m' x))
      (do
        memoryChunkInit x
        insertAfter c x
        let len ← memoryChunkSize x
        listPush (memoryChunkSlot len) x
        addTo .memMeta headerSize
        addTo .memFree len) m := by
  have hnext : m (next c) = e := h.tiled.next_eq
  have hxe : Before x e := by
    unfold usable at hroom
    rw [hnext] at hroom
    unfold Before headerSize chunkSize at *
    omega
  have hcx : Before c x := by
    unfold Before minSize headerSize chunkSize at *
    omega
  have hspaced := spaced_insert h.tiled.spaced hcx hxe
  have hxin : x ∈ l1 ++ c :: x :: e :: l2 := by simp
  have hcin : c ∈ l1 ++ c :: e :: l2 := by simp
  have hxnew : ∀ u ∈ l1 ++ c :: e :: l2, u ≠ x :=
    fun u hu => ne_of_mem_middle (nodup_of_apart (apart_of_spaced hspaced)) hu
  have hsub : ∀ u ∈ l1 ++ c :: e :: l2, u ∈ l1 ++ c :: x :: e :: l2 ∧ u ≠ x :=
    fun u hu => ⟨mem_middle.mpr (.inr hu), hxnew u hu⟩
  have hxS : ¬ S x := fun hS => hxnew x (h.mem hS) rfl
  -- the new chunk lies in the data of the chunk that is split
  have hoffX : ∀ i, i + 4 ≤ chunkSize → Cell.word (x + i) ∈ Outside m P := by
    intro i hi
    refine ⟨word_notMem_fixedCells _, fun a ha => ?_⟩
    obtain ⟨hain, hac, -⟩ := hP a ha
    refine h.tiled.word_notMem_dataCells hain hcin hac ?_ ?_
    · unfold Before at hcx
      omega
    · rw [hnext]
      unfold Before at hxe
      omega
  have hPin : ∀ a, P a → a ∈ l1 ++ c :: e :: l2 := fun a ha => (hP a ha).1
  have hchunk : chunkCells x ⊆ Outside m P := by
    rintro y ⟨i, hi, rfl⟩
    exact hoffX i hi
  rw [ensures_bind]
  refine memoryChunkInit_ensures.frame.mono hchunk ?_
  rintro _ m1 ⟨⟨hlinked1, hused1, hsingle1⟩, hframe1⟩
  have hoff1 : ∀ a ∈ l1 ++ c :: e :: l2, ∀ i < chunkSize, m1 (.word (a + i)) = m (.word (a + i)) :=
    fun a ha i hi => hframe1 _ (chunkCells_disjoint hspaced hxin (hsub a ha).1 (hsub a ha).2 hi)
  have harr1 := h.of_chunkCells hspaced hxin hsub hframe1
  have hsingleC : Single m1 c := linked_congr hsingle (hoff1 c hcin 12 (by decide))
    (hoff1 c hcin 16 (by decide))
  have hxal : align ∣ x := by
    rw [← hx]
    exact Nat.dvd_add (Nat.dvd_add (h.tiled.aligned c hcin) (by decide)) haligned
  have hxbound : x < 2 ^ 32 := by
    have he := (h.tiled.bounded e (by simp)).2
    unfold Before at hxe
    omega
  rw [ensures_bind]
  refine (harr1.insertAfter hc hlinked1 hspaced hxal hxbound).frame.mono ?_ ?_
  · rintro y ⟨u, hu, hy⟩
    rcases mem_middle.mp hu with rfl | hu
    · rcases hy with rfl | rfl
      · exact hoffX 0 (by decide)
      · exact hoffX 4 (by decide)
    · rcases hy with rfl | rfl
      · exact h.tiled.header_mem_outside (i := 0) hPin hu (by decide)
      · exact h.tiled.header_mem_outside (i := 4) hPin hu (by decide)
  rintro _ m2 ⟨⟨harr2, hsingle2, hnext2, hused2⟩, hframe2⟩
  have hlist : l1 ++ c :: x :: e :: l2 = (l1 ++ [c]) ++ x :: e :: l2 := by simp
  have hinX : Inside m2 x := by
    have ht := harr2.tiled
    rw [hlist] at ht
    exact ht.inside
  rw [ensures_bind, ensures_memoryChunkSize hinX, ensures_bind]
  refine (harr2.listPush hxS hxin hinX (hsingle2 x hxin hsingle1)).frame.mono ?_ ?_
  · rintro y (⟨n, rfl⟩ | ⟨a, ha | rfl, hy⟩)
    · exact freeChunk_mem_outside n
    · have hsub : linkCells S ⊆ _ :=
        h.tiled.linkCells_subset hPin fun b hb => ⟨h.mem hb, fun hPb => (hP b hPb).2.2 hb⟩
      exact hsub (.inr ⟨a, ha, hy⟩)
    · rcases hy with rfl | rfl
      · exact hoffX 12 (by decide)
      · exact hoffX 16 (by decide)
  rintro _ m3 ⟨⟨harr3, hchunks3⟩, hframe3⟩
  have hnotC : ¬ (S c ∨ c = x) := by
    rintro (hS | hcx)
    · exact hc hS
    · exact hxnew c hcin hcx
  have hS3 : ∀ a, S a ∨ a = x → a ∈ l1 ++ c :: x :: e :: l2 := fun a ha => harr3.mem ha
  obtain ⟨hfc1, hfc2⟩ := freeNode_notMem_linkCells hspaced hS3 (hsub c hcin).1 hnotC
  have hsingle3 : Single m3 c :=
    linked_congr (hsingle2 c (hsub c hcin).1 hsingleC) (hframe3 _ hfc1) (hframe3 _ hfc2)
  have hnextC : m3 (next c) = x := by
    rw [hchunks3.next c (hsub c hcin).1]
    exact harr2.tiled.next_eq
  rw [ensures_bind]
  refine (addTo_ensures (W := accounts) (.inr rfl)).frame.mono accounts_subset ?_
  rintro _ m4 ⟨⟨-, hmeta4⟩, hframe4⟩
  refine (addTo_ensures (W := accounts) (.inl rfl)).frame.mono accounts_subset ?_
  rintro _ m5 ⟨⟨hfree5, -⟩, hframe5⟩
  have hsame : ∀ y, y ∉ accounts → m5 y = m3 y := fun y hy => (hframe5 y hy).trans (hframe4 y hy)
  have hword : ∀ w, m5 (.word w) = m3 (.word w) := fun w => hsame _ (word_notMem_accounts w)
  refine ⟨harr3.accounts hsame, ?_, linked_congr hsingle3 (hword _) (hword _),
    (hword _).trans hnextC, fun u hu huc => ?_, fun u hu => ?_, ?_⟩
  · exact (hword _).trans ((hchunks3.used x hxin).trans ((hused2 x hxin).trans hused1))
  · exact (hword _).trans ((hchunks3.next u (hsub u hu).1).trans ((hnext2 u hu huc).trans
      (hoff1 u hu 0 (by decide))))
  · exact (hword _).trans ((hchunks3.used u (hsub u hu).1).trans ((hused2 u (hsub u hu).1).trans
      (hoff1 u hu 8 (by decide))))
  · have hnextX : m5 (next x) = m2 (next x) := (hword _).trans (hchunks3.next x hxin)
    have husable : usable m5 x = usable m2 x := by
      unfold usable
      rw [hnextX]
    have hfree1 : m1 .memFree = m .memFree := hframe1 _ (by rintro ⟨i, -, he⟩; cases he)
    rw [hfree5, husable, hmeta4 _ (by rintro ⟨⟩), hframe3 _ memFree_notMem_linkCells, hframe2 _ memFree_notMem_nodeCells,
      hfree1]

end

/-! ## Allocation -/

/-- A chunk in no list that is marked as taken completes a heap. -/
theorem heapInv_of_taken (harr : Arranged m (first :: ((l1 ++ c :: l2) ++ [last])) S)
    (hS : ∀ u, S u ↔ u ∈ l1 ++ c :: l2 ∧ u ≠ c ∧ m (used u) = 0) (hfirst : m (used first) ≠ 0)
    (hlast : m (used last) ≠ 0) (h1 : l1.IsChain fun a b => m (used a) ≠ 0 ∨ m (used b) ≠ 0)
    (h2 : l2.IsChain fun a b => m (used a) ≠ 0 ∨ m (used b) ≠ 0)
    (hhead : (l1 ++ c :: l2).head? = some (first + chunkSize)) (hc : m' (used c) ≠ 0)
    (hsame : ∀ y, y ≠ used c → y ∉ accounts → m' y = m y) : HeapInv m' first (l1 ++ c :: l2) last := by
  have hspaced := harr.tiled.spaced
  have hcin : c ∈ first :: ((l1 ++ c :: l2) ++ [last]) := mem_all (by simp)
  have hused : ∀ u, u ≠ c → m' (used u) = m (used u) :=
    fun u hu => hsame _ (used_ne_used hu) (word_notMem_accounts _)
  have hnodup := nodup_of_apart (apart_of_spaced hspaced)
  obtain ⟨hnot, hrest⟩ := List.nodup_cons.mp hnodup
  obtain ⟨hchunks, -, hcross⟩ := List.nodup_append.mp hrest
  obtain ⟨-, hnodup2, hcross'⟩ := List.nodup_append.mp hchunks
  have hl1 : ∀ u ∈ l1, u ≠ c := fun u hu => hcross' u hu c (List.mem_cons_self ..)
  have hl2 : ∀ u ∈ l2, u ≠ c := fun u hu he => (List.nodup_cons.mp hnodup2).1 (he ▸ hu)
  have hfirstc : first ≠ c := fun he => hnot (he ▸ List.mem_append_left _ (by simp))
  have hlastc : last ≠ c := fun he => hcross c (by simp) last (List.mem_singleton_self _) he.symm
  have harr' : Arranged m' (first :: ((l1 ++ c :: l2) ++ [last])) S := by
    refine harr.congr (fun y hy => hsame y ?_ (nodeCells_notMem_accounts hy))
      fun y hy => hsame y ?_ (linkCells_notMem_accounts hy)
    · rintro rfl
      exact used_notMem_nodeCells hspaced hcin hy
    · rintro rfl
      exact used_notMem_linkCells hspaced (fun a ha => harr.mem ha) hcin hy
  refine ⟨harr'.of_iff fun u => ?_, ?_, ?_, List.isChain_append.mpr
    ⟨coalesced_congr h1 fun u hu => hused u (hl1 u hu), List.isChain_cons.mpr ⟨fun _ _ => .inl hc,
      coalesced_congr h2 fun u hu => hused u (hl2 u hu)⟩, ?_⟩, hhead⟩
  · rw [hS]
    constructor
    · rintro ⟨hu, hzero⟩
      have huc : u ≠ c := fun he => hc (he ▸ hzero)
      rw [hused u huc] at hzero
      exact ⟨hu, huc, hzero⟩
    · rintro ⟨hu, huc, hzero⟩
      refine ⟨hu, ?_⟩
      rw [hused u huc]
      exact hzero
  · rw [hused first hfirstc]
    exact hfirst
  · rw [hused last hlastc]
    exact hlast
  · rintro u - v hv
    cases hv
    exact .inr hc

theorem mark_ensures {k : ℕ} (hc : used c ∈ Outside m S) :
    Ensures (Outside m S)
      (fun r m' => r = c ∧ m' (used c) ≠ 0 ∧ (∀ y, y ≠ used c → y ∉ accounts → m' y = m y) ∧
        m' .memFree = uintSub (m .memFree) k)
      (do
        write (used c) 1
        subFrom .memFree k
        pure c) m := by
  rw [ensures_bind, ensures_write]
  refine ⟨hc, ?_⟩
  rw [ensures_bind]
  refine (subFrom_ensures (W := accounts) (.inl rfl)).frame.mono accounts_subset ?_
  rintro _ m1 ⟨⟨hfree, -⟩, hframe⟩
  have hmarked : m1 (used c) = 1 := (hframe _ (word_notMem_accounts _)).trans (Function.update_self ..)
  refine ⟨rfl, ?_, fun y hy hacc => ?_, ?_⟩
  · rw [hmarked]
    exact Nat.one_ne_zero
  · rw [hframe y hacc, Function.update_of_ne hy]
  · rw [hfree, Function.update_of_ne (by rintro ⟨⟩)]

/-- A chunk that was not taken is, and the data of those that were stays. -/
structure Allocated (m m' : Store) (first : ℕ) (chunks chunks' : List ℕ) (last size c : ℕ) : Prop where
  inv : HeapInv m' first chunks' last
  taken : ∀ a, Taken m' chunks' a ↔ Taken m chunks a ∨ a = c
  next : ∀ a, Taken m chunks a → m' (next a) = m (next a)
  room : size ≤ usable m' c
  data : m' (data c) = c + headerSize
  books : ∀ k, Booked m chunks k → Booked m' chunks' k

section
variable {m2 : Store} {size : ℕ} {chunks' : List ℕ}

/-- The chunk is marked in a store in which it is out of the free lists. -/
theorem allocated_of_marked (hinv : HeapInv m' first chunks' last)
    (htaken : ∀ a, a ∈ chunks' ∧ m2 (used a) ≠ 0 ↔ Taken m chunks a)
    (hnext : ∀ a, Taken m chunks a → m2 (next a) = m (next a)) (hc : c ∈ chunks')
    (hroom : c + headerSize + size ≤ m2 (next c)) (hsingle : Single m2 c) (hmarked : m' (used c) ≠ 0)
    (hsame : ∀ y, y ≠ used c → y ∉ accounts → m' y = m2 y) (hbooks : ∀ k, Booked m chunks k → Booked m' chunks' k) :
    Allocated m m' first chunks chunks' last size c := by
  have hword : ∀ w, w ≠ c + 8 → m' (.word w) = m2 (.word w) := fun w hw =>
    hsame _ (fun he => hw (Cell.word.inj he)) (word_notMem_accounts w)
  have hnext' : ∀ a ∈ chunks', m' (Cell.next a) = m2 (Cell.next a) := fun a ha => by
    refine hsame _ (fun he => ?_) (word_notMem_accounts _)
    exact used_notMem_nodeCells hinv.arrangement.tiled.spaced (mem_all hc) (he ▸ next_mem_nodeCells (mem_all ha))
  refine ⟨hinv, fun a => ?_, fun a ha => ?_, ?_, ?_, hbooks⟩
  · by_cases hac : a = c
    · rw [hac]
      exact iff_of_true ⟨hc, hmarked⟩ (.inr rfl)
    · have hu : m' (used a) = m2 (used a) := hsame _ (used_ne_used hac) (word_notMem_accounts _)
      rw [or_iff_left hac, ← htaken]
      unfold Taken
      rw [hu]
  · rw [hnext' a ((htaken a).mpr ha).1, hnext a ha]
  · unfold usable
    rw [hnext' c hc]
    omega
  · exact (hword (c + 12) (by omega)).trans hsingle.1

end

/-- The chunk that is returned was free, is large enough, and holds the address of its data; there is none only if the
slots of the chunks that are large enough whatever their size are empty. -/
theorem allocate_ensures (h : HeapInv m first chunks last) (request : ℕ) :
    Ensures (Outside m (Taken m chunks))
      (fun r m' => (r = 0 ∧ m' = m ∧
          ∀ k, memoryChunkSlot (roundedSize request - 1) + 1 ≤ k → k < numSizes → m (.freeChunk k) = 0) ∨
        (IsFree m chunks r ∧ ∃ chunks', Allocated m m' first chunks chunks' last (roundedSize request) r))
      (allocate request) m := by
  have hsize : (if uint (request + align - 1) / align * align < minSize then minSize
      else uint (request + align - 1) / align * align) = roundedSize request := rfl
  have hmin := le_roundedSize request
  have hslot0 : 0 ≤ memoryChunkSlot (roundedSize request - 1) + 1 := by
    rw [memoryChunkSlot_eq (by unfold minSize at hmin; omega)]
    omega
  unfold allocate
  simp only [hsize]
  rw [ensures_bind]
  have hslots : numSizes ≤ memoryChunkSlot (roundedSize request - 1) + 1 + (32 : ℕ) := by
    change (32 : ℤ) ≤ _
    omega
  refine (findSlot_ensures _ _ hslots).mono (Set.empty_subset _) ?_
  rintro slot m' ⟨rfl, hslot, hnone⟩
  cases slot with
  | none => exact .inl ⟨rfl, rfl, hnone rfl⟩
  | some n =>
    obtain ⟨hn, hn32, hhead⟩ := hslot n rfl
    have h0 : 0 ≤ n := hslot0.trans hn
    have hlinks : linkCells (IsFree m' chunks) ⊆ Outside m' (Taken m' chunks) :=
      (Set.subset_insert _ _).trans (h.linkCells_subset (fun _ ha => ha) fun a ha =>
        ⟨ha.1, fun ht => ht.2 ha.2⟩)
    dsimp only
    rw [ensures_bind]
    refine (h.arrangement.listPop h0 hn32 hhead).frame.mono hlinks ?_
    rintro c m1 ⟨⟨⟨hfree, hslotc⟩, harr1, hsingle1, hchunks1⟩, hframe1⟩
    obtain ⟨l1, l2, rfl⟩ := List.append_of_mem hfree.1
    have hin := h.inside hfree.1
    have hin1 := hchunks1.inside (mem_all hfree.1) hin
    have husable : usable m1 c = usable m' c := by
      unfold usable
      rw [hchunks1.next c (mem_all hfree.1)]
    have hlarge : roundedSize request ≤ usable m' c :=
      roundedSize_le (lt_of_lt_of_le (by decide) hin.le_usable) (hslotc.symm ▸ hn)
    have hnot : ¬ Taken m' (l1 ++ c :: l2) c := fun ht => ht.2 hfree.2
    have hTaken1 : ∀ a, Taken m' (l1 ++ c :: l2) a → m1 (next a) = m' (next a) :=
      fun a ha => hchunks1.next a (mem_all ha.1)
    have houtside := outside_congr hTaken1
    rw [ensures_bind, ensures_memoryChunkSize hin1, husable, ensures_bind]
    have hchain := coalesced_congr h.coalesced fun u hu => hchunks1.used u (mem_all hu)
    obtain ⟨hl1, hl2, -⟩ := List.isChain_append.mp hchain
    have husedc : used c ∈ Outside m' (Taken m' (l1 ++ c :: l2)) :=
      h.arrangement.tiled.header_mem_outside (i := 8) (fun a ha => mem_all ha.1) (mem_all hfree.1)
        (by decide)
    have hused1 : ∀ u ∈ first :: ((l1 ++ c :: l2) ++ [last]), m1 (used u) = m' (used u) :=
      fun u hu => hchunks1.used u hu
    have hfree1 : m1 .memFree = m' .memFree := hframe1 _ memFree_notMem_linkCells
    have husablelt := hin.usable_lt
    have hmark : ∀ {m2 : Store}, (∀ a, Taken m' (l1 ++ c :: l2) a → m2 (next a) = m' (next a)) →
        Ensures (Outside m' (Taken m' (l1 ++ c :: l2)))
          (fun r m3 => r = c ∧ m3 (used c) ≠ 0 ∧ (∀ y, y ≠ used c → y ∉ accounts → m3 y = m2 y) ∧
            m3 .memFree = uintSub (m2 .memFree) (usable m' c))
          (do
            write (used c) 1
            subFrom .memFree (usable m' c)
            pure c) m2 := by
      intro m2 hm2
      rw [← outside_congr hm2] at husedc ⊢
      exact mark_ensures husedc
    -- the other chunks are free as they were, and end where they ended
    have hsum : ∀ {m2 m3 : Store} {l : List ℕ}, (∀ a ∈ l, a ≠ c ∧ a ∈ l1 ++ c :: l2) →
        (∀ y, y ≠ used c → y ∉ accounts → m3 y = m2 y) →
        (∀ u ∈ first :: ((l1 ++ c :: l2) ++ [last]), m2 (used u) = m' (used u)) →
        (∀ a ∈ l1 ++ c :: l2, a ≠ c → m2 (next a) = m' (next a)) → freeSum m3 l = freeSum m' l := by
      intro m2 m3 l hl hsame hused hnext
      refine freeSum_congr (fun a ha => ?_) fun a ha _ => ?_
      · rw [hsame _ (used_ne_used (hl a ha).1) (word_notMem_accounts _), hused a (mem_all (hl a ha).2)]
      · refine (hsame (next a) (fun he => ?_) (word_notMem_accounts _)).trans (hnext a (hl a ha).2 (hl a ha).1)
        exact used_notMem_nodeCells h.arrangement.tiled.spaced (mem_all hfree.1)
          (he ▸ next_mem_nodeCells (mem_all (hl a ha).2))
    have hnodup := List.nodup_append.mp h.chunks_nodup
    have hmem1 : ∀ a ∈ l1, a ≠ c ∧ a ∈ l1 ++ c :: l2 := fun a ha =>
      ⟨hnodup.2.2 a ha c List.mem_cons_self, by simp [ha]⟩
    have hmem2 : ∀ a ∈ l2, a ≠ c ∧ a ∈ l1 ++ c :: l2 := by
      refine fun a ha => ⟨?_, by simp [ha]⟩
      rintro rfl
      exact (List.nodup_cons.mp hnodup.2.1).1 ha
    by_cases hroom : uint (roundedSize request + chunkSize) ≤ usable m' c
    · rw [if_pos hroom]
      obtain ⟨e, rest, hrest⟩ : ∃ e rest, l2 ++ [last] = e :: rest := by
        cases l2 with
        | nil => exact ⟨last, [], rfl⟩
        | cons e l2 => exact ⟨e, l2 ++ [last], rfl⟩
      have hall : first :: ((l1 ++ c :: l2) ++ [last]) = (first :: l1) ++ c :: e :: rest := by
        rw [List.append_assoc, List.cons_append, hrest, List.cons_append]
      have hroom' : roundedSize request + chunkSize ≤ usable m1 c := by
        have hbefore : Before first c :=
          (List.pairwise_cons.mp h.arrangement.tiled.spaced).1 c (List.mem_append_left _ hfree.1)
        have hend := hin.2
        rw [husable]
        unfold usable at *
        unfold Before at hbefore
        unfold headerSize chunkSize uint at *
        rw [Nat.mod_eq_of_lt (by omega)] at hroom
        exact hroom
      rw [hall] at harr1
      have hsplit := split_ensures (P := Taken m' (l1 ++ c :: l2)) harr1 (fun hS => hS.2 rfl) hsingle1
        (align_dvd_roundedSize request) hmin hroom'
        (fun a ha => ⟨hall ▸ mem_all ha.1, fun he => hnot (he ▸ ha), fun hS => ha.2 hS.1.2⟩) rfl
      rw [houtside] at hsplit
      refine hsplit.mono subset_rfl ?_
      rintro _ m2 ⟨harr2, husedx, hsingle2, hnextc, hnext2, hused2, hfree2⟩
      have hends : ∀ a ∈ l1 ++ c :: l2, a ≠ c → m2 (next a) = m' (next a) := fun a ha hac =>
        (hnext2 a (hall ▸ mem_all ha) hac).trans (hchunks1.next a (mem_all ha))
      have hnextT : ∀ a, Taken m' (l1 ++ c :: l2) a → m2 (next a) = m' (next a) := fun a ha =>
        hends a ha.1 fun he => hnot (he ▸ ha)
      have husedT : ∀ u ∈ first :: ((l1 ++ c :: l2) ++ [last]), m2 (used u) = m' (used u) :=
        fun u hu => (hused2 u (hall ▸ hu)).trans (hused1 u hu)
      refine (hmark hnextT).mono subset_rfl ?_
      rintro r m3 ⟨hr, hmarked, hsame, hfree3⟩
      rw [hr]
      generalize hx : c + headerSize + roundedSize request = x at *
      have hall2 : (first :: l1) ++ c :: x :: e :: rest =
          first :: ((l1 ++ c :: x :: l2) ++ [last]) := by
        rw [← hrest]
        simp
      rw [hall2] at harr2
      have hnodup2 : (l1 ++ c :: x :: l2).Nodup := by
        have hnd := nodup_of_apart (apart_of_spaced harr2.tiled.spaced)
        exact (List.nodup_append.mp (List.nodup_cons.mp hnd).2).1
      have hxne : ∀ u ∈ l1 ++ c :: l2, u ≠ x := fun u hu => ne_of_mem_middle hnodup2 hu
      have hhead2 : (l1 ++ c :: x :: l2).head? = some (first + chunkSize) := by
        rw [← h.head]
        cases l1 <;> rfl
      have hinv : HeapInv m3 first (l1 ++ c :: x :: l2) last := by
        refine heapInv_of_taken harr2 (fun u => ?_) ?_ ?_ ?_ ?_ hhead2 hmarked hsame
        · rw [mem_middle]
          constructor
          · rintro (⟨hu, huc⟩ | rfl)
            · refine ⟨.inr hu.1, huc, ?_⟩
              rw [husedT u (mem_all hu.1)]
              exact hu.2
            · exact ⟨.inl rfl, (hxne c hfree.1).symm, husedx⟩
          · rintro ⟨rfl | hu, huc, hzero⟩
            · exact .inr rfl
            · rw [husedT u (mem_all hu)] at hzero
              exact .inl ⟨⟨hu, hzero⟩, huc⟩
        · rw [husedT first (List.mem_cons_self ..)]
          exact h.usedFirst
        · rw [husedT last (by simp)]
          exact h.usedLast
        · exact coalesced_congr hl1 fun u hu => hused2 u (hall ▸ mem_all (by simp [hu]))
        · refine List.isChain_cons.mpr ⟨fun v hv => .inr ?_,
            coalesced_congr hl2.tail fun u hu => hused2 u (hall ▸ mem_all (by simp_all))⟩
          have hv2 : v ∈ l2 := List.mem_of_head? hv
          rw [husedT v (mem_all (by simp [hv2]))]
          cases l2 with
          | nil => cases hv
          | cons v' l2 =>
            cases hv
            exact h.nextUsed hfree.2 v (l2 ++ [last]) rfl
      refine .inr ⟨hfree, _, allocated_of_marked hinv (fun a => ?_) hnextT (by simp) (by rw [hnextc, hx]) hsingle2 hmarked
        hsame fun k hk => ?_⟩
      · unfold Taken
        rw [mem_middle]
        constructor
        · rintro ⟨rfl | ha, hne⟩
          · exact absurd husedx hne
          · rw [husedT a (mem_all ha)] at hne
            exact ⟨ha, hne⟩
        · rintro ⟨ha, hne⟩
          rw [husedT a (mem_all ha)]
          exact ⟨.inr ha, hne⟩
      · have hxc : x ≠ c := (hxne c hfree.1).symm
        have hfreex : m3 (used x) = 0 := (hsame _ (used_ne_used hxc) (word_notMem_accounts _)).trans husedx
        have hnextx : m3 (next x) = m2 (next x) := by
          refine hsame _ (fun he => ?_) (word_notMem_accounts _)
          exact used_notMem_nodeCells harr2.tiled.spaced (a := c) (by simp)
            (he ▸ next_mem_nodeCells (p := x) (l := first :: ((l1 ++ c :: x :: l2) ++ [last])) (by simp))
        have husablex : usable m3 x = usable m2 x := by
          unfold usable
          rw [hnextx]
        unfold Booked at hk ⊢
        rw [freeSum_append, freeSum_of_free hfree.2] at hk
        rw [freeSum_append, freeSum_of_used hmarked, freeSum_of_free hfreex, hsum hmem1 hsame husedT hends,
          hsum hmem2 hsame husedT hends, husablex, hfree3, hfree2, hfree1, hk]
        unfold uintSub uint
        omega
    · rw [if_neg hroom, ensures_pure]
      refine (hmark hTaken1).mono subset_rfl ?_
      rintro r m3 ⟨hr, hmarked, hsame, hfree3⟩
      rw [hr]
      have hinv : HeapInv m3 first (l1 ++ c :: l2) last := by
        refine heapInv_of_taken harr1 (fun u => ?_) ?_ ?_ hl1 hl2.tail h.head hmarked hsame
        · constructor
          · rintro ⟨hu, huc⟩
            refine ⟨hu.1, huc, ?_⟩
            rw [hused1 u (mem_all hu.1)]
            exact hu.2
          · rintro ⟨hu, huc, hzero⟩
            rw [hused1 u (mem_all hu)] at hzero
            exact ⟨⟨hu, hzero⟩, huc⟩
        · rw [hused1 first (List.mem_cons_self ..)]
          exact h.usedFirst
        · rw [hused1 last (by simp)]
          exact h.usedLast
      refine .inr ⟨hfree, _, allocated_of_marked hinv (fun a => ?_) hTaken1 hfree.1 ?_ hsingle1 hmarked hsame
        fun k hk => ?_⟩
      · unfold Taken
        exact and_congr_right fun ha => by rw [hused1 a (mem_all ha)]
      · rw [hchunks1.next c (mem_all hfree.1)]
        have hin' := hin.1
        unfold usable at hlarge
        unfold chunkSize at hin'
        unfold headerSize at *
        omega
      · have hends : ∀ a ∈ l1 ++ c :: l2, a ≠ c → m1 (next a) = m' (next a) := fun a ha _ =>
          hchunks1.next a (mem_all ha)
        unfold Booked at hk ⊢
        rw [freeSum_append, freeSum_of_free hfree.2] at hk
        rw [freeSum_append, freeSum_of_used hmarked, hsum hmem1 hsame hused1 hends, hsum hmem2 hsame hused1 hends, hfree3,
          hfree1, hk]
        unfold uintSub uint
        omega

end UtkKernel.Heap
