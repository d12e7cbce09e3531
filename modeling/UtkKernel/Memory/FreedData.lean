import UtkKernel.Memory.TempPages

/-! # Freeing pages of another process

What the loop of `memory_free_process_data` does to a state in which nothing is mapped for it. -/

namespace UtkKernel.Memory
open Structures Foundations
set_option autoImplicit false

namespace MemState

variable {s0 s s' : MemState} {pid dir p q f g i : ℕ} {F R W : Finset ℕ}

/-! ## Pages of a process -/

/-- The first page that is the same in every process. -/
def kernelPage : ℕ := kernelFirstPgdirEntry * kernelPgdirSize

theorem kernelPage_eq : kernelPage = 917504 := rfl

theorem pgdirEntry_of_user (h : q < kernelPage) : pgdirEntry q < kernelFirstPgdirEntry := by
  rw [kernelPage_eq] at h
  unfold pgdirEntry
  rw [show kernelPgdirSize = 1024 from rfl, show kernelFirstPgdirEntry = 896 from rfl]
  omega

theorem lt_windowPage_of_user (h : q < kernelPage) : q < windowPage := by
  rw [kernelPage_eq] at h
  rw [windowPage_eq]
  omega

/-- The frame of the page table of a page, and the word of the page in it. -/
def tableAt (s : MemState) (dir page : ℕ) : ℕ := (s.mem dir (pgdirEntry page)).frame

def pageWord (s : MemState) (dir page : ℕ) : Word := s.mem (s.tableAt dir page) (pgtableEntry page)

theorem present_of_entry (h : s.entry dir q ≠ none) :
    (s.mem dir (pgdirEntry q)).present = true ∧ (s.pageWord dir q).present = true := by
  unfold entry at h
  split_ifs at h with hdir hpage
  · exact ⟨hdir, hpage⟩
  · exact absurd rfl h
  · exact absurd rfl h

/-- The page directory and the page tables of a process that is not the current one lie in frames of their
own. -/
structure OwnSpace (s : MemState) (dir : ℕ) : Prop where
  elsewhere : s.Elsewhere dir
  table : ∀ i < kernelFirstPgdirEntry, (s.mem dir i).present = true →
    s.Elsewhere (s.mem dir i).frame ∧ (s.mem dir i).frame ≠ dir
  inj : ∀ i < kernelFirstPgdirEntry, ∀ j < kernelFirstPgdirEntry, (s.mem dir i).present = true →
    (s.mem dir j).present = true → (s.mem dir i).frame = (s.mem dir j).frame → i = j

/-- The pages are mapped in the process, each to a frame that has a reference for it. -/
structure Holds (s : MemState) (dir : ℕ) (R : Finset ℕ) : Prop where
  own : s.OwnSpace dir
  user : ∀ q ∈ R, q < kernelPage
  mapped : ∀ q ∈ R, s.entry dir q ≠ none
  frame : ∀ q ∈ R, s.Elsewhere (s.pageWord dir q).frame ∧ (s.pageWord dir q).frame ≠ dir ∧
    ∀ i < kernelFirstPgdirEntry, (s.mem dir i).present = true → (s.mem dir i).frame ≠ (s.pageWord dir q).frame
  counted : ∀ f r, s.frameRef f = some r → (mappers (s.pageWord dir) R f).card ≤ r.count

theorem Holds.table (h : s.Holds dir W) (hq : q ∈ W) : s.Elsewhere (s.tableAt dir q) ∧ s.tableAt dir q ≠ dir :=
  h.own.table _ (pgdirEntry_of_user (h.user q hq)) (present_of_entry (h.mapped q hq)).1

theorem Holds.pgdirEntry_eq (h : s.Holds dir W) (hq : q ∈ W) (hp : p ∈ W) (htable : s.tableAt dir q = s.tableAt dir p) :
    pgdirEntry q = pgdirEntry p :=
  h.own.inj _ (pgdirEntry_of_user (h.user q hq)) _ (pgdirEntry_of_user (h.user p hp))
    (present_of_entry (h.mapped q hq)).1 (present_of_entry (h.mapped p hp)).1 htable

theorem Holds.page_eq (h : s.Holds dir W) (hq : q ∈ W) (hp : p ∈ W) (htable : s.tableAt dir q = s.tableAt dir p)
    (hentry : pgtableEntry q = pgtableEntry p) : q = p :=
  page_ext (lt_windowPage_of_user (h.user q hq)) (lt_windowPage_of_user (h.user p hp))
    (h.pgdirEntry_eq hq hp htable) hentry

theorem Holds.frame_ne_table (h : s.Holds dir W) (hq : q ∈ W) (hp : p ∈ W) :
    s.tableAt dir p ≠ (s.pageWord dir q).frame :=
  (h.frame q hq).2.2 _ (pgdirEntry_of_user (h.user p hp)) (present_of_entry (h.mapped p hp)).1

/-! ## After some of them are freed -/

/-- The references of the frame were those of the pages. -/
def Spent (s : MemState) (dir : ℕ) (R : Finset ℕ) (f : ℕ) : Prop :=
  ∃ r, s.frameRef f = some r ∧ r.isHw = false ∧ 0 < r.count ∧ r.count = (mappers (s.pageWord dir) R f).card

/-- Of the pages of `W`, which the process has in `s0`, those of `R` have been freed; so have the page tables of
`F`. -/
structure FreedBy (s0 : MemState) (pid dir : ℕ) (W F R : Finset ℕ) (s : MemState) : Prop where
  holds : s0.Holds dir W
  sub : R ⊆ W
  tables : ∀ f ∈ F, ∃ q ∈ R, s0.tableAt dir q = f
  kernelPages : s.freeKernelPages = s0.freeKernelPages
  current : s.current = s0.current
  cr3 : s.cr3 = s0.cr3
  cleared : ∀ q ∈ R, s.mem (s0.tableAt dir q) (pgtableEntry q) = Word.zero
  kept : ∀ f j, (∀ q ∈ R, ¬(f = s0.tableAt dir q ∧ j = pgtableEntry q)) → s.mem f j = s0.mem f j
  refs : ∀ f, s.frameRef f = (s0.frameRef f).map fun r =>
    { r with count := r.count - (mappers (s0.pageWord dir) R f).card }
  whole : WholeFrames s.freeMemoryMap
  free : ∀ f, IsFree s.freeMemoryMap f ↔ IsFree s0.freeMemoryMap f ∨ f ∈ F ∨ s0.Spent dir R f
  pages : ∃ p list, s0.processes pid = some p ∧
    s.processes = Function.update s0.processes pid (some { p with freePageTable := list }) ∧
    Descending list ∧ ∀ x, IsFree list x ↔ IsFree p.freePageTable x ∨ x ∈ R

theorem FreedBy.start (h0 : InOrder s0) (hH : s0.Holds dir W) {k : Process} (hk : s0.processes pid = some k)
    (hd : Descending k.freePageTable) : FreedBy s0 pid dir W ∅ ∅ s0 := by
  have hnone : ∀ f, mappers (s0.pageWord dir) ∅ f = ∅ := fun f => Finset.filter_empty _
  refine ⟨hH, Finset.empty_subset W, by simp, rfl, rfl, rfl, by simp, fun _ _ _ => rfl, fun f => ?_, h0.whole,
    fun f => ?_, k, k.freePageTable, hk, ?_, hd, by simp⟩
  · rw [hnone]
    exact Option.map_id'.symm
  · refine ⟨.inl, ?_⟩
    rintro (hfree | hc | ⟨r, -, -, hpos, hcount⟩)
    · exact hfree
    · exact absurd hc (Finset.notMem_empty f)
    · rw [hnone, Finset.card_empty] at hcount
      omega
  · exact (Function.update_eq_self_iff.mpr hk.symm).symm

/-- The frames that were spent were those of the pages. -/
theorem Spent.exists_page (hf : s.Spent dir R f) : ∃ q ∈ R, (s.pageWord dir q).frame = f := by
  obtain ⟨r, -, -, hpos, hcount⟩ := hf
  obtain ⟨q, hq⟩ := Finset.card_pos.mp (hcount ▸ hpos)
  exact ⟨q, (Finset.mem_filter.mp hq).1, (Finset.mem_filter.mp hq).2⟩

theorem FreedBy.mem_eq (h : FreedBy s0 pid dir W F R s) (hf : ∀ q ∈ W, s0.tableAt dir q ≠ f) : s.mem f = s0.mem f := by
  funext j
  exact h.kept f j fun q hq hc => hf q (h.sub hq) hc.1.symm

theorem FreedBy.mem_dir (h : FreedBy s0 pid dir W F R s) : s.mem dir = s0.mem dir :=
  h.mem_eq fun _ hq => (h.holds.table hq).2

theorem FreedBy.dirEntry_eq (h : FreedBy s0 pid dir W F R s) (i : ℕ) : s.dirEntry i = s0.dirEntry i := by
  unfold dirEntry
  rw [h.cr3, h.mem_eq fun q hq => (h.holds.table hq).1.plain.1]

theorem FreedBy.plain_iff (h : FreedBy s0 pid dir W F R s) : s.Plain f ↔ s0.Plain f := plain_congr h.cr3 (h.dirEntry_eq)

theorem FreedBy.entry_eq (h : FreedBy s0 pid dir W F R s) (hq : q < windowPage) :
    s.entry s.cr3 q = s0.entry s0.cr3 q := by
  rw [MemState.entry_eq, MemState.entry_eq, h.dirEntry_eq]
  cases he : s0.dirEntry (pgdirEntry q) with
  | none => rfl
  | some e =>
    have hne : ∀ q' ∈ W, s0.tableAt dir q' ≠ e.frame := fun q' hq' hc =>
      (h.holds.table hq').1.plain.2 _ e (pgdirEntry_lt_of_lt hq) he hc.symm
    rw [Option.bind_some, Option.bind_some, h.mem_eq hne]

theorem FreedBy.spare (h : FreedBy s0 pid dir W F R s) (hp : Spare s0 p) : Spare s p := by
  refine ⟨hp.lt, ?_, fun hdir => ?_⟩
  · rw [h.entry_eq hp.lt, hp.unmapped]
  · rw [h.dirEntry_eq] at hdir
    obtain ⟨q, hq, hqp, hmapped⟩ := hp.full hdir
    refine ⟨q, hq, hqp, ?_⟩
    rwa [h.entry_eq hq]

theorem FreedBy.pageWord_eq (h : FreedBy s0 pid dir W F R s) (hq : q ∈ W) (hqR : q ∉ R) :
    s.pageWord dir q = s0.pageWord dir q := by
  unfold pageWord tableAt
  rw [h.mem_dir]
  refine h.kept _ _ fun p hp hc => hqR ?_
  rw [h.holds.page_eq hq (h.sub hp) hc.1 hc.2]
  exact hp

theorem FreedBy.free_elsewhere (h : FreedBy s0 pid dir W F R s) (hf : IsFree s.freeMemoryMap f) :
    IsFree s0.freeMemoryMap f ∨ s0.Elsewhere f := by
  obtain hfree | hmem | hspent := (h.free f).mp hf
  · exact .inl hfree
  · obtain ⟨q, hq, rfl⟩ := h.tables f hmem
    exact .inr (h.holds.table (h.sub hq)).1
  · obtain ⟨q, hq, rfl⟩ := hspent.exists_page
    exact .inr (h.holds.frame q (h.sub hq)).1

theorem FreedBy.inOrder (h : FreedBy s0 pid dir W F R s) (h0 : InOrder s0) : InOrder s := by
  have hdir := h.dirEntry_eq
  refine ⟨⟨fun i j e e' hi hj he he' => ?_, fun i e hi he => ?_, fun hfree => ?_, fun i e hi he hfree => ?_⟩,
    h.whole, fun f hf => ?_⟩
  · rw [hdir] at he he'
    exact h0.apart.inj i j e e' hi hj he he'
  · rw [hdir] at he
    rw [h.cr3]
    exact h0.apart.dir i e hi he
  · rw [h.cr3] at hfree
    obtain hfree | helse := h.free_elsewhere hfree
    · exact h0.apart.dirUsed hfree
    · exact helse.plain.1 rfl
  · rw [hdir] at he
    obtain hfree | helse := h.free_elsewhere hfree
    · exact h0.apart.tableUsed i e hi he hfree
    · exact helse.plain.2 i e hi he rfl
  · rw [h.refs, ne_eq, Option.map_eq_none_iff]
    obtain hfree | helse := h.free_elsewhere hf
    · exact h0.managed f hfree
    · exact helse.managed

/-- The page tables that are not freed yet, and the page directory, are in use. -/
theorem FreedBy.elsewhere (h : FreedBy s0 pid dir W F R s) (hf : s0.Elsewhere f) (hF : f ∉ F)
    (hframe : ∀ q ∈ R, (s0.pageWord dir q).frame ≠ f) : s.Elsewhere f := by
  refine ⟨fun hfree => ?_, h.plain_iff.mpr hf.plain, hf.bound, ?_⟩
  · obtain hfree | hmem | hspent := (h.free f).mp hfree
    · exact hf.used hfree
    · exact hF hmem
    · obtain ⟨q, hq, hqf⟩ := hspent.exists_page
      exact hframe q hq hqf
  · rw [h.refs, ne_eq, Option.map_eq_none_iff]
    exact hf.managed

theorem FreedBy.elsewhere_table (h : FreedBy s0 pid dir W F R s) (hq : q ∈ W) (hF : s0.tableAt dir q ∉ F) :
    s.Elsewhere (s0.tableAt dir q) :=
  h.elsewhere (h.holds.table hq).1 hF fun _ hp => (h.holds.frame_ne_table (h.sub hp) hq).symm

theorem FreedBy.elsewhere_dir (h : FreedBy s0 pid dir W F R s) : s.Elsewhere dir := by
  refine h.elsewhere h.holds.own.elsewhere (fun hc => ?_) fun q hq => (h.holds.frame q (h.sub hq)).2.1
  obtain ⟨q, hq, htable⟩ := h.tables dir hc
  exact (h.holds.table (h.sub hq)).2 htable

/-- A page table has the references it had. -/
theorem FreedBy.frameRef_table (h : FreedBy s0 pid dir W F R s) (hq : q ∈ W) :
    s.frameRef (s0.tableAt dir q) = s0.frameRef (s0.tableAt dir q) := by
  have hnone : mappers (s0.pageWord dir) R (s0.tableAt dir q) = ∅ :=
    Finset.filter_eq_empty_iff.mpr fun p hp => (h.holds.frame_ne_table (h.sub hp) hq).symm
  rw [h.refs]
  simp only [hnone, Finset.card_empty, Nat.sub_zero]
  exact Option.map_id'

/-! ## One more page -/

theorem card_mappers_insert {word : ℕ → Word} (hqR : q ∉ R) :
    (mappers word (insert q R) f).card = (mappers word R f).card + if (word q).frame = f then 1 else 0 := by
  unfold mappers
  rw [Finset.filter_insert]
  split_ifs
  · exact Finset.card_insert_of_notMem fun hc => hqR (Finset.mem_filter.mp hc).1
  · rfl

theorem mappers_subset {word : ℕ → Word} {R' : Finset ℕ} (hR : R ⊆ R') : mappers word R f ⊆ mappers word R' f :=
  Finset.filter_subset_filter _ hR

/-- The frame of a page that is left is in use and has a reference. -/
theorem FreedBy.frame (h : FreedBy s0 pid dir W F R s) (hq : q ∈ W) (hqR : q ∉ R) :
    s.Elsewhere (s0.pageWord dir q).frame ∧ ∃ r, s.frameRef (s0.pageWord dir q).frame = some r ∧ 0 < r.count := by
  obtain ⟨helse, -, -⟩ := h.holds.frame q hq
  obtain ⟨r, hr⟩ := Option.ne_none_iff_exists'.mp helse.managed
  have hcount : (mappers (s0.pageWord dir) R (s0.pageWord dir q).frame).card < r.count := by
    refine lt_of_lt_of_le ?_ (h.holds.counted _ r hr)
    have hsub : mappers (s0.pageWord dir) (insert q R) (s0.pageWord dir q).frame ⊆
        mappers (s0.pageWord dir) W (s0.pageWord dir q).frame :=
      mappers_subset (Finset.insert_subset hq h.sub)
    have hcard := Finset.card_le_card hsub
    rw [card_mappers_insert hqR, if_pos rfl] at hcard
    exact hcard
  have href := h.refs (s0.pageWord dir q).frame
  rw [hr, Option.map_some] at href
  refine ⟨⟨fun hfree => ?_, h.plain_iff.mpr helse.plain, helse.bound, by rw [href]; simp⟩, _, href, ?_⟩
  · obtain hfree | hmem | ⟨r', hr', -, -, hspent⟩ := (h.free _).mp hfree
    · exact helse.used hfree
    · obtain ⟨p, hp, htable⟩ := h.tables _ hmem
      exact h.holds.frame_ne_table hq (h.sub hp) htable
    · rw [hr] at hr'
      cases hr'
      omega
  · dsimp only
    omega

theorem FreedBy.freePage {r : FrameRef} {t t' : MemState} (h : FreedBy s0 pid dir W F R s) (hq : q ∈ W) (hqR : q ∉ R)
    (hr : s.frameRef (s0.pageWord dir q).frame = some r) (hrel : ReleasedOne (s0.pageWord dir q).frame r s t)
    (hpages : (t.setWord (s0.tableAt dir q) (pgtableEntry q) Word.zero).freePagesTo pid (q * kernelFrameSize) 1 = some t') :
    FreedBy s0 pid dir W F (insert q R) t' := by
  have hrest := hrel.rest
  obtain ⟨k, list, hk, hprocesses, hdesc, hlist⟩ := h.pages
  have hbound : q * kernelFrameSize + kernelFrameSize < 2 ^ 32 := by
    have huser := h.holds.user q hq
    rw [kernelPage_eq] at huser
    rw [kernelFrameSize_eq]
    omega
  unfold MemState.freePagesTo at hpages
  obtain ⟨k', hk', hadd⟩ := Option.bind_eq_some_iff.mp hpages
  have hget : t.processes pid = some { k with freePageTable := list } := by
    rw [hrest.processes, hprocesses, Function.update_self]
  obtain rfl : { k with freePageTable := list } = k' := Option.some.inj (hget.symm.trans hk')
  obtain ⟨list', hlist', rfl⟩ := Option.map_eq_some_iff.mp hadd
  obtain ⟨-, hdesc', hfree'⟩ := hdesc.addBlock_one hbound hlist'
  have hmem : ∀ f j, (t.setWord (s0.tableAt dir q) (pgtableEntry q) Word.zero).mem f j =
      if f = s0.tableAt dir q ∧ j = pgtableEntry q then Word.zero else s.mem f j := by
    intro f j
    rw [mem_setWord, hrel.mem]
  have hzero := h.refs (s0.pageWord dir q).frame
  obtain ⟨r0, hr0⟩ := Option.ne_none_iff_exists'.mp (h.holds.frame q hq).1.managed
  rw [hr, hr0, Option.map_some, Option.some.injEq] at hzero
  have hcard := fun f => @card_mappers_insert q f R (s0.pageWord dir) hqR
  obtain ⟨hused, -⟩ := h.frame hq hqR
  refine ⟨h.holds, Finset.insert_subset hq h.sub, fun f hf => ?_, hrest.kernelPages.trans h.kernelPages,
    hrest.current.trans h.current, hrest.cr3.trans h.cr3, fun p hp => ?_, fun f j hnot => ?_, fun f => ?_, hrel.whole,
    fun f => ?_, k, list', hk, ?_, hdesc', fun x => ?_⟩
  · obtain ⟨p, hp, htable⟩ := h.tables f hf
    exact ⟨p, Finset.mem_insert_of_mem hp, htable⟩
  · refine (hmem _ _).trans ?_
    split_ifs with hsame
    · rfl
    · obtain rfl | hp := Finset.mem_insert.mp hp
      · exact absurd ⟨rfl, rfl⟩ hsame
      · exact h.cleared p hp
  · refine (hmem f j).trans ?_
    rw [if_neg (hnot q (Finset.mem_insert_self ..))]
    exact h.kept f j fun p hp => hnot p (Finset.mem_insert_of_mem hp)
  · show t.frameRef f = _
    rw [hrel.frameRef, hcard]
    by_cases hf : f = (s0.pageWord dir q).frame
    · rw [if_pos hf, hf, if_pos rfl, hr0, hzero]
      rfl
    · rw [if_neg hf, if_neg (Ne.symm hf), h.refs]
      rfl
  · show IsFree t.freeMemoryMap f ↔ _
    rw [hrel.free, h.free, or_assoc, or_assoc]
    refine or_congr_right (or_congr_right ?_)
    unfold Spent
    rw [hcard]
    by_cases hf : f = (s0.pageWord dir q).frame
    · have hnot : ¬ s0.Spent dir R f := fun hc => hused.used (hf ▸ (h.free f).mpr (.inr (.inr hc)))
      refine (or_iff_right hnot).trans ?_
      rw [hf, if_pos rfl, hr0, hzero]
      constructor
      · rintro ⟨-, hcount, hhw⟩
        dsimp only at hcount hhw
        exact ⟨r0, rfl, hhw, by omega, by omega⟩
      · rintro ⟨r', hr', hhw, hpos, hcount⟩
        cases hr'
        exact ⟨rfl, by dsimp only; omega, hhw⟩
    · rw [if_neg (Ne.symm hf), Nat.add_zero]
      exact or_iff_left fun hc => hf hc.1
  · show Function.update t.processes pid _ = _
    rw [hrest.processes, hprocesses, Function.update_idem]
  · rw [hfree', hlist, Finset.mem_insert, or_assoc]
    exact or_congr_right or_comm

/-- A page of the process that is left goes back to its free pages. -/
theorem FreedBy.exists_freePagesTo (h : FreedBy s0 pid dir W F R s) (hq : q ∈ W) (hqR : q ∉ R)
    (hpages : ∀ k, s0.processes pid = some k → ¬ IsFree k.freePageTable q) {t : MemState}
    (ht : t.processes = s.processes) : ∃ t', t.freePagesTo pid (q * kernelFrameSize) 1 = some t' := by
  obtain ⟨k, list, hk, hprocesses, hdesc, hlist⟩ := h.pages
  have hnot : ¬ IsFree list q := by
    rw [hlist]
    exact fun hc => hc.elim (hpages k hk) hqR
  have hbound : q * kernelFrameSize + kernelFrameSize < 2 ^ 32 := by
    have huser := h.holds.user q hq
    rw [kernelPage_eq] at huser
    rw [kernelFrameSize_eq]
    omega
  obtain ⟨list', hlist'⟩ := hdesc.exists_addBlock hbound hnot
  unfold MemState.freePagesTo
  rw [ht, hprocesses, Function.update_self, Option.bind_some, hlist']
  exact ⟨_, rfl⟩

/-- A page table without a reference is freed. -/
theorem FreedBy.freeTable {t : MemState} (h : FreedBy s0 pid dir W F R s) (hq : q ∈ R)
    (hr : s0.frameRef (s0.tableAt dir q) = some ⟨false, 0⟩) (hrel : Released (s0.tableAt dir q) s t) :
    FreedBy s0 pid dir W (insert (s0.tableAt dir q) F) R t := by
  have hrest := hrel.rest
  obtain ⟨k, list, hk, hprocesses, hdesc, hlist⟩ := h.pages
  refine ⟨h.holds, h.sub, fun f hf => ?_, hrest.kernelPages.trans h.kernelPages, hrest.current.trans h.current,
    hrest.cr3.trans h.cr3, fun p hp => ?_, fun f j hnot => ?_, fun f => ?_, hrel.whole, fun f => ?_,
    k, list, hk, hrest.processes.trans hprocesses, hdesc, hlist⟩
  · obtain rfl | hf := Finset.mem_insert.mp hf
    · exact ⟨q, hq, rfl⟩
    · exact h.tables f hf
  · rw [hrel.mem, h.cleared p hp]
  · rw [hrel.mem, h.kept f j hnot]
  · rw [hrel.frameRef, ← h.refs]
    split_ifs with hf
    · rw [hf, h.frameRef_table (h.sub hq), hr]
      rfl
    · rfl
  · rw [hrel.free, h.free, Finset.mem_insert]
    tauto

end MemState

end UtkKernel.Memory
