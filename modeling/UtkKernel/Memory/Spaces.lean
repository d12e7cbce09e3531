import UtkKernel.Memory.Frames

/-! # The current address space

The page directory and the page tables of the current process, as the entries that are present in them. A
write to one of them is a write to one entry as long as no two of them lie in the same frame. -/

namespace UtkKernel.Memory
open Structures Foundations
set_option autoImplicit false

/-- The word as an entry. -/
def Word.seen (w : Word) : Option Word := if w.present then some w else none

theorem Word.seen_of_present {w : Word} (h : w.present = true) : w.seen = some w := if_pos h

theorem Word.seen_zero : Word.zero.seen = none := rfl

theorem Word.seen_eq_some {w e : Word} (h : w.seen = some e) : w.present = true ∧ w = e := by
  unfold Word.seen at h
  split_ifs at h with hp
  exact ⟨hp, Option.some.inj h⟩

theorem Word.seen_eq_none {w : Word} (h : w.seen = none) : w.present = false := by
  unfold Word.seen at h
  split_ifs at h with hp
  exact Bool.not_eq_true _ ▸ hp

/-- The first page of the window in which the current page tables are mapped. -/
def windowPage : ℕ := (kernelPgdirSize - 1) * kernelPgdirSize

theorem windowPage_eq : windowPage = 1047552 := rfl

namespace MemState

/-! ## Pages -/

theorem pgdirEntry_lt_of_lt {page : ℕ} (h : page < windowPage) : pgdirEntry page < kernelPgdirSize - 1 := by
  rw [windowPage_eq] at h
  unfold pgdirEntry
  rw [show kernelPgdirSize = 1024 from rfl]
  omega

theorem page_ext {p q : ℕ} (hp : p < windowPage) (hq : q < windowPage) (hdir : pgdirEntry p = pgdirEntry q)
    (htable : pgtableEntry p = pgtableEntry q) : p = q := by
  rw [windowPage_eq] at hp hq
  unfold pgdirEntry at hdir
  unfold pgtableEntry at htable
  rw [show kernelPgdirSize = 1024 from rfl] at hdir htable
  omega

/-- The page of an entry of a page table. -/
theorem exists_page {i j : ℕ} (hi : i < kernelPgdirSize - 1) (hj : j < kernelPgdirSize) :
    ∃ p < windowPage, pgdirEntry p = i ∧ pgtableEntry p = j := by
  refine ⟨i * 1024 + j, ?_, ?_, ?_⟩
  · rw [windowPage_eq]
    rw [show kernelPgdirSize = 1024 from rfl] at hi hj
    omega
  · unfold pgdirEntry
    rw [show kernelPgdirSize = 1024 from rfl] at hi hj ⊢
    omega
  · unfold pgtableEntry
    rw [show kernelPgdirSize = 1024 from rfl] at hj ⊢
    omega

variable {s s' : MemState} {p q i j f : ℕ} {e w : Word}

/-! ## Entries -/

/-- The present entry of the current page directory. -/
def dirEntry (s : MemState) (i : ℕ) : Option Word := (s.mem s.cr3 i).seen

/-- The page directory and the page tables below the window lie in frames of their own, which are not free. -/
structure Apart (s : MemState) : Prop where
  inj : ∀ i j e e', i < kernelPgdirSize - 1 → j < kernelPgdirSize - 1 → s.dirEntry i = some e →
    s.dirEntry j = some e' → e.frame = e'.frame → i = j
  dir : ∀ i e, i < kernelPgdirSize - 1 → s.dirEntry i = some e → e.frame ≠ s.cr3
  dirUsed : ¬ IsFree s.freeMemoryMap s.cr3
  tableUsed : ∀ i e, i < kernelPgdirSize - 1 → s.dirEntry i = some e → ¬ IsFree s.freeMemoryMap e.frame

theorem entry_eq (s : MemState) (p : ℕ) : s.entry s.cr3 p =
    (s.dirEntry (pgdirEntry p)).bind fun e => (s.mem e.frame (pgtableEntry p)).seen := by
  unfold entry dirEntry Word.seen
  by_cases hdir : (s.mem s.cr3 (pgdirEntry p)).present = true
  · rw [if_pos hdir, if_pos hdir]
    rfl
  · rw [if_neg hdir, if_neg hdir]
    rfl

theorem entry_of_mem (h : s'.mem = s.mem) (pgdir page : ℕ) : s'.entry pgdir page = s.entry pgdir page := by
  unfold entry
  rw [h]

theorem dirEntry_eq_some (h : s.dirEntry i = some e) : (s.mem s.cr3 i).present = true ∧ s.mem s.cr3 i = e :=
  Word.seen_eq_some h

theorem mem_setWord (f i : ℕ) (w : Word) (g j : ℕ) :
    (s.setWord f i w).mem g j = if g = f ∧ j = i then w else s.mem g j := by
  unfold setWord setFrame
  by_cases hg : g = f
  · subst hg
    by_cases hj : j = i
    · simp [hj]
    · simp [hj]
  · simp [hg]

/-! ## Writing an entry of a page table -/

theorem Apart.dirEntry_setWord (h : Apart s) (hi : i < kernelPgdirSize - 1) (he : s.dirEntry i = some e)
    (j : ℕ) (w : Word) (k : ℕ) : (s.setWord e.frame j w).dirEntry k = s.dirEntry k := by
  have hne : ¬(s.cr3 = e.frame ∧ k = j) := fun hc => h.dir i e hi he hc.1.symm
  show ((s.setWord e.frame j w).mem s.cr3 k).seen = _
  rw [mem_setWord, if_neg hne]
  rfl

theorem Apart.entry_setWord (h : Apart s) (hp : p < windowPage) (he : s.dirEntry (pgdirEntry p) = some e)
    (w : Word) (hq : q < windowPage) : (s.setWord e.frame (pgtableEntry p) w).entry s.cr3 q =
      if q = p then w.seen else s.entry s.cr3 q := by
  have hpi := pgdirEntry_lt_of_lt hp
  have hentry := entry_eq (s.setWord e.frame (pgtableEntry p) w) q
  rw [h.dirEntry_setWord hpi he] at hentry
  refine hentry.trans ?_
  rw [entry_eq]
  by_cases hqp : q = p
  · subst hqp
    rw [if_pos rfl, he, Option.bind_some, mem_setWord, if_pos ⟨rfl, rfl⟩]
  · rw [if_neg hqp]
    cases hq' : s.dirEntry (pgdirEntry q) with
    | none => rfl
    | some e' =>
      rw [Option.bind_some, Option.bind_some, mem_setWord, if_neg]
      rintro ⟨hframe, hentry⟩
      have hdir := h.inj _ _ e' e (pgdirEntry_lt_of_lt hq) hpi hq' he hframe
      exact hqp (page_ext hq hp hdir hentry)

/-- An entry is written in a page table: the rest stays. -/
theorem Apart.setWord (h : Apart s) (hi : i < kernelPgdirSize - 1) (he : s.dirEntry i = some e)
    (j : ℕ) (w : Word) : Apart (s.setWord e.frame j w) := by
  have hdir := h.dirEntry_setWord hi he j w
  refine ⟨fun k l x y hk hl hx hy => ?_, fun k x hk hx => ?_, h.dirUsed, fun k x hk hx => ?_⟩
  · rw [hdir] at hx hy
    exact h.inj k l x y hk hl hx hy
  · rw [hdir] at hx
    exact h.dir k x hk hx
  · rw [hdir] at hx
    exact h.tableUsed k x hk hx

/-- A page table is empty when no page of its region is mapped. -/
theorem tableEmpty_iff (hi : i < kernelPgdirSize - 1) (he : s.dirEntry i = some e) :
    s.tableEmpty e.frame = true ↔ ∀ p < windowPage, pgdirEntry p = i → s.entry s.cr3 p = none := by
  unfold tableEmpty
  rw [List.all_eq_true]
  constructor
  · intro hall p _ hpi
    have hj := hall (pgtableEntry p) (List.mem_range.mpr (Nat.mod_lt _ (by decide)))
    rw [Bool.not_eq_true'] at hj
    rw [entry_eq, hpi, he, Option.bind_some, Word.seen, if_neg (by simp [hj])]
  · intro hall j hj
    obtain ⟨p, hp, hpi, hpj⟩ := exists_page hi (List.mem_range.mp hj)
    have hnone := hall p hp hpi
    rw [entry_eq, hpi, he, Option.bind_some, hpj] at hnone
    rw [Word.seen_eq_none hnone]
    rfl

/-! ## Making and dropping a page table -/

/-- The entry `i` of the page directory is `d` now, and the same pages are mapped. -/
structure Redirected (i : ℕ) (d : Option Word) (s s' : MemState) : Prop where
  rest : SameRest s s'
  dir : ∀ k < kernelPgdirSize - 1, s'.dirEntry k = if k = i then d else s.dirEntry k
  entry : ∀ q < windowPage, s'.entry s'.cr3 q = s.entry s.cr3 q
  mem : ∀ f, f ≠ s.cr3 → (∀ e, d = some e → f ≠ e.frame) → s'.mem f = s.mem f
  window : ∀ k, kernelPgdirSize - 1 ≤ k → s'.mem s.cr3 k = s.mem s.cr3 k

theorem createTable_of_present (hi : s.dirEntry i = some e) : s.createTable i = some s := by
  unfold createTable
  rw [if_pos (dirEntry_eq_some hi).1]

theorem createTable_of_absent (hi : s.dirEntry i = none) : s.createTable i =
    (s.memoryAllocFrames 1).map fun r =>
      (r.2.setWord s.cr3 i (Word.pgDir r.1)).setFrame r.1 fun _ => Word.zero := by
  unfold createTable
  rw [if_neg (by rw [Word.seen_eq_none hi]; decide)]

theorem pgDir_frame (t : ℕ) : (Word.pgDir t).frame = t := rfl

theorem seen_pgDir (t : ℕ) : (Word.pgDir t).seen = some (Word.pgDir t) := by
  refine Word.seen_of_present ?_
  show (pageFlagReadWrite ||| pageFlagPresent) &&& pageFlagPresent != 0#12
  decide

theorem mem_setFrame (words : ℕ → Word) (g : ℕ) :
    (s.setFrame f words).mem g = if g = f then words else s.mem g := by
  show Function.update s.mem f words g = _
  by_cases hg : g = f
  · rw [hg, Function.update_self, if_pos rfl]
  · rw [Function.update_of_ne hg, if_neg hg]

/-- A new page table takes a free frame and maps nothing. -/
theorem Apart.createTable (h : Apart s) (hwhole : WholeFrames s.freeMemoryMap) (hi : i < kernelPgdirSize - 1)
    (hnone : s.dirEntry i = none) (hcreate : s.createTable i = some s') :
    ∃ t, IsFree s.freeMemoryMap t ∧ Redirected i (some (Word.pgDir t)) s s' ∧ s'.frameRef = s.frameRef ∧
      WholeFrames s'.freeMemoryMap ∧ takeFrames 1 s.freeMemoryMap = some ([t], s'.freeMemoryMap) ∧
      ∀ g, IsFree s'.freeMemoryMap g ↔ IsFree s.freeMemoryMap g ∧ g ≠ t := by
  rw [createTable_of_absent hnone] at hcreate
  obtain ⟨⟨t, s1⟩, halloc, rfl⟩ := Option.map_eq_some_iff.mp hcreate
  obtain ⟨hrest, hmem1, href, hwhole', hfree, hlist⟩ := allocated_of_memoryAllocFrames hwhole halloc
  have hdirNe : s.cr3 ≠ t := fun hc => h.dirUsed (hc ▸ hfree)
  dsimp only
  have hmem : ∀ f j, ((s1.setWord s.cr3 i (Word.pgDir t)).setFrame t fun _ => Word.zero).mem f j =
      if f = t then Word.zero else if f = s.cr3 ∧ j = i then Word.pgDir t else s.mem f j := by
    intro f j
    rw [mem_setFrame]
    by_cases hf : f = t
    · rw [if_pos hf, if_pos hf]
    · rw [if_neg hf, if_neg hf, mem_setWord, hmem1]
  have hrest2 : SameRest s ((s1.setWord s.cr3 i (Word.pgDir t)).setFrame t fun _ => Word.zero) :=
    ⟨hrest.processes, hrest.kernelPages, hrest.current, hrest.cr3⟩
  have htake := takeFrames_of_memoryAllocFrames halloc
  refine ⟨t, hfree, ?_, href, hwhole', htake, hlist⟩
  generalize (s1.setWord s.cr3 i (Word.pgDir t)).setFrame t (fun _ => Word.zero) = s2 at hmem hrest2
  have hdir : ∀ k, s2.dirEntry k = if k = i then some (Word.pgDir t) else s.dirEntry k := by
    intro k
    unfold dirEntry
    rw [hmem, hrest2.cr3, if_neg hdirNe]
    by_cases hk : k = i
    · rw [if_pos ⟨rfl, hk⟩, if_pos hk, seen_pgDir]
    · rw [if_neg fun hc => hk hc.2, if_neg hk]
  refine ⟨hrest2, fun k _ => hdir k, fun q hq => ?_, fun f hne hft => ?_, fun k hk => ?_⟩
  · rw [entry_eq, entry_eq, hdir]
    by_cases hqi : pgdirEntry q = i
    · rw [if_pos hqi, hqi, hnone, Option.bind_some, hmem, pgDir_frame, if_pos rfl]
      rfl
    · rw [if_neg hqi]
      cases he : s.dirEntry (pgdirEntry q) with
      | none => rfl
      | some e =>
        have hi := pgdirEntry_lt_of_lt hq
        have hused : e.frame ≠ t := fun hc => h.tableUsed _ e hi he (hc ▸ hfree)
        rw [Option.bind_some, Option.bind_some, hmem, if_neg hused, if_neg fun hc => h.dir _ e hi he hc.1]
  · funext j
    have hft : f ≠ t := hft _ rfl
    rw [hmem, if_neg hft, if_neg fun hc => hne hc.1]
  · rw [hmem, if_neg hdirNe, if_neg]
    rintro ⟨-, rfl⟩
    exact absurd hi (not_lt.mpr hk)

/-- A page table that maps nothing is dropped, and its frame is free again. -/
theorem Apart.dropTable (h : Apart s) (hwhole : WholeFrames s.freeMemoryMap) (hi : i < kernelPgdirSize - 1)
    (he : s.dirEntry i = some e) (hempty : ∀ q < windowPage, pgdirEntry q = i → s.entry s.cr3 q = none)
    (hbound : e.frame * kernelFrameSize + kernelFrameSize < 2 ^ 32) {r : FrameRef}
    (hr : s.frameRef e.frame = some r) : ∃ s1 s', s.dropTable i = some s' ∧ Released e.frame s s1 ∧
      s'.frameRef = s1.frameRef ∧ s'.freeMemoryMap = s1.freeMemoryMap ∧ Redirected i none s s' := by
  have hword := (dirEntry_eq_some he).2
  obtain ⟨s1, hs1, hreleased⟩ := exists_memoryFreeFrames hwhole (h.tableUsed i e hi he) hbound hr
  unfold MemState.dropTable
  rw [hword, if_pos ((tableEmpty_iff hi he).mpr hempty), hs1, Option.map_some]
  have hmem1 := hreleased.mem
  have hrest := hreleased.rest
  have hmem : ∀ f j, (s1.setWord s1.cr3 i Word.zero).mem f j =
      if f = s.cr3 ∧ j = i then Word.zero else s.mem f j := by
    intro f j
    rw [mem_setWord, hmem1, hrest.cr3]
  have hrest2 : SameRest s (s1.setWord s1.cr3 i Word.zero) :=
    ⟨hrest.processes, hrest.kernelPages, hrest.current, hrest.cr3⟩
  refine ⟨s1, _, rfl, hreleased, rfl, rfl, ?_⟩
  generalize s1.setWord s1.cr3 i Word.zero = s2 at hmem hrest2
  have hdir : ∀ k, s2.dirEntry k = if k = i then none else s.dirEntry k := by
    intro k
    unfold dirEntry
    rw [hmem, hrest2.cr3]
    by_cases hk : k = i
    · rw [if_pos ⟨rfl, hk⟩, if_pos hk, Word.seen_zero]
    · rw [if_neg fun hc => hk hc.2, if_neg hk]
  refine ⟨hrest2, fun k _ => hdir k, fun q hq => ?_, fun f hne _ => ?_, fun k hk => ?_⟩
  · rw [entry_eq, hdir]
    by_cases hqi : pgdirEntry q = i
    · rw [if_pos hqi, hempty q hq hqi]
      rfl
    · rw [if_neg hqi, entry_eq]
      cases hx : s.dirEntry (pgdirEntry q) with
      | none => rfl
      | some x =>
        have hdirNe : x.frame ≠ s.cr3 := h.dir _ x (pgdirEntry_lt_of_lt hq) hx
        rw [Option.bind_some, Option.bind_some, hmem, if_neg fun hc => hdirNe hc.1]
  · funext j
    rw [hmem, if_neg fun hc => hne hc.1]
  · rw [hmem, if_neg]
    rintro ⟨-, rfl⟩
    exact absurd hi (not_lt.mpr hk)

end MemState

end UtkKernel.Memory
