import UtkKernel.Memory.System

/-! # Copy on write

The resolution of a write to a page marked copy on write. The frame of a page that only its process
maps is kept and made writable; for a shared frame the source tests an error code it has not set yet
and gives up. -/

namespace UtkKernel.Memory
open Structures Foundations
set_option autoImplicit false

namespace MemState

variable {s s' : MemState} {page pgdir table frame index : ℕ} {e w : Word}

theorem entry_eq_some : s.entry pgdir page = some e ↔
    (s.mem pgdir (pgdirEntry page)).present = true ∧ e.present = true ∧
      s.mem (s.mem pgdir (pgdirEntry page)).frame (pgtableEntry page) = e := by
  unfold entry
  split_ifs with hdir htable
  · rw [Option.some.injEq]
    constructor
    · rintro rfl
      exact ⟨hdir, htable, rfl⟩
    · rintro ⟨-, -, h⟩
      exact h
  · refine ⟨nofun, ?_⟩
    rintro ⟨-, he, rfl⟩
    exact absurd he htable
  · exact ⟨nofun, fun h => absurd h.1 hdir⟩

theorem setWord_mem_self : (s.setWord frame index w).mem frame index = w := by
  simp [setWord, setFrame]

theorem setWord_mem_of_ne {f i : ℕ} (h : ¬(f = frame ∧ i = index)) :
    (s.setWord frame index w).mem f i = s.mem f i := by
  unfold setWord setFrame
  by_cases hf : f = frame
  · subst hf
    have hi : i ≠ index := fun hi => h ⟨rfl, hi⟩
    simp [Function.update_of_ne hi]
  · simp [Function.update_of_ne hf]

theorem pgtableEntry_lt (page : ℕ) : pgtableEntry page < kernelPgdirSize :=
  Nat.mod_lt _ (by decide)

/-! ## The claim on one resolution -/

/-- A live process maps the frame at a page of its own. -/
def MapsFrame (s : MemState) (pid frame : ℕ) : Prop :=
  ∃ p page e, s.processes pid = some p ∧ pgdirEntry page < kernelFirstPgdirEntry ∧
    s.entry p.pageDir page = some e ∧ e.frame = frame

/-- A fault at a page with the entry `e` is resolved, and the memory view is preserved. -/
structure CowResolved (s : MemState) (page : ℕ) (e : Word) (m : MemState × OsReturnE) : Prop where
  ok : m.2 = .osNoErr
  /-- The process can write the page, which has its bytes and a frame of its own. -/
  own : ∃ e', m.1.entry m.1.cr3 page = some e' ∧ e'.writable = true ∧
    e'.custom ≠ pageFlagCopyOnWrite ∧
    (∀ i < kernelPgdirSize, m.1.mem e'.frame i = s.mem e.frame i) ∧
    ∀ pid, pid ≠ s.current → ¬ m.1.MapsFrame pid e'.frame
  /-- The other processes that map the old frame still do, with the same flags and bytes. -/
  others : ∀ pid p q x, pid ≠ s.current → s.processes pid = some p →
    pgdirEntry q < kernelFirstPgdirEntry → s.entry p.pageDir q = some x → x.frame = e.frame →
      m.1.processes pid = some p ∧ m.1.entry p.pageDir q = some x ∧
        ∀ i < kernelPgdirSize, m.1.mem e.frame i = s.mem e.frame i
  /-- The old frame has lost a reference if it was shared. -/
  count : ∃ r r', s.frameRef e.frame = some r ∧ m.1.frameRef e.frame = some r' ∧
    r'.count = if 1 < r.count then r.count - 1 else r.count

/-! ## What the function does -/

/-- The error code that a shared page starts with is the one that comes back. -/
theorem cowCopy_err {oldFrame : ℕ} {err : OsReturnE} {m : MemState × OsReturnE}
    (herr : err ≠ .osNoErr) (h : s.cowCopy page table oldFrame err = some m) : m.2 = err := by
  unfold cowCopy at h
  obtain ⟨r, -, h1⟩ := Option.bind_eq_some_iff.mp h
  obtain ⟨s1, -, h2⟩ := Option.bind_eq_some_iff.mp h1
  obtain ⟨q, -, h3⟩ := Option.bind_eq_some_iff.mp h2
  rw [if_pos herr] at h3
  obtain ⟨s2, -, rfl⟩ := Option.map_eq_some_iff.mp h3
  rfl

theorem memoryInvocateCow_eq {p : Process} (hcur : s.processes s.current = some p)
    (he : s.entry s.cr3 page = some e) (hcow : e.custom = pageFlagCopyOnWrite) :
    s.memoryInvocateCow page = (s.frameRef e.frame).bind fun r =>
      if r.count = 0 then none
      else if r.count > 1 then
        s.cowCopy page (s.mem s.cr3 (pgdirEntry page)).frame e.frame .osErrMemoryNotMapped
      else some (s.setWord (s.mem s.cr3 (pgdirEntry page)).frame (pgtableEntry page) e.ofCow,
        .osNoErr) := by
  unfold memoryInvocateCow
  rw [hcur, Option.bind_some, he]
  dsimp only
  rw [if_neg (not_not.mpr hcow)]

/-- A resolution that succeeds has rewritten the entry of a frame with one reference. -/
theorem memoryInvocateCow_ok {p : Process} (hcur : s.processes s.current = some p)
    (he : s.entry s.cr3 page = some e) (hcow : e.custom = pageFlagCopyOnWrite)
    {m : MemState × OsReturnE} :
    s.memoryInvocateCow page = some m ∧ m.2 = .osNoErr ↔
      (∃ r, s.frameRef e.frame = some r ∧ r.count = 1) ∧
        m = (s.setWord (s.mem s.cr3 (pgdirEntry page)).frame (pgtableEntry page) e.ofCow,
          .osNoErr) := by
  rw [memoryInvocateCow_eq hcur he hcow]
  constructor
  · rintro ⟨h, hok⟩
    obtain ⟨r, hr, hbody⟩ := Option.bind_eq_some_iff.mp h
    split_ifs at hbody with hzero hshared
    · have herr := cowCopy_err (by decide) hbody
      rw [hok] at herr
      cases herr
    · cases hbody
      exact ⟨⟨r, hr, by omega⟩, rfl⟩
  · rintro ⟨⟨r, hr, hcount⟩, rfl⟩
    rw [hr, Option.bind_some, if_neg (by omega), if_neg (by omega)]
    exact ⟨rfl, rfl⟩

/-! ## When the view is preserved -/

/-- An entry is rewritten with the same frame: every page under any page directory still has the frame
it had. -/
theorem entry_setWord_frame (hold : s.mem table index = e) (hpresent : e.present = true)
    (hw : w.frame = e.frame) (hne : e.frame ≠ table) {x : Word}
    (h : (s.setWord table index w).entry pgdir page = some x) (hx : x.frame = e.frame) :
    ∃ x', s.entry pgdir page = some x' ∧ x'.frame = e.frame := by
  obtain ⟨hdir, hxp, hxe⟩ := entry_eq_some.mp h
  have hdir' : (s.mem pgdir (pgdirEntry page)).present = true ∧
      ((s.setWord table index w).mem pgdir (pgdirEntry page)).frame =
        (s.mem pgdir (pgdirEntry page)).frame := by
    by_cases hp : pgdir = table ∧ pgdirEntry page = index
    · obtain ⟨rfl, rfl⟩ := hp
      rw [setWord_mem_self, hold]
      exact ⟨hpresent, hw⟩
    · rw [setWord_mem_of_ne hp] at hdir ⊢
      exact ⟨hdir, rfl⟩
  rw [hdir'.2] at hxe
  by_cases ht : (s.mem pgdir (pgdirEntry page)).frame = table ∧ pgtableEntry page = index
  · refine ⟨e, entry_eq_some.mpr ⟨hdir'.1, hpresent, ?_⟩, rfl⟩
    rw [ht.1, ht.2, hold]
  · rw [setWord_mem_of_ne ht] at hxe
    exact ⟨x, entry_eq_some.mpr ⟨hdir'.1, hxp, hxe⟩, hx⟩

/-- The page itself reads its new entry, unless the table is the page. -/
theorem entry_setWord_self (he : s.entry pgdir page = some e) (hw : w.present = true)
    (hne : e.frame ≠ (s.mem pgdir (pgdirEntry page)).frame) :
    (s.setWord (s.mem pgdir (pgdirEntry page)).frame (pgtableEntry page) w).entry pgdir page =
      some w := by
  obtain ⟨hdir, -, hmem⟩ := entry_eq_some.mp he
  have hnot : ¬(pgdir = (s.mem pgdir (pgdirEntry page)).frame ∧
      pgdirEntry page = pgtableEntry page) := by
    rintro ⟨hp, hi⟩
    rw [← hp, ← hi] at hmem
    exact hne (congrArg Word.frame hmem).symm
  refine entry_eq_some.mpr ⟨?_, hw, ?_⟩
  · rw [setWord_mem_of_ne hnot]
    exact hdir
  · rw [setWord_mem_of_ne hnot, setWord_mem_self]

/-- A page that is the page table its entry is in has the rewritten entry. -/
theorem rewritten_frame (hw : w.frame = e.frame) (heq : e.frame = (s.mem pgdir (pgdirEntry page)).frame) {e' : Word}
    (h : (s.setWord (s.mem pgdir (pgdirEntry page)).frame (pgtableEntry page) w).entry pgdir page =
      some e') : e'.frame = e.frame := by
  obtain ⟨-, -, rfl⟩ := entry_eq_some.mp h
  have hdir : ((s.setWord (s.mem pgdir (pgdirEntry page)).frame (pgtableEntry page) w).mem pgdir
      (pgdirEntry page)).frame = (s.mem pgdir (pgdirEntry page)).frame := by
    by_cases hp : pgdir = (s.mem pgdir (pgdirEntry page)).frame ∧
        pgdirEntry page = pgtableEntry page
    · rw [← hp.1, ← hp.2, setWord_mem_self, hw, heq, ← hp.1]
    · rw [setWord_mem_of_ne hp]
  rw [hdir, setWord_mem_self, hw]

/-- A write to a page marked copy on write is resolved, and the memory view of every process is kept,
exactly when the frame has one reference, no other process maps it and it is not the page table that
the entry is in. -/
theorem cow_resolved_iff {p : Process} (hcur : s.processes s.current = some p)
    (he : s.entry s.cr3 page = some e) (hcow : e.custom = pageFlagCopyOnWrite) :
    (∃ m, s.memoryInvocateCow page = some m ∧ s.CowResolved page e m) ↔
      (∃ r, s.frameRef e.frame = some r ∧ r.count = 1) ∧
        (∀ pid, pid ≠ s.current → ¬ s.MapsFrame pid e.frame) ∧
        e.frame ≠ (s.mem s.cr3 (pgdirEntry page)).frame := by
  obtain ⟨hdir, hpresent, hmem⟩ := entry_eq_some.mp he
  constructor
  · rintro ⟨m, hm, hres⟩
    obtain ⟨hcount, rfl⟩ := (memoryInvocateCow_ok hcur he hcow).mp ⟨hm, hres.ok⟩
    obtain ⟨e', he', -, -, hbytes, hown⟩ := hres.own
    have hne : e.frame ≠ (s.mem s.cr3 (pgdirEntry page)).frame := by
      -- a page that holds its own entry would have changed
      intro heq
      have hframe : e'.frame = e.frame := rewritten_frame e.ofCow_frame heq he'
      have hsame := hbytes (pgtableEntry page) (pgtableEntry_lt page)
      dsimp only at hsame
      rw [hframe, heq, setWord_mem_self, hmem] at hsame
      have hcustom := Word.ofCow_custom e
      rw [hsame, hcow] at hcustom
      exact absurd hcustom (by decide)
    refine ⟨hcount, fun pid hpid => ?_, hne⟩
    rintro ⟨q, page', x, hq, huser, hx, hxf⟩
    have hown' := entry_setWord_self he (w := e.ofCow) (e.ofCow_present.trans hpresent) hne
    rw [show e' = e.ofCow from Option.some.inj (he'.symm.trans hown')] at hown
    obtain ⟨hproc, hentry, -⟩ := hres.others pid q page' x hpid hq huser hx hxf
    exact hown pid hpid ⟨q, page', x, hproc, huser, hentry, hxf⟩
  · rintro ⟨hcount, hothers, hne⟩
    obtain ⟨r, hr, hone⟩ := hcount
    have hown := entry_setWord_self he (w := e.ofCow) (e.ofCow_present.trans hpresent) hne
    obtain ⟨hm, -⟩ := (memoryInvocateCow_ok hcur he hcow (m := (_, _))).mpr
      ⟨⟨r, hr, hone⟩, rfl⟩
    refine ⟨_, hm, ⟨rfl, ⟨e.ofCow, hown, e.ofCow_writable, ?_, fun i _ => ?_, fun pid hpid => ?_⟩,
      fun pid q page' x hpid hq huser hx hxf => ?_, ⟨r, r, hr, hr, ?_⟩⟩⟩
    · rw [e.ofCow_custom]
      decide
    · exact setWord_mem_of_ne fun h => hne h.1
    · rintro ⟨q, page', x, hq, huser, hx, hxf⟩
      obtain ⟨x', hx', hxf'⟩ := entry_setWord_frame hmem hpresent e.ofCow_frame hne hx hxf
      exact hothers pid hpid ⟨q, page', x', hq, huser, hx', hxf'⟩
    · exact absurd ⟨q, page', x, hq, huser, hx, hxf⟩ (hothers pid hpid)
    · rw [if_neg (by omega)]

/-- A process alone, with a page whose frame only it refers to. -/
def aloneState : MemState where
  mem := fun frame index =>
    if frame = 1 ∧ index = 0 then Word.pgDir 2
    else if frame = 2 ∧ index = 5 then ⟨3, pageFlagCopyOnWrite ||| pageFlagPresent⟩
    else Word.zero
  frameRef := fun frame => if frame = 3 then some ⟨false, 1⟩ else none
  freeMemoryMap := []
  freeKernelPages := []
  processes := fun pid => if pid = 0 then some ⟨1, []⟩ else none
  current := 0
  cr3 := 1

theorem cow_resolved_alone : ∃ m, aloneState.memoryInvocateCow 5 = some m ∧
    aloneState.CowResolved 5 ⟨3, pageFlagCopyOnWrite ||| pageFlagPresent⟩ m := by
  refine (cow_resolved_iff (p := ⟨1, []⟩) rfl (by decide) (by decide)).mpr
    ⟨⟨⟨false, 1⟩, rfl, rfl⟩, fun pid hpid => ?_, by decide⟩
  rintro ⟨p, -, -, hp, -⟩
  change (if pid = 0 then some (⟨1, []⟩ : Process) else none) = some p at hp
  rw [if_neg (show ¬pid = 0 from hpid)] at hp
  cases hp

/-! ## A shared page -/

/-- Two frames and a page of the current process can be allocated. -/
def HasRoom (s : MemState) (p : Process) : Prop :=
  (∃ f g, f ≠ g ∧ IsFree s.freeMemoryMap f ∧ IsFree s.freeMemoryMap g) ∧
    ∃ page, IsFree p.freePageTable page

/-- A process with one page forks. -/
def forkActs : List MemAct := [.allocPage 1, .allocStack 4096 true, .fork 1 0xDFFFF 4096]

/-- The page that parent and child then share is not resolved when the parent writes to it. -/
theorem cow_not_resolved_after_fork : ¬ ∀ (s : MemState) (p : Process) (page : ℕ) (e : Word),
    Reachable Started Step s → s.processes s.current = some p → s.entry s.cr3 page = some e →
      e.custom = pageFlagCopyOnWrite → s.HasRoom p →
        ∃ m, s.memoryInvocateCow page = some m ∧ s.CowResolved page e m := by
  intro hclaim
  have hrun : (smallRun forkActs).any (fun s =>
      decide (s.processes s.current = some ⟨0x210, [⟨⟨0x101000, 0xDFFFF000⟩, 0x101000⟩]⟩) &&
      decide (s.entry s.cr3 0x100 = some ⟨0xE38, 0x401#12⟩) &&
      decide (s.freeMemoryMap = [⟨⟨0xE40000, 0x1000000⟩, 0xE40000⟩]) &&
      decide ((s.memoryInvocateCow 0x100).map Prod.snd = some .osErrMemoryNotMapped)) = true := by
    decide +kernel
  obtain ⟨s, hs, hvals⟩ := (Option.any_eq_true _ _).mp hrun
  simp only [Bool.and_eq_true, decide_eq_true_eq] at hvals
  obtain ⟨⟨⟨hcur, he⟩, hfree⟩, herr⟩ := hvals
  have hroom : s.HasRoom ⟨0x210, [⟨⟨0x101000, 0xDFFFF000⟩, 0x101000⟩]⟩ := by
    rw [HasRoom, hfree]
    exact ⟨⟨0xE40, 0xE41, by decide, ⟨_, List.mem_singleton_self _, by decide⟩,
      ⟨_, List.mem_singleton_self _, by decide⟩⟩, 0x101, ⟨_, List.mem_singleton_self _, by decide⟩⟩
  obtain ⟨m, hm, hres⟩ :=
    hclaim s _ 0x100 _ (reachable_of_smallRun hs) hcur he (by decide) hroom
  rw [hm, Option.map_some, hres.ok] at herr
  cases herr

end MemState

end UtkKernel.Memory
