import Mathlib.Logic.Function.Basic
import UtkKernel.Memory.Blocks
import UtkKernel.Structures.KernelError

/-! # The frame reference tables and `memory_declare_hw`

The directory holds a table for each four megabytes in which a frame has an entry. An address gives its two indices, as
in the source; the results are about the entries of frames. A function gives `none` when its fuel runs out and where the
source uses a null pointer for a table. -/

namespace UtkKernel.Memory
open Structures
set_option autoImplicit false

/-! ## Tables -/

abbrev frameRefTableSize : ℕ := 1024
abbrev frameRefPresent : ℕ := 0x80000000
abbrev frameRefIsHw : ℕ := 0x40000000

/-- The flags of a hardware frame. -/
def hwEntry : ℕ := frameRefPresent ||| frameRefIsHw

/-- `frame_ref_dir`, with null pointers for the tables that do not exist. -/
abbrev FrameRefDir := ℕ → Option (ℕ → ℕ)

/-- `addr >> FRAME_REF_DIR_ENTRY_OFFSET` -/
def dirEntry (addr : ℕ) : ℕ := addr >>> 22

/-- `(addr >> FRAME_REF_TABLE_ENTRY_OFFSET) & FRAME_REF_TABLE_ENTRY_OFFSET_MASK` -/
def tableEntry (addr : ℕ) : ℕ := addr >>> 12 &&& 0x3FF

namespace FrameRefDir

/-- `current_table[table_entry] = value` in a table of the directory. -/
def setEntry (dir : FrameRefDir) (addr : ℕ) (table : ℕ → ℕ) (value : ℕ) : FrameRefDir :=
  Function.update dir (dirEntry addr) (some (Function.update table (tableEntry addr) value))

/-- The entry is cleared, and the table freed if it is empty. -/
def clearEntry (dir : FrameRefDir) (addr : ℕ) (table : ℕ → ℕ) : FrameRefDir :=
  let cleared := Function.update table (tableEntry addr) 0
  Function.update dir (dirEntry addr) (if ∀ i < frameRefTableSize, cleared i = 0 then none else some cleared)

/-- What the tables say of a frame; nothing is zero. -/
def entry (dir : FrameRefDir) (frame : ℕ) : ℕ :=
  match dir (frame / 1024) with
  | none => 0
  | some table => table (frame % 1024)

end FrameRefDir

/-- The first loop of `memory_declare_hw`; `kmalloc` says for which tables there is memory. -/
def declareHwLoop (kmalloc : ℕ → Bool) (limit : ℕ) : ℕ → ℕ → FrameRefDir → Option (OsReturnE × ℕ × FrameRefDir)
  | 0, _, _ => none
  | fuel + 1, currentAddr, dir =>
    if currentAddr < limit then
      match dir (dirEntry currentAddr) with
      | none =>
        if kmalloc (dirEntry currentAddr) then
          declareHwLoop kmalloc limit fuel ((currentAddr + kernelFrameSize) % 2 ^ 32)
            (dir.setEntry currentAddr (fun _ => 0) hwEntry)
        else none
      | some table =>
        if table (tableEntry currentAddr) ≠ 0 then
          some (.osErrUnauthorizedAction, (currentAddr + 2 ^ 32 - kernelFrameSize) % 2 ^ 32, dir)
        else
          declareHwLoop kmalloc limit fuel ((currentAddr + kernelFrameSize) % 2 ^ 32)
            (dir.setEntry currentAddr table hwEntry)
    else some (.osNoErr, currentAddr, dir)

/-- The second loop, which cleans up after an error. -/
def undoHwLoop (physAddr : ℕ) : ℕ → ℕ → FrameRefDir → Option FrameRefDir
  | 0, _, _ => none
  | fuel + 1, currentAddr, dir =>
    if currentAddr ≥ physAddr then
      match dir (dirEntry currentAddr) with
      | none => none
      | some table =>
        undoHwLoop physAddr fuel ((currentAddr + 2 ^ 32 - kernelFrameSize) % 2 ^ 32) (dir.clearEntry currentAddr table)
    else some dir

def memoryDeclareHw (kmalloc : ℕ → Bool) (fuel physAddr size : ℕ) (dir : FrameRefDir) :
    Option (OsReturnE × FrameRefDir) :=
  match declareHwLoop kmalloc ((physAddr + size) % 2 ^ 32) fuel (physAddr / kernelFrameSize * kernelFrameSize) dir with
  | none => none
  | some (err, currentAddr, dir) =>
    if err ≠ .osNoErr then (undoHwLoop physAddr fuel currentAddr dir).map fun dir => (err, dir)
    else some (err, dir)

variable {kmalloc : ℕ → Bool} {limit physAddr f h n lo fuel a : ℕ} {dir dir' : FrameRefDir} {table : ℕ → ℕ}
  {r : OsReturnE × ℕ × FrameRefDir}

/-! ## Entries -/

/-- The address of a frame. -/
def frameAddr (f : ℕ) : ℕ := f * 4096

theorem dirEntry_frameAddr (f : ℕ) : dirEntry (frameAddr f) = f / 1024 := by
  unfold dirEntry frameAddr
  rw [Nat.shiftRight_eq_div_pow]
  omega

theorem tableEntry_frameAddr (f : ℕ) : tableEntry (frameAddr f) = f % 1024 := by
  unfold tableEntry frameAddr
  rw [Nat.shiftRight_eq_div_pow, show (0x3FF : ℕ) = 2 ^ 10 - 1 from rfl, Nat.and_two_pow_sub_one_eq_mod]
  omega

theorem frame_eq_iff : h = f ↔ h / 1024 = f / 1024 ∧ h % 1024 = f % 1024 := by omega

namespace FrameRefDir

theorem entry_of_none (hnone : dir (f / 1024) = none) : dir.entry f = 0 := by
  unfold entry
  rw [hnone]

theorem entry_of_some (hsome : dir (f / 1024) = some table) : dir.entry f = table (f % 1024) := by
  unfold entry
  rw [hsome]

theorem entry_congr (hsame : dir' (f / 1024) = dir (f / 1024)) : dir'.entry f = dir.entry f := by
  unfold entry
  rw [hsame]

/-- A write to a table that has the entries of the directory. -/
theorem entry_setEntry (htable : ∀ i, h / 1024 = f / 1024 → h % 1024 = i → table i = dir.entry h) (value : ℕ) :
    (dir.setEntry (frameAddr f) table value).entry h = if h = f then value else dir.entry h := by
  unfold setEntry
  rw [dirEntry_frameAddr, tableEntry_frameAddr]
  by_cases hdir : h / 1024 = f / 1024
  · have hsome : Function.update dir (f / 1024) (some (Function.update table (f % 1024) value)) (h / 1024) =
        some (Function.update table (f % 1024) value) := by rw [hdir, Function.update_self]
    rw [entry_of_some hsome]
    by_cases hmod : h % 1024 = f % 1024
    · rw [if_pos (frame_eq_iff.mpr ⟨hdir, hmod⟩), hmod, Function.update_self]
    · rw [if_neg fun he => hmod (frame_eq_iff.mp he).2, Function.update_of_ne hmod, htable _ hdir rfl]
  · rw [if_neg fun he => hdir (frame_eq_iff.mp he).1]
    exact entry_congr (Function.update_of_ne hdir ..)

theorem entry_clearEntry (hsome : dir (f / 1024) = some table) (h : ℕ) :
    (dir.clearEntry (frameAddr f) table).entry h = if h = f then 0 else dir.entry h := by
  unfold clearEntry
  rw [dirEntry_frameAddr, tableEntry_frameAddr]
  dsimp only
  by_cases hempty : ∀ i < frameRefTableSize, Function.update table (f % 1024) 0 i = 0
  · rw [if_pos hempty]
    by_cases hdir : h / 1024 = f / 1024
    · rw [entry_of_none (by rw [hdir, Function.update_self])]
      have hzero := hempty (h % 1024) (Nat.mod_lt _ (by decide))
      by_cases hmod : h % 1024 = f % 1024
      · rw [if_pos (frame_eq_iff.mpr ⟨hdir, hmod⟩)]
      · rw [Function.update_of_ne hmod] at hzero
        rw [if_neg fun he => hmod (frame_eq_iff.mp he).2, entry_of_some (hdir ▸ hsome), hzero]
    · rw [if_neg fun he => hdir (frame_eq_iff.mp he).1]
      exact entry_congr (Function.update_of_ne hdir ..)
  · rw [if_neg hempty]
    have hset : (dir.setEntry (frameAddr f) table 0).entry h = if h = f then 0 else dir.entry h :=
      entry_setEntry (fun i hdir hi => ?_) 0
    · unfold setEntry at hset
      rw [dirEntry_frameAddr, tableEntry_frameAddr] at hset
      exact hset
    · rw [entry_of_some (hdir ▸ hsome), hi]

end FrameRefDir

/-! ## Recording -/

/-- The table of a frame is there, or there is memory for it. -/
def TableFor (kmalloc : ℕ → Bool) (dir : FrameRefDir) (f : ℕ) : Prop :=
  dir (f / 1024) ≠ none ∨ kmalloc (f / 1024) = true

/-- Some frames were recorded as hardware. -/
structure Recorded (dir dir' : FrameRefDir) (f n : ℕ) : Prop where
  entry : ∀ h, dir'.entry h = if f ≤ h ∧ h < f + n then hwEntry else dir.entry h
  tables : ∀ d, dir d ≠ none → dir' d ≠ none
  only : ∀ d, dir' d ≠ none → dir d ≠ none ∨ ∃ h, f ≤ h ∧ h < f + n ∧ h / 1024 = d

theorem Recorded.tableFor (h : Recorded dir dir' f n) (ha : TableFor kmalloc dir a) : TableFor kmalloc dir' a :=
  ha.imp_left (h.tables _)

theorem frameAddr_succ (f : ℕ) : (frameAddr f + kernelFrameSize) % 2 ^ 32 = frameAddr (f + 1) % 2 ^ 32 := by
  unfold frameAddr
  rw [kernelFrameSize_eq]
  omega

/-- A frame without an entry is recorded. -/
theorem declareHwLoop_step (hlimit : frameAddr f < limit) (hzero : dir.entry f = 0) (htable : TableFor kmalloc dir f) :
    ∃ dir', Recorded dir dir' f 1 ∧ ∀ fuel, declareHwLoop kmalloc limit (fuel + 1) (frameAddr f) dir =
      declareHwLoop kmalloc limit fuel (frameAddr (f + 1) % 2 ^ 32) dir' := by
  have hone : ∀ h, f ≤ h ∧ h < f + 1 ↔ h = f := fun h => by omega
  have htables : ∀ table d, dir d ≠ none → dir.setEntry (frameAddr f) table hwEntry d ≠ none := by
    intro table d hd
    unfold FrameRefDir.setEntry
    by_cases he : d = dirEntry (frameAddr f)
    · rw [he, Function.update_self]
      exact Option.some_ne_none _
    · rwa [Function.update_of_ne he]
  have honly : ∀ table d, dir.setEntry (frameAddr f) table hwEntry d ≠ none →
      dir d ≠ none ∨ ∃ h, f ≤ h ∧ h < f + 1 ∧ h / 1024 = d := by
    intro table d hd
    by_cases he : d = dirEntry (frameAddr f)
    · exact .inr ⟨f, le_rfl, Nat.lt_succ_self f, (dirEntry_frameAddr f).symm.trans he.symm⟩
    · unfold FrameRefDir.setEntry at hd
      rw [Function.update_of_ne he] at hd
      exact .inl hd
  cases hdir : dir (f / 1024) with
  | none =>
    refine ⟨dir.setEntry (frameAddr f) (fun _ => 0) hwEntry, ⟨fun h => ?_, htables _, honly _⟩, fun fuel => ?_⟩
    · rw [FrameRefDir.entry_setEntry (fun i hd _ => ?_), if_congr (hone h) rfl rfl]
      rw [FrameRefDir.entry_of_none (hd ▸ hdir)]
    · rw [declareHwLoop, if_pos hlimit, dirEntry_frameAddr, hdir, frameAddr_succ]
      dsimp only
      rw [if_pos (htable.resolve_left (not_not.mpr hdir))]
  | some table =>
    have hentry := FrameRefDir.entry_of_some hdir
    refine ⟨dir.setEntry (frameAddr f) table hwEntry, ⟨fun h => ?_, htables _, honly _⟩, fun fuel => ?_⟩
    · rw [FrameRefDir.entry_setEntry (fun i hd hi => ?_), if_congr (hone h) rfl rfl]
      rw [FrameRefDir.entry_of_some (hd ▸ hdir), hi]
    · rw [declareHwLoop, if_pos hlimit, dirEntry_frameAddr, hdir, frameAddr_succ]
      dsimp only
      rw [tableEntry_frameAddr, if_neg (not_not.mpr (hentry.symm.trans hzero))]

theorem declareHwLoop_noTable (hlimit : frameAddr f < limit) (htable : ¬TableFor kmalloc dir f) (fuel : ℕ) :
    declareHwLoop kmalloc limit fuel (frameAddr f) dir = none := by
  obtain ⟨hdir, hmalloc⟩ := not_or.mp htable
  cases fuel with
  | zero => rfl
  | succ fuel =>
    rw [declareHwLoop, if_pos hlimit, dirEntry_frameAddr, not_not.mp hdir]
    dsimp only
    rw [if_neg hmalloc]

theorem declareHwLoop_present (hlimit : frameAddr f < limit) (hentry : dir.entry f ≠ 0) (fuel : ℕ) :
    declareHwLoop kmalloc limit (fuel + 1) (frameAddr f) dir =
      some (.osErrUnauthorizedAction, (frameAddr f + 2 ^ 32 - kernelFrameSize) % 2 ^ 32, dir) := by
  cases hdir : dir (f / 1024) with
  | none => exact absurd (FrameRefDir.entry_of_none hdir) hentry
  | some table =>
    rw [FrameRefDir.entry_of_some hdir] at hentry
    rw [declareHwLoop, if_pos hlimit, dirEntry_frameAddr, hdir]
    dsimp only
    rw [tableEntry_frameAddr, if_pos hentry]

/-- The frames up to the first one with an entry are recorded. -/
theorem declareHwLoop_run (hf : f + n ≤ 2 ^ 20)
    (hframes : ∀ i < n, frameAddr (f + i) < limit ∧ dir.entry (f + i) = 0 ∧ TableFor kmalloc dir (f + i)) :
    ∃ dir', Recorded dir dir' f n ∧ ∀ fuel, declareHwLoop kmalloc limit (fuel + n) (frameAddr f % 2 ^ 32) dir =
      declareHwLoop kmalloc limit fuel (frameAddr (f + n) % 2 ^ 32) dir' := by
  induction n with
  | zero => exact ⟨dir, ⟨fun h => by rw [if_neg (by omega)], fun _ hd => hd, fun _ hd => .inl hd⟩, fun _ => rfl⟩
  | succ n ih =>
    obtain ⟨dir1, hrec1, hrun1⟩ := ih (by omega) fun i hi => hframes i (by omega)
    obtain ⟨hlimit, hzero, htable⟩ := hframes n (by omega)
    have hzero1 : dir1.entry (f + n) = 0 := by
      rw [hrec1.entry, if_neg (by omega)]
      exact hzero
    obtain ⟨dir2, hrec2, hrun2⟩ := declareHwLoop_step hlimit hzero1 (hrec1.tableFor htable)
    refine ⟨dir2, ⟨fun h => ?_, fun d hd => hrec2.tables d (hrec1.tables d hd), fun d hd => ?_⟩, fun fuel => ?_⟩
    · rw [hrec2.entry, hrec1.entry]
      by_cases hlast : f + n ≤ h ∧ h < f + n + 1
      · rw [if_pos hlast, if_pos (by omega)]
      · rw [if_neg hlast]
        exact if_congr (by omega) rfl rfl
    · obtain hd | ⟨h, h1, h2, rfl⟩ := hrec2.only d hd
      · exact (hrec1.only d hd).imp_right fun ⟨h, h1, h2, h3⟩ => ⟨h, h1, by omega, h3⟩
      · exact .inr ⟨h, by omega, by omega, rfl⟩
    · have hlt : frameAddr (f + n) % 2 ^ 32 = frameAddr (f + n) := Nat.mod_eq_of_lt (by unfold frameAddr; omega)
      rw [show fuel + (n + 1) = (fuel + 1) + n by omega, hrun1, hlt, hrun2, Nat.add_assoc]

theorem declareHwLoop_mono (k : ℕ) (hrun : declareHwLoop kmalloc limit fuel a dir = some r) :
    declareHwLoop kmalloc limit (fuel + k) a dir = some r := by
  induction fuel generalizing a dir with
  | zero => exact nomatch hrun
  | succ fuel ih =>
    rw [Nat.succ_add]
    rw [declareHwLoop] at hrun ⊢
    by_cases hlt : a < limit
    · rw [if_pos hlt] at hrun ⊢
      cases hdir : dir (dirEntry a) with
      | none =>
        rw [hdir] at hrun
        dsimp only at hrun ⊢
        by_cases hmalloc : kmalloc (dirEntry a) = true
        · rw [if_pos hmalloc] at hrun ⊢
          exact ih hrun
        · rw [if_neg hmalloc] at hrun
          exact nomatch hrun
      | some table =>
        rw [hdir] at hrun
        dsimp only at hrun ⊢
        by_cases hentry : table (tableEntry a) ≠ 0
        · rw [if_pos hentry] at hrun ⊢
          exact hrun
        · rw [if_neg hentry] at hrun ⊢
          exact ih hrun
    · rw [if_neg hlt] at hrun ⊢
      exact hrun

/-- A frame without an entry and without a table is reached. -/
theorem declareHwLoop_none (hf : f + n ≤ 2 ^ 20)
    (hframes : ∀ i < n, frameAddr (f + i) < limit ∧ dir.entry (f + i) = 0)
    (htable : ∃ i < n, ¬TableFor kmalloc dir (f + i)) (fuel : ℕ) :
    declareHwLoop kmalloc limit fuel (frameAddr f % 2 ^ 32) dir = none := by
  induction n with
  | zero =>
    obtain ⟨i, hi, -⟩ := htable
    exact nomatch hi
  | succ n ih =>
    by_cases hbefore : ∃ i < n, ¬TableFor kmalloc dir (f + i)
    · exact ih (by omega) (fun i hi => hframes i (by omega)) hbefore
    have hserved : ∀ i < n, TableFor kmalloc dir (f + i) := fun i hi => by
      by_contra hnot
      exact hbefore ⟨i, hi, hnot⟩
    obtain ⟨i, hi, hnot⟩ := htable
    obtain rfl : i = n := by
      by_contra hne
      exact hnot (hserved i (by omega))
    obtain ⟨dir1, hrec, hrun⟩ := declareHwLoop_run (f := f) (n := i) (by omega) fun k hk =>
      ⟨(hframes k (by omega)).1, (hframes k (by omega)).2, hserved k hk⟩
    have hlt : frameAddr (f + i) % 2 ^ 32 = frameAddr (f + i) := Nat.mod_eq_of_lt (by unfold frameAddr; omega)
    have hnot1 : ¬TableFor kmalloc dir1 (f + i) := by
      rintro (hdir | hmalloc)
      · obtain hdir | ⟨h, h1, h2, hsame⟩ := hrec.only _ hdir
        · exact hnot (.inl hdir)
        · have hserved' := hserved (h - f) (by omega)
          unfold TableFor at hserved' hnot
          rw [Nat.add_sub_of_le h1, hsame] at hserved'
          exact hnot hserved'
      · exact hnot (.inr hmalloc)
    have hnone := hrun fuel
    rw [hlt, declareHwLoop_noTable (hframes i (by omega)).1 hnot1] at hnone
    cases hcase : declareHwLoop kmalloc limit fuel (frameAddr f % 2 ^ 32) dir with
    | none => rfl
    | some r =>
      rw [declareHwLoop_mono i hcase] at hnone
      exact nomatch hnone

/-! ## Cleaning up -/

theorem frameAddr_pred (f : ℕ) :
    (frameAddr (f + 1) + 2 ^ 32 - kernelFrameSize) % 2 ^ 32 = frameAddr f % 2 ^ 32 := by
  unfold frameAddr
  rw [kernelFrameSize_eq]
  omega

/-- The frames from the last one recorded down to the first one of the range lose their entries. -/
theorem undoHwLoop_run (hpos : 0 < lo) (hf : lo + n ≤ 2 ^ 20) (hlow : ∀ f, physAddr ≤ frameAddr f ↔ lo ≤ f)
    (hentry : ∀ f, lo ≤ f → f < lo + n → dir.entry f ≠ 0) :
    ∃ dir', (∀ h, dir'.entry h = if lo ≤ h ∧ h < lo + n then 0 else dir.entry h) ∧
      undoHwLoop physAddr (n + 1) ((frameAddr (lo + n) + 2 ^ 32 - kernelFrameSize) % 2 ^ 32) dir = some dir' := by
  induction n generalizing dir with
  | zero =>
    refine ⟨dir, fun h => by rw [if_neg (by omega)], ?_⟩
    obtain ⟨k, rfl⟩ : ∃ k, lo = k + 1 := ⟨lo - 1, by omega⟩
    have hlt : frameAddr k % 2 ^ 32 = frameAddr k := Nat.mod_eq_of_lt (by unfold frameAddr; omega)
    rw [Nat.add_zero, frameAddr_pred, hlt, undoHwLoop, if_neg]
    rw [ge_iff_le, hlow]
    omega
  | succ n ih =>
    have hlt : frameAddr (lo + n) % 2 ^ 32 = frameAddr (lo + n) := Nat.mod_eq_of_lt (by unfold frameAddr; omega)
    rw [← Nat.add_assoc, frameAddr_pred, hlt, undoHwLoop, if_pos ((hlow _).mpr (by omega)), dirEntry_frameAddr]
    cases hdir : dir ((lo + n) / 1024) with
    | none => exact absurd (FrameRefDir.entry_of_none hdir) (hentry _ (by omega) (by omega))
    | some table =>
      have hclear := FrameRefDir.entry_clearEntry hdir
      have hleft : ∀ f, lo ≤ f → f < lo + n → (dir.clearEntry (frameAddr (lo + n)) table).entry f ≠ 0 := fun f h1 h2 => by
        rw [hclear, if_neg (by omega)]
        exact hentry f h1 (by omega)
      obtain ⟨dir', hdir', hrun⟩ := ih (by omega) hleft
      refine ⟨dir', fun h => ?_, hrun⟩
      rw [hdir', hclear]
      by_cases hin : lo ≤ h ∧ h < lo + n
      · rw [if_pos hin, if_pos (by omega)]
      · rw [if_neg hin]
        exact if_congr (by omega) rfl rfl

theorem undoHwLoop_mono (k : ℕ) (hrun : undoHwLoop physAddr fuel a dir = some dir') :
    undoHwLoop physAddr (fuel + k) a dir = some dir' := by
  induction fuel generalizing a dir with
  | zero => exact nomatch hrun
  | succ fuel ih =>
    rw [Nat.succ_add]
    rw [undoHwLoop] at hrun ⊢
    by_cases hge : a ≥ physAddr
    · rw [if_pos hge] at hrun ⊢
      cases hdir : dir (dirEntry a) with
      | none =>
        rw [hdir] at hrun
        exact nomatch hrun
      | some table =>
        rw [hdir] at hrun
        exact ih hrun
    · rw [if_neg hge] at hrun ⊢
      exact hrun

/-- At address zero there is no end. -/
theorem undoHwLoop_zero (fuel a : ℕ) (dir : FrameRefDir) : undoHwLoop 0 fuel a dir = none := by
  induction fuel generalizing a dir with
  | zero => rfl
  | succ fuel ih =>
    rw [undoHwLoop, if_pos (Nat.zero_le a)]
    cases dir (dirEntry a) with
    | none => rfl
    | some table => exact ih ..

/-- What the clean-up passes has no entry after it. -/
theorem undoHwLoop_clears (hpos : 0 < physAddr) (hf : f < 2 ^ 20) (hrun : undoHwLoop physAddr fuel (frameAddr f) dir = some dir')
    (h : ℕ) (hh : dir.entry h = 0 ∨ h ≤ f ∧ physAddr ≤ frameAddr h) : dir'.entry h = 0 := by
  induction fuel generalizing f dir with
  | zero => exact nomatch hrun
  | succ fuel ih =>
    rw [undoHwLoop] at hrun
    by_cases hge : frameAddr f ≥ physAddr
    · rw [if_pos hge, dirEntry_frameAddr] at hrun
      cases hdir : dir (f / 1024) with
      | none =>
        rw [hdir] at hrun
        exact nomatch hrun
      | some table =>
        obtain ⟨k, rfl⟩ : ∃ k, f = k + 1 := ⟨f - 1, by unfold frameAddr at hge; omega⟩
        have hlt : frameAddr k % 2 ^ 32 = frameAddr k := Nat.mod_eq_of_lt (by unfold frameAddr; omega)
        rw [hdir] at hrun
        dsimp only at hrun
        rw [frameAddr_pred, hlt] at hrun
        refine ih (by omega) hrun ?_
        rw [FrameRefDir.entry_clearEntry hdir]
        by_cases hk : h = k + 1
        · exact .inl (if_pos hk)
        · rw [if_neg hk]
          exact hh.imp_right fun hle => ⟨by omega, hle.2⟩
    · rw [if_neg hge] at hrun
      obtain rfl := Option.some.inj hrun
      refine hh.resolve_right fun hle => hge (hle.2.trans ?_)
      unfold frameAddr
      omega

/-- A clean-up that starts with the last frame of all destroys an entry. -/
theorem undoHwLoop_last (hlow : physAddr < 4096) (hrun : undoHwLoop physAddr fuel (frameAddr (2 ^ 20 - 1)) dir = some dir') :
    ∃ f < 2 ^ 20, dir'.entry f ≠ dir.entry f := by
  rcases Nat.eq_zero_or_pos physAddr with rfl | hpos
  · rw [undoHwLoop_zero] at hrun
    exact nomatch hrun
  have hclears := fun h hh => undoHwLoop_clears hpos (by omega) hrun h (.inr hh)
  suffices hex : ∃ f, 1023 * 1024 ≤ f ∧ f < 2 ^ 20 ∧ dir.entry f ≠ 0 by
    obtain ⟨f, h1, h2, hf⟩ := hex
    refine ⟨f, h2, ?_⟩
    rw [hclears f ⟨by omega, by unfold frameAddr; omega⟩]
    exact hf.symm
  by_contra hnone
  have hzero : ∀ f, 1023 * 1024 ≤ f → f < 2 ^ 20 → dir.entry f = 0 := fun f h1 h2 => by
    by_contra hf
    exact hnone ⟨f, h1, h2, hf⟩
  have hfirst : frameAddr (2 ^ 20 - 1) ≥ physAddr := by
    unfold frameAddr
    omega
  have hsecond : frameAddr (2 ^ 20 - 2) ≥ physAddr := by
    unfold frameAddr
    omega
  cases fuel with
  | zero => exact nomatch hrun
  | succ fuel =>
    rw [undoHwLoop, if_pos hfirst, dirEntry_frameAddr] at hrun
    cases hdir : dir ((2 ^ 20 - 1) / 1024) with
    | none =>
      rw [hdir] at hrun
      exact nomatch hrun
    | some table =>
      rw [hdir] at hrun
      dsimp only at hrun
      -- the last table has no other entry and is freed
      have hfreed : dir.clearEntry (frameAddr (2 ^ 20 - 1)) table ((2 ^ 20 - 2) / 1024) = none := by
        have hempty : ∀ i < frameRefTableSize, Function.update table (tableEntry (frameAddr (2 ^ 20 - 1))) 0 i = 0 := by
          intro i hi
          by_cases he : i = tableEntry (frameAddr (2 ^ 20 - 1))
          · rw [he, Function.update_self]
          · have hentry := hzero (1023 * 1024 + i) (by omega) (by unfold frameRefTableSize at hi; omega)
            have hsame : (1023 * 1024 + i) / 1024 = (2 ^ 20 - 1) / 1024 := by
              unfold frameRefTableSize at hi
              omega
            rw [FrameRefDir.entry_of_some (hsame ▸ hdir)] at hentry
            have hmod : (1023 * 1024 + i) % 1024 = i := by
              unfold frameRefTableSize at hi
              omega
            rw [hmod] at hentry
            rw [Function.update_of_ne he, hentry]
        unfold FrameRefDir.clearEntry
        rw [if_pos hempty, dirEntry_frameAddr]
        exact Function.update_self ..
      cases fuel with
      | zero => exact nomatch hrun
      | succ fuel =>
        have hnext : (frameAddr (2 ^ 20 - 1) + 2 ^ 32 - kernelFrameSize) % 2 ^ 32 = frameAddr (2 ^ 20 - 2) := by decide
        rw [hnext, undoHwLoop, if_pos hsecond, dirEntry_frameAddr, hfreed] at hrun
        exact nomatch hrun

end UtkKernel.Memory
