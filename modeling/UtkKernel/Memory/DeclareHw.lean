import UtkKernel.Memory.FrameTables

/-! # What `memory_declare_hw` declares

The range that is declared ends where the sum of the address and the size ends in 32 bits, and what an error undoes
ends at the address itself, not at the start of its frame. -/

namespace UtkKernel.Memory
open Structures
set_option autoImplicit false

/-- The frame has a byte of the range. -/
def InHwRange (physAddr size f : ℕ) : Prop := f < 2 ^ 20 ∧ ∃ a, physAddr ≤ a ∧ a < physAddr + size ∧ a / 4096 = f

def IsHwEntry (entry : ℕ) : Prop := entry &&& frameRefIsHw ≠ 0

/-- The call returns; without an error the frames of the range are hardware and the other ones are what they were, and
with one all are what they were. -/
def DeclaresHw (kmalloc : ℕ → Bool) (physAddr size : ℕ) (dir : FrameRefDir) : Prop :=
  ∃ fuel err dir', memoryDeclareHw kmalloc fuel physAddr size dir = some (err, dir') ∧
    (err = .osNoErr → ∀ f < 2 ^ 20, (InHwRange physAddr size f → IsHwEntry (dir'.entry f)) ∧
      (¬InHwRange physAddr size f → dir'.entry f = dir.entry f)) ∧
    (err ≠ .osNoErr → ∀ f < 2 ^ 20, dir'.entry f = dir.entry f)

/-! ## Inputs -/

/-- The frames that the first loop goes through, from the frame of the address on. -/
def Scanned (physAddr size f : ℕ) : Prop := physAddr / 4096 ≤ f ∧ frameAddr f < (physAddr + size) % 2 ^ 32

instance (physAddr size f : ℕ) : Decidable (Scanned physAddr size f) := inferInstanceAs (Decidable (_ ∧ _))

/-- The end lies in the last frame of all, where the loop does not find it. -/
def EndsInLast (physAddr size : ℕ) : Prop := frameAddr (2 ^ 20 - 1) < (physAddr + size) % 2 ^ 32

/-- The tables of the frames before the first one with an entry are there, or there is memory for them. -/
def TablesServed (kmalloc : ℕ → Bool) (physAddr size : ℕ) (dir : FrameRefDir) : Prop :=
  ∀ f, Scanned physAddr size f → (∀ h, physAddr / 4096 ≤ h → h ≤ f → dir.entry h = 0) → TableFor kmalloc dir f

/-- No frame that the loop goes through has an entry, and these are the ones of the range that are not hardware yet. -/
structure DeclaresAll (physAddr size : ℕ) (dir : FrameRefDir) : Prop where
  free : ∀ f, Scanned physAddr size f → dir.entry f = 0
  ends : ¬EndsInLast physAddr size
  inRange : ∀ f, Scanned physAddr size f → InHwRange physAddr size f
  complete : ∀ f, InHwRange physAddr size f → Scanned physAddr size f ∨ IsHwEntry (dir.entry f)

/-- A frame has an entry, and what was recorded before it is found again. -/
structure Undoes (physAddr size : ℕ) (dir : FrameRefDir) : Prop where
  low : 4096 ≤ physAddr
  present : (Scanned physAddr size (physAddr / 4096) ∧ dir.entry (physAddr / 4096) ≠ 0) ∨
    4096 ∣ physAddr ∧ ((∃ f, Scanned physAddr size f ∧ dir.entry f ≠ 0) ∨ EndsInLast physAddr size ∧ dir.entry 0 ≠ 0)

variable {kmalloc : ℕ → Bool} {limit physAddr size f n fuel a : ℕ} {dir dir' dir1 : FrameRefDir} {err : OsReturnE}

/-! ## Results -/

/-- The clean-up ends with the old entries. -/
def Restores (physAddr a : ℕ) (dir1 dir : FrameRefDir) : Prop :=
  ∃ fuel dir', undoHwLoop physAddr fuel a dir1 = some dir' ∧ ∀ f < 2 ^ 20, dir'.entry f = dir.entry f

theorem restores_iff (hrun : undoHwLoop physAddr fuel a dir1 = some dir') :
    Restores physAddr a dir1 dir ↔ ∀ f < 2 ^ 20, dir'.entry f = dir.entry f := by
  constructor
  · rintro ⟨fuel2, dir2, hrun2, hsame⟩
    have h1 := undoHwLoop_mono fuel2 hrun
    have h2 := undoHwLoop_mono fuel hrun2
    rw [Nat.add_comm, h1] at h2
    exact Option.some.inj h2 ▸ hsame
  · exact fun hsame => ⟨fuel, dir', hrun, hsame⟩

section
variable (hrun : declareHwLoop kmalloc ((physAddr + size) % 2 ^ 32) fuel (frameAddr (physAddr / 4096)) dir = some (err, a, dir1))
include hrun

theorem memoryDeclareHw_eq (k : ℕ) : memoryDeclareHw kmalloc (fuel + k) physAddr size dir =
    if err ≠ .osNoErr then (undoHwLoop physAddr (fuel + k) a dir1).map fun dir => (err, dir) else some (err, dir1) := by
  have hstart : physAddr / kernelFrameSize * kernelFrameSize = frameAddr (physAddr / 4096) := rfl
  unfold memoryDeclareHw
  rw [hstart, declareHwLoop_mono k hrun]

theorem memoryDeclareHw_inj {fuel2 : ℕ} {r : OsReturnE × FrameRefDir}
    (hcall : memoryDeclareHw kmalloc fuel2 physAddr size dir = some r) :
    r.1 = err ∧ (err = .osNoErr → r.2 = dir1) ∧
      (err ≠ .osNoErr → undoHwLoop physAddr fuel2 a dir1 = some r.2) := by
  have hstart : physAddr / kernelFrameSize * kernelFrameSize = frameAddr (physAddr / 4096) := rfl
  unfold memoryDeclareHw at hcall
  rw [hstart] at hcall
  cases hloop : declareHwLoop kmalloc ((physAddr + size) % 2 ^ 32) fuel2 (frameAddr (physAddr / 4096)) dir with
  | none =>
    rw [hloop] at hcall
    exact nomatch hcall
  | some r2 =>
    have h1 := declareHwLoop_mono fuel2 hrun
    have h2 := declareHwLoop_mono fuel hloop
    rw [Nat.add_comm fuel2, h1] at h2
    obtain rfl := Option.some.inj h2
    rw [hloop] at hcall
    dsimp only at hcall
    by_cases herr : err ≠ .osNoErr
    · rw [if_pos herr] at hcall
      obtain ⟨dir2, hundo, rfl⟩ := Option.map_eq_some_iff.mp hcall
      exact ⟨rfl, fun h => absurd h herr, fun _ => hundo⟩
    · rw [if_neg herr] at hcall
      obtain rfl := Option.some.inj hcall
      exact ⟨rfl, fun _ => rfl, fun h => absurd h herr⟩

theorem declaresHw_of_noErr (herr : err = .osNoErr) : DeclaresHw kmalloc physAddr size dir ↔
    ∀ f < 2 ^ 20, (InHwRange physAddr size f → IsHwEntry (dir1.entry f)) ∧
      (¬InHwRange physAddr size f → dir1.entry f = dir.entry f) := by
  constructor
  · rintro ⟨fuel2, err2, dir2, hcall, hok, -⟩
    obtain ⟨herr2, hdir, -⟩ := memoryDeclareHw_inj hrun hcall
    exact hdir herr ▸ hok (herr2.trans herr)
  · intro hall
    refine ⟨fuel, err, dir1, ?_, fun _ => hall, fun h => absurd herr h⟩
    have hcall := memoryDeclareHw_eq hrun 0
    rwa [if_neg (not_not.mpr herr)] at hcall

theorem declaresHw_of_err (herr : err ≠ .osNoErr) :
    DeclaresHw kmalloc physAddr size dir ↔ Restores physAddr a dir1 dir := by
  constructor
  · rintro ⟨fuel2, err2, dir2, hcall, -, hsame⟩
    obtain ⟨herr2, -, hundo⟩ := memoryDeclareHw_inj hrun hcall
    exact ⟨fuel2, dir2, hundo herr, hsame (herr2.trans_ne herr)⟩
  · rintro ⟨fuel2, dir2, hundo, hsame⟩
    refine ⟨fuel + fuel2, err, dir2, ?_, fun h => absurd h herr, fun _ => hsame⟩
    rw [memoryDeclareHw_eq hrun, if_pos herr, Nat.add_comm, undoHwLoop_mono fuel hundo]
    rfl

end

theorem not_declaresHw
    (hrun : ∀ fuel, declareHwLoop kmalloc ((physAddr + size) % 2 ^ 32) fuel (frameAddr (physAddr / 4096)) dir = none) :
    ¬DeclaresHw kmalloc physAddr size dir := by
  rintro ⟨fuel, err, dir', hcall, -⟩
  have hstart : physAddr / kernelFrameSize * kernelFrameSize = frameAddr (physAddr / 4096) := rfl
  unfold memoryDeclareHw at hcall
  rw [hstart, hrun] at hcall
  exact nomatch hcall

/-! ## After an error -/

theorem hwEntry_ne_zero : hwEntry ≠ 0 := by decide

theorem isHwEntry_hwEntry : IsHwEntry hwEntry := by
  unfold IsHwEntry
  decide

/-- The frames that were recorded lose their entries if the first one of them starts at the address. -/
theorem restores_recorded_iff (hrec : Recorded dir dir1 (physAddr / 4096) n) (hpos : 0 < n)
    (hbound : physAddr / 4096 + n ≤ 2 ^ 20) (hzero : ∀ i < n, dir.entry (physAddr / 4096 + i) = 0) :
    Restores physAddr ((frameAddr (physAddr / 4096 + n) + 2 ^ 32 - kernelFrameSize) % 2 ^ 32) dir1 dir ↔
      4096 ≤ physAddr ∧ 4096 ∣ physAddr := by
  have hhw : ∀ f, physAddr / 4096 ≤ f → f < physAddr / 4096 + n → dir1.entry f ≠ 0 := fun f h1 h2 => by
    rw [hrec.entry, if_pos ⟨h1, h2⟩]
    exact hwEntry_ne_zero
  by_cases haligned : 4096 ∣ physAddr
  · rcases Nat.eq_zero_or_pos physAddr with rfl | hphys
    · refine iff_of_false ?_ (fun h => absurd h.1 (by decide))
      rintro ⟨fuel, dir', hrun, -⟩
      rw [undoHwLoop_zero] at hrun
      exact nomatch hrun
    · have hlow : ∀ f, physAddr ≤ frameAddr f ↔ physAddr / 4096 ≤ f := fun f => by
        unfold frameAddr
        omega
      obtain ⟨dir2, hdir2, hrun⟩ := undoHwLoop_run (show 0 < physAddr / 4096 by omega) hbound hlow hhw
      refine iff_of_true ((restores_iff hrun).mpr fun f _ => ?_) ⟨by omega, haligned⟩
      rw [hdir2]
      by_cases hin : physAddr / 4096 ≤ f ∧ f < physAddr / 4096 + n
      · have hentry := hzero (f - physAddr / 4096) (by omega)
        rw [Nat.add_sub_of_le hin.1] at hentry
        rw [if_pos hin, hentry]
      · rw [if_neg hin, hrec.entry, if_neg hin]
  · refine iff_of_false (fun hrestores => ?_) fun h => haligned h.2
    -- the frame of the address itself starts before the address
    have hlow : ∀ f, physAddr ≤ frameAddr f ↔ physAddr / 4096 + 1 ≤ f := fun f => by
      unfold frameAddr
      omega
    obtain ⟨dir2, hdir2, hrun⟩ := undoHwLoop_run (show 0 < physAddr / 4096 + 1 by omega)
      (show physAddr / 4096 + 1 + (n - 1) ≤ 2 ^ 20 by omega) hlow fun f h1 h2 => hhw f (by omega) (by omega)
    rw [show physAddr / 4096 + 1 + (n - 1) = physAddr / 4096 + n by omega] at hrun
    have hleft := (restores_iff hrun).mp hrestores (physAddr / 4096) (by omega)
    rw [hdir2, if_neg (by omega), hrec.entry, if_pos (by omega)] at hleft
    exact hwEntry_ne_zero (hleft.trans (hzero 0 hpos))

/-- An error before anything was recorded. -/
theorem restores_first_iff (haddr : physAddr < 2 ^ 32) (hsame1 : ∀ h, dir1.entry h = dir.entry h) :
    Restores physAddr ((frameAddr (physAddr / 4096) + 2 ^ 32 - kernelFrameSize) % 2 ^ 32) dir1 dir ↔
      4096 ≤ physAddr := by
  by_cases hlow : 4096 ≤ physAddr
  · obtain ⟨k, hk⟩ : ∃ k, physAddr / 4096 = k + 1 := ⟨physAddr / 4096 - 1, by omega⟩
    have hlt : frameAddr k % 2 ^ 32 = frameAddr k := Nat.mod_eq_of_lt (by unfold frameAddr; omega)
    have hrun : undoHwLoop physAddr 1 (frameAddr k) dir1 = some dir1 := by
      rw [undoHwLoop, if_neg]
      unfold frameAddr
      omega
    rw [hk, frameAddr_pred, hlt]
    exact iff_of_true ((restores_iff hrun).mpr fun h _ => hsame1 h) hlow
  · refine iff_of_false ?_ hlow
    rintro ⟨fuel, dir', hrun, hsame⟩
    rw [show physAddr / 4096 = 0 by omega] at hrun
    obtain ⟨f, hf, hne⟩ := undoHwLoop_last (not_le.mp hlow) hrun
    exact hne ((hsame f hf).trans (hsame1 f).symm)

/-- Frames that are recorded before the address stay. -/
theorem not_restores_low (hrec : Recorded dir dir1 0 n) (hn : n ≤ physAddr / 4096) (hpos : 0 < n) {old : FrameRefDir}
    (hne : dir.entry (physAddr / 4096) ≠ old.entry (physAddr / 4096)) (haddr : physAddr < 2 ^ 32) :
    ¬Restores physAddr ((frameAddr n + 2 ^ 32 - kernelFrameSize) % 2 ^ 32) dir1 old := by
  obtain ⟨k, rfl⟩ : ∃ k, n = k + 1 := ⟨n - 1, by omega⟩
  have hlt : frameAddr k % 2 ^ 32 = frameAddr k := Nat.mod_eq_of_lt (by unfold frameAddr; omega)
  have hrun : undoHwLoop physAddr 1 (frameAddr k) dir1 = some dir1 := by
    rw [undoHwLoop, if_neg]
    unfold frameAddr
    omega
  rw [frameAddr_pred, hlt, restores_iff hrun]
  intro hsame
  have hentry := hsame (physAddr / 4096) (by omega)
  rw [hrec.entry, if_neg (by omega)] at hentry
  exact hne hentry

/-! ## All inputs -/

theorem Scanned.lt (h : Scanned physAddr size f) : f < 2 ^ 20 := by
  have hlt := h.2
  unfold frameAddr at hlt
  omega

theorem Scanned.of_le {g : ℕ} (h : Scanned physAddr size f) (hg : physAddr / 4096 ≤ g) (hle : g ≤ f) :
    Scanned physAddr size g := by
  refine ⟨hg, lt_of_le_of_lt ?_ h.2⟩
  unfold frameAddr
  omega

/-- The loop stops, or it goes on with the first frame of all. -/
theorem exists_stop (physAddr size : ℕ) (dir : FrameRefDir) (haddr : physAddr < 2 ^ 32) :
    ∃ n, physAddr / 4096 + n ≤ 2 ^ 20 ∧
      (∀ i < n, Scanned physAddr size (physAddr / 4096 + i) ∧ dir.entry (physAddr / 4096 + i) = 0) ∧
      ¬(Scanned physAddr size (physAddr / 4096 + n) ∧ dir.entry (physAddr / 4096 + n) = 0) := by
  have hex : ∃ n, ¬(Scanned physAddr size (physAddr / 4096 + n) ∧ dir.entry (physAddr / 4096 + n) = 0) := by
    refine ⟨2 ^ 20, fun h => ?_⟩
    have hlt := h.1.lt
    omega
  have hmin : ∀ i < Nat.find hex, Scanned physAddr size (physAddr / 4096 + i) ∧ dir.entry (physAddr / 4096 + i) = 0 :=
    fun i hi => not_not.mp (Nat.find_min hex hi)
  refine ⟨Nat.find hex, ?_, hmin, Nat.find_spec hex⟩
  by_contra hgt
  have hlt := (hmin (2 ^ 20 - physAddr / 4096) (by omega)).1.lt
  omega

section
variable (hmin : ∀ i < n, Scanned physAddr size (physAddr / 4096 + i) ∧ dir.entry (physAddr / 4096 + i) = 0)
include hmin

theorem tablesServed_iff
    (hstop : ¬(Scanned physAddr size (physAddr / 4096 + n) ∧ dir.entry (physAddr / 4096 + n) = 0)) :
    TablesServed kmalloc physAddr size dir ↔ ∀ i < n, TableFor kmalloc dir (physAddr / 4096 + i) := by
  constructor
  · intro hserved i hi
    refine hserved _ (hmin i hi).1 fun h h1 h2 => ?_
    have hentry := (hmin (h - physAddr / 4096) (by omega)).2
    rwa [Nat.add_sub_of_le h1] at hentry
  · intro hall f hf hzero
    have hlt : f < physAddr / 4096 + n := by
      by_contra hge
      exact hstop ⟨hf.of_le (Nat.le_add_right ..) (by omega), hzero _ (Nat.le_add_right ..) (by omega)⟩
    have htable := hall (f - physAddr / 4096) (by have hle := hf.1; omega)
    rwa [Nat.add_sub_of_le hf.1] at htable

theorem scanned_iff_lt (hend : ¬Scanned physAddr size (physAddr / 4096 + n)) :
    Scanned physAddr size f ↔ physAddr / 4096 ≤ f ∧ f < physAddr / 4096 + n := by
  constructor
  · intro hf
    refine ⟨hf.1, ?_⟩
    by_contra hge
    exact hend (hf.of_le (Nat.le_add_right ..) (by omega))
  · rintro ⟨hle, hlt⟩
    have hf := (hmin (f - physAddr / 4096) (by omega)).1
    rwa [Nat.add_sub_of_le hle] at hf

theorem entry_eq_zero (hend : ¬Scanned physAddr size (physAddr / 4096 + n)) (hf : Scanned physAddr size f) :
    dir.entry f = 0 := by
  obtain ⟨hle, hlt⟩ := (scanned_iff_lt hmin hend).mp hf
  have hentry := (hmin (f - physAddr / 4096) (by omega)).2
  rwa [Nat.add_sub_of_le hle] at hentry

/-- The loop is at its end. -/
theorem declares_of_end (hrec : Recorded dir dir1 (physAddr / 4096) n) (hlt : physAddr / 4096 + n < 2 ^ 20)
    (hend : ¬Scanned physAddr size (physAddr / 4096 + n)) :
    (∀ f < 2 ^ 20, (InHwRange physAddr size f → IsHwEntry (dir1.entry f)) ∧
      (¬InHwRange physAddr size f → dir1.entry f = dir.entry f)) ↔
      DeclaresAll physAddr size dir ∨ Undoes physAddr size dir := by
  have hscanned : ∀ f, Scanned physAddr size f ↔ physAddr / 4096 ≤ f ∧ f < physAddr / 4096 + n :=
    fun f => scanned_iff_lt hmin hend
  have hzero : ∀ f, Scanned physAddr size f → dir.entry f = 0 := fun f hf => entry_eq_zero hmin hend hf
  have hlast : ¬EndsInLast physAddr size := fun hlast => by
    refine hend ⟨Nat.le_add_right .., lt_of_le_of_lt ?_ hlast⟩
    unfold frameAddr
    omega
  have hundoes : ¬Undoes physAddr size dir := by
    rintro ⟨-, ⟨hf, hne⟩ | ⟨-, ⟨f, hf, hne⟩ | ⟨hl, -⟩⟩⟩
    · exact hne (hzero _ hf)
    · exact hne (hzero f hf)
    · exact hlast hl
  rw [or_iff_left hundoes]
  constructor
  · intro hall
    refine ⟨hzero, hlast, fun f hf => ?_, fun f hf => ?_⟩
    · by_contra hout
      have hsame := (hall f hf.lt).2 hout
      rw [hrec.entry, if_pos ((hscanned f).mp hf), hzero f hf] at hsame
      exact hwEntry_ne_zero hsame
    · refine or_iff_not_imp_left.mpr fun hnot => ?_
      have hhw := (hall f hf.1).1 hf
      rwa [hrec.entry, if_neg fun h => hnot ((hscanned f).mpr h)] at hhw
  · intro hdeclares f hf
    rw [hrec.entry]
    by_cases hin : physAddr / 4096 ≤ f ∧ f < physAddr / 4096 + n
    · rw [if_pos hin]
      exact ⟨fun _ => isHwEntry_hwEntry, fun hout => absurd (hdeclares.inRange f ((hscanned f).mpr hin)) hout⟩
    · rw [if_neg hin]
      exact ⟨fun hr => (hdeclares.complete f hr).resolve_left fun h => hin ((hscanned f).mp h), fun _ => rfl⟩

/-- An entry was found. -/
theorem undoes_of_present (hscanned : Scanned physAddr size (physAddr / 4096 + n))
    (hne : dir.entry (physAddr / 4096 + n) ≠ 0) :
    DeclaresAll physAddr size dir ∨ Undoes physAddr size dir ↔ 4096 ≤ physAddr ∧ (n = 0 ∨ 4096 ∣ physAddr) := by
  have hall : ¬DeclaresAll physAddr size dir := fun h => hne (h.free _ hscanned)
  rw [or_iff_right hall]
  constructor
  · rintro ⟨hlow, ⟨-, hfirst⟩ | ⟨haligned, -⟩⟩
    · refine ⟨hlow, .inl ?_⟩
      by_contra hn
      exact hfirst (hmin 0 (by omega)).2
    · exact ⟨hlow, .inr haligned⟩
  · rintro ⟨hlow, rfl | haligned⟩
    · exact ⟨hlow, .inl ⟨hscanned, hne⟩⟩
    · exact ⟨hlow, .inr ⟨haligned, .inl ⟨_, hscanned, hne⟩⟩⟩

/-- The loop came to the end of the memory. -/
theorem undoes_of_wrap (hlast : physAddr / 4096 + n = 2 ^ 20) (haddr : physAddr < 2 ^ 32) :
    DeclaresAll physAddr size dir ∨ Undoes physAddr size dir ↔
      4096 ≤ physAddr ∧ 4096 ∣ physAddr ∧ dir.entry 0 ≠ 0 := by
  have hend : ¬Scanned physAddr size (physAddr / 4096 + n) := fun h => by
    have hlt := h.lt
    omega
  have hzero : ∀ f, Scanned physAddr size f → dir.entry f = 0 := fun f hf => entry_eq_zero hmin hend hf
  have hends : EndsInLast physAddr size := by
    have hf := (hmin (n - 1) (by omega)).1
    rw [show physAddr / 4096 + (n - 1) = 2 ^ 20 - 1 by omega] at hf
    exact hf.2
  rw [or_iff_right fun h => h.ends hends]
  constructor
  · rintro ⟨hlow, ⟨hf, hne⟩ | ⟨haligned, ⟨f, hf, hne⟩ | ⟨-, hne⟩⟩⟩
    · exact absurd (hzero _ hf) hne
    · exact absurd (hzero f hf) hne
    · exact ⟨hlow, haligned, hne⟩
  · rintro ⟨hlow, haligned, hne⟩
    exact ⟨hlow, .inr ⟨haligned, .inr ⟨hends, hne⟩⟩⟩

end

/-- The second time round, from the first frame of all on. -/
theorem declaresHw_of_wrap (haddr : physAddr < 2 ^ 32) (hlast : physAddr / 4096 + n = 2 ^ 20)
    (hmin : ∀ i < n, Scanned physAddr size (physAddr / 4096 + i) ∧ dir.entry (physAddr / 4096 + i) = 0)
    (hrec : Recorded dir dir1 (physAddr / 4096) n)
    (hrun : ∀ fuel, declareHwLoop kmalloc ((physAddr + size) % 2 ^ 32) (fuel + n) (frameAddr (physAddr / 4096)) dir =
      declareHwLoop kmalloc ((physAddr + size) % 2 ^ 32) fuel (frameAddr 0) dir1) :
    DeclaresHw kmalloc physAddr size dir ↔ 4096 ≤ physAddr ∧ 4096 ∣ physAddr ∧ dir.entry 0 ≠ 0 := by
  have hpos : 0 < n := by omega
  have hlimit : ∀ f < 2 ^ 20, frameAddr f < (physAddr + size) % 2 ^ 32 := fun f hf => by
    have hlt := (hmin (n - 1) (by omega)).1.2
    have hle : f ≤ physAddr / 4096 + (n - 1) := by omega
    exact lt_of_le_of_lt (Nat.mul_le_mul_right 4096 hle) hlt
  have hfirst : dir1.entry (physAddr / 4096) = hwEntry := by
    rw [hrec.entry, if_pos (by omega)]
  have hold : dir.entry (physAddr / 4096) = 0 := (hmin 0 hpos).2
  have hzero1 : 4096 ≤ physAddr → dir1.entry 0 = dir.entry 0 := fun hlow => by
    rw [hrec.entry, if_neg (by omega)]
  by_cases hpresent : dir1.entry 0 ≠ 0
  · have hloop := (hrun 1).trans (declareHwLoop_present (hlimit 0 (by decide)) hpresent 0)
    have haddr0 : (frameAddr 0 + 2 ^ 32 - kernelFrameSize) % 2 ^ 32 =
        (frameAddr (physAddr / 4096 + n) + 2 ^ 32 - kernelFrameSize) % 2 ^ 32 := by
      rw [hlast]
      decide
    rw [declaresHw_of_err hloop (by decide), haddr0,
      restores_recorded_iff hrec hpos hlast.le fun i hi => (hmin i hi).2]
    refine and_congr_right fun hlow => (and_iff_left ?_).symm
    rwa [← hzero1 hlow]
  · have hfree := not_not.mp hpresent
    refine iff_of_false ?_ fun h => h.2.2 ((hzero1 h.1).symm.trans hfree)
    have hex : ∃ m, dir1.entry m ≠ 0 := ⟨_, hfirst ▸ hwEntry_ne_zero⟩
    obtain ⟨m, hm, hmin1⟩ : ∃ m, dir1.entry m ≠ 0 ∧ ∀ i < m, dir1.entry i = 0 :=
      ⟨Nat.find hex, Nat.find_spec hex, fun i hi => not_not.mp (Nat.find_min hex hi)⟩
    have hmpos : 0 < m := by
      by_contra hnot
      rw [show m = 0 by omega] at hm
      exact hm hfree
    have hmle : m ≤ physAddr / 4096 := by
      by_contra hgt
      exact hwEntry_ne_zero (hfirst.symm.trans (hmin1 _ (by omega)))
    by_cases hserved : ∀ i < m, TableFor kmalloc dir1 (0 + i)
    · obtain ⟨dir2, hrec2, hrun2⟩ := declareHwLoop_run (f := 0) (n := m) (by omega) fun i hi =>
        ⟨hlimit _ (by omega), by rw [Nat.zero_add, hmin1 i hi], hserved i hi⟩
      have hm2 : dir2.entry m ≠ 0 := by
        rwa [hrec2.entry, if_neg (by omega)]
      have hmod : frameAddr (0 + m) % 2 ^ 32 = frameAddr m := by
        unfold frameAddr
        omega
      have hloop2 := hrun2 1
      rw [show frameAddr 0 % 2 ^ 32 = frameAddr 0 from rfl, hmod, declareHwLoop_present (hlimit m (by omega)) hm2] at hloop2
      have hloop := (hrun (1 + m)).trans hloop2
      rw [declaresHw_of_err hloop (by decide)]
      refine not_restores_low hrec2 hmle hmpos ?_ haddr
      rw [hfirst, hold]
      exact hwEntry_ne_zero
    · push Not at hserved
      obtain ⟨i, hi, hnot⟩ := hserved
      refine not_declaresHw fun fuel => ?_
      have hnone := declareHwLoop_none (f := 0) (n := m) (by omega)
        (fun i hi => ⟨hlimit _ (by omega), by rw [Nat.zero_add, hmin1 i hi]⟩) ⟨i, hi, hnot⟩ fuel
      have hall := (hrun fuel).trans hnone
      cases hcase : declareHwLoop kmalloc ((physAddr + size) % 2 ^ 32) fuel (frameAddr (physAddr / 4096)) dir with
      | none => rfl
      | some r =>
        rw [declareHwLoop_mono n hcase] at hall
        exact nomatch hall

/-- `memory_declare_hw` is exact and undoes what it did exactly on these inputs. -/
theorem memoryDeclareHw_declares_iff (kmalloc : ℕ → Bool) (physAddr size : ℕ) (dir : FrameRefDir)
    (haddr : physAddr < 2 ^ 32) :
    DeclaresHw kmalloc physAddr size dir ↔ TablesServed kmalloc physAddr size dir ∧
      (DeclaresAll physAddr size dir ∨ Undoes physAddr size dir) := by
  obtain ⟨n, hbound, hmin, hstop⟩ := exists_stop physAddr size dir haddr
  have hstart : frameAddr (physAddr / 4096) % 2 ^ 32 = frameAddr (physAddr / 4096) :=
    Nat.mod_eq_of_lt (by unfold frameAddr; omega)
  rw [tablesServed_iff hmin hstop]
  by_cases hserved : ∀ i < n, TableFor kmalloc dir (physAddr / 4096 + i)
  swap
  · refine iff_of_false (not_declaresHw fun fuel => ?_) fun h => hserved h.1
    push Not at hserved
    obtain ⟨i, hi, hnot⟩ := hserved
    rw [← hstart]
    exact declareHwLoop_none hbound (fun i hi => ⟨(hmin i hi).1.2, (hmin i hi).2⟩) ⟨i, hi, hnot⟩ fuel
  rw [and_iff_right hserved]
  obtain ⟨dir1, hrec, hrun⟩ := declareHwLoop_run hbound fun i hi => ⟨(hmin i hi).1.2, (hmin i hi).2, hserved i hi⟩
  rw [hstart] at hrun
  rcases hbound.lt_or_eq with hlt | hlast
  · have hmod : frameAddr (physAddr / 4096 + n) % 2 ^ 32 = frameAddr (physAddr / 4096 + n) :=
      Nat.mod_eq_of_lt (by unfold frameAddr; omega)
    rw [hmod] at hrun
    by_cases hscanned : Scanned physAddr size (physAddr / 4096 + n)
    · have hne : dir.entry (physAddr / 4096 + n) ≠ 0 := fun h => hstop ⟨hscanned, h⟩
      have hne1 : dir1.entry (physAddr / 4096 + n) ≠ 0 := by
        rwa [hrec.entry, if_neg (by omega)]
      have hloop := (hrun 1).trans (declareHwLoop_present hscanned.2 hne1 0)
      rw [declaresHw_of_err hloop (by decide), undoes_of_present hmin hscanned hne]
      rcases Nat.eq_zero_or_pos n with rfl | hpos
      · rw [Nat.add_zero, restores_first_iff haddr fun h => by rw [hrec.entry, if_neg (by omega)]]
        exact ⟨fun hlow => ⟨hlow, .inl rfl⟩, fun h => h.1⟩
      · rw [restores_recorded_iff hrec hpos hbound fun i hi => (hmin i hi).2]
        exact and_congr_right fun _ => (or_iff_right hpos.ne').symm
    · have hloop : declareHwLoop kmalloc ((physAddr + size) % 2 ^ 32) (1 + n) (frameAddr (physAddr / 4096)) dir =
          some (.osNoErr, frameAddr (physAddr / 4096 + n), dir1) := by
        rw [hrun, declareHwLoop, if_neg fun h => hscanned ⟨Nat.le_add_right .., h⟩]
      rw [declaresHw_of_noErr hloop rfl]
      exact declares_of_end hmin hrec hlt hscanned
  · rw [undoes_of_wrap hmin hlast haddr]
    refine declaresHw_of_wrap haddr hlast hmin hrec fun fuel => ?_
    rw [hrun, hlast]
    rfl

/-- One byte of the second frame. -/
theorem memoryDeclareHw_declares_one : DeclaresHw (fun _ => true) 0x1000 1 fun _ => none := by
  refine (memoryDeclareHw_declares_iff _ _ _ _ (by decide)).mpr ⟨fun _ _ _ => .inr rfl, .inl ⟨fun _ _ => rfl, ?_, ?_, ?_⟩⟩
  · unfold EndsInLast frameAddr
    decide
  · rintro f ⟨h1, h2⟩
    unfold frameAddr at h2
    exact ⟨by omega, 0x1000, le_rfl, by decide, by omega⟩
  · rintro f ⟨-, a, h1, h2, rfl⟩
    refine .inl ⟨by omega, ?_⟩
    unfold frameAddr
    omega

/-- The last frame of all is not recorded, and there is no error. -/
theorem memoryDeclareHw_last : ¬∀ (kmalloc : ℕ → Bool) (physAddr size : ℕ) (dir : FrameRefDir),
    physAddr < 2 ^ 32 → size < 2 ^ 32 → DeclaresHw kmalloc physAddr size dir := by
  intro hall
  have hloop : declareHwLoop (fun _ => true) ((0xFFFFF000 + 0x1000) % 2 ^ 32) 1 (frameAddr (0xFFFFF000 / 4096))
      (fun _ => none) = some (.osNoErr, frameAddr (0xFFFFF000 / 4096), fun _ => none) := by
    rw [declareHwLoop, if_neg (by decide)]
  have hbad := (declaresHw_of_noErr hloop rfl).mp (hall _ _ _ _ (by decide) (by decide)) 0xFFFFF (by decide)
  exact hbad.1 ⟨by decide, 0xFFFFF000, le_rfl, by decide, by decide⟩ rfl

end UtkKernel.Memory
