import UtkKernel.Acpi.Tables

/-! # Walks over the tables of the firmware

A walk over a list of tables ends inside of it if the list has at most 255 bytes, in whole pointers. A walk over the
entries of a MADT ends inside of it if the entries do. -/

namespace UtkKernel.Acpi
open Foundations
set_option autoImplicit false

variable {mem : FirmwareMemory} {table a entry limit : BitVec 32} {dispatch : BitVec 32 → Option OsReturnE}
  {signature : BitVec 32}

/-- A table extends over its header, of a size, and over its length. -/
def InTable (size : ℕ) (mem : FirmwareMemory) (table a : BitVec 32) : Prop :=
  (a - table).toNat < max size (headerLength mem table).toNat

/-- A memory that holds nothing but some bytes, from one address on. -/
def tableMemory (bytes : List (BitVec 8)) : FirmwareMemory := fun a => (bytes[(a - 0x1000#32).toNat]?).getD 0

/-! ## Sums -/

theorem bytesFrom_succ (a : BitVec 32) (n : ℕ) : bytesFrom a (n + 1) = bytesFrom a n ++ [a + BitVec.ofNat 32 n] := by
  unfold bytesFrom
  rw [List.range_succ, List.map_append]
  rfl

theorem byteSum_succ (mem : FirmwareMemory) (table : BitVec 32) (n : ℕ) :
    byteSum mem table (n + 1) = byteSum mem table n + mem (table + BitVec.ofNat 32 n) := by
  unfold byteSum
  rw [bytesFrom_succ, List.map_append, List.sum_append]
  simp

theorem mem_bytesFrom {n : ℕ} : a ∈ bytesFrom table n ↔ ∃ i < n, table + BitVec.ofNat 32 i = a := by
  unfold bytesFrom
  rw [List.mem_map]
  exact exists_congr fun i => and_congr_left' List.mem_range

theorem inTable_bytesFrom (size : ℕ) (h : a ∈ bytesFrom table (headerLength mem table).toNat) : InTable size mem table a := by
  obtain ⟨i, hi, rfl⟩ := mem_bytesFrom.mp h
  have hoffset : (table + BitVec.ofNat 32 i - table).toNat = i := by bv_omega
  unfold InTable
  omega

/-- The sum of at most 255 bytes ends. -/
theorem sum_returns (hlength : (headerLength mem table).toNat ≤ 255) {i n : ℕ}
    (hn : i + n = (headerLength mem table).toNat) :
    Returns (sumStep mem table) ⟨BitVec.ofNat 8 i, byteSum mem table i, bytesFrom table i⟩
      ⟨BitVec.ofNat 8 (i + n), byteSum mem table (i + n), bytesFrom table (i + n)⟩ := by
  induction n generalizing i with
  | zero =>
    have htoNat : (BitVec.ofNat 8 i).toNat = i := by bv_omega
    refine .done ?_
    rw [sumStep, if_neg]
    · rfl
    · dsimp only
      omega
  | succ n ih =>
    have htoNat : (BitVec.ofNat 8 i).toNat = i := by bv_omega
    have hindex : (BitVec.ofNat 8 i).zeroExtend 32 = BitVec.ofNat 32 i := by bv_omega
    have hnext : BitVec.ofNat 8 i + 1 = BitVec.ofNat 8 (i + 1) := by bv_omega
    have hrest := ih (i := i + 1) (by omega)
    rw [show i + 1 + n = i + (n + 1) by omega] at hrest
    refine .next ?_ hrest
    rw [sumStep, if_pos]
    · dsimp only
      rw [hindex, hnext, byteSum_succ, bytesFrom_succ]
    · dsimp only
      omega

/-- The sum of more bytes does not: no index of 8 bits is behind them. -/
theorem sum_not_returns (hlength : 255 < (headerLength mem table).toNat) (s s' : SumState) :
    ¬Returns (sumStep mem table) s s' := by
  refine not_returns (fun _ => True) trivial (fun s _ => ?_) s'
  have hlt : s.i.toNat < (headerLength mem table).toNat := by
    have := s.i.isLt
    omega
  exact ⟨_, by rw [sumStep, if_pos hlt], trivial⟩

/-! ## Lists of tables -/

section
variable {rangeEnd : BitVec 32} {s : RangeState} {run : TableRun} {n r : ℕ}

theorem rangeStep_end (h : ¬s.rangeBegin < rangeEnd) :
    rangeStep dispatch mem rangeEnd s = .inl ⟨s.reads, s.tables, .osNoErr⟩ := by rw [rangeStep, if_neg h]

theorem rangeStep_next (h : s.rangeBegin < rangeEnd) (hdispatch : dispatch (read32 mem s.rangeBegin) = some .osNoErr) :
    rangeStep dispatch mem rangeEnd s =
      .inr ⟨s.rangeBegin + 4, s.reads ++ bytesFrom s.rangeBegin 4, s.tables ++ [read32 mem s.rangeBegin]⟩ := by
  rw [rangeStep, if_pos h]
  dsimp only
  rw [hdispatch]
  rfl

theorem rangeStep_panic {err : OsReturnE} (h : s.rangeBegin < rangeEnd) (herr : err ≠ .osNoErr)
    (hdispatch : dispatch (read32 mem s.rangeBegin) = some err) :
    rangeStep dispatch mem rangeEnd s =
      .inl ⟨s.reads ++ bytesFrom s.rangeBegin 4, s.tables ++ [read32 mem s.rangeBegin], err⟩ := by
  rw [rangeStep, if_pos h]
  dsimp only
  rw [hdispatch]
  exact if_neg herr

/-- With whole pointers up to its end, a walk ends inside of the table. -/
theorem range_inside (hreturns : ∀ a, dispatch a ≠ none) (hbegin : s.rangeBegin.toNat + 4 * n = rangeEnd.toNat)
    (hoffset : (s.rangeBegin - table).toNat + 4 * n = (headerLength mem table).toNat)
    (hreads : ∀ a ∈ s.reads, InTable headerSize mem table a) :
    ∃ run, Returns (rangeStep dispatch mem rangeEnd) s run ∧ ∀ a ∈ run.reads, InTable headerSize mem table a := by
  induction n generalizing s with
  | zero => exact ⟨_, .done (rangeStep_end (by bv_omega)), hreads⟩
  | succ n ih =>
    have hlt : s.rangeBegin < rangeEnd := by bv_omega
    have hmore : ∀ a ∈ s.reads ++ bytesFrom s.rangeBegin 4, InTable headerSize mem table a := by
      intro a ha
      rcases List.mem_append.mp ha with ha | ha
      · exact hreads a ha
      · obtain ⟨i, hi, rfl⟩ := mem_bytesFrom.mp ha
        have hbyte : (s.rangeBegin + BitVec.ofNat 32 i - table).toNat = (s.rangeBegin - table).toNat + i := by bv_omega
        unfold InTable
        omega
    obtain ⟨err, herr⟩ := Option.ne_none_iff_exists'.mp (hreturns (read32 mem s.rangeBegin))
    by_cases hok : err = .osNoErr
    · subst hok
      obtain ⟨run, hrun, hinside⟩ := ih
        (s := ⟨s.rangeBegin + 4, s.reads ++ bytesFrom s.rangeBegin 4, s.tables ++ [read32 mem s.rangeBegin]⟩)
        (by dsimp only; bv_omega) (by dsimp only; bv_omega) hmore
      exact ⟨run, .next (rangeStep_next hlt herr) hrun, hinside⟩
    · exact ⟨_, .done (rangeStep_panic hlt hok herr), hmore⟩

/-- What is read stays listed. -/
theorem range_reads (hrun : Returns (rangeStep (fun _ => some .osNoErr) mem rangeEnd) s run) : ∀ a ∈ s.reads, a ∈ run.reads := by
  induction hrun with
  | @done s run h =>
    intro a ha
    by_cases hlt : s.rangeBegin < rangeEnd
    · exact nomatch (rangeStep_next hlt rfl).symm.trans h
    · exact Sum.inl.inj ((rangeStep_end hlt).symm.trans h) ▸ ha
  | @next s s' run h hrest ih =>
    intro a ha
    by_cases hlt : s.rangeBegin < rangeEnd
    · have hs' := Sum.inr.inj ((rangeStep_next hlt rfl).symm.trans h)
      exact ih a (hs' ▸ List.mem_append_left _ ha)
    · exact nomatch (rangeStep_end hlt).symm.trans h

/-- A walk that ends inside of the table has no part of a pointer at its end. -/
theorem range_whole (hr : r < 4) (hbegin : s.rangeBegin.toNat + 4 * n + r = rangeEnd.toNat)
    (hoffset : (s.rangeBegin - table).toNat + 4 * n + r = (headerLength mem table).toNat)
    (hlength : headerSize ≤ (headerLength mem table).toNat) (hshort : (headerLength mem table).toNat ≤ 255)
    (hrun : Returns (rangeStep (fun _ => some .osNoErr) mem rangeEnd) s run)
    (hinside : ∀ a ∈ run.reads, InTable headerSize mem table a) : r = 0 := by
  induction n generalizing s with
  | zero =>
    by_contra hr0
    have hlt : s.rangeBegin < rangeEnd := by bv_omega
    rw [returns_next_iff (rangeStep_next hlt rfl)] at hrun
    have hlast := hinside (s.rangeBegin + BitVec.ofNat 32 3)
      (range_reads hrun _ (List.mem_append_right _ (mem_bytesFrom.mpr ⟨3, by omega, rfl⟩)))
    have hbyte : (s.rangeBegin + BitVec.ofNat 32 3 - table).toNat = (s.rangeBegin - table).toNat + 3 := by bv_omega
    unfold InTable at hlast
    omega
  | succ n ih =>
    have hlt : s.rangeBegin < rangeEnd := by bv_omega
    rw [returns_next_iff (rangeStep_next hlt rfl)] at hrun
    exact ih (by dsimp only; bv_omega) (by dsimp only; bv_omega) hrun

end

/-- A walk goes on behind the checks of a list of at most 255 bytes that passes them. -/
theorem parseTables_iff {run : TableRun} (htable : table ≠ 0) (hsignature : headerSignature mem table = signature)
    (hsum : byteSum mem table (headerLength mem table).toNat = 0) (hlength : (headerLength mem table).toNat ≤ 255) :
    (∃ fuel, parseTables signature dispatch mem fuel table = some run) ↔
      Returns (rangeStep dispatch mem (table + headerLength mem table))
        ⟨table + BitVec.ofNat 32 headerSize, bytesFrom table (headerLength mem table).toNat, []⟩ run := by
  have hsummed := sum_returns hlength (Nat.zero_add _)
  rw [Nat.zero_add] at hsummed
  constructor
  · rintro ⟨fuel, hrun⟩
    rw [parseTables, if_neg htable] at hrun
    obtain ⟨s, hs, hrun⟩ := Option.bind_eq_some_iff.mp hrun
    rw [(returns_iff_loop.mpr ⟨fuel, hs⟩).unique hsummed] at hrun
    dsimp only at hrun
    rw [if_neg (not_not.mpr hsum), if_neg (not_not.mpr hsignature)] at hrun
    exact returns_iff_loop.mpr ⟨fuel, hrun⟩
  · intro hrun
    obtain ⟨fuel, hfuel⟩ := returns_iff_loop.mp hsummed
    obtain ⟨fuel', hfuel'⟩ := returns_iff_loop.mp hrun
    refine ⟨max fuel fuel', ?_⟩
    rw [parseTables, if_neg htable]
    refine Option.bind_eq_some_iff.mpr ⟨_, loop_mono hfuel (Nat.le_max_left ..), ?_⟩
    dsimp only
    rw [if_neg (not_not.mpr hsum), if_neg (not_not.mpr hsignature)]
    exact loop_mono hfuel' (Nat.le_max_right ..)

/-- No walk ends over a list that has more bytes. -/
theorem parseTables_eq_none (htable : table ≠ 0) (hlength : 255 < (headerLength mem table).toNat) (fuel : ℕ) :
    parseTables signature dispatch mem fuel table = none := by
  rw [parseTables, if_neg htable]
  cases hloop : loop (sumStep mem table) fuel ⟨0, 0, []⟩ with
  | none => rfl
  | some s => exact absurd (returns_iff_loop.mpr ⟨fuel, hloop⟩) (sum_not_returns hlength _ s)

/-- A list has at most 255 bytes and, if its range is not empty, whole pointers behind its header. -/
def WholeList (mem : FirmwareMemory) (table : BitVec 32) : Prop :=
  (headerLength mem table).toNat ≤ 255 ∧
    (table + BitVec.ofNat 32 headerSize < table + headerLength mem table →
      headerSize ≤ (headerLength mem table).toNat ∧ ((headerLength mem table).toNat - headerSize) % 4 = 0)

theorem parseTables_inside_iff (htable : table ≠ 0) (hsignature : headerSignature mem table = signature)
    (hsum : byteSum mem table (headerLength mem table).toNat = 0) :
    (∀ dispatch : BitVec 32 → Option OsReturnE, (∀ a, dispatch a ≠ none) →
      ∃ fuel run, parseTables signature dispatch mem fuel table = some run ∧ ∀ a ∈ run.reads, InTable headerSize mem table a) ↔
      WholeList mem table := by
  constructor
  · intro h
    obtain ⟨fuel, run, hrun, hinside⟩ := h (fun _ => some .osNoErr) nofun
    have hlength : (headerLength mem table).toNat ≤ 255 := by
      by_contra hlt
      exact nomatch (parseTables_eq_none htable (not_le.mp hlt) fuel).symm.trans hrun
    refine ⟨hlength, fun hlt => ?_⟩
    have hwalk := (parseTables_iff htable hsignature hsum hlength).mp ⟨fuel, hrun⟩
    have hfirst : table + BitVec.ofNat 32 headerSize ∈ run.reads := by
      rw [returns_next_iff (rangeStep_next hlt rfl)] at hwalk
      refine range_reads hwalk _ (List.mem_append_right _ (mem_bytesFrom.mpr ⟨0, by omega, ?_⟩))
      exact BitVec.add_zero _
    have hsize : headerSize ≤ (headerLength mem table).toNat := by
      have hin := hinside _ hfirst
      unfold InTable headerSize at *
      bv_omega
    refine ⟨hsize, ?_⟩
    unfold headerSize at hlt hsize hwalk ⊢
    exact range_whole (n := ((headerLength mem table).toNat - 36) / 4) (r := ((headerLength mem table).toNat - 36) % 4)
      (Nat.mod_lt _ (by omega)) (by dsimp only; bv_omega) (by dsimp only; bv_omega) hsize hlength hwalk hinside
  · rintro ⟨hlength, hwhole⟩ dispatch hdispatch
    have hsummed : ∀ a ∈ bytesFrom table (headerLength mem table).toNat, InTable headerSize mem table a :=
      fun a ha => inTable_bytesFrom _ ha
    have hwalk : ∃ run, Returns (rangeStep dispatch mem (table + headerLength mem table))
        ⟨table + BitVec.ofNat 32 headerSize, bytesFrom table (headerLength mem table).toNat, []⟩ run ∧
        ∀ a ∈ run.reads, InTable headerSize mem table a := by
      by_cases hlt : table + BitVec.ofNat 32 headerSize < table + headerLength mem table
      · obtain ⟨hsize, hmod⟩ := hwhole hlt
        unfold headerSize at hlt hsize hmod
        exact range_inside (n := ((headerLength mem table).toNat - 36) / 4) hdispatch
          (by unfold headerSize; dsimp only; bv_omega) (by unfold headerSize; dsimp only; bv_omega) hsummed
      · exact ⟨_, .done (rangeStep_end hlt), hsummed⟩
    obtain ⟨run, hrun, hinside⟩ := hwalk
    obtain ⟨fuel, hfuel⟩ := (parseTables_iff htable hsignature hsum hlength).mpr hrun
    exact ⟨fuel, run, hfuel, hinside⟩

end UtkKernel.Acpi
