import UtkKernel.Acpi.Walks

/-! # Lists of tables

The RSDT lists tables with pointers of 32 bits, the XSDT with pointers of 64. Both are walked as words of 32 bits, so
that an XSDT hands out the high word of each pointer, too, as the address of a table. -/

namespace UtkKernel.Acpi
open Foundations
set_option autoImplicit false

variable {mem : FirmwareMemory} {table a rangeEnd : BitVec 32} {dispatch : BitVec 32 → Option OsReturnE}
  {words addrs : List (BitVec 32)} {run : TableRun} {s : RangeState}

/-! ## Words -/

/-- The number in so many bytes, the lowest one first. -/
def readBytes (mem : FirmwareMemory) (a : BitVec 32) : ℕ → ℕ
  | 0 => 0
  | count + 1 => (mem a).toNat + 256 * readBytes mem (a + 1) count

theorem toNat_append {n : ℕ} (x : BitVec n) (y : BitVec 8) : (x ++ y).toNat = 256 * x.toNat + y.toNat := by
  rw [BitVec.toNat_append, ← Nat.shiftLeft_add_eq_or_of_lt y.isLt, Nat.shiftLeft_eq]
  omega

theorem readBytes_four (mem : FirmwareMemory) (a : BitVec 32) : readBytes mem a 4 = (read32 mem a).toNat := by
  have h2 : a + 1 + 1 = a + 2 := by bv_omega
  have h3 : a + 2 + 1 = a + 3 := by bv_omega
  unfold read32
  rw [toNat_append, toNat_append, toNat_append]
  simp only [readBytes, h2, h3]
  omega

theorem readBytes_eight (mem : FirmwareMemory) (a : BitVec 32) :
    readBytes mem a 8 = (read32 mem a).toNat + 2 ^ 32 * (read32 mem (a + 4)).toNat := by
  have h4 : a + 1 + 1 + 1 + 1 = a + 4 := by bv_omega
  rw [← readBytes_four, ← readBytes_four]
  simp only [readBytes, h4]
  omega

/-! ## What is handed out -/

/-- What is handed out of a list of words: those up to one at which the dispatcher panics. -/
def handed (dispatch : BitVec 32 → Option OsReturnE) : List (BitVec 32) → List (BitVec 32)
  | [] => []
  | a :: rest => if dispatch a = some .osNoErr then a :: handed dispatch rest else [a]

/-- Addresses are listed from an address on, with so many bytes for each. -/
def EntriesAt (mem : FirmwareMemory) (bytes : ℕ) : BitVec 32 → List (BitVec 32) → Prop
  | _, [] => True
  | base, a :: rest => readBytes mem base bytes = a.toNat ∧ EntriesAt mem bytes (base + BitVec.ofNat 32 bytes) rest

/-- The words of entries of 64 bits. -/
def wideWords (addrs : List (BitVec 32)) : List (BitVec 32) := addrs.flatMap fun a => [a, 0]

theorem length_wideWords (addrs : List (BitVec 32)) : (wideWords addrs).length = 2 * addrs.length := by
  induction addrs with
  | nil => rfl
  | cons a rest ih =>
    change (wideWords rest).length + 2 = 2 * (rest.length + 1)
    omega

theorem words_wideWords (addrs : List (BitVec 32)) : 4 * (wideWords addrs).length = 8 * addrs.length := by
  rw [length_wideWords]
  omega

theorem entriesAt_wideWords {base : BitVec 32} (h : EntriesAt mem 8 base addrs) : EntriesAt mem 4 base (wideWords addrs) := by
  induction addrs generalizing base with
  | nil => trivial
  | cons a rest ih =>
    obtain ⟨hentry, hrest⟩ := h
    rw [readBytes_eight] at hentry
    have hnext : base + BitVec.ofNat 32 4 + BitVec.ofNat 32 4 = base + BitVec.ofNat 32 8 := by bv_omega
    refine ⟨?_, ?_, ?_⟩
    · rw [readBytes_four]
      omega
    · rw [readBytes_four]
      change (read32 mem (base + 4)).toNat = 0
      omega
    · rw [hnext]
      exact ih hrest

theorem read32_of_entriesAt {base word : BitVec 32} (h : EntriesAt mem 4 base (word :: words)) : read32 mem base = word :=
  BitVec.eq_of_toNat_eq ((readBytes_four mem base).symm.trans h.1)

/-- A walk over words hands them out, and has an answer for each. -/
theorem range_tables (hend : s.rangeBegin.toNat + 4 * words.length = rangeEnd.toNat)
    (hwords : EntriesAt mem 4 s.rangeBegin words) (hrun : Returns (rangeStep dispatch mem rangeEnd) s run) :
    run.tables = s.tables ++ handed dispatch words ∧ ∀ a ∈ handed dispatch words, dispatch a ≠ none := by
  induction words generalizing s with
  | nil =>
    have hstop : ¬s.rangeBegin < rangeEnd := by
      rw [List.length_nil] at hend
      bv_omega
    rw [← (returns_done_iff (rangeStep_end hstop)).mp hrun]
    exact ⟨(List.append_nil _).symm, by simp [handed]⟩
  | cons word rest ih =>
    rw [List.length_cons] at hend
    have hlt : s.rangeBegin < rangeEnd := by bv_omega
    have hword := read32_of_entriesAt hwords
    rw [handed]
    cases hdispatch : dispatch word with
    | none =>
      -- the dispatcher does not return
      refine absurd hrun (not_returns (· = s) rfl ?_ run)
      rintro s rfl
      refine ⟨s, ?_, rfl⟩
      rw [rangeStep, if_pos hlt]
      dsimp only
      rw [hword, hdispatch]
    | some err =>
      by_cases hok : err = .osNoErr
      · subst hok
        rw [returns_next_iff (rangeStep_next hlt (hword ▸ hdispatch))] at hrun
        obtain ⟨htables, hanswers⟩ := ih
          (s := ⟨s.rangeBegin + 4, s.reads ++ bytesFrom s.rangeBegin 4, s.tables ++ [read32 mem s.rangeBegin]⟩)
          (by dsimp only; bv_omega) hwords.2 hrun
        rw [htables, if_pos rfl, hword, List.append_assoc]
        refine ⟨rfl, fun a ha => ?_⟩
        rcases List.mem_cons.mp ha with rfl | ha
        · rw [hdispatch]
          exact Option.some_ne_none _
        · exact hanswers a ha
      · rw [← (returns_done_iff (rangeStep_panic hlt hok (hword ▸ hdispatch))).mp hrun,
          if_neg fun h => hok (Option.some.inj h), hword]
        refine ⟨rfl, fun a ha => ?_⟩
        rw [List.mem_singleton.mp ha, hdispatch]
        exact Option.some_ne_none _

/-- A walk over words ends if the dispatcher answers for what is handed to it. -/
theorem range_returns (hend : s.rangeBegin.toNat + 4 * words.length = rangeEnd.toNat)
    (hwords : EntriesAt mem 4 s.rangeBegin words) (hanswers : ∀ a ∈ handed dispatch words, dispatch a ≠ none) :
    ∃ run, Returns (rangeStep dispatch mem rangeEnd) s run := by
  induction words generalizing s with
  | nil =>
    refine ⟨_, .done (rangeStep_end ?_)⟩
    rw [List.length_nil] at hend
    bv_omega
  | cons word rest ih =>
    rw [List.length_cons] at hend
    have hlt : s.rangeBegin < rangeEnd := by bv_omega
    have hword := read32_of_entriesAt hwords
    rw [handed] at hanswers
    by_cases hok : dispatch word = some .osNoErr
    · rw [if_pos hok] at hanswers
      obtain ⟨run, hrun⟩ := ih (s := ⟨s.rangeBegin + 4, s.reads ++ bytesFrom s.rangeBegin 4, s.tables ++ [read32 mem s.rangeBegin]⟩)
        (by dsimp only; bv_omega) hwords.2 fun a ha => hanswers a (List.mem_cons_of_mem _ ha)
      exact ⟨run, .next (rangeStep_next hlt (hword ▸ hok)) hrun⟩
    · rw [if_neg hok] at hanswers
      obtain ⟨err, herr⟩ := Option.ne_none_iff_exists'.mp (hanswers word (List.mem_singleton_self _))
      exact ⟨_, .done (rangeStep_panic hlt (fun h => hok (h ▸ herr)) (hword ▸ herr))⟩

/-! ## Both lists -/

/-- A list of tables that passes its checks, ends in the address space, and has entries of so many bytes. -/
structure Lists (signature : BitVec 32) (bytes : ℕ) (mem : FirmwareMemory) (table : BitVec 32)
    (addrs : List (BitVec 32)) : Prop where
  ne_zero : table ≠ 0
  signature_eq : headerSignature mem table = signature
  sum_eq : byteSum mem table (headerLength mem table).toNat = 0
  length_eq : (headerLength mem table).toNat = headerSize + bytes * addrs.length
  end_lt : table.toNat + (headerSize + bytes * addrs.length) < 2 ^ 32
  entries : EntriesAt mem bytes (table + BitVec.ofNat 32 headerSize) addrs

/-- What a parser hands out of a list of at most 255 bytes that has these words. -/
theorem parseTables_tables (dispatch : BitVec 32 → Option OsReturnE) {signature : BitVec 32} {bytes : ℕ}
    (hlists : Lists signature bytes mem table addrs)
    (hlength : (headerLength mem table).toNat ≤ 255) (hcount : 4 * words.length = bytes * addrs.length)
    (hwords : EntriesAt mem 4 (table + BitVec.ofNat 32 headerSize) words) :
    (∀ fuel run, parseTables signature dispatch mem fuel table = some run →
      run.tables = handed dispatch words ∧ ∀ a ∈ handed dispatch words, dispatch a ≠ none) ∧
    ((∀ a ∈ handed dispatch words, dispatch a ≠ none) → ∃ fuel run, parseTables signature dispatch mem fuel table = some run) := by
  have hend : (table + BitVec.ofNat 32 headerSize).toNat + 4 * words.length = (table + headerLength mem table).toNat := by
    have h1 := hlists.length_eq
    have h2 := hlists.end_lt
    rw [← hcount] at h1 h2
    unfold headerSize at *
    bv_omega
  constructor
  · intro fuel run hrun
    have hwalk := (parseTables_iff hlists.ne_zero hlists.signature_eq hlists.sum_eq hlength).mp ⟨fuel, hrun⟩
    exact range_tables hend hwords hwalk
  · intro hanswers
    obtain ⟨run, hrun⟩ := range_returns
      (s := ⟨table + BitVec.ofNat 32 headerSize, bytesFrom table (headerLength mem table).toNat, []⟩) hend hwords hanswers
    obtain ⟨fuel, hfuel⟩ := (parseTables_iff hlists.ne_zero hlists.signature_eq hlists.sum_eq hlength).mpr hrun
    exact ⟨fuel, run, hfuel⟩

/-- Both parsers end and hand out the same addresses. -/
def SameTables (dispatch : BitVec 32 → Option OsReturnE) (mem : FirmwareMemory) (rsdt xsdt : BitVec 32) : Prop :=
  ∃ fuel fuel' run run', acpiParseRsdt dispatch mem fuel rsdt = some run ∧ acpiParseXsdt dispatch mem fuel' xsdt = some run' ∧
    run'.tables = run.tables

/-- There are no addresses, or there are at most 27 and the dispatcher panics at the first of them. -/
def StopsAtFirst (dispatch : BitVec 32 → Option OsReturnE) (addrs : List (BitVec 32)) : Prop :=
  addrs = [] ∨ (addrs.length ≤ 27 ∧ ∃ a err, addrs.head? = some a ∧ dispatch a = some err ∧ err ≠ .osNoErr)

/-- The second word of an XSDT is not the address of a table. -/
theorem handed_wideWords (hne : ∀ a ∈ addrs, a ≠ 0) (hsame : handed dispatch (wideWords addrs) = handed dispatch addrs) :
    addrs = [] ∨ ∃ a, addrs.head? = some a ∧ dispatch a ≠ some .osNoErr := by
  cases addrs with
  | nil => exact .inl rfl
  | cons a rest =>
    refine .inr ⟨a, rfl, fun hok => ?_⟩
    have hsecond : ∃ more, handed dispatch (wideWords (a :: rest)) = a :: 0 :: more := by
      change ∃ more, handed dispatch (a :: 0 :: wideWords rest) = a :: 0 :: more
      rw [handed, if_pos hok, handed]
      split
      · exact ⟨_, rfl⟩
      · exact ⟨[], rfl⟩
    obtain ⟨more, hmore⟩ := hsecond
    rw [hsame, handed, if_pos hok] at hmore
    have hrest : handed dispatch rest = 0 :: more := (List.cons.inj hmore).2
    cases rest with
    | nil => exact nomatch hrest
    | cons b rest =>
      have hb : b = 0 := by
        rw [handed] at hrest
        split at hrest
        · exact (List.cons.inj hrest).1
        · exact (List.cons.inj hrest).1
      exact hne b (List.mem_cons_of_mem _ (List.mem_cons_self ..)) hb

theorem handed_of_stops {rest : List (BitVec 32)} (hstop : dispatch a ≠ some .osNoErr) : handed dispatch (a :: rest) = [a] := by
  rw [handed, if_neg hstop]

theorem stopsAtFirst_of_sameTables {rsdt xsdt : BitVec 32} (hrsdt : Lists acpiRsdtSig 4 mem rsdt addrs)
    (hxsdt : Lists acpiXsdtSig 8 mem xsdt addrs) (hne : ∀ a ∈ addrs, a ≠ 0) (hsame : SameTables dispatch mem rsdt xsdt) :
    StopsAtFirst dispatch addrs := by
  obtain ⟨fuel, fuel', run, run', hrun, hrun', hsame⟩ := hsame
  have hlengths := hrsdt.length_eq
  have hlengths' := hxsdt.length_eq
  have hshort : (headerLength mem xsdt).toNat ≤ 255 := by
    by_contra hlt
    exact nomatch (parseTables_eq_none hxsdt.ne_zero (not_le.mp hlt) fuel').symm.trans hrun'
  unfold headerSize at hlengths hlengths'
  have hshort' : (headerLength mem rsdt).toNat ≤ 255 := by omega
  obtain ⟨htables, hanswers⟩ := (parseTables_tables dispatch hrsdt hshort' rfl hrsdt.entries).1 fuel run hrun
  obtain ⟨htables', -⟩ :=
    (parseTables_tables dispatch hxsdt hshort (words_wideWords addrs) (entriesAt_wideWords hxsdt.entries)).1 fuel' run' hrun'
  rw [htables, htables'] at hsame
  refine (handed_wideWords hne hsame).imp_right fun ⟨a, hhead, hnot⟩ => ⟨by omega, a, ?_⟩
  obtain ⟨rest, rfl⟩ : ∃ rest, addrs = a :: rest := List.head?_eq_some_iff.mp hhead
  rw [handed_of_stops hnot] at hanswers
  obtain ⟨err, herr⟩ := Option.ne_none_iff_exists'.mp (hanswers a (List.mem_singleton_self _))
  exact ⟨err, rfl, herr, fun h => hnot (h ▸ herr)⟩

/-- Where the dispatcher stops both walks at the first table, they have handed out the same. -/
theorem StopsAtFirst.handed (hstops : StopsAtFirst dispatch addrs) :
    handed dispatch (wideWords addrs) = handed dispatch addrs ∧ (∀ a ∈ handed dispatch addrs, dispatch a ≠ none) ∧
      addrs.length ≤ 27 := by
  rcases hstops with rfl | ⟨hfew, a, err, hhead, herr, hpanic⟩
  · exact ⟨rfl, nofun, Nat.zero_le _⟩
  · obtain ⟨rest, rfl⟩ : ∃ rest, addrs = a :: rest := List.head?_eq_some_iff.mp hhead
    have hnot : dispatch a ≠ some .osNoErr := fun h => hpanic (Option.some.inj (herr.symm.trans h))
    refine ⟨?_, fun b hb => ?_, hfew⟩
    · change Acpi.handed dispatch (a :: 0 :: wideWords rest) = _
      rw [handed_of_stops hnot, handed_of_stops hnot]
    · rw [handed_of_stops hnot] at hb
      exact fun h => nomatch (List.mem_singleton.mp hb ▸ h).symm.trans herr

/-- A RSDT and behind it a XSDT, without tables. -/
def emptyLists : List (BitVec 8) :=
  [0x52, 0x53, 0x44, 0x54, 36, 0, 0, 0, 0, 159] ++ List.replicate 26 0 ++ [0x58, 0x53, 0x44, 0x54, 36, 0, 0, 0, 0, 153]

/-- A RSDT and behind it a XSDT, with the table at `0x3000`. -/
def listsOfOne : List (BitVec 8) :=
  [0x52, 0x53, 0x44, 0x54, 40, 0, 0, 0, 0, 107] ++ List.replicate 26 0 ++ [0x00, 0x30, 0x00, 0x00] ++
    [0x58, 0x53, 0x44, 0x54, 44, 0, 0, 0, 0, 97] ++ List.replicate 26 0 ++ [0x00, 0x30, 0x00, 0x00, 0x00, 0x00, 0x00, 0x00]

end UtkKernel.Acpi
