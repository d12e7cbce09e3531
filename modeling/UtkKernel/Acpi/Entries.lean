import UtkKernel.Acpi.Walks

/-! # Entries of the MADT

The entries of a MADT say how long they are. A walk ends inside of the table exactly when they lead to its end, each
with the bytes that are looked at in the table; an entry of no length leads to itself. -/

namespace UtkKernel.Acpi
open Foundations
set_option autoImplicit false

variable {mem : FirmwareMemory} {madt entry irqNumber : BitVec 32} {cpus ios : ℕ} {pushes : ℕ → Bool}

def madtLimit (mem : FirmwareMemory) (madt : BitVec 32) : BitVec 32 := madt + headerLength mem madt

/-! ## When parsing -/

/-- The vectors have no place for an entry, whose number is read for a message. -/
def Exceeds (mem : FirmwareMemory) (entry : BitVec 32) (cpus ios : ℕ) : Prop :=
  (mem entry = apicTypeLocalApic ∧ ¬cpus < maxCpuCount) ∨ (mem entry = apicTypeIoApic ∧ ¬ios < maxIoApicCount)

def cpusBehind (mem : FirmwareMemory) (entry : BitVec 32) (cpus : ℕ) : ℕ :=
  if mem entry = apicTypeLocalApic ∧ cpus < maxCpuCount then cpus + 1 else cpus

def iosBehind (mem : FirmwareMemory) (entry : BitVec 32) (ios : ℕ) : ℕ :=
  if mem entry = apicTypeIoApic ∧ ios < maxIoApicCount then ios + 1 else ios

/-- The entries from one on lead to the end of the table, with what is looked at inside: the headers, and the numbers of
the entries that are one too many, after so many processors and I/O APICs. -/
inductive EntriesInside (mem : FirmwareMemory) (madt : BitVec 32) : BitVec 32 → ℕ → ℕ → Prop where
  | done {entry : BitVec 32} {cpus ios : ℕ} (h : ¬entry < madtLimit mem madt) : EntriesInside mem madt entry cpus ios
  | next {entry : BitVec 32} {cpus ios : ℕ} (h : entry < madtLimit mem madt) (htype : InTable madtSize mem madt entry)
    (hlength : InTable madtSize mem madt (entry + 1))
    (hnumber : Exceeds mem entry cpus ios → InTable madtSize mem madt (entry + 2))
    (hrest : EntriesInside mem madt (nextEntry mem entry) (cpusBehind mem entry cpus) (iosBehind mem entry ios)) :
    EntriesInside mem madt entry cpus ios

/-- An entry of no length leads nowhere. -/
theorem not_entriesInside (hlt : entry < madtLimit mem madt) (hzero : mem (entry + 1) = 0) :
    ¬EntriesInside mem madt entry cpus ios := by
  intro h
  induction h with
  | done h => exact h hlt
  | @next entry _ _ _ _ _ _ _ ih =>
    have hsame : nextEntry mem entry = entry := by
      unfold nextEntry
      rw [hzero]
      exact BitVec.add_zero _
    rw [hsame] at ih
    exact ih hlt hzero

/-- The bytes of an entry that are looked at. -/
def Looked (mem : FirmwareMemory) (entry : BitVec 32) (cpus ios : ℕ) (a : BitVec 32) : Prop :=
  a = entry ∨ a = entry + 1 ∨ (Exceeds mem entry cpus ios ∧ a = entry + 2)

section
variable {s s' : ApicState} {run : ApicRun} {limit : BitVec 32}

theorem apicStep_end (h : ¬s.madtEntry < limit) :
    apicStep pushes mem limit s = .inl ⟨s.reads, s.cpuLapics, s.ioApics, .osNoErr⟩ := by rw [apicStep, if_neg h]

/-- An entry goes by, with what is looked at, or a push fails for which only the type is read. -/
theorem apicStep_entry (pushes : ℕ → Bool) (h : s.madtEntry < limit) :
    (∃ s', apicStep pushes mem limit s = .inr s' ∧ s'.madtEntry = nextEntry mem s.madtEntry ∧
      (∀ a, a ∈ s'.reads ↔ a ∈ s.reads ∨ Looked mem s.madtEntry s.cpuLapics.length s.ioApics.length a) ∧
      s'.cpuLapics.length = cpusBehind mem s.madtEntry s.cpuLapics.length ∧
      s'.ioApics.length = iosBehind mem s.madtEntry s.ioApics.length) ∨
    (∃ run, apicStep pushes mem limit s = .inl run ∧ run.reads = s.reads ++ [s.madtEntry] ∧ ∃ n, pushes n = false) := by
  have htypes : apicTypeIoApic ≠ apicTypeLocalApic := by decide
  rw [apicStep, if_pos h]
  by_cases hcpu : mem s.madtEntry = apicTypeLocalApic
  · have hio : mem s.madtEntry ≠ apicTypeIoApic := fun hio => htypes (hio.symm.trans hcpu)
    rw [if_pos hcpu]
    by_cases hroom : s.cpuLapics.length < maxCpuCount
    · rw [if_pos hroom]
      by_cases hpush : pushes (s.cpuLapics.length + s.ioApics.length)
      · rw [if_pos hpush]
        refine .inl ⟨_, rfl, rfl, fun a => ?_, ?_, ?_⟩
        · simp [Looked, Exceeds, hcpu, hroom, htypes.symm]
        · simp [cpusBehind, hcpu, hroom]
        · simp [iosBehind, hio]
      · rw [if_neg hpush]
        exact .inr ⟨_, rfl, rfl, _, Bool.eq_false_iff.mpr hpush⟩
    · rw [if_neg hroom]
      refine .inl ⟨_, rfl, rfl, fun a => ?_, ?_, ?_⟩
      · simp [Looked, Exceeds, hcpu, hroom, or_comm]
      · simp [cpusBehind, hroom]
      · simp [iosBehind, hio]
  · rw [if_neg hcpu]
    by_cases hio : mem s.madtEntry = apicTypeIoApic
    · rw [if_pos hio]
      by_cases hroom : s.ioApics.length < maxIoApicCount
      · rw [if_pos hroom]
        by_cases hpush : pushes (s.cpuLapics.length + s.ioApics.length)
        · rw [if_pos hpush]
          refine .inl ⟨_, rfl, rfl, fun a => ?_, ?_, ?_⟩
          · simp [Looked, Exceeds, hroom, hio, htypes]
          · simp [cpusBehind, hcpu]
          · simp [iosBehind, hio, hroom]
        · rw [if_neg hpush]
          exact .inr ⟨_, rfl, rfl, _, Bool.eq_false_iff.mpr hpush⟩
      · rw [if_neg hroom]
        refine .inl ⟨_, rfl, rfl, fun a => ?_, ?_, ?_⟩
        · simp [Looked, Exceeds, hio, hroom, or_comm]
        · simp [cpusBehind, hcpu]
        · simp [iosBehind, hroom]
    · rw [if_neg hio]
      refine .inl ⟨_, rfl, rfl, fun a => ?_, ?_, ?_⟩
      · simp [Looked, Exceeds, hcpu, hio]
      · simp [cpusBehind, hcpu]
      · simp [iosBehind, hio]

/-- A walk over entries that are inside ends, with any memory for the vectors. -/
theorem apic_inside (pushes : ℕ → Bool) (hentries : EntriesInside mem madt entry cpus ios) (hentry : s.madtEntry = entry)
    (hcpus : s.cpuLapics.length = cpus) (hios : s.ioApics.length = ios)
    (hreads : ∀ a ∈ s.reads, InTable madtSize mem madt a) :
    ∃ run, Returns (apicStep pushes mem (madtLimit mem madt)) s run ∧ ∀ a ∈ run.reads, InTable madtSize mem madt a := by
  induction hentries generalizing s with
  | done h => exact ⟨_, .done (apicStep_end (hentry ▸ h)), hreads⟩
  | next h htype hlength hnumber _ ih =>
    subst hentry hcpus hios
    rcases apicStep_entry pushes h with ⟨s', hstep, hnext, hmem, hcpus, hios⟩ | ⟨run, hstep, hrun, -⟩
    · have hmore : ∀ a ∈ s'.reads, InTable madtSize mem madt a := by
        intro a ha
        rcases (hmem a).mp ha with ha | rfl | rfl | ⟨hexceeds, rfl⟩
        · exact hreads a ha
        · exact htype
        · exact hlength
        · exact hnumber hexceeds
      obtain ⟨run, hrun, hinside⟩ := ih hnext hcpus hios hmore
      exact ⟨run, .next hstep hrun, hinside⟩
    · refine ⟨run, .done hstep, fun a ha => ?_⟩
      rw [hrun] at ha
      rcases List.mem_append.mp ha with ha | ha
      · exact hreads a ha
      · exact List.mem_singleton.mp ha ▸ htype

/-- What is read stays listed. -/
theorem apic_reads (hrun : Returns (apicStep (fun _ => true) mem limit) s run) : ∀ a ∈ s.reads, a ∈ run.reads := by
  induction hrun with
  | @done s run h =>
    intro a ha
    by_cases hlt : s.madtEntry < limit
    · rcases apicStep_entry (fun _ => true) hlt with ⟨s', hstep, -⟩ | ⟨_, -, -, _, hpush⟩
      · exact nomatch hstep.symm.trans h
      · exact nomatch hpush
    · exact Sum.inl.inj ((apicStep_end hlt).symm.trans h) ▸ ha
  | @next s s' run h hrest ih =>
    intro a ha
    by_cases hlt : s.madtEntry < limit
    · rcases apicStep_entry (fun _ => true) hlt with ⟨s'', hstep, -, hmem, -⟩ | ⟨_, -, -, _, hpush⟩
      · obtain rfl := Sum.inr.inj (hstep.symm.trans h)
        exact ih a ((hmem a).mpr (.inl ha))
      · exact nomatch hpush
    · exact nomatch (apicStep_end hlt).symm.trans h

/-- A walk that ends inside of the table, with memory for the vectors, has its entries inside. -/
theorem entriesInside_of_apic (hrun : Returns (apicStep (fun _ => true) mem (madtLimit mem madt)) s run)
    (hinside : ∀ a ∈ run.reads, InTable madtSize mem madt a) :
    EntriesInside mem madt s.madtEntry s.cpuLapics.length s.ioApics.length := by
  induction hrun with
  | @done s run h =>
    refine .done fun hlt => ?_
    rcases apicStep_entry (fun _ => true) hlt with ⟨s', hstep, -⟩ | ⟨_, -, -, _, hpush⟩
    · exact nomatch hstep.symm.trans h
    · exact nomatch hpush
  | @next s s' run h hrest ih =>
    by_cases hlt : s.madtEntry < madtLimit mem madt
    · rcases apicStep_entry (fun _ => true) hlt with ⟨s'', hstep, hnext, hmem, hcpus, hios⟩ | ⟨_, -, -, _, hpush⟩
      · obtain rfl := Sum.inr.inj (hstep.symm.trans h)
        have hlooked : ∀ a, Looked mem s.madtEntry s.cpuLapics.length s.ioApics.length a → InTable madtSize mem madt a :=
          fun a ha => hinside a (apic_reads hrest a ((hmem a).mpr (.inr ha)))
        refine .next hlt (hlooked _ (.inl rfl)) (hlooked _ (.inr (.inl rfl))) (fun h => hlooked _ (.inr (.inr ⟨h, rfl⟩))) ?_
        rw [← hnext, ← hcpus, ← hios]
        exact ih hinside
      · exact nomatch hpush
    · exact .done hlt

end

theorem acpiParseApic_inside_iff (hmadt : madt ≠ 0) (hsignature : headerSignature mem madt = acpiApicSig)
    (hsum : byteSum mem madt (headerLength mem madt).toNat = 0) :
    (∀ pushes : ℕ → Bool, ∃ fuel run, acpiParseApic pushes mem fuel madt = some run ∧
      ∀ a ∈ run.reads, InTable madtSize mem madt a) ↔
      EntriesInside mem madt (madt + BitVec.ofNat 32 madtSize) 0 0 := by
  have hparse : ∀ (pushes : ℕ → Bool) fuel, acpiParseApic pushes mem fuel madt =
      loop (apicStep pushes mem (madtLimit mem madt)) fuel
        ⟨madt + BitVec.ofNat 32 madtSize, bytesFrom madt (headerLength mem madt).toNat, [], []⟩ := by
    intro pushes fuel
    rw [acpiParseApic, if_neg hmadt, if_neg (not_not.mpr hsum), if_neg (not_not.mpr hsignature)]
    rfl
  constructor
  · intro h
    obtain ⟨fuel, run, hrun, hinside⟩ := h fun _ => true
    rw [hparse] at hrun
    exact entriesInside_of_apic (returns_iff_loop.mpr ⟨fuel, hrun⟩) hinside
  · intro hentries pushes
    obtain ⟨run, hrun, hinside⟩ := apic_inside pushes
      (s := ⟨madt + BitVec.ofNat 32 madtSize, bytesFrom madt (headerLength mem madt).toNat, [], []⟩) hentries rfl rfl rfl
      (fun a ha => inTable_bytesFrom _ ha)
    obtain ⟨fuel, hfuel⟩ := returns_iff_loop.mp hrun
    exact ⟨fuel, run, (hparse pushes fuel).trans hfuel, hinside⟩

/-! ## When looking up an override -/

/-- The entry overrides an interrupt. -/
def Overrides (mem : FirmwareMemory) (entry irqNumber : BitVec 32) : Prop :=
  mem entry = apicTypeInterruptOverride ∧ (mem (entry + 3)).zeroExtend 32 = irqNumber

/-- The entries from one on lead to an override or to the end of the table, with what is looked at inside. -/
inductive OverrideInside (mem : FirmwareMemory) (madt irqNumber : BitVec 32) : BitVec 32 → Prop where
  | done {entry : BitVec 32} (h : ¬entry < madtLimit mem madt) : OverrideInside mem madt irqNumber entry
  | found {entry : BitVec 32} (h : entry < madtLimit mem madt) (hoverrides : Overrides mem entry irqNumber)
    (htype : InTable madtSize mem madt entry) (hsource : InTable madtSize mem madt (entry + 3))
    (hinterrupt : ∀ a ∈ bytesFrom (entry + 4) 4, InTable madtSize mem madt a) : OverrideInside mem madt irqNumber entry
  | next {entry : BitVec 32} (h : entry < madtLimit mem madt) (hother : ¬Overrides mem entry irqNumber)
    (htype : InTable madtSize mem madt entry) (hlength : InTable madtSize mem madt (entry + 1))
    (hsource : mem entry = apicTypeInterruptOverride → InTable madtSize mem madt (entry + 3))
    (hrest : OverrideInside mem madt irqNumber (nextEntry mem entry)) : OverrideInside mem madt irqNumber entry

section
variable {limit : BitVec 32} {s s' : OverrideState} {run : List (BitVec 32) × BitVec 32}

theorem overrideStep_end (h : ¬s.base < limit) : overrideStep mem irqNumber limit s = .inl (s.reads, irqNumber) := by
  rw [overrideStep, if_neg h]

theorem overrideStep_found (h : s.base < limit) (hoverrides : Overrides mem s.base irqNumber) :
    overrideStep mem irqNumber limit s =
      .inl (s.reads ++ [s.base, s.base + 3] ++ bytesFrom (s.base + 4) 4, read32 mem (s.base + 4)) := by
  rw [overrideStep, if_pos h, if_pos hoverrides.1, if_pos hoverrides.2]

theorem overrideStep_next (limit : BitVec 32) (h : s.base < limit) (hother : ¬Overrides mem s.base irqNumber) :
    ∃ s', overrideStep mem irqNumber limit s = .inr s' ∧ s'.base = nextEntry mem s.base ∧
      ∀ a, a ∈ s'.reads ↔ a ∈ s.reads ∨ a = s.base ∨ a = s.base + 1 ∨
        (mem s.base = apicTypeInterruptOverride ∧ a = s.base + 3) := by
  rw [overrideStep, if_pos h]
  by_cases htype : mem s.base = apicTypeInterruptOverride
  · rw [if_pos htype, if_neg fun hsource => hother ⟨htype, hsource⟩]
    refine ⟨_, rfl, rfl, fun a => ?_⟩
    simp [htype, or_comm]
  · rw [if_neg htype]
    refine ⟨_, rfl, rfl, fun a => ?_⟩
    simp [htype]

theorem override_inside (hentries : OverrideInside mem madt irqNumber entry) (hentry : s.base = entry)
    (hreads : ∀ a ∈ s.reads, InTable madtSize mem madt a) :
    ∃ run, Returns (overrideStep mem irqNumber (madtLimit mem madt)) s run ∧ ∀ a ∈ run.1, InTable madtSize mem madt a := by
  induction hentries generalizing s with
  | done h => exact ⟨_, .done (overrideStep_end (hentry ▸ h)), hreads⟩
  | found h hoverrides htype hsource hinterrupt =>
    subst hentry
    refine ⟨_, .done (overrideStep_found h hoverrides), fun a ha => ?_⟩
    rcases List.mem_append.mp ha with ha | ha
    · rcases List.mem_append.mp ha with ha | ha
      · exact hreads a ha
      · rcases List.mem_pair.mp ha with rfl | rfl
        · exact htype
        · exact hsource
    · exact hinterrupt a ha
  | next h hother htype hlength hsource _ ih =>
    subst hentry
    obtain ⟨s', hstep, hnext, hmem⟩ := overrideStep_next _ h hother
    have hmore : ∀ a ∈ s'.reads, InTable madtSize mem madt a := by
      intro a ha
      rcases (hmem a).mp ha with ha | rfl | rfl | ⟨hoverride, rfl⟩
      · exact hreads a ha
      · exact htype
      · exact hlength
      · exact hsource hoverride
    obtain ⟨run, hrun, hinside⟩ := ih hnext hmore
    exact ⟨run, .next hstep hrun, hinside⟩

/-- What is read stays listed. -/
theorem override_reads (hrun : Returns (overrideStep mem irqNumber limit) s run) : ∀ a ∈ s.reads, a ∈ run.1 := by
  induction hrun with
  | @done s run h =>
    intro a ha
    by_cases hlt : s.base < limit
    · by_cases hoverrides : Overrides mem s.base irqNumber
      · rw [← Sum.inl.inj ((overrideStep_found hlt hoverrides).symm.trans h)]
        exact List.mem_append_left _ (List.mem_append_left _ ha)
      · obtain ⟨s', hstep, -⟩ := overrideStep_next limit hlt hoverrides
        exact nomatch hstep.symm.trans h
    · exact Sum.inl.inj ((overrideStep_end hlt).symm.trans h) ▸ ha
  | @next s s' run h hrest ih =>
    intro a ha
    by_cases hlt : s.base < limit
    · by_cases hoverrides : Overrides mem s.base irqNumber
      · exact nomatch (overrideStep_found hlt hoverrides).symm.trans h
      · obtain ⟨s'', hstep, -, hmem⟩ := overrideStep_next _ hlt hoverrides
        obtain rfl := Sum.inr.inj (hstep.symm.trans h)
        exact ih a ((hmem a).mpr (.inl ha))
    · exact nomatch (overrideStep_end hlt).symm.trans h

theorem overrideInside_of_returns (hrun : Returns (overrideStep mem irqNumber (madtLimit mem madt)) s run)
    (hinside : ∀ a ∈ run.1, InTable madtSize mem madt a) : OverrideInside mem madt irqNumber s.base := by
  induction hrun with
  | @done s run h =>
    by_cases hlt : s.base < madtLimit mem madt
    · by_cases hoverrides : Overrides mem s.base irqNumber
      · have hreads : ∀ a ∈ s.reads ++ [s.base, s.base + 3] ++ bytesFrom (s.base + 4) 4, InTable madtSize mem madt a := by
          intro a ha
          rw [← Sum.inl.inj ((overrideStep_found hlt hoverrides).symm.trans h)] at hinside
          exact hinside a ha
        refine .found hlt hoverrides (hreads _ ?_) (hreads _ ?_) fun a ha => hreads a (List.mem_append_right _ ha)
        · exact List.mem_append_left _ (List.mem_append_right _ (List.mem_pair.mpr (.inl rfl)))
        · exact List.mem_append_left _ (List.mem_append_right _ (List.mem_pair.mpr (.inr rfl)))
      · obtain ⟨s', hstep, -⟩ := overrideStep_next _ hlt hoverrides
        exact nomatch hstep.symm.trans h
    · exact .done hlt
  | @next s s' run h hrest ih =>
    by_cases hlt : s.base < madtLimit mem madt
    · by_cases hoverrides : Overrides mem s.base irqNumber
      · exact nomatch (overrideStep_found hlt hoverrides).symm.trans h
      · obtain ⟨s'', hstep, hnext, hmem⟩ := overrideStep_next _ hlt hoverrides
        obtain rfl := Sum.inr.inj (hstep.symm.trans h)
        have hlooked : ∀ a, (a = s.base ∨ a = s.base + 1 ∨ (mem s.base = apicTypeInterruptOverride ∧ a = s.base + 3)) →
            InTable madtSize mem madt a := fun a ha => hinside a (override_reads hrest a ((hmem a).mpr (.inr ha)))
        refine .next hlt hoverrides (hlooked _ (.inl rfl)) (hlooked _ (.inr (.inl rfl)))
          (fun htype => hlooked _ (.inr (.inr ⟨htype, rfl⟩))) ?_
        exact hnext ▸ ih hinside
    · exact .done hlt

end

theorem acpiGetRemapedIrq_inside_iff (hmadt : madt ≠ 0) :
    (∃ fuel run, acpiGetRemapedIrq true mem fuel madt irqNumber = some run ∧ ∀ a ∈ run.1, InTable madtSize mem madt a) ↔
      OverrideInside mem madt irqNumber (madt + BitVec.ofNat 32 madtSize) := by
  have hlookup : ∀ fuel, acpiGetRemapedIrq true mem fuel madt irqNumber =
      loop (overrideStep mem irqNumber (madtLimit mem madt)) fuel ⟨madt + BitVec.ofNat 32 madtSize, []⟩ := by
    intro fuel
    rw [acpiGetRemapedIrq, if_neg (by decide), if_neg hmadt]
    rfl
  constructor
  · rintro ⟨fuel, run, hrun, hinside⟩
    rw [hlookup] at hrun
    exact overrideInside_of_returns (returns_iff_loop.mpr ⟨fuel, hrun⟩) hinside
  · intro hentries
    obtain ⟨run, hrun, hinside⟩ := override_inside (s := ⟨madt + BitVec.ofNat 32 madtSize, []⟩) hentries rfl nofun
    obtain ⟨fuel, hfuel⟩ := returns_iff_loop.mp hrun
    exact ⟨fuel, run, (hlookup fuel).trans hfuel, hinside⟩

/-! ## All walks -/

/-- A walk over a table. -/
inductive TableWalk where
  | rsdt
  | xsdt
  | madt
  | override (irqNumber : BitVec 32)

namespace TableWalk

def signature : TableWalk → BitVec 32
  | .rsdt => acpiRsdtSig
  | .xsdt => acpiXsdtSig
  | .madt => acpiApicSig
  | .override _ => acpiApicSig

/-- The table is one, and it passes the checks of its signature and its sum. -/
def Checked (walk : TableWalk) (mem : FirmwareMemory) (table : BitVec 32) : Prop :=
  table ≠ 0 ∧ headerSignature mem table = walk.signature ∧ byteSum mem table (headerLength mem table).toNat = 0

/-- The walk ends, whatever the dispatcher returns and whether there is memory for the vectors or not, and reads only
inside of the table. -/
def EndsInside (mem : FirmwareMemory) (table : BitVec 32) : TableWalk → Prop
  | .rsdt => ∀ dispatch : BitVec 32 → Option OsReturnE, (∀ a, dispatch a ≠ none) →
      ∃ fuel run, acpiParseRsdt dispatch mem fuel table = some run ∧ ∀ a ∈ run.reads, InTable headerSize mem table a
  | .xsdt => ∀ dispatch : BitVec 32 → Option OsReturnE, (∀ a, dispatch a ≠ none) →
      ∃ fuel run, acpiParseXsdt dispatch mem fuel table = some run ∧ ∀ a ∈ run.reads, InTable headerSize mem table a
  | .madt => ∀ pushes : ℕ → Bool,
      ∃ fuel run, acpiParseApic pushes mem fuel table = some run ∧ ∀ a ∈ run.reads, InTable madtSize mem table a
  | .override irqNumber =>
      ∃ fuel run, acpiGetRemapedIrq true mem fuel table irqNumber = some run ∧ ∀ a ∈ run.1, InTable madtSize mem table a

/-- The table can be walked. -/
def Walkable (mem : FirmwareMemory) (table : BitVec 32) : TableWalk → Prop
  | .rsdt => WholeList mem table
  | .xsdt => WholeList mem table
  | .madt => EntriesInside mem table (table + BitVec.ofNat 32 madtSize) 0 0
  | .override irqNumber => OverrideInside mem table irqNumber (table + BitVec.ofNat 32 madtSize)

/-- A walk over a table that passes the checks ends inside of it exactly when the table can be walked. -/
theorem endsInside_iff (walk : TableWalk) (mem : FirmwareMemory) (table : BitVec 32) (hchecked : walk.Checked mem table) :
    walk.EndsInside mem table ↔ walk.Walkable mem table := by
  obtain ⟨htable, hsignature, hsum⟩ := hchecked
  cases walk with
  | rsdt => exact parseTables_inside_iff htable hsignature hsum
  | xsdt => exact parseTables_inside_iff htable hsignature hsum
  | madt => exact acpiParseApic_inside_iff htable hsignature hsum
  | override irqNumber => exact acpiGetRemapedIrq_inside_iff htable

/-- A RSDT with one pointer. -/
def shortRsdt : List (BitVec 8) :=
  [0x52, 0x53, 0x44, 0x54, 40, 0, 0, 0, 0, 123] ++ List.replicate 26 0 ++ [0x00, 0x20, 0, 0]

theorem endsInside_shortRsdt : TableWalk.rsdt.EndsInside (tableMemory shortRsdt) 0x1000#32 := by
  refine (endsInside_iff .rsdt _ _ ⟨by decide, by decide, by decide⟩).mpr ?_
  exact ⟨by decide, fun _ => ⟨by decide, by decide⟩⟩

/-- A MADT with an entry of no length. -/
def endlessMadt : List (BitVec 8) := [0x41, 0x50, 0x49, 0x43, 46, 0, 0, 0, 0, 181]

theorem endsInside_endlessMadt : TableWalk.madt.Checked (tableMemory endlessMadt) 0x1000#32 ∧
    ¬TableWalk.madt.EndsInside (tableMemory endlessMadt) 0x1000#32 := by
  have hchecked : headerSignature (tableMemory endlessMadt) 0x1000#32 = acpiApicSig ∧
      byteSum (tableMemory endlessMadt) 0x1000#32 (headerLength (tableMemory endlessMadt) 0x1000#32).toNat = 0 := by decide
  refine ⟨⟨by decide, hchecked⟩, fun hends => ?_⟩
  exact not_entriesInside (by decide) (by decide) ((acpiParseApic_inside_iff (by decide) hchecked.1 hchecked.2).mp hends)

end TableWalk

end UtkKernel.Acpi
