import UtkKernel.Interrupts.Handlers
import Mathlib.Data.Nat.Init

/-! # The IO-APIC driver

`io_apic.c` over the registers of the IO-APICs. `IoApicConfig` is what `io_apic_init` finds in the ACPI tables and does
not change; `remap` is `acpi_get_remaped_irq`. -/

namespace UtkKernel.Interrupts
set_option autoImplicit false

variable {H : Type}

/-- `io_apic_data_t` -/
structure IoApicData where
  id : BitVec 32
  baseAddr : BitVec 32
  maxRedirectCount : BitVec 8
  gsib : BitVec 32

structure IoApicConfig where
  ioApics : List IoApicData
  remap : Irq → BitVec 32

/-- An IO-APIC: the register that is selected, of which the chip looks at eight bits, and the registers. -/
structure IoApic where
  select : BitVec 32
  registers : BitVec 8 → BitVec 32

/-- The IO-APICs by their addresses, and how often `LAPIC_EOI` was written. -/
structure Apics where
  ioApics : BitVec 32 → IoApic
  lapicEois : ℕ

def ioRedTbl : BitVec 32 := 0x10
def intIoApicIrqOffset : BitVec 32 := 0x40
def intPicIrqOffset : BitVec 32 := 0x30
def picMaxIrqLine : ℕ := 15
def lapicSpuriousIntLine : Line := maxInterruptLine

/-- A write at `IOREGSEL`. -/
def IoApic.writeSelect (reg : BitVec 32) (c : IoApic) : IoApic := { c with select := reg }

/-- A write at `IOWIN`. -/
def IoApic.writeWindow (val : BitVec 32) (c : IoApic) : IoApic :=
  { c with registers := Function.update c.registers (c.select.setWidth 8) val }

/-- `io_apic_write` -/
def ioApicWrite (baseAddr reg val : BitVec 32) (a : Apics) : Apics :=
  let selected := Function.update a.ioApics baseAddr ((a.ioApics baseAddr).writeSelect reg)
  { a with ioApics := Function.update selected baseAddr ((selected baseAddr).writeWindow val) }

/-- The interrupts that an IO-APIC handles; the sum is one of 32 bits. -/
def IoApicData.covers (c : IoApicData) (irq : Irq) : Bool :=
  c.gsib ≤ irq && irq < c.gsib + c.maxRedirectCount.setWidth 32

/-- The address of the IO-APIC that manages an interrupt: the last one that does, or 0. -/
def IoApicConfig.baseAddr (cfg : IoApicConfig) (irq : Irq) : BitVec 32 :=
  cfg.ioApics.foldl (fun baseAddr c => if c.covers irq then c.baseAddr else baseAddr) 0

def ioApicEntryLo (irq : Irq) (enabled : BitVec 32) : BitVec 32 :=
  (irq + intIoApicIrqOffset) ||| ((~~~ enabled &&& 1) <<< 16)

/-- `io_apic_set_irq_mask`; of `enabled` the lowest bit counts. -/
def ioApicSetIrqMask (cfg : IoApicConfig) (irq : Irq) (enabled : BitVec 32) (a : Apics) : Option Apics :=
  let baseAddr := cfg.baseAddr irq
  if baseAddr = 0 then none
  else
    let entryLo := ioApicEntryLo irq enabled
    let entryHi := 0
    let actualIrq := cfg.remap irq
    let a := ioApicWrite baseAddr (ioRedTbl + actualIrq * 2) entryLo a
    some (ioApicWrite baseAddr (ioRedTbl + actualIrq * 2 + 1) entryHi a)

def lapicSetIntEoi (interruptLine : BitVec 32) (a : Apics) : Option Apics :=
  if interruptLine ≤ maxInterruptLine then some { a with lapicEois := a.lapicEois + 1 } else none

/-- `io_apic_set_irq_eoi` -/
def ioApicSetIrqEoi (irq : Irq) (a : Apics) : Option Apics := lapicSetIntEoi irq a

/-- `io_apic_handle_spurious_irq`; the second comparison of the first test looks for lines from the last one of the PIC on,
and the test for the line of the LAPIC comes after one for the lines of the PIC. -/
def ioApicHandleSpuriousIrq (intNumber : Line) (a : Apics) : Option (InterruptTypeE × Apics) :=
  let irqId := intNumber - intPicIrqOffset
  if !irqId.slt 0 && irqId.toInt ≤ picMaxIrqLine then
    let pic : Option (InterruptTypeE × Apics) :=
      if intPicIrqOffset ≤ intNumber && intPicIrqOffset + 0x0F ≤ intNumber then
        (lapicSetIntEoi intNumber a).map fun a => (.spurious, a)
      else some (.regular, a)
    if intNumber = lapicSpuriousIntLine then
      pic.bind fun r => (lapicSetIntEoi intNumber r.2).map fun a => (.spurious, a)
    else pic
  else some (.regular, a)

/-- `io_apic_get_irq_int_line` -/
def ioApicGetIrqIntLine (cfg : IoApicConfig) (irq : Irq) : BitVec 32 :=
  if cfg.ioApics.any (·.covers irq) then irq + intIoApicIrqOffset else -1

def ioApicDriver (cfg : IoApicConfig) : InterruptDriver Apics where
  driverSetIrqMask := ioApicSetIrqMask cfg
  driverSetIrqEoi := ioApicSetIrqEoi
  driverHandleSpurious := ioApicHandleSpuriousIrq
  driverGetIrqIntLine := ioApicGetIrqIntLine cfg

/-! ## Redirection -/

/-- The first of the two registers of a pin. -/
def entryRegister (pin : BitVec 8) : BitVec 8 := 0x10 + pin * 2

/-- The line that an interrupt on a pin raises on the CPU: an entry that is not masked and asks for fixed delivery to the
first LAPIC sends its vector. -/
def IoApic.redirect (c : IoApic) (pin : BitVec 8) : Option Line :=
  let entryLo := c.registers (entryRegister pin)
  let entryHi := c.registers (entryRegister pin + 1)
  if entryLo >>> 8 = 0 ∧ entryHi = 0 then some (entryLo &&& 0xFF) else none

/-- Which pin an interrupt is taken from, as the driver sees it. -/
def IoApicConfig.pin (cfg : IoApicConfig) (irq : Irq) : BitVec 32 × BitVec 8 :=
  (cfg.baseAddr irq, (cfg.remap irq).setWidth 8)

/-- The tables name interrupts that have a line of their own, and pins that a chip can have. -/
structure IoApicConfig.WellFormed (cfg : IoApicConfig) : Prop where
  irq_lt : ∀ irq, cfg.baseAddr irq ≠ 0 → irq < 0xC0
  remap_lt : ∀ irq, cfg.baseAddr irq ≠ 0 → cfg.remap irq < 0x78
  baseAddr_ne : ∀ c ∈ cfg.ioApics, c.baseAddr ≠ 0

variable {cfg : IoApicConfig} {irq : Irq} {enabled base reg val : BitVec 32} {pin pin' : BitVec 8} {a a' : Apics} {c : IoApic}

/-- The first write goes to the select register, so that the second one goes to the register asked for. -/
theorem ioApicWrite_self : (ioApicWrite base reg val a).ioApics base =
    ⟨reg, Function.update (a.ioApics base).registers (reg.setWidth 8) val⟩ := by
  simp only [ioApicWrite, Function.update_self, IoApic.writeWindow, IoApic.writeSelect]

theorem ioApicWrite_of_ne {other : BitVec 32} (h : other ≠ base) :
    (ioApicWrite base reg val a).ioApics other = a.ioApics other := by
  simp only [ioApicWrite, Function.update_of_ne h]

theorem entryRegister_ne (h : pin ≠ pin') (hpin : pin < 0x78) (hpin' : pin' < 0x78) :
    entryRegister pin ≠ entryRegister pin' ∧ entryRegister pin ≠ entryRegister pin' + 1 ∧
      entryRegister pin + 1 ≠ entryRegister pin' ∧ entryRegister pin + 1 ≠ entryRegister pin' + 1 := by
  unfold entryRegister
  refine ⟨?_, ?_, ?_, ?_⟩
  all_goals bv_omega

theorem entryRegister_succ_ne (pin : BitVec 8) : entryRegister pin ≠ entryRegister pin + 1 := by
  unfold entryRegister
  bv_omega

theorem enabled_bit : ~~~ enabled &&& 1 = if enabled.getLsbD 0 then 0#32 else 1#32 := by
  change ~~~ enabled &&& 1#32 = _
  ext i hi
  cases i with
  | zero => cases h : enabled.getLsbD 0 <;> simp_all
  | succ i => split <;> simp

/-- The mask is the bit above the vector, as long as the vector has eight bits. -/
theorem ioApicEntryLo_eq (enabled : BitVec 32) (hirq : irq < 0xC0) :
    (ioApicEntryLo irq enabled >>> 8 = 0 ↔ enabled.getLsbD 0 = true) ∧
      (enabled.getLsbD 0 = true → ioApicEntryLo irq enabled &&& 0xFF = irq + intIoApicIrqOffset) := by
  have hvector : irq + intIoApicIrqOffset < 0x100#32 := by
    unfold intIoApicIrqOffset
    bv_omega
  unfold ioApicEntryLo
  rw [enabled_bit]
  generalize irq + intIoApicIrqOffset = vector at hvector
  split
  · next h =>
    have hnat : vector.toNat < 256 := hvector
    rw [BitVec.zero_shiftLeft, BitVec.or_zero]
    refine ⟨⟨fun _ => h, fun _ => ?_⟩, fun _ => ?_⟩
    · apply BitVec.eq_of_toNat_eq
      rw [BitVec.toNat_ushiftRight, Nat.shiftRight_eq_div_pow]
      exact Nat.div_eq_of_lt hnat
    · apply BitVec.eq_of_toNat_eq
      rw [BitVec.toNat_and]
      exact (Nat.and_two_pow_sub_one_eq_mod vector.toNat 8).trans (Nat.mod_eq_of_lt hnat)
  · next h =>
    refine ⟨⟨fun hzero => ?_, fun h' => absurd h' h⟩, fun h' => absurd h' h⟩
    have hbit : ((vector ||| 1#32 <<< 16) >>> 8).getLsbD 8 = true := by simp
    rw [hzero] at hbit
    exact absurd hbit (by decide)

/-- The entry that is written, and the entries that are not. -/
theorem writes_redirect {actualIrq lo : BitVec 32} (hactual : actualIrq < 0x78) (hpin : pin < 0x78) :
    let a' := ioApicWrite base (ioRedTbl + actualIrq * 2 + 1) 0 (ioApicWrite base (ioRedTbl + actualIrq * 2) lo a)
    (a'.ioApics base).redirect pin =
      if pin = actualIrq.setWidth 8 then if lo >>> 8 = 0 then some (lo &&& 0xFF) else none
      else (a.ioApics base).redirect pin := by
  have hlow : (ioRedTbl + actualIrq * 2).setWidth 8 = entryRegister (actualIrq.setWidth 8) := by
    unfold ioRedTbl entryRegister
    bv_omega
  have hhigh : (ioRedTbl + actualIrq * 2 + 1).setWidth 8 = entryRegister (actualIrq.setWidth 8) + 1 := by
    unfold ioRedTbl entryRegister
    bv_omega
  have hactual' : actualIrq.setWidth 8 < 0x78#8 := by bv_omega
  simp only [IoApic.redirect, ioApicWrite_self, hlow, hhigh]
  generalize actualIrq.setWidth 8 = entry at hactual'
  by_cases heq : pin = entry
  · rw [if_pos heq, heq, Function.update_self, Function.update_of_ne (entryRegister_succ_ne entry), Function.update_self]
    simp only [and_true]
  · obtain ⟨h1, h2, h3, h4⟩ := entryRegister_ne heq hpin hactual'
    rw [if_neg heq, Function.update_of_ne h2, Function.update_of_ne h1, Function.update_of_ne h4, Function.update_of_ne h3]

/-- The driver lets an interrupt through to its line, or masks it; the other pins stay as they are. -/
theorem ioApicSetIrqMask_redirect (hcfg : cfg.WellFormed) (h : ioApicSetIrqMask cfg irq enabled a = some a')
    (hpin : pin < 0x78) :
    (a'.ioApics base).redirect pin =
      if (base, pin) = cfg.pin irq then if enabled.getLsbD 0 then some (irq + intIoApicIrqOffset) else none
      else (a.ioApics base).redirect pin := by
  simp only [ioApicSetIrqMask] at h
  split at h
  · cases h
  · next hbase =>
    cases h
    obtain ⟨hmask, hvector⟩ := ioApicEntryLo_eq enabled (hcfg.irq_lt irq hbase)
    by_cases hother : base = cfg.baseAddr irq
    · subst hother
      rw [writes_redirect (hcfg.remap_lt irq hbase) hpin]
      simp only [IoApicConfig.pin, Prod.mk.injEq, true_and]
      by_cases hpins : pin = (cfg.remap irq).setWidth 8
      · rw [if_pos hpins, if_pos hpins]
        by_cases henabled : enabled.getLsbD 0 = true
        · rw [if_pos (hmask.mpr henabled), if_pos henabled, hvector henabled]
        · rw [if_neg (fun hzero => henabled (hmask.mp hzero)), if_neg henabled]
      · rw [if_neg hpins, if_neg hpins]
    · have hpins : (base, pin) ≠ cfg.pin irq := fun heq => hother (congrArg Prod.fst heq)
      rw [if_neg hpins, ioApicWrite_of_ne hother, ioApicWrite_of_ne hother]

theorem ioApicSetIrqMask_isSome : (ioApicSetIrqMask cfg irq enabled a).isSome = true ↔ cfg.baseAddr irq ≠ 0 := by
  simp only [ioApicSetIrqMask]
  split
  · next h => simp [h]
  · next h => exact ⟨fun _ => h, fun _ => rfl⟩

/-- An interrupt has an address exactly when some IO-APIC manages it. -/
theorem IoApicConfig.WellFormed.covers_iff (hcfg : cfg.WellFormed) :
    cfg.ioApics.any (·.covers irq) = true ↔ cfg.baseAddr irq ≠ 0 := by
  have hfold : ∀ (l : List IoApicData) (start : BitVec 32), (∀ c ∈ l, c.baseAddr ≠ 0) →
      (l.foldl (fun baseAddr c => if c.covers irq then c.baseAddr else baseAddr) start ≠ 0 ↔
        start ≠ 0 ∨ l.any (·.covers irq) = true) := by
    intro l
    induction l with
    | nil => simp
    | cons c l ih =>
      intro start hl
      have hc := hl c List.mem_cons_self
      rw [List.foldl_cons, ih _ fun d hd => hl d (List.mem_cons_of_mem c hd), List.any_cons]
      by_cases hcovers : c.covers irq = true
      · rw [if_pos hcovers, hcovers, Bool.true_or]
        exact ⟨fun _ => .inr rfl, fun _ => .inl hc⟩
      · have hfalse := Bool.eq_false_of_not_eq_true hcovers
        rw [if_neg hcovers, hfalse, Bool.false_or]
  have h := hfold cfg.ioApics 0 hcfg.baseAddr_ne
  simpa [IoApicConfig.baseAddr] using h.symm

/-- The line of an interrupt that is managed is no negative number. -/
theorem ioApicGetIrqIntLine_slt (hcfg : cfg.WellFormed) :
    (ioApicGetIrqIntLine cfg irq).slt 0 = true ↔ cfg.baseAddr irq = 0 := by
  unfold ioApicGetIrqIntLine
  split
  · next h =>
    have hbase := hcfg.covers_iff.mp h
    have hline : irq + intIoApicIrqOffset < 0x100#32 := by
      have hirq := hcfg.irq_lt irq hbase
      unfold intIoApicIrqOffset
      bv_omega
    have hpos : ¬(irq + intIoApicIrqOffset).slt 0 = true := by
      generalize irq + intIoApicIrqOffset = line at hline
      rw [BitVec.slt_iff_toInt_lt, BitVec.toInt_eq_toNat_cond]
      have hnat : line.toNat < 256 := hline
      split
      · simp
      · omega
    exact ⟨fun h' => absurd h' hpos, fun h' => absurd h' hbase⟩
  · next h =>
    have hbase : cfg.baseAddr irq = 0 := not_not.mp fun h' => h (hcfg.covers_iff.mpr h')
    exact ⟨fun _ => hbase, fun _ => by decide⟩

theorem ioApicGetIrqIntLine_eq (hcfg : cfg.WellFormed) (h : cfg.baseAddr irq ≠ 0) :
    ioApicGetIrqIntLine cfg irq = irq + intIoApicIrqOffset := if_pos (hcfg.covers_iff.mpr h)

/-- The lines of the PIC. -/
theorem pic_lines {intNumber : Line}
    (h : (!(intNumber - intPicIrqOffset).slt 0 && decide ((intNumber - intPicIrqOffset).toInt ≤ picMaxIrqLine)) = true) :
    intNumber.toNat ≤ 0x3F := by
  rw [Bool.and_eq_true, Bool.not_eq_true', decide_eq_true_eq] at h
  obtain ⟨hpos, hle⟩ := h
  have hsub : (intNumber - intPicIrqOffset).toNat = (2 ^ 32 - 48 + intNumber.toNat) % 2 ^ 32 := by
    rw [BitVec.toNat_sub]
    rfl
  have hlt := intNumber.isLt
  have hnonneg : ¬(intNumber - intPicIrqOffset).toInt < 0 := by
    intro hneg
    rw [(BitVec.slt_iff_toInt_lt).mpr (by simpa using hneg)] at hpos
    cases hpos
  rw [BitVec.toInt_eq_toNat_cond, hsub] at hle hnonneg
  unfold picMaxIrqLine at hle
  split at hle
  · omega
  · omega

/-- Of all lines, the driver takes the last one of the PIC for spurious, and no other. -/
theorem ioApicHandleSpuriousIrq_eq (intNumber : Line) :
    ioApicHandleSpuriousIrq intNumber a =
      if intNumber = 0x3F then some (.spurious, { a with lapicEois := a.lapicEois + 1 }) else some (.regular, a) := by
  by_cases h : intNumber = 0x3F
  · subst h
    rfl
  · rw [if_neg h]
    simp only [ioApicHandleSpuriousIrq]
    split
    · next hrange =>
      have hlt := pic_lines hrange
      have hlast : intNumber.toNat ≠ 0x3F := fun heq => h (BitVec.eq_of_toNat_eq heq)
      have hpic : ¬(decide (intPicIrqOffset ≤ intNumber) && decide (intPicIrqOffset + 0x0F ≤ intNumber)) = true := by
        simp only [intPicIrqOffset, Bool.and_eq_true, decide_eq_true_eq, BitVec.le_def]
        rintro ⟨-, hle⟩
        exact absurd hle (by simp; omega)
      have hlapic : intNumber ≠ lapicSpuriousIntLine := by
        rintro rfl
        exact absurd hlt (by decide)
      rw [if_neg hpic, if_neg hlapic]
    · rfl

end UtkKernel.Interrupts
