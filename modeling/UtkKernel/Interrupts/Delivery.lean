import UtkKernel.Interrupts.IoApic
import UtkKernel.Foundations.Simulations
import Mathlib.Data.Prod.Basic

/-! # The way of an interrupt to its handler

An interrupt that is registered and let through is taken from a pin of an IO-APIC, goes to the CPU as a line and through
`kernel_interrupt_handler` to a handler. What the drivers of the devices count on is `LineStep`: lines with handlers, and
pins that serve one interrupt each or none. The registers and the manager keep to it in every run. -/

namespace UtkKernel.Interrupts
open Foundations
set_option autoImplicit false

variable {H : Type}

abbrev ApicManager (H : Type) := InterruptManager H Apics

/-- A pin of an IO-APIC. -/
abbrev Pin := BitVec 32 × BitVec 8

/-- The calls that change the table of handlers. -/
inductive HandlerCall (H : Type)
  | registerInt (line : Line) (handler : Option H)
  | removeInt (line : Line)
  | registerException (line : Line) (handler : Option H)
  | removeException (line : Line)
  | registerIrq (irq : Irq) (handler : Option H)
  | removeIrq (irq : Irq)

def HandlerCall.run (cfg : IoApicConfig) : HandlerCall H → Handlers H → OsReturnE × Handlers H
  | registerInt line handler => kernelInterruptRegisterIntHandler line handler
  | removeInt line => kernelInterruptRemoveIntHandler line
  | registerException line handler => kernelExceptionRegisterHandler line handler
  | removeException line => kernelExceptionRemoveHandler line
  | registerIrq irq handler => kernelInterruptRegisterIrqHandler (ioApicDriver cfg) irq handler
  | removeIrq irq => kernelInterruptRemoveIrqHandler (ioApicDriver cfg) irq

/-- The events of a run. Where a pin is raised, the CPU is interrupted or nothing happens. -/
inductive IntEvent (H : Type)
  | call (c : HandlerCall H) (result : OsReturnE)
  | setIrqMask (irq : Irq) (enabled : BitVec 32)
  | setIrqEoi (irq : Irq)
  | raise (pin : Pin) (outcome : Option (Outcome H))

def Apics.redirect (a : Apics) (pin : Pin) : Option Line := (a.ioApics pin.1).redirect pin.2

/-- The kernel. The CPU takes an interrupt from a pin when its interrupt flag is set. -/
inductive IntStep (cfg : IoApicConfig) (panicHandler : H) : ApicManager H → IntEvent H → ApicManager H → Prop
  | call {m : ApicManager H} (c : HandlerCall H) :
      IntStep cfg panicHandler m (.call c (c.run cfg m.handlers).1) { m with handlers := (c.run cfg m.handlers).2 }
  | setIrqMask {m m' : ApicManager H} {irq : Irq} {enabled : BitVec 32}
      (h : kernelInterruptSetIrqMask (ioApicDriver cfg) irq enabled m = some m') :
      IntStep cfg panicHandler m (.setIrqMask irq enabled) m'
  | setIrqEoi {m m' : ApicManager H} {irq : Irq} (h : kernelInterruptSetIrqEoi (ioApicDriver cfg) irq m = some m') :
      IntStep cfg panicHandler m (.setIrqEoi irq) m'
  | taken {m m' : ApicManager H} {pin : Pin} {line : Line} {outcome : Outcome H} (hpin : pin.2 < 0x78)
      (hline : m.devices.redirect pin = some line)
      (h : kernelInterruptHandler (ioApicDriver cfg) panicHandler true line m = some (outcome, m')) :
      IntStep cfg panicHandler m (.raise pin (some outcome)) m'
  | masked {m : ApicManager H} {pin : Pin} (hpin : pin.2 < 0x78) (hline : m.devices.redirect pin = none) :
      IntStep cfg panicHandler m (.raise pin none) m

/-! ## Lines and pins -/

/-- The handlers of the lines, and which interrupt a pin serves. -/
structure Lines (H : Type) where
  handlers : Handlers H
  serves : Pin → Option Irq

/-- The handler that an interrupt ends in. -/
def Lines.handlerOf (l : Lines H) (panicHandler : H) (irq : Irq) : H :=
  (l.handlers (irq + intIoApicIrqOffset)).getD panicHandler

/-- Registration by the number of an interrupt is registration on its line. -/
def HandlerCall.onLines (cfg : IoApicConfig) : HandlerCall H → Handlers H → OsReturnE × Handlers H
  | registerIrq irq handler => fun t =>
    if cfg.baseAddr irq = 0 then (.osErrNoSuchIrq, t)
    else kernelInterruptRegisterIntHandler (irq + intIoApicIrqOffset) handler t
  | removeIrq irq => fun t =>
    if cfg.baseAddr irq = 0 then (.osErrNoSuchIrq, t) else kernelInterruptRemoveIntHandler (irq + intIoApicIrqOffset) t
  | c => c.run cfg

inductive LineStep (cfg : IoApicConfig) (panicHandler : H) : Lines H → IntEvent H → Lines H → Prop
  | call {l : Lines H} (c : HandlerCall H) :
      LineStep cfg panicHandler l (.call c (c.onLines cfg l.handlers).1) { l with handlers := (c.onLines cfg l.handlers).2 }
  | setIrqMask {l : Lines H} {irq : Irq} {enabled : BitVec 32} (h : cfg.baseAddr irq ≠ 0) :
      LineStep cfg panicHandler l (.setIrqMask irq enabled)
        { l with serves := Function.update l.serves (cfg.pin irq) (if enabled.getLsbD 0 then some irq else none) }
  | setIrqEoi {l : Lines H} {irq : Irq} : LineStep cfg panicHandler l (.setIrqEoi irq) l
  | raise {l : Lines H} {pin : Pin} :
      LineStep cfg panicHandler l (.raise pin ((l.serves pin).map fun irq => .handled (l.handlerOf panicHandler irq))) l

/-- The registers let through what the pins serve. -/
structure Delivers (m : ApicManager H) (l : Lines H) : Prop where
  handlers : l.handlers = m.handlers
  redirect : ∀ pin : Pin, pin.2 < 0x78 → m.devices.redirect pin = (l.serves pin).map (· + intIoApicIrqOffset)
  irq_lt : ∀ pin irq, l.serves pin = some irq → irq < 0xC0

variable {cfg : IoApicConfig} {panicHandler h : H} {m m' : ApicManager H} {l : Lines H} {irq : Irq} {line : Line}
  {c : HandlerCall H} {t : Handlers H} {enabled : BitVec 32} {pin : Pin}

theorem HandlerCall.run_eq (hcfg : cfg.WellFormed) : c.run cfg t = c.onLines cfg t := by
  have hslt : ∀ irq, ((ioApicDriver cfg).driverGetIrqIntLine irq).slt 0 = true ↔ cfg.baseAddr irq = 0 :=
    fun _ => ioApicGetIrqIntLine_slt hcfg
  have hline : ∀ irq, cfg.baseAddr irq ≠ 0 → (ioApicDriver cfg).driverGetIrqIntLine irq = irq + intIoApicIrqOffset :=
    fun _ => ioApicGetIrqIntLine_eq hcfg
  cases c with
  | registerIrq irq handler =>
    simp only [run, onLines, kernelInterruptRegisterIrqHandler]
    by_cases hbase : cfg.baseAddr irq = 0
    · rw [if_pos ((hslt irq).mpr hbase), if_pos hbase]
    · rw [if_neg (fun h => hbase ((hslt irq).mp h)), if_neg hbase, hline irq hbase]
  | removeIrq irq =>
    simp only [run, onLines, kernelInterruptRemoveIrqHandler]
    by_cases hbase : cfg.baseAddr irq = 0
    · rw [if_pos ((hslt irq).mpr hbase), if_pos hbase]
    · rw [if_neg (fun h => hbase ((hslt irq).mp h)), if_neg hbase, hline irq hbase]
  | _ => rfl

/-- The line of an interrupt lies above those that the manager treats in a way of its own. -/
theorem irq_line (hirq : irq < 0xC0) :
    irq + intIoApicIrqOffset < intEntryCount ∧ irq + intIoApicIrqOffset ≠ panicIntLine ∧
      irq + intIoApicIrqOffset ≠ 0x3F := by
  unfold intIoApicIrqOffset intEntryCount panicIntLine
  refine ⟨?_, ?_, ?_⟩
  all_goals bv_omega

/-- With the flag set, the line of an interrupt goes to its handler, or to a panic where there is none. -/
theorem kernelInterruptHandler_irq (hirq : irq < 0xC0) :
    kernelInterruptHandler (ioApicDriver cfg) panicHandler true (irq + intIoApicIrqOffset) m =
      some (.handled ((m.handlers (irq + intIoApicIrqOffset)).getD panicHandler), m) := by
  obtain ⟨hcount, hpanic, hpic⟩ := irq_line hirq
  simp only [kernelInterruptHandler, ioApicDriver, ioApicHandleSpuriousIrq_eq, if_neg hpic, if_neg hpanic, if_pos hcount,
    Bool.not_true, Bool.false_and, Bool.false_eq_true, if_false, Option.map_some]

theorem Delivers.setIrqMask (hcfg : cfg.WellFormed) (h : Delivers m l)
    (hmask : kernelInterruptSetIrqMask (ioApicDriver cfg) irq enabled m = some m') :
    cfg.baseAddr irq ≠ 0 ∧ Delivers m'
      { l with serves := Function.update l.serves (cfg.pin irq) (if enabled.getLsbD 0 then some irq else none) } := by
  obtain ⟨d, hd, rfl⟩ := Option.map_eq_some_iff.mp hmask
  have hbase : cfg.baseAddr irq ≠ 0 := ioApicSetIrqMask_isSome.mp (Option.isSome_iff_exists.mpr ⟨d, hd⟩)
  refine ⟨hbase, h.handlers, ?_, ?_⟩
  · intro pin hpin
    rw [Apics.redirect, ioApicSetIrqMask_redirect hcfg hd hpin]
    dsimp only
    by_cases hsame : pin = cfg.pin irq
    · rw [if_pos hsame, hsame, Function.update_self]
      split <;> rfl
    · rw [if_neg hsame, Function.update_of_ne hsame]
      exact h.redirect pin hpin
  · intro pin irq' hserves
    dsimp only at hserves
    by_cases hsame : pin = cfg.pin irq
    · rw [hsame, Function.update_self] at hserves
      split at hserves
      · cases hserves
        exact hcfg.irq_lt irq hbase
      · cases hserves
    · rw [Function.update_of_ne hsame] at hserves
      exact h.irq_lt pin irq' hserves

theorem Delivers.setIrqEoi (h : Delivers m l) (heoi : kernelInterruptSetIrqEoi (ioApicDriver cfg) irq m = some m') :
    Delivers m' l := by
  obtain ⟨d, hd, rfl⟩ := Option.map_eq_some_iff.mp heoi
  simp only [ioApicDriver, ioApicSetIrqEoi, lapicSetIntEoi] at hd
  split at hd
  · cases hd
    exact ⟨h.handlers, h.redirect, h.irq_lt⟩
  · cases hd

/-- What the kernel does about interrupts is what the lines and the pins do. -/
theorem line_simulates (hcfg : cfg.WellFormed) :
    Simulates (IntStep cfg panicHandler) (LineStep cfg panicHandler) Delivers := by
  intro m l e m' h hstep
  cases hstep with
  | call c =>
    rw [HandlerCall.run_eq hcfg, ← h.handlers]
    exact ⟨_, .call c, rfl, h.redirect, h.irq_lt⟩
  | setIrqMask hmask =>
    obtain ⟨hbase, hdelivers⟩ := h.setIrqMask hcfg hmask
    exact ⟨_, .setIrqMask hbase, hdelivers⟩
  | setIrqEoi heoi => exact ⟨l, .setIrqEoi, h.setIrqEoi heoi⟩
  | @taken _ pin line outcome hpin hline hhandler =>
    have hraise : LineStep cfg panicHandler l
        (.raise pin ((l.serves pin).map fun irq => .handled (l.handlerOf panicHandler irq))) l := .raise
    rw [h.redirect pin hpin] at hline
    obtain ⟨irq, hserves, rfl⟩ := Option.map_eq_some_iff.mp hline
    rw [kernelInterruptHandler_irq (h.irq_lt pin irq hserves)] at hhandler
    cases hhandler
    rw [hserves, Option.map_some, Lines.handlerOf, h.handlers] at hraise
    exact ⟨l, hraise, h⟩
  | @masked pin hpin hline =>
    have hraise : LineStep cfg panicHandler l
        (.raise pin ((l.serves pin).map fun irq => .handled (l.handlerOf panicHandler irq))) l := .raise
    rw [h.redirect pin hpin] at hline
    rw [Option.map_eq_none_iff.mp hline, Option.map_none] at hraise
    exact ⟨l, hraise, h⟩

/-- Before `io_apic_init` every entry is masked. -/
def PowerOn (m : ApicManager H) : Prop := ∀ pin : Pin, pin.2 < 0x78 → m.devices.redirect pin = none

/-- From power on every run of the kernel is a run of the lines and the pins. -/
theorem interrupts_trace {trace : List (IntEvent H × ApicManager H)} (hcfg : cfg.WellFormed) (hm : PowerOn m)
    (ht : Trace (IntStep cfg panicHandler) m trace) :
    ∃ trace', Trace (LineStep cfg panicHandler) ⟨m.handlers, fun _ => none⟩ trace' ∧
      List.Forall₂ (fun x y => x.1 = y.1 ∧ Delivers x.2 y.2) trace trace' := by
  refine (line_simulates hcfg).trace ht ⟨rfl, fun pin hpin => ?_, fun _ _ h => ?_⟩
  · exact hm pin hpin
  · cases h

/-- A PC: one IO-APIC, and the first interrupt on its third pin. -/
def pcConfig : IoApicConfig where
  ioApics := [⟨0, 0xFEC00000, 24, 0⟩]
  remap irq := if irq = 0 then 2 else irq

def pcPowerOn : ApicManager Bool where
  handlers := kernelInterruptInit false
  devices := ⟨fun _ => ⟨0, fun _ => 0x10000⟩, 0⟩
  spuriousInterrupt := 0

theorem pcConfig_baseAddr {irq : Irq} (h : pcConfig.baseAddr irq ≠ 0) : irq < 24 := by
  by_contra hirq
  refine h (if_neg fun hcovers => hirq ?_)
  have hrange : 0#32 ≤ irq ∧ irq < 24#32 := by simpa [IoApicData.covers] using hcovers
  exact hrange.2

theorem pcConfig_wellFormed : pcConfig.WellFormed where
  irq_lt irq h := by
    have hirq := pcConfig_baseAddr h
    bv_omega
  remap_lt irq h := by
    have hirq := pcConfig_baseAddr h
    simp only [pcConfig]
    split
    · decide
    · bv_omega
  baseAddr_ne c hc := by
    rw [List.mem_singleton.mp hc]
    decide

theorem pcPowerOn_powerOn : PowerOn pcPowerOn := by
  intro pin _
  simp [Apics.redirect, IoApic.redirect, pcPowerOn]

/-- A handler is registered while the pin is still masked. -/
theorem interrupts_trace_pc :
    let c : HandlerCall Bool := .registerIrq 0 (some true)
    let m : ApicManager Bool := { pcPowerOn with handlers := (c.run pcConfig pcPowerOn.handlers).2 }
    ∃ trace', Trace (LineStep pcConfig false) ⟨pcPowerOn.handlers, fun _ => none⟩ trace' ∧
      List.Forall₂ (fun x y => x.1 = y.1 ∧ Delivers x.2 y.2)
        [(.call c (c.run pcConfig pcPowerOn.handlers).1, m), (.raise (0xFEC00000, 2) none, m)] trace' := by
  intro c m
  refine interrupts_trace pcConfig_wellFormed pcPowerOn_powerOn (.cons (.call c) (.cons (.masked ?_ ?_) (.nil m)))
  · decide
  · exact pcPowerOn_powerOn (0xFEC00000, 2) (by decide)

/-! ## One interrupt among others -/

/-- The calls that take a handler from a line. -/
def HandlerCall.Removes (line : Line) : HandlerCall H → Prop
  | removeInt line' => line' = line
  | removeIrq irq => irq + intIoApicIrqOffset = line
  | _ => False

/-- The calls that concern an interrupt: its handler is removed, or an interrupt that is taken from the same pin is let
through or masked. -/
def IntEvent.Concerns (cfg : IoApicConfig) (irq : Irq) : IntEvent H → Prop
  | call c _ => c.Removes (irq + intIoApicIrqOffset)
  | setIrqMask irq' _ => cfg.pin irq' = cfg.pin irq
  | _ => False

/-- An interrupt with a handler, let through or not. -/
structure Connected (cfg : IoApicConfig) (irq : Irq) (h : H) (isOpen : Bool) (m : ApicManager H) : Prop where
  handler : m.handlers (irq + intIoApicIrqOffset) = some h
  pin : m.devices.redirect (cfg.pin irq) = if isOpen then some (irq + intIoApicIrqOffset) else none

theorem HandlerCall.run_keeps (hcfg : cfg.WellFormed) (hirq : irq < 0xC0) (hc : ¬c.Removes (irq + intIoApicIrqOffset))
    (ht : t (irq + intIoApicIrqOffset) = some h) : (c.run cfg t).2 (irq + intIoApicIrqOffset) = some h := by
  rw [run_eq hcfg]
  cases c with
  | registerInt line handler => exact registerHandler_keeps ht
  | removeInt line => exact (removeHandler_of_ne (fun heq => hc heq.symm)).trans ht
  | registerException line handler => exact registerHandler_keeps ht
  | removeException line =>
    by_cases heq : irq + intIoApicIrqOffset = line
    · have hrange : maxExceptionLine < line := by
        rw [← heq]
        unfold maxExceptionLine intIoApicIrqOffset
        bv_omega
      have hunauthorized : (line.slt minExceptionLine || decide (maxExceptionLine < line)) = true := by simp [hrange]
      simp only [onLines, run, kernelExceptionRemoveHandler, removeHandler, if_pos hunauthorized]
      exact ht
    · exact (removeHandler_of_ne heq).trans ht
  | registerIrq irq' handler =>
    simp only [onLines]
    split
    · exact ht
    · exact registerHandler_keeps ht
  | removeIrq irq' =>
    simp only [onLines]
    split
    · exact ht
    · exact (removeHandler_of_ne (fun heq => hc heq.symm)).trans ht

/-- An interrupt changes neither the handlers nor the IO-APICs. -/
theorem kernelInterruptHandler_keeps {enabled : Bool} {outcome : Outcome H}
    (h : kernelInterruptHandler (ioApicDriver cfg) panicHandler enabled line m = some (outcome, m')) :
    m'.handlers = m.handlers ∧ m'.devices.ioApics = m.devices.ioApics := by
  unfold kernelInterruptHandler at h
  split at h
  · cases h
    exact ⟨rfl, rfl⟩
  · split at h
    · cases h
      exact ⟨rfl, rfl⟩
    · obtain ⟨⟨type, d⟩, hd, hr⟩ := Option.map_eq_some_iff.mp h
      have hchips : d.ioApics = m.devices.ioApics := by
        simp only [ioApicDriver, ioApicHandleSpuriousIrq_eq] at hd
        split at hd
        · cases hd
          rfl
        · cases hd
          rfl
      cases type with
      | spurious =>
        cases hr
        exact ⟨rfl, hchips⟩
      | regular =>
        cases hr
        exact ⟨rfl, hchips⟩

/-- The pin of an interrupt is one that a chip has. -/
theorem IoApicConfig.WellFormed.pin_lt (hcfg : cfg.WellFormed) (hbase : cfg.baseAddr irq ≠ 0) : (cfg.pin irq).2 < 0x78 := by
  have hremap := hcfg.remap_lt irq hbase
  simp only [IoApicConfig.pin]
  bv_omega

theorem Connected.step {isOpen : Bool} {e : IntEvent H} (hcfg : cfg.WellFormed) (hbase : cfg.baseAddr irq ≠ 0)
    (hm : Connected cfg irq h isOpen m) (hstep : IntStep cfg panicHandler m e m') (he : ¬e.Concerns cfg irq) :
    Connected cfg irq h isOpen m' := by
  cases hstep with
  | call c => exact ⟨c.run_keeps hcfg (hcfg.irq_lt irq hbase) he hm.handler, hm.pin⟩
  | @setIrqMask _ irq' _ hmask =>
    obtain ⟨d, hd, rfl⟩ := Option.map_eq_some_iff.mp hmask
    refine ⟨hm.handler, ?_⟩
    have hother : ((cfg.pin irq).1, (cfg.pin irq).2) ≠ cfg.pin irq' := fun heq => he heq.symm
    rw [Apics.redirect, ioApicSetIrqMask_redirect hcfg hd (hcfg.pin_lt hbase), if_neg hother]
    exact hm.pin
  | setIrqEoi heoi =>
    obtain ⟨d, hd, rfl⟩ := Option.map_eq_some_iff.mp heoi
    simp only [ioApicDriver, ioApicSetIrqEoi, lapicSetIntEoi] at hd
    split at hd
    · cases hd
      exact ⟨hm.handler, hm.pin⟩
    · cases hd
  | taken hpin hline hhandler =>
    obtain ⟨hhandlers, hchips⟩ := kernelInterruptHandler_keeps hhandler
    refine ⟨hhandlers ▸ hm.handler, ?_⟩
    rw [Apics.redirect, hchips]
    exact hm.pin
  | masked hpin hline => exact hm

/-- What a raised pin does in a state in which its interrupt has a handler. -/
theorem Connected.raise {isOpen : Bool} {outcome : Option (Outcome H)} (hcfg : cfg.WellFormed)
    (hbase : cfg.baseAddr irq ≠ 0) (hm : Connected cfg irq h isOpen m)
    (hstep : IntStep cfg panicHandler m (.raise (cfg.pin irq) outcome) m') :
    outcome = if isOpen then some (.handled h) else none := by
  have hpin := hm.pin
  cases hstep with
  | taken _ hline hhandler =>
    rw [hline] at hpin
    cases isOpen with
    | false => cases hpin
    | true =>
      cases hpin
      rw [kernelInterruptHandler_irq (hcfg.irq_lt irq hbase), hm.handler] at hhandler
      cases hhandler
      rfl
  | masked _ hline =>
    rw [hline] at hpin
    cases isOpen with
    | false => rfl
    | true => cases hpin

theorem Connected.trace {isOpen : Bool} {trace : List (IntEvent H × ApicManager H)} (hcfg : cfg.WellFormed)
    (hbase : cfg.baseAddr irq ≠ 0) (ht : Trace (IntStep cfg panicHandler) m trace) (hm : Connected cfg irq h isOpen m)
    (hothers : ∀ x ∈ trace, ¬x.1.Concerns cfg irq) :
    ∀ x ∈ trace, ∀ outcome, x.1 = .raise (cfg.pin irq) outcome → outcome = if isOpen then some (.handled h) else none := by
  induction ht with
  | nil m =>
    intro x hx
    cases hx
  | @cons m m' e trace hstep _ ih =>
    rw [List.forall_mem_cons] at hothers
    rw [List.forall_mem_cons]
    refine ⟨fun outcome heq => ?_, ih (hm.step hcfg hbase hstep hothers.1) hothers.2⟩
    dsimp only at heq
    rw [heq] at hstep
    exact hm.raise hcfg hbase hstep

/-- A driver that has registered its handler and has let its interrupt through, or masked it, can rely on that as long as
nobody removes the handler or uses the pin for an interrupt. -/
theorem irq_delivered {t : Handlers H} {trace : List (IntEvent H × ApicManager H)} (hcfg : cfg.WellFormed)
    (hregister : kernelInterruptRegisterIrqHandler (ioApicDriver cfg) irq (some h) m.handlers = (.osNoErr, t))
    (hmask : kernelInterruptSetIrqMask (ioApicDriver cfg) irq enabled { m with handlers := t } = some m')
    (ht : Trace (IntStep cfg panicHandler) m' trace) (hothers : ∀ x ∈ trace, ¬x.1.Concerns cfg irq) :
    ∀ x ∈ trace, ∀ outcome, x.1 = .raise (cfg.pin irq) outcome →
      outcome = if enabled.getLsbD 0 then some (.handled h) else none := by
  obtain ⟨d, hd, rfl⟩ := Option.map_eq_some_iff.mp hmask
  have hbase : cfg.baseAddr irq ≠ 0 := ioApicSetIrqMask_isSome.mp (Option.isSome_iff_exists.mpr ⟨d, hd⟩)
  refine Connected.trace hcfg hbase ht ⟨?_, ?_⟩ hothers
  · simp only [kernelInterruptRegisterIrqHandler] at hregister
    split at hregister
    · cases hregister
    · have hline : (ioApicDriver cfg).driverGetIrqIntLine irq = irq + intIoApicIrqOffset := ioApicGetIrqIntLine_eq hcfg hbase
      rw [hline] at hregister
      exact registerHandler_noErr hregister
  · rw [Apics.redirect, ioApicSetIrqMask_redirect hcfg hd (hcfg.pin_lt hbase), if_pos rfl]

/-- The timer of a PC is registered and let through, and its pin is raised. -/
theorem irq_delivered_pc :
    let t := (kernelInterruptRegisterIrqHandler (ioApicDriver pcConfig) 0 (some true) pcPowerOn.handlers).2
    let a := ioApicWrite 0xFEC00000 0x15 0 (ioApicWrite 0xFEC00000 0x14 0x40 pcPowerOn.devices)
    let m : ApicManager Bool := { pcPowerOn with handlers := t, devices := a }
    ∀ x ∈ [(IntEvent.raise (0xFEC00000, 2) (some (.handled true)), m)], ∀ outcome,
      x.1 = .raise (pcConfig.pin 0) outcome → outcome = if (1#32).getLsbD 0 then some (.handled true) else none := by
  intro t a m
  have hbase : pcConfig.baseAddr 0 = 0xFEC00000 := rfl
  have hentry : ioApicEntryLo 0 1 = 0x40 := by decide
  have hregister : ioRedTbl + pcConfig.remap 0 * 2 = 0x14 := by decide
  have hmask : kernelInterruptSetIrqMask (ioApicDriver pcConfig) 0 1 { pcPowerOn with handlers := t } = some m := by
    simp only [kernelInterruptSetIrqMask, ioApicDriver, ioApicSetIrqMask, hbase, hentry, hregister]
    rfl
  have hpin : m.devices.redirect (0xFEC00000, 2) = some 0x40 := by
    simp only [m, a, Apics.redirect, IoApic.redirect, ioApicWrite_self]
    decide
  have htaken : IntStep pcConfig false m (.raise (0xFEC00000, 2) (some (.handled true))) m :=
    .taken (by decide) hpin (@kernelInterruptHandler_irq _ pcConfig false m 0 (by decide))
  exact irq_delivered pcConfig_wellFormed rfl hmask (.cons htaken (.nil m)) (by simp [IntEvent.Concerns])

end UtkKernel.Interrupts
