import UtkKernel.Interrupts.Delivery

/-! # The timer drivers

`pit.c` and `rtc.c` over the interrupt manager. Each driver counts how often it was disabled, masks its interrupt
meanwhile, and puts handlers in each other's place. The two are alike but for the frequencies and for one error path. -/

namespace UtkKernel.Interrupts
open Foundations
set_option autoImplicit false

variable {H : Type}

def pitIrqLine : Irq := 0
def rtcIrqLine : Irq := 8

/-! ## What the drivers share -/

/-- `disabled_nesting` of a driver, and the interrupt manager. -/
abbrev Nested (H : Type) := BitVec 32 × ApicManager H

def resumedNesting (n : BitVec 32) : BitVec 32 := if 0 < n then n - 1 else n
def pausedNesting (n : BitVec 32) : BitVec 32 := if n < 0xFFFFFFFF then n + 1 else n

/-- `pit_enable`, `rtc_enable` -/
def timerEnable (cfg : IoApicConfig) (irq : Irq) (s : Nested H) : Option (Nested H) :=
  let nesting := resumedNesting s.1
  if nesting = 0 then (kernelInterruptSetIrqMask (ioApicDriver cfg) irq 1 s.2).map fun m => (nesting, m)
  else some (nesting, s.2)

/-- `pit_disable`, `rtc_disable` -/
def timerDisable (cfg : IoApicConfig) (irq : Irq) (s : Nested H) : Option (Nested H) :=
  let nesting := pausedNesting s.1
  (kernelInterruptSetIrqMask (ioApicDriver cfg) irq 0 s.2).map fun m => (nesting, m)

/-- `pit_set_handler`, `rtc_set_handler`; where the new handler is refused, only the PIT is enabled again. -/
def timerSetHandler (cfg : IoApicConfig) (irq : Irq) (enablesAgain : Bool) (handler : Option H) (s : Nested H) :
    Option (OsReturnE × Nested H) :=
  match handler with
  | none => some (.osErrNullPointer, s)
  | some h =>
    (timerDisable cfg irq s).bind fun s =>
      let r := kernelInterruptRemoveIrqHandler (ioApicDriver cfg) irq s.2.handlers
      let s := (s.1, { s.2 with handlers := r.2 })
      if r.1 ≠ .osNoErr then (timerEnable cfg irq s).map fun s => (r.1, s)
      else
        let r := kernelInterruptRegisterIrqHandler (ioApicDriver cfg) irq (some h) s.2.handlers
        let s := (s.1, { s.2 with handlers := r.2 })
        if r.1 ≠ .osNoErr ∧ enablesAgain = false then some (r.1, s)
        else (timerEnable cfg irq s).map fun s => (r.1, s)

/-! ## The two drivers -/

/-- The state of the drivers and what they have programmed: the divisor of the PIT, and the register A of the CMOS. -/
structure Timers (H : Type) where
  manager : ApicManager H
  pitNesting : BitVec 32
  pitFrequency : BitVec 32
  pitDivisor : BitVec 16
  rtcNesting : BitVec 32
  rtcFrequency : BitVec 32
  cmosRegA : BitVec 8

/-- What is a driver's own. -/
structure TimerDriver (H : Type) where
  irq : Irq
  enablesAgain : Bool
  nesting : Timers H → BitVec 32
  setNesting : BitVec 32 → Timers H → Timers H
  inBounds : BitVec 32 → Bool
  program : BitVec 32 → Timers H → Timers H

namespace TimerDriver

variable (d : TimerDriver H) (cfg : IoApicConfig)

def nested (s : Timers H) : Nested H := (d.nesting s, s.manager)

def put (s : Timers H) (n : Nested H) : Timers H := { d.setNesting n.1 s with manager := n.2 }

def enable (s : Timers H) : Option (Timers H) := (timerEnable cfg d.irq (d.nested s)).map (d.put s)

def disable (s : Timers H) : Option (Timers H) := (timerDisable cfg d.irq (d.nested s)).map (d.put s)

def setFrequency (frequency : BitVec 32) (s : Timers H) : Option (Timers H) :=
  if d.inBounds frequency then (d.disable cfg s).bind fun s => d.enable cfg (d.program frequency s) else none

def setHandler (handler : Option H) (s : Timers H) : Option (OsReturnE × Timers H) :=
  (timerSetHandler cfg d.irq d.enablesAgain handler (d.nested s)).map fun r => (r.1, d.put s r.2)

end TimerDriver

def pitQuartzFreq : BitVec 32 := 0x1234DD
def pitInitFreq : BitVec 32 := 100
def pitMinFreq : BitVec 32 := 20
def pitMaxFreq : BitVec 32 := 8000

def pitDriver : TimerDriver H where
  irq := pitIrqLine
  enablesAgain := true
  nesting := Timers.pitNesting
  setNesting n s := { s with pitNesting := n }
  inBounds freq := pitMinFreq ≤ freq && freq ≤ pitMaxFreq
  program freq s := { s with pitFrequency := freq, pitDivisor := (pitQuartzFreq / freq).setWidth 16 }

def pitEnable (cfg : IoApicConfig) (s : Timers H) : Option (Timers H) := pitDriver.enable cfg s

def pitDisable (cfg : IoApicConfig) (s : Timers H) : Option (Timers H) := pitDriver.disable cfg s

def pitSetFrequency (cfg : IoApicConfig) (freq : BitVec 32) (s : Timers H) : Option (Timers H) :=
  pitDriver.setFrequency cfg freq s

def pitSetHandler (cfg : IoApicConfig) (handler : Option H) (s : Timers H) : Option (OsReturnE × Timers H) :=
  pitDriver.setHandler cfg handler s

def pitRemoveHandler (cfg : IoApicConfig) (dummyHandler : H) (s : Timers H) : Option (OsReturnE × Timers H) :=
  pitSetHandler cfg (some dummyHandler) s

/-- `pit_init` -/
def pitInit (cfg : IoApicConfig) (dummyHandler : H) (s : Timers H) : Option (Timers H) :=
  (pitSetFrequency cfg pitInitFreq { s with pitNesting := 1 }).bind fun s =>
    let r := kernelInterruptRegisterIrqHandler (ioApicDriver cfg) pitIrqLine (some dummyHandler) s.manager.handlers
    if r.1 = .osNoErr then pitEnable cfg { s with manager := { s.manager with handlers := r.2 } } else none

def rtcMinFreq : BitVec 32 := 2
def rtcMaxFreq : BitVec 32 := 8192
def rtcQuartzFreq : BitVec 32 := 32768
def rtcInitRate : BitVec 8 := 10
def kernelRtcTimerFreq : BitVec 32 := 5

/-- The rate for a frequency. -/
def rtcRate (frequency : BitVec 32) : BitVec 32 :=
  if frequency < 4 then 15
  else if frequency < 8 then 14
  else if frequency < 16 then 13
  else if frequency < 32 then 12
  else if frequency < 64 then 11
  else if frequency < 128 then 10
  else if frequency < 256 then 9
  else if frequency < 512 then 8
  else if frequency < 1024 then 7
  else if frequency < 2048 then 6
  else if frequency < 4096 then 5
  else if frequency < 8192 then 4
  else 3

def rtcDriver : TimerDriver H where
  irq := rtcIrqLine
  enablesAgain := false
  nesting := Timers.rtcNesting
  setNesting n s := { s with rtcNesting := n }
  inBounds frequency := rtcMinFreq ≤ frequency && frequency ≤ rtcMaxFreq
  program frequency s :=
    { s with
      cmosRegA := (s.cmosRegA &&& 0xF0) ||| (rtcRate frequency).setWidth 8
      rtcFrequency := rtcQuartzFreq >>> (rtcRate frequency - 1) }

def rtcEnable (cfg : IoApicConfig) (s : Timers H) : Option (Timers H) := rtcDriver.enable cfg s

def rtcDisable (cfg : IoApicConfig) (s : Timers H) : Option (Timers H) := rtcDriver.disable cfg s

def rtcSetFrequency (cfg : IoApicConfig) (frequency : BitVec 32) (s : Timers H) : Option (Timers H) :=
  rtcDriver.setFrequency cfg frequency s

def rtcSetHandler (cfg : IoApicConfig) (handler : Option H) (s : Timers H) : Option (OsReturnE × Timers H) :=
  rtcDriver.setHandler cfg handler s

def rtcRemoveHandler (cfg : IoApicConfig) (dummyHandler : H) (s : Timers H) : Option (OsReturnE × Timers H) :=
  rtcSetHandler cfg (some dummyHandler) s

/-- `rtc_init`, which lets the interrupt through before it counts. -/
def rtcInit (cfg : IoApicConfig) (dummyHandler : H) (s : Timers H) : Option (Timers H) :=
  let s := { s with cmosRegA := (s.cmosRegA &&& 0xF0) ||| rtcInitRate, rtcFrequency := rtcQuartzFreq >>> 9 }
  let r := kernelInterruptRegisterIrqHandler (ioApicDriver cfg) rtcIrqLine (some dummyHandler) s.manager.handlers
  if r.1 = .osNoErr then
    (kernelInterruptSetIrqMask (ioApicDriver cfg) rtcIrqLine 1 { s.manager with handlers := r.2 }).bind fun m =>
      (rtcSetFrequency cfg kernelRtcTimerFreq { s with manager := m, rtcNesting := 1 }).bind (rtcEnable cfg)
  else none

/-! ## Counting and masking -/

/-- The pin of an interrupt lets it through or not. -/
def PinOpen (cfg : IoApicConfig) (irq : Irq) (isOpen : Bool) (m : ApicManager H) : Prop :=
  m.devices.redirect (cfg.pin irq) = if isOpen then some (irq + intIoApicIrqOffset) else none

/-- What is done about one interrupt leaves the others that have a handler and a pin of their own. -/
def Leaves (cfg : IoApicConfig) (irq : Irq) (m m' : ApicManager H) : Prop :=
  ∀ irq' h isOpen, cfg.baseAddr irq' ≠ 0 → irq' ≠ irq → cfg.pin irq' ≠ cfg.pin irq →
    Connected cfg irq' h isOpen m → Connected cfg irq' h isOpen m'

variable {cfg : IoApicConfig} {irq : Irq} {n : BitVec 32} {h h' panicHandler : H} {m m' m'' : ApicManager H}
  {enabled : BitVec 32} {isOpen enablesAgain : Bool}

theorem Leaves.refl (m : ApicManager H) : Leaves cfg irq m m := fun _ _ _ _ _ _ h => h

theorem Leaves.trans (h1 : Leaves cfg irq m m') (h2 : Leaves cfg irq m' m'') : Leaves cfg irq m m'' :=
  fun irq' h isOpen hbase hne hpin hm => h2 irq' h isOpen hbase hne hpin (h1 irq' h isOpen hbase hne hpin hm)

theorem pausedNesting_toNat (n : BitVec 32) : (pausedNesting n).toNat = min (n.toNat + 1) (2 ^ 32 - 1) := by
  unfold pausedNesting
  split
  · bv_omega
  · bv_omega

theorem pausedNesting_ne (n : BitVec 32) : pausedNesting n ≠ 0 := by
  intro hzero
  have hnat := pausedNesting_toNat n
  rw [hzero] at hnat
  simp at hnat
  omega

theorem resumedNesting_toNat (n : BitVec 32) : (resumedNesting n).toNat = n.toNat - 1 := by
  unfold resumedNesting
  split
  · bv_omega
  · bv_omega

/-- Masking and letting through. -/
theorem setIrqMask_spec (hcfg : cfg.WellFormed) (hbase : cfg.baseAddr irq ≠ 0) (enabled : BitVec 32)
    (m : ApicManager H) :
    ∃ m', kernelInterruptSetIrqMask (ioApicDriver cfg) irq enabled m = some m' ∧ m'.handlers = m.handlers ∧
      PinOpen cfg irq (enabled.getLsbD 0) m' ∧ Leaves cfg irq m m' := by
  have hsome : (ioApicSetIrqMask cfg irq enabled m.devices).isSome = true := ioApicSetIrqMask_isSome.mpr hbase
  obtain ⟨d, hd⟩ := Option.isSome_iff_exists.mp hsome
  have hmask : kernelInterruptSetIrqMask (ioApicDriver cfg) irq enabled m = some { m with devices := d } :=
    Option.map_eq_some_iff.mpr ⟨d, hd, rfl⟩
  refine ⟨_, hmask, rfl, ?_, ?_⟩
  · rw [PinOpen, Apics.redirect, ioApicSetIrqMask_redirect hcfg hd (hcfg.pin_lt hbase), if_pos rfl]
  · intro irq' h isOpen hbase' _ hpin hm
    have hstep : IntStep cfg h m (.setIrqMask irq enabled) { m with devices := d } := .setIrqMask hmask
    exact hm.step hcfg hbase' hstep fun heq => hpin heq.symm

theorem timerDisable_spec (hcfg : cfg.WellFormed) (hbase : cfg.baseAddr irq ≠ 0) (n : BitVec 32) (m : ApicManager H) :
    ∃ m', timerDisable cfg irq (n, m) = some (pausedNesting n, m') ∧ m'.handlers = m.handlers ∧
      PinOpen cfg irq false m' ∧ Leaves cfg irq m m' := by
  obtain ⟨m', hmask, hhandlers, hopen, hleaves⟩ := setIrqMask_spec hcfg hbase 0 m
  refine ⟨m', ?_, hhandlers, hopen, hleaves⟩
  rw [timerDisable, hmask]
  rfl

theorem timerEnable_spec (n : BitVec 32) (hcfg : cfg.WellFormed) (hbase : cfg.baseAddr irq ≠ 0)
    (hmasked : resumedNesting n ≠ 0 → PinOpen cfg irq false m) :
    ∃ m', timerEnable cfg irq (n, m) = some (resumedNesting n, m') ∧ m'.handlers = m.handlers ∧
      PinOpen cfg irq (resumedNesting n = 0) m' ∧ Leaves cfg irq m m' := by
  by_cases hzero : resumedNesting n = 0
  · obtain ⟨m', hmask, hhandlers, hopen, hleaves⟩ := setIrqMask_spec hcfg hbase 1 m
    refine ⟨m', ?_, hhandlers, ?_, hleaves⟩
    · unfold timerEnable
      rw [if_pos hzero, hmask, Option.map_some]
    · rw [decide_eq_true hzero]
      exact hopen
  · refine ⟨m, ?_, rfl, ?_, .refl m⟩
    · unfold timerEnable
      rw [if_neg hzero]
    · rw [decide_eq_false hzero]
      exact hmasked hzero

/-! ## Handlers -/

/-- The line of an interrupt is one that handlers may be registered on. -/
theorem irq_authorized (hirq : irq < 0xC0) :
    (decide (irq + intIoApicIrqOffset < minInterruptLine) || decide (maxInterruptLine < irq + intIoApicIrqOffset)) =
      false := by
  unfold intIoApicIrqOffset minInterruptLine maxInterruptLine
  rw [Bool.or_eq_false_iff, decide_eq_false_iff_not, decide_eq_false_iff_not]
  constructor
  · bv_omega
  · bv_omega

theorem removeIrqHandler_eq (hcfg : cfg.WellFormed) (hbase : cfg.baseAddr irq ≠ 0) {t : Handlers H}
    (ht : t (irq + intIoApicIrqOffset) = some h) :
    kernelInterruptRemoveIrqHandler (ioApicDriver cfg) irq t =
      (.osNoErr, Function.update t (irq + intIoApicIrqOffset) none) := by
  have hrun : (HandlerCall.removeIrq irq).run cfg t = _ := HandlerCall.run_eq hcfg
  simp only [HandlerCall.run, HandlerCall.onLines, if_neg hbase, kernelInterruptRemoveIntHandler,
    irq_authorized (hcfg.irq_lt irq hbase)] at hrun
  rw [hrun]
  simp only [removeHandler, Bool.false_eq_true, if_false, ht]

theorem registerIrqHandler_eq (h : H) (hcfg : cfg.WellFormed) (hbase : cfg.baseAddr irq ≠ 0) {t : Handlers H}
    (ht : t (irq + intIoApicIrqOffset) = none) :
    kernelInterruptRegisterIrqHandler (ioApicDriver cfg) irq (some h) t =
      (.osNoErr, Function.update t (irq + intIoApicIrqOffset) (some h)) := by
  have hrun : (HandlerCall.registerIrq irq (some h)).run cfg t = _ := HandlerCall.run_eq hcfg
  simp only [HandlerCall.run, HandlerCall.onLines, if_neg hbase, kernelInterruptRegisterIntHandler,
    irq_authorized (hcfg.irq_lt irq hbase)] at hrun
  rw [hrun]
  simp only [registerHandler, Bool.false_eq_true, if_false, ht]

/-- Whatever happens to the handler of an interrupt, others keep theirs. -/
theorem leaves_update (hr : Option H) :
    Leaves cfg irq m { m with handlers := Function.update m.handlers (irq + intIoApicIrqOffset) hr } := by
  intro irq' h' isOpen _ hne _ hm
  have hline : irq' + intIoApicIrqOffset ≠ irq + intIoApicIrqOffset := fun heq => hne (by simpa using heq)
  exact ⟨(Function.update_of_ne hline _ _).trans hm.handler, hm.pin⟩

/-- The new handler is in place, and the interrupt is as often disabled as before. -/
theorem timerSetHandler_spec (hcfg : cfg.WellFormed) (hbase : cfg.baseAddr irq ≠ 0)
    (hm : Connected cfg irq h isOpen m) (n : BitVec 32) (enablesAgain : Bool) (h' : H) :
    ∃ m', timerSetHandler cfg irq enablesAgain (some h') (n, m) =
        some (.osNoErr, resumedNesting (pausedNesting n), m') ∧
      Connected cfg irq h' (resumedNesting (pausedNesting n) = 0) m' ∧ Leaves cfg irq m m' := by
  obtain ⟨m1, hdisable, hhandlers1, hmasked, hleaves1⟩ := timerDisable_spec hcfg hbase n m
  have hremove := removeIrqHandler_eq hcfg hbase ((congrFun hhandlers1 _).trans hm.handler)
  have hregister := registerIrqHandler_eq h' hcfg hbase
    (Function.update_self (irq + intIoApicIrqOffset) none m1.handlers)
  rw [Function.update_idem] at hregister
  let m2 : ApicManager H := { m1 with handlers := Function.update m1.handlers (irq + intIoApicIrqOffset) (some h') }
  have hmasked2 : PinOpen cfg irq false m2 := hmasked
  obtain ⟨m3, henable, hhandlers3, hopen, hleaves3⟩ := timerEnable_spec (pausedNesting n) hcfg hbase fun _ => hmasked2
  refine ⟨m3, ?_, ⟨?_, hopen⟩, (hleaves1.trans (leaves_update (some h'))).trans hleaves3⟩
  · simp only [timerSetHandler, hdisable, Option.bind_some, hremove, hregister, ne_eq, not_true_eq_false, if_false,
      false_and]
    exact Option.map_eq_some_iff.mpr ⟨_, henable, rfl⟩
  · rw [hhandlers3]
    exact Function.update_self ..

/-! ## Runs -/

/-- The calls of `kernel_timer_t`. -/
inductive TimerCall (H : Type)
  | enable
  | disable
  | setFrequency (frequency : BitVec 32)
  | setHandler (handler : Option H)
  | removeHandler

def TimerDriver.call (d : TimerDriver H) (cfg : IoApicConfig) (dummyHandler : H) (s : Timers H) :
    TimerCall H → Option (OsReturnE × Timers H)
  | .enable => (d.enable cfg s).map fun s => (.osNoErr, s)
  | .disable => (d.disable cfg s).map fun s => (.osNoErr, s)
  | .setFrequency frequency => (d.setFrequency cfg frequency s).map fun s => (.osNoErr, s)
  | .setHandler handler => d.setHandler cfg handler s
  | .removeHandler => d.setHandler cfg (some dummyHandler) s

/-- The call of a driver on what the drivers share. -/
def nestedCall (cfg : IoApicConfig) (irq : Irq) (enablesAgain : Bool) (dummyHandler : H) (s : Nested H) :
    TimerCall H → Option (OsReturnE × Nested H)
  | .enable => (timerEnable cfg irq s).map fun s => (.osNoErr, s)
  | .disable => (timerDisable cfg irq s).map fun s => (.osNoErr, s)
  | .setFrequency _ => ((timerDisable cfg irq s).bind (timerEnable cfg irq)).map fun s => (.osNoErr, s)
  | .setHandler handler => timerSetHandler cfg irq enablesAgain handler s
  | .removeHandler => timerSetHandler cfg irq enablesAgain (some dummyHandler) s

/-- A timer as its users see it: how often it is disabled, and its handler. -/
structure TimerView (H : Type) where
  depth : ℕ
  handler : H

def TimerView.resumed (v : TimerView H) : TimerView H := { v with depth := v.depth - 1 }

/-- The count stops at its largest value. -/
def TimerView.paused (v : TimerView H) : TimerView H := { v with depth := min (v.depth + 1) (2 ^ 32 - 1) }

def TimerView.call (dummyHandler : H) (v : TimerView H) : TimerCall H → OsReturnE × TimerView H
  | .enable => (.osNoErr, v.resumed)
  | .disable => (.osNoErr, v.paused)
  | .setFrequency _ => (.osNoErr, v.paused.resumed)
  | .setHandler none => (.osErrNullPointer, v)
  | .setHandler (some h) => (.osNoErr, { v.paused.resumed with handler := h })
  | .removeHandler => (.osNoErr, { v.paused.resumed with handler := dummyHandler })

/-- What an interrupt of the timer comes to. -/
def TimerView.fires (v : TimerView H) : Option (Outcome H) := if v.depth = 0 then some (.handled v.handler) else none

structure Counts (cfg : IoApicConfig) (irq : Irq) (s : Nested H) (v : TimerView H) : Prop where
  depth : s.1.toNat = v.depth
  connected : Connected cfg irq v.handler (s.1 = 0) s.2

variable {s s' : Nested H} {v : TimerView H} {dummyHandler : H} {c : TimerCall H} {r : OsReturnE}

theorem nestedCall_spec (hcfg : cfg.WellFormed) (hbase : cfg.baseAddr irq ≠ 0) (hs : Counts cfg irq s v)
    (hc : nestedCall cfg irq enablesAgain dummyHandler s c = some (r, s')) :
    r = (v.call dummyHandler c).1 ∧ Counts cfg irq s' (v.call dummyHandler c).2 ∧ Leaves cfg irq s.2 s'.2 := by
  obtain ⟨n, m⟩ := s
  obtain ⟨hdepth, hconnected⟩ := hs
  dsimp only at hdepth hconnected
  have hpause : (pausedNesting n).toNat = v.paused.depth := by rw [pausedNesting_toNat, hdepth]; rfl
  have hagain : (resumedNesting (pausedNesting n)).toNat = v.paused.resumed.depth := by
    rw [resumedNesting_toNat, hpause]
    rfl
  have hset : ∀ h', timerSetHandler cfg irq enablesAgain (some h') (n, m) = some (r, s') →
      r = .osNoErr ∧ Counts cfg irq s' { v.paused.resumed with handler := h' } ∧ Leaves cfg irq m s'.2 := by
    intro h' hc
    obtain ⟨m', hset, hconnected', hleaves⟩ := timerSetHandler_spec hcfg hbase hconnected n enablesAgain h'
    rw [hset] at hc
    cases hc
    exact ⟨rfl, ⟨hagain, hconnected'⟩, hleaves⟩
  cases c with
  | enable =>
    have hmasked : resumedNesting n ≠ 0 → PinOpen cfg irq false m := by
      intro hne
      have hn : n ≠ 0 := by
        rintro rfl
        exact hne rfl
      have hpin := hconnected.pin
      rw [decide_eq_false hn] at hpin
      exact hpin
    obtain ⟨m', henable, hhandlers, hopen, hleaves⟩ := timerEnable_spec n hcfg hbase hmasked
    rw [nestedCall, henable] at hc
    cases hc
    refine ⟨rfl, ⟨?_, (congrFun hhandlers _).trans hconnected.handler, hopen⟩, hleaves⟩
    rw [resumedNesting_toNat, hdepth]
    rfl
  | disable =>
    obtain ⟨m', hdisable, hhandlers, hmasked, hleaves⟩ := timerDisable_spec hcfg hbase n m
    rw [nestedCall, hdisable] at hc
    cases hc
    refine ⟨rfl, ⟨hpause, (congrFun hhandlers _).trans hconnected.handler, ?_⟩, hleaves⟩
    rw [decide_eq_false (pausedNesting_ne n)]
    exact hmasked
  | setFrequency frequency =>
    obtain ⟨m1, hdisable, hhandlers1, hmasked, hleaves1⟩ := timerDisable_spec hcfg hbase n m
    obtain ⟨m2, henable, hhandlers2, hopen, hleaves2⟩ := timerEnable_spec (pausedNesting n) hcfg hbase fun _ => hmasked
    rw [nestedCall, hdisable, Option.bind_some, henable] at hc
    cases hc
    refine ⟨rfl, ⟨hagain, ?_, hopen⟩, hleaves1.trans hleaves2⟩
    rw [hhandlers2, hhandlers1]
    exact hconnected.handler
  | setHandler handler =>
    cases handler with
    | none =>
      cases hc
      exact ⟨rfl, ⟨hdepth, hconnected⟩, .refl m⟩
    | some h' => exact hset h' hc
  | removeHandler => exact hset dummyHandler hc

/-- A call of a driver is one on what the drivers share, and leaves what neither its programming nor its counting
touches. -/
theorem TimerDriver.call_nested {d : TimerDriver H} {s s' : Timers H} (keep : Timers H → BitVec 32)
    (hput : ∀ s n, d.nested (d.put s n) = n ∧ keep (d.put s n) = keep s)
    (hprogram : ∀ frequency s, d.nested (d.program frequency s) = d.nested s ∧ keep (d.program frequency s) = keep s)
    (hc : d.call cfg dummyHandler s c = some (r, s')) :
    nestedCall cfg d.irq d.enablesAgain dummyHandler (d.nested s) c = some (r, d.nested s') ∧ keep s' = keep s := by
  cases c with
  | enable =>
    obtain ⟨s1, henable, hs⟩ := Option.map_eq_some_iff.mp hc
    obtain ⟨n, hn, rfl⟩ := Option.map_eq_some_iff.mp henable
    cases hs
    rw [(hput s n).1]
    exact ⟨Option.map_eq_some_iff.mpr ⟨n, hn, rfl⟩, (hput s n).2⟩
  | disable =>
    obtain ⟨s1, hdisable, hs⟩ := Option.map_eq_some_iff.mp hc
    obtain ⟨n, hn, rfl⟩ := Option.map_eq_some_iff.mp hdisable
    cases hs
    rw [(hput s n).1]
    exact ⟨Option.map_eq_some_iff.mpr ⟨n, hn, rfl⟩, (hput s n).2⟩
  | setFrequency frequency =>
    obtain ⟨s3, hset, hs⟩ := Option.map_eq_some_iff.mp hc
    cases hs
    unfold TimerDriver.setFrequency at hset
    split at hset
    · obtain ⟨s1, hdisable, henable⟩ := Option.bind_eq_some_iff.mp hset
      obtain ⟨n1, hn1, rfl⟩ := Option.map_eq_some_iff.mp hdisable
      obtain ⟨n2, hn2, rfl⟩ := Option.map_eq_some_iff.mp henable
      rw [(hprogram frequency _).1, (hput s n1).1] at hn2
      refine ⟨?_, ?_⟩
      · rw [nestedCall, hn1, Option.bind_some, (hput _ n2).1]
        exact Option.map_eq_some_iff.mpr ⟨n2, hn2, rfl⟩
      · rw [(hput _ n2).2, (hprogram frequency _).2, (hput s n1).2]
    · cases hset
  | setHandler handler =>
    obtain ⟨n, hn, hs⟩ := Option.map_eq_some_iff.mp hc
    cases hs
    rw [(hput s n.2).1]
    exact ⟨hn, (hput s n.2).2⟩
  | removeHandler =>
    obtain ⟨n, hn, hs⟩ := Option.map_eq_some_iff.mp hc
    cases hs
    rw [(hput s n.2).1]
    exact ⟨hn, (hput s n.2).2⟩

theorem pitCall_nested {s s' : Timers H} (hc : pitDriver.call cfg dummyHandler s c = some (r, s')) :
    nestedCall cfg pitIrqLine true dummyHandler (pitDriver.nested s) c = some (r, pitDriver.nested s') ∧
      s'.rtcNesting = s.rtcNesting :=
  TimerDriver.call_nested Timers.rtcNesting (fun _ _ => ⟨rfl, rfl⟩) (fun _ _ => ⟨rfl, rfl⟩) hc

theorem rtcCall_nested {s s' : Timers H} (hc : rtcDriver.call cfg dummyHandler s c = some (r, s')) :
    nestedCall cfg rtcIrqLine false dummyHandler (rtcDriver.nested s) c = some (r, rtcDriver.nested s') ∧
      s'.pitNesting = s.pitNesting :=
  TimerDriver.call_nested Timers.pitNesting (fun _ _ => ⟨rfl, rfl⟩) (fun _ _ => ⟨rfl, rfl⟩) hc

/-- The events of a run: calls of the drivers, and whatever else happens to the interrupt manager. -/
inductive TimerEvent (H : Type)
  | pit (c : TimerCall H) (result : OsReturnE)
  | rtc (c : TimerCall H) (result : OsReturnE)
  | other (e : IntEvent H)

/-- The handlers that the drivers and the manager fall back on. -/
structure Fallbacks (H : Type) where
  panicHandler : H
  pitDummy : H
  rtcDummy : H

inductive TimerStep (cfg : IoApicConfig) (f : Fallbacks H) : Timers H → TimerEvent H → Timers H → Prop
  | pit {s s' : Timers H} {c : TimerCall H} {r : OsReturnE} (h : pitDriver.call cfg f.pitDummy s c = some (r, s')) :
      TimerStep cfg f s (.pit c r) s'
  | rtc {s s' : Timers H} {c : TimerCall H} {r : OsReturnE} (h : rtcDriver.call cfg f.rtcDummy s c = some (r, s')) :
      TimerStep cfg f s (.rtc c r) s'
  -- the rest of the kernel keeps away from the interrupts of the timers
  | other {s : Timers H} {e : IntEvent H} {m : ApicManager H} (h : IntStep cfg f.panicHandler s.manager e m)
      (hpit : ¬e.Concerns cfg pitIrqLine) (hrtc : ¬e.Concerns cfg rtcIrqLine) :
      TimerStep cfg f s (.other e) { s with manager := m }

structure TimersView (H : Type) where
  pit : TimerView H
  rtc : TimerView H

/-- Two timers that count for themselves; an interrupt of a timer that is not disabled goes to its handler. -/
inductive TimerViewStep (cfg : IoApicConfig) (f : Fallbacks H) : TimersView H → TimerEvent H → TimersView H → Prop
  | pit {v : TimersView H} (c : TimerCall H) :
      TimerViewStep cfg f v (.pit c (v.pit.call f.pitDummy c).1) { v with pit := (v.pit.call f.pitDummy c).2 }
  | rtc {v : TimersView H} (c : TimerCall H) :
      TimerViewStep cfg f v (.rtc c (v.rtc.call f.rtcDummy c).1) { v with rtc := (v.rtc.call f.rtcDummy c).2 }
  | other {v : TimersView H} {e : IntEvent H}
      (hpit : ∀ outcome, e = .raise (cfg.pin pitIrqLine) outcome → outcome = v.pit.fires)
      (hrtc : ∀ outcome, e = .raise (cfg.pin rtcIrqLine) outcome → outcome = v.rtc.fires) :
      TimerViewStep cfg f v (.other e) v

/-- The IO-APICs manage the interrupts of both timers, and take them from different pins. -/
structure TimerPins (cfg : IoApicConfig) : Prop where
  pit : cfg.baseAddr pitIrqLine ≠ 0
  rtc : cfg.baseAddr rtcIrqLine ≠ 0
  different : cfg.pin pitIrqLine ≠ cfg.pin rtcIrqLine

structure Clocks (cfg : IoApicConfig) (s : Timers H) (v : TimersView H) : Prop where
  pit : Counts cfg pitIrqLine (pitDriver.nested s) v.pit
  rtc : Counts cfg rtcIrqLine (rtcDriver.nested s) v.rtc

theorem Counts.fires {e : IntEvent H} {m' : ApicManager H} (hcfg : cfg.WellFormed) (hbase : cfg.baseAddr irq ≠ 0)
    (hs : Counts cfg irq s v) (hstep : IntStep cfg panicHandler s.2 e m') :
    ∀ outcome, e = .raise (cfg.pin irq) outcome → outcome = v.fires := by
  rintro outcome rfl
  have hraise := hs.connected.raise hcfg hbase hstep
  have hzero : s.1 = 0 ↔ v.depth = 0 := by
    rw [← hs.depth]
    exact BitVec.toNat_eq.trans Iff.rfl
  rw [hraise, TimerView.fires]
  simp only [hzero, decide_eq_true_eq]

theorem timer_simulates {f : Fallbacks H} (hcfg : cfg.WellFormed) (hpins : TimerPins cfg) :
    Simulates (TimerStep cfg f) (TimerViewStep cfg f) (Clocks cfg) := by
  intro s v e s' h hstep
  cases hstep with
  | @pit _ c r hc =>
    obtain ⟨hnested, hrtc⟩ := pitCall_nested hc
    obtain ⟨rfl, hcounts, hleaves⟩ := nestedCall_spec hcfg hpins.pit h.pit hnested
    refine ⟨_, .pit c, hcounts, ⟨?_, ?_⟩⟩
    · exact (congrArg BitVec.toNat hrtc).trans h.rtc.depth
    · have hconnected := hleaves rtcIrqLine _ _ hpins.rtc (by decide) hpins.different.symm h.rtc.connected
      simp only [rtcDriver, TimerDriver.nested, hrtc] at hconnected ⊢
      exact hconnected
  | @rtc _ c r hc =>
    obtain ⟨hnested, hpit⟩ := rtcCall_nested hc
    obtain ⟨rfl, hcounts, hleaves⟩ := nestedCall_spec hcfg hpins.rtc h.rtc hnested
    refine ⟨_, .rtc c, ⟨?_, ?_⟩, hcounts⟩
    · exact (congrArg BitVec.toNat hpit).trans h.pit.depth
    · have hconnected := hleaves pitIrqLine _ _ hpins.pit (by decide) hpins.different h.pit.connected
      simp only [pitDriver, TimerDriver.nested, hpit] at hconnected ⊢
      exact hconnected
  | other hstep hpit hrtc =>
    refine ⟨v, .other (h.pit.fires hcfg hpins.pit hstep) (h.rtc.fires hcfg hpins.rtc hstep), ⟨h.pit.depth, ?_⟩, h.rtc.depth, ?_⟩
    · exact h.pit.connected.step hcfg hpins.pit hstep hpit
    · exact h.rtc.connected.step hcfg hpins.rtc hstep hrtc

/-! ## Start -/

/-- Disabled once more and enabled again, a timer that was disabled stays so. -/
theorem setFrequency_masked (d : TimerDriver H) (frequency : BitVec 32) (s : Timers H) (hcfg : cfg.WellFormed)
    (hbase : cfg.baseAddr d.irq ≠ 0)
    (hput : ∀ s n, d.nested (d.put s n) = n) (hprogram : ∀ frequency s, d.nested (d.program frequency s) = d.nested s)
    (hbounds : d.inBounds frequency = true) (hn : resumedNesting (pausedNesting (d.nesting s)) ≠ 0) :
    ∃ s', d.setFrequency cfg frequency s = some s' ∧ d.nesting s' = resumedNesting (pausedNesting (d.nesting s)) ∧
      s'.manager.handlers = s.manager.handlers ∧ PinOpen cfg d.irq false s'.manager ∧
      Leaves cfg d.irq s.manager s'.manager := by
  obtain ⟨m1, hdisable, hhandlers1, hmasked1, hleaves1⟩ := timerDisable_spec hcfg hbase (d.nesting s) s.manager
  obtain ⟨m2, henable, hhandlers2, hmasked2, hleaves2⟩ :=
    timerEnable_spec (pausedNesting (d.nesting s)) hcfg hbase fun _ => hmasked1
  let s1 := d.program frequency (d.put s (pausedNesting (d.nesting s), m1))
  have hs1 : d.nested s1 = (pausedNesting (d.nesting s), m1) := (hprogram _ _).trans (hput _ _)
  have hs2 : d.nested (d.put s1 (resumedNesting (pausedNesting (d.nesting s)), m2)) = _ := hput _ _
  rw [decide_eq_false hn] at hmasked2
  refine ⟨d.put s1 (resumedNesting (pausedNesting (d.nesting s)), m2), ?_, congrArg Prod.fst hs2, ?_, ?_, ?_⟩
  · have hstep1 : d.disable cfg s = some (d.put s (pausedNesting (d.nesting s), m1)) := by
      rw [TimerDriver.disable, TimerDriver.nested, hdisable, Option.map_some]
    rw [TimerDriver.setFrequency, if_pos hbounds, hstep1, Option.bind_some, TimerDriver.enable, hs1, henable,
      Option.map_some]
  · exact hhandlers2.trans hhandlers1
  · exact hmasked2
  · exact hleaves1.trans hleaves2

theorem pitInit_spec {s : Timers H} (hcfg : cfg.WellFormed) (hbase : cfg.baseAddr pitIrqLine ≠ 0)
    (hline : s.manager.handlers (pitIrqLine + intIoApicIrqOffset) = none) (dummyHandler : H) :
    ∃ s', pitInit cfg dummyHandler s = some s' ∧
      Counts cfg pitIrqLine (pitDriver.nested s') ⟨0, dummyHandler⟩ ∧
      s'.manager.handlers = Function.update s.manager.handlers (pitIrqLine + intIoApicIrqOffset) (some dummyHandler) := by
  obtain ⟨s1, hset, hn1, hhandlers1, hmasked1, -⟩ :=
    setFrequency_masked pitDriver pitInitFreq { s with pitNesting := 1 } hcfg hbase (fun _ _ => rfl) (fun _ _ => rfl) rfl
      (show resumedNesting (pausedNesting 1) ≠ 0 by decide)
  have hn1' : s1.pitNesting = 1 := hn1.trans (show resumedNesting (pausedNesting 1) = 1 by decide)
  have hline1 : s1.manager.handlers (pitIrqLine + intIoApicIrqOffset) = none := (congrFun hhandlers1 _).trans hline
  have hregister := registerIrqHandler_eq dummyHandler hcfg hbase hline1
  let m2 : ApicManager H :=
    { s1.manager with
      handlers := Function.update s1.manager.handlers (pitIrqLine + intIoApicIrqOffset) (some dummyHandler) }
  obtain ⟨m3, henable, hhandlers3, hopen, -⟩ :=
    timerEnable_spec 1 hcfg hbase (m := m2) fun hne => absurd (show resumedNesting 1 = 0 by decide) hne
  refine ⟨{ s1 with pitNesting := resumedNesting 1, manager := m3 }, ?_, ⟨rfl, ?_, hopen⟩, ?_⟩
  · simp only [pitInit, pitSetFrequency, hset, Option.bind_some, hregister, if_true, pitEnable, TimerDriver.enable]
    exact Option.map_eq_some_iff.mpr ⟨_, by rw [TimerDriver.nested, ← henable, ← hn1']; rfl, rfl⟩
  · rw [show (pitDriver.nested _).2 = m3 from rfl, hhandlers3]
    exact Function.update_self (pitIrqLine + intIoApicIrqOffset) (some dummyHandler) s1.manager.handlers
  · rw [hhandlers3, ← hhandlers1]

theorem rtcDriver_put (s : Timers H) (n : Nested H) : rtcDriver.put s n = { s with rtcNesting := n.1, manager := n.2 } := rfl

theorem rtcInit_spec {s : Timers H} (hcfg : cfg.WellFormed) (hbase : cfg.baseAddr rtcIrqLine ≠ 0)
    (hline : s.manager.handlers (rtcIrqLine + intIoApicIrqOffset) = none) (dummyHandler : H) :
    ∃ s', rtcInit cfg dummyHandler s = some s' ∧ Counts cfg rtcIrqLine (rtcDriver.nested s') ⟨0, dummyHandler⟩ ∧
      s'.pitNesting = s.pitNesting ∧ Leaves cfg rtcIrqLine s.manager s'.manager := by
  have hregister := registerIrqHandler_eq dummyHandler hcfg hbase hline
  let m1 : ApicManager H :=
    { s.manager with
      handlers := Function.update s.manager.handlers (rtcIrqLine + intIoApicIrqOffset) (some dummyHandler) }
  obtain ⟨m2, hmask2, hhandlers2, -, hleaves2⟩ := setIrqMask_spec hcfg hbase 1 m1
  let s2 : Timers H :=
    { s with
      manager := m2, rtcNesting := 1, cmosRegA := (s.cmosRegA &&& 0xF0) ||| rtcInitRate, rtcFrequency := rtcQuartzFreq >>> 9 }
  obtain ⟨s3, hset, hn3, hhandlers3, hmasked3, hleaves3⟩ :=
    setFrequency_masked rtcDriver kernelRtcTimerFreq s2 hcfg hbase (fun _ _ => rfl) (fun _ _ => rfl) rfl
      (show resumedNesting (pausedNesting 1) ≠ 0 by decide)
  have hn3' : s3.rtcNesting = 1 := hn3.trans (show resumedNesting (pausedNesting 1) = 1 by decide)
  obtain ⟨m4, henable, hhandlers4, hopen, hleaves4⟩ :=
    timerEnable_spec 1 hcfg hbase (m := s3.manager) fun hne => absurd (show resumedNesting 1 = 0 by decide) hne
  have hpit : s3.pitNesting = s.pitNesting := by
    have hcall : rtcDriver.call cfg dummyHandler s2 (.setFrequency kernelRtcTimerFreq) = some (.osNoErr, s3) :=
      Option.map_eq_some_iff.mpr ⟨s3, hset, rfl⟩
    exact (rtcCall_nested hcall).2
  refine ⟨{ s3 with rtcNesting := resumedNesting 1, manager := m4 }, ?_, ⟨rfl, ?_, hopen⟩, hpit, ?_⟩
  · have hset' : rtcSetFrequency cfg kernelRtcTimerFreq s2 = some s3 := hset
    have henable' : rtcEnable cfg s3 = some { s3 with rtcNesting := resumedNesting 1, manager := m4 } := by
      have hnested : rtcDriver.nested s3 = (1, s3.manager) := congrArg (·, s3.manager) hn3'
      rw [rtcEnable, TimerDriver.enable, hnested]
      exact Option.map_eq_some_iff.mpr ⟨_, henable, rtcDriver_put s3 _⟩
    simp only [rtcInit, hregister, if_true]
    rw [hmask2, Option.bind_some, hset', Option.bind_some, henable']
  · rw [show (rtcDriver.nested _).2 = m4 from rfl, hhandlers4, hhandlers3]
    exact (congrFun hhandlers2 _).trans
      (Function.update_self (rtcIrqLine + intIoApicIrqOffset) (some dummyHandler) s.manager.handlers)
  · exact (((leaves_update (some dummyHandler)).trans hleaves2).trans hleaves3).trans hleaves4

/-- `pit_init` and `rtc_init`, in the order of `kernel_kickstart`. -/
def timersInit (cfg : IoApicConfig) (f : Fallbacks H) (s : Timers H) : Option (Timers H) :=
  (pitInit cfg f.pitDummy s).bind (rtcInit cfg f.rtcDummy)

/-- Both timers come up enabled, with the handlers of their drivers. -/
theorem timersInit_spec {f : Fallbacks H} {s : Timers H} (hcfg : cfg.WellFormed) (hpins : TimerPins cfg)
    (hpit : s.manager.handlers (pitIrqLine + intIoApicIrqOffset) = none)
    (hrtc : s.manager.handlers (rtcIrqLine + intIoApicIrqOffset) = none) :
    ∃ s', timersInit cfg f s = some s' ∧ Clocks cfg s' ⟨⟨0, f.pitDummy⟩, ⟨0, f.rtcDummy⟩⟩ := by
  obtain ⟨s1, hinit1, hcounts1, hhandlers1⟩ := pitInit_spec hcfg hpins.pit hpit f.pitDummy
  have hrtc1 : s1.manager.handlers (rtcIrqLine + intIoApicIrqOffset) = none := by
    rw [hhandlers1, Function.update_of_ne (by decide)]
    exact hrtc
  obtain ⟨s2, hinit2, hcounts2, hnesting2, hleaves2⟩ := rtcInit_spec hcfg hpins.rtc hrtc1 f.rtcDummy
  refine ⟨s2, ?_, ⟨?_, ?_⟩, hcounts2⟩
  · rw [timersInit, hinit1, Option.bind_some, hinit2]
  · exact (congrArg BitVec.toNat hnesting2).trans hcounts1.depth
  · have hconnected := hleaves2 pitIrqLine _ _ hpins.pit (by decide) hpins.different hcounts1.connected
    simp only [TimerDriver.nested, pitDriver, hnesting2] at hconnected ⊢
    exact hconnected

/-- Each timer of a run fires for the handler it was given last, and exactly when it was enabled as often as disabled;
this holds among the calls to the other timer and whatever the rest of the kernel does about other interrupts. -/
theorem timers_trace {f : Fallbacks H} {s : Timers H} (hcfg : cfg.WellFormed) (hpins : TimerPins cfg)
    (hpit : s.manager.handlers (pitIrqLine + intIoApicIrqOffset) = none)
    (hrtc : s.manager.handlers (rtcIrqLine + intIoApicIrqOffset) = none) :
    ∃ s', timersInit cfg f s = some s' ∧ ∀ trace, Trace (TimerStep cfg f) s' trace →
      ∃ trace', Trace (TimerViewStep cfg f) ⟨⟨0, f.pitDummy⟩, ⟨0, f.rtcDummy⟩⟩ trace' ∧
        List.Forall₂ (fun x y => x.1 = y.1 ∧ Clocks cfg x.2 y.2) trace trace' := by
  obtain ⟨s', hinit, hclocks⟩ := timersInit_spec (f := f) hcfg hpins hpit hrtc
  exact ⟨s', hinit, fun trace ht => (timer_simulates hcfg hpins).trace ht hclocks⟩

def pcTimers : Timers Bool := ⟨pcPowerOn, 0, 0, 0, 0, 0, 0x26⟩

theorem pcConfig_timerPins : TimerPins pcConfig := ⟨by decide, by decide, by decide⟩

theorem timers_trace_pc :
    let f : Fallbacks Bool := ⟨false, true, true⟩
    ∃ s', timersInit pcConfig f pcTimers = some s' ∧ ∀ trace, Trace (TimerStep pcConfig f) s' trace →
      ∃ trace', Trace (TimerViewStep pcConfig f) ⟨⟨0, f.pitDummy⟩, ⟨0, f.rtcDummy⟩⟩ trace' ∧
        List.Forall₂ (fun x y => x.1 = y.1 ∧ Clocks pcConfig x.2 y.2) trace trace' := by
  intro f
  exact timers_trace pcConfig_wellFormed pcConfig_timerPins (by decide) (by decide)

/-! ## Frequencies -/

/-- `pit_get_frequency` tells the frequency that the divisor is for, which fits its sixteen bits. -/
structure PitProgrammed (s : Timers H) : Prop where
  bounds : pitMinFreq ≤ s.pitFrequency ∧ s.pitFrequency ≤ pitMaxFreq
  divisor : s.pitDivisor.toNat = pitQuartzFreq.toNat / s.pitFrequency.toNat

/-- `rtc_get_frequency` tells the frequency that the rate in register A makes. -/
structure RtcProgrammed (s : Timers H) : Prop where
  rate : 3 ≤ s.cmosRegA &&& 0x0F
  frequency : s.rtcFrequency = rtcQuartzFreq >>> ((s.cmosRegA &&& 0x0F).setWidth 32 - 1)

/-- The tests of `rtc_set_frequency` from a rate on. -/
def rtcRateFrom (frequency : BitVec 32) : ℕ → BitVec 32
  | 0 => 3
  | n + 1 => if frequency < BitVec.ofNat 32 (2 ^ (13 - n)) then BitVec.ofNat 32 (n + 4) else rtcRateFrom frequency n

theorem rtcRate_eq (frequency : BitVec 32) : rtcRate frequency = rtcRateFrom frequency 12 := rfl

theorem rtcRateFrom_spec {frequency : BitVec 32} {n : ℕ} (hn : n ≤ 12) (hmin : 2 ^ (13 - n) ≤ frequency.toNat)
    (hmax : frequency ≤ rtcMaxFreq) :
    ∃ j ≤ n, rtcRateFrom frequency n = BitVec.ofNat 32 (j + 3) ∧ 2 ^ (13 - j) ≤ frequency.toNat ∧
      frequency.toNat < 2 ^ (14 - j) := by
  induction n with
  | zero =>
    have hle : frequency.toNat ≤ 8192 := hmax
    exact ⟨0, le_rfl, rfl, hmin, lt_of_le_of_lt hle (by decide)⟩
  | succ n ih =>
    have hlt : frequency < BitVec.ofNat 32 (2 ^ (13 - n)) ↔ frequency.toNat < 2 ^ (13 - n) := by
      have hpow : 2 ^ (13 - n) < 2 ^ 32 := Nat.pow_lt_pow_right (by decide) (by omega)
      rw [BitVec.lt_def, BitVec.toNat_ofNat, Nat.mod_eq_of_lt hpow]
    rw [rtcRateFrom]
    by_cases h : frequency < BitVec.ofNat 32 (2 ^ (13 - n))
    · refine ⟨n + 1, le_rfl, if_pos h, hmin, ?_⟩
      rw [show 14 - (n + 1) = 13 - n by omega]
      exact hlt.mp h
    · obtain ⟨j, hj, hrate, hlower, hupper⟩ := ih (by omega) (Nat.le_of_not_lt fun h' => h (hlt.mpr h'))
      exact ⟨j, Nat.le_succ_of_le hj, (if_neg h).trans hrate, hlower, hupper⟩

/-- The RTC is given the largest power of two that is no larger than the frequency. -/
theorem rtcRate_spec {frequency : BitVec 32} (hmin : rtcMinFreq ≤ frequency) (hmax : frequency ≤ rtcMaxFreq) :
    ∃ j ≤ 12, rtcRate frequency = BitVec.ofNat 32 (j + 3) ∧ rtcQuartzFreq >>> (rtcRate frequency - 1) = BitVec.ofNat 32 (2 ^ (13 - j)) ∧
      2 ^ (13 - j) ≤ frequency.toNat ∧ frequency.toNat < 2 ^ (14 - j) := by
  have hmin' : 2 ≤ frequency.toNat := hmin
  obtain ⟨j, hj, hrate, hlower, hupper⟩ := rtcRateFrom_spec (n := 12) le_rfl hmin' hmax
  rw [← rtcRate_eq] at hrate
  refine ⟨j, hj, hrate, ?_, hlower, hupper⟩
  rw [hrate]
  have hshift : ∀ j < 13, rtcQuartzFreq >>> (BitVec.ofNat 32 (j + 3) - 1) = BitVec.ofNat 32 (2 ^ (13 - j)) := by decide
  exact hshift j (Nat.lt_succ_of_le hj)

/-- What holds whatever is counted and programmed holds after every call. -/
theorem TimerDriver.call_invariant (d : TimerDriver H) {s s' : Timers H} (P : Timers H → Prop)
    (hput : ∀ s n, P s → P (d.put s n))
    (hprogram : ∀ frequency s, d.inBounds frequency = true → P s → P (d.program frequency s)) (hs : P s)
    (hc : d.call cfg dummyHandler s c = some (r, s')) : P s' := by
  cases c with
  | enable =>
    obtain ⟨s1, henable, heq⟩ := Option.map_eq_some_iff.mp hc
    obtain ⟨n, -, rfl⟩ := Option.map_eq_some_iff.mp henable
    cases heq
    exact hput s n hs
  | disable =>
    obtain ⟨s1, hdisable, heq⟩ := Option.map_eq_some_iff.mp hc
    obtain ⟨n, -, rfl⟩ := Option.map_eq_some_iff.mp hdisable
    cases heq
    exact hput s n hs
  | setFrequency frequency =>
    obtain ⟨s3, hset, heq⟩ := Option.map_eq_some_iff.mp hc
    cases heq
    unfold TimerDriver.setFrequency at hset
    split at hset
    · next hbounds =>
      obtain ⟨s1, hdisable, henable⟩ := Option.bind_eq_some_iff.mp hset
      obtain ⟨n1, -, rfl⟩ := Option.map_eq_some_iff.mp hdisable
      obtain ⟨n2, -, rfl⟩ := Option.map_eq_some_iff.mp henable
      exact hput _ n2 (hprogram frequency _ hbounds (hput s n1 hs))
    · cases hset
  | setHandler handler =>
    obtain ⟨n, -, heq⟩ := Option.map_eq_some_iff.mp hc
    cases heq
    exact hput s n.2 hs
  | removeHandler =>
    obtain ⟨n, -, heq⟩ := Option.map_eq_some_iff.mp hc
    cases heq
    exact hput s n.2 hs

theorem pit_programmed {frequency : BitVec 32} (s : Timers H) (hbounds : pitDriver.inBounds (H := H) frequency = true) :
    PitProgrammed (pitDriver.program frequency s) := by
  simp only [pitDriver, Bool.and_eq_true, decide_eq_true_eq] at hbounds
  refine ⟨hbounds, ?_⟩
  have hmin : 20 ≤ frequency.toNat := hbounds.1
  have hquotient : pitQuartzFreq.toNat / frequency.toNat < 2 ^ 16 :=
    lt_of_le_of_lt (Nat.div_le_div_left hmin (by decide)) (by decide)
  simp only [pitDriver, BitVec.toNat_setWidth, BitVec.toNat_udiv]
  exact Nat.mod_eq_of_lt hquotient

theorem rtc_programmed {frequency : BitVec 32} (s : Timers H) (hbounds : rtcDriver.inBounds (H := H) frequency = true) :
    RtcProgrammed (rtcDriver.program frequency s) := by
  simp only [rtcDriver, Bool.and_eq_true, decide_eq_true_eq] at hbounds
  obtain ⟨j, hj, hrate, -⟩ := rtcRate_spec hbounds.1 hbounds.2
  have hrates : ∀ j < 13, (BitVec.ofNat 32 (j + 3)).setWidth 8 &&& 0x0F = (BitVec.ofNat 32 (j + 3)).setWidth 8 ∧
      3 ≤ (BitVec.ofNat 32 (j + 3)).setWidth 8 ∧
      ((BitVec.ofNat 32 (j + 3)).setWidth 8).setWidth 32 = BitVec.ofNat 32 (j + 3) := by decide
  obtain ⟨hlow, hthree, hwide⟩ := hrates j (Nat.lt_succ_of_le hj)
  rw [← hrate] at hlow hthree hwide
  -- of what was in the register the four bits above the rate are left
  have hupper : (s.cmosRegA &&& 0xF0) &&& 0x0F = 0#8 := by
    rw [BitVec.and_assoc]
    exact BitVec.and_zero
  have hreg : (rtcDriver.program frequency s).cmosRegA &&& 0x0F = (rtcRate frequency).setWidth 8 := by
    simp only [rtcDriver]
    rw [BitVec.and_or_distrib_right, hupper, BitVec.zero_or, hlow]
  refine ⟨?_, ?_⟩
  · rw [hreg]
    exact hthree
  · rw [hreg, hwide]
    rfl

theorem setFrequency_programmed (d : TimerDriver H) {s s' : Timers H} {frequency : BitVec 32} (P : Timers H → Prop)
    (hput : ∀ s n, P s → P (d.put s n)) (hprogram : ∀ s, d.inBounds frequency = true → P (d.program frequency s))
    (hc : d.setFrequency cfg frequency s = some s') : P s' := by
  unfold TimerDriver.setFrequency at hc
  split at hc
  · next hbounds =>
    obtain ⟨s1, -, henable⟩ := Option.bind_eq_some_iff.mp hc
    obtain ⟨n, -, rfl⟩ := Option.map_eq_some_iff.mp henable
    exact hput _ n (hprogram s1 hbounds)
  · cases hc

theorem timersInit_programmed {f : Fallbacks H} {s s' : Timers H} (h : timersInit cfg f s = some s') :
    PitProgrammed s' ∧ RtcProgrammed s' := by
  obtain ⟨s1, hpit, hrtc⟩ := Option.bind_eq_some_iff.mp h
  have hpit1 : PitProgrammed s1 := by
    obtain ⟨s2, hset, h2⟩ := Option.bind_eq_some_iff.mp hpit
    have hs2 : PitProgrammed s2 :=
      setFrequency_programmed pitDriver PitProgrammed (fun _ _ h => ⟨h.1, h.2⟩) (fun s => pit_programmed s) hset
    dsimp only at h2
    split at h2
    · obtain ⟨n, -, rfl⟩ := Option.map_eq_some_iff.mp h2
      exact ⟨hs2.1, hs2.2⟩
    · cases h2
  obtain ⟨s2, hset, henable⟩ : ∃ s2, (∃ s3 : Timers H, PitProgrammed s3 ∧
      rtcSetFrequency cfg kernelRtcTimerFreq s3 = some s2) ∧ rtcEnable cfg s2 = some s' := by
    simp only [rtcInit] at hrtc
    split at hrtc
    · obtain ⟨m, -, h2⟩ := Option.bind_eq_some_iff.mp hrtc
      obtain ⟨s2, hset, henable⟩ := Option.bind_eq_some_iff.mp h2
      refine ⟨s2, ⟨_, ?_, hset⟩, henable⟩
      exact ⟨hpit1.1, hpit1.2⟩
    · cases hrtc
  obtain ⟨s3, hpit3, hset⟩ := hset
  have hpit2 : PitProgrammed s2 := by
    have hcall : rtcDriver.call cfg f.rtcDummy s3 (.setFrequency kernelRtcTimerFreq) = some (.osNoErr, s2) :=
      Option.map_eq_some_iff.mpr ⟨s2, hset, rfl⟩
    exact rtcDriver.call_invariant PitProgrammed (fun _ _ h => ⟨h.1, h.2⟩) (fun _ _ _ h => ⟨h.1, h.2⟩) hpit3 hcall
  have hrtc2 : RtcProgrammed s2 :=
    setFrequency_programmed rtcDriver RtcProgrammed (fun _ _ h => ⟨h.1, h.2⟩) (fun s => rtc_programmed s) hset
  obtain ⟨n, -, rfl⟩ := Option.map_eq_some_iff.mp henable
  exact ⟨⟨hpit2.1, hpit2.2⟩, ⟨hrtc2.1, hrtc2.2⟩⟩

theorem TimerStep.programmed {f : Fallbacks H} {s s' : Timers H} {e : TimerEvent H}
    (hs : PitProgrammed s ∧ RtcProgrammed s) (hstep : TimerStep cfg f s e s') : PitProgrammed s' ∧ RtcProgrammed s' := by
  obtain ⟨hpit, hrtc⟩ := hs
  cases hstep with
  | pit hc =>
    refine ⟨?_, ?_⟩
    · exact pitDriver.call_invariant PitProgrammed (fun _ _ h => ⟨h.1, h.2⟩) (fun _ s hb _ => pit_programmed s hb) hpit hc
    · exact pitDriver.call_invariant RtcProgrammed (fun _ _ h => ⟨h.1, h.2⟩) (fun _ _ _ h => ⟨h.1, h.2⟩) hrtc hc
  | rtc hc =>
    refine ⟨?_, ?_⟩
    · exact rtcDriver.call_invariant PitProgrammed (fun _ _ h => ⟨h.1, h.2⟩) (fun _ _ _ h => ⟨h.1, h.2⟩) hpit hc
    · exact rtcDriver.call_invariant RtcProgrammed (fun _ _ h => ⟨h.1, h.2⟩) (fun _ s hb _ => rtc_programmed s hb) hrtc hc
  | other => exact ⟨⟨hpit.1, hpit.2⟩, ⟨hrtc.1, hrtc.2⟩⟩

end UtkKernel.Interrupts
