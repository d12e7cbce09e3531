import UtkKernel.Structures.KernelError
import Mathlib.Data.BitVec
import Mathlib.Logic.Function.Basic

/-! # The interrupt manager

`core/src/interrupts.c` and `core/src/exceptions.c`: the table of handlers, which both share, and what is done with an
interrupt. `D` is the state of the devices that an interrupt driver talks to, `H` are the handlers. A panic is `none`. -/

namespace UtkKernel.Interrupts
set_option autoImplicit false

variable {H D : Type}

abbrev Line := BitVec 32
abbrev Irq := BitVec 32

def minInterruptLine : Line := 0x20
def maxInterruptLine : Line := 0xFF
def intEntryCount : Line := 0x100
def minExceptionLine : Line := 0x0
def maxExceptionLine : Line := 0x1F
def schedulerSwIntLine : Line := 0x21
def panicIntLine : Line := 0x2A

/-- `kernel_interrupt_handlers` -/
abbrev Handlers (H : Type) := Line → Option H

/-! ## The table -/

/-- Registration, after the check of the line. -/
def registerHandler (unauthorized : Bool) (line : Line) (handler : Option H) (t : Handlers H) : OsReturnE × Handlers H :=
  if unauthorized then (.orErrUnauthorizedInterruptLine, t)
  else
    match handler with
    | none => (.osErrNullPointer, t)
    | some h =>
      match t line with
      | some _ => (.osErrInterruptAlreadyRegistered, t)
      | none => (.osNoErr, Function.update t line (some h))

def removeHandler (unauthorized : Bool) (line : Line) (t : Handlers H) : OsReturnE × Handlers H :=
  if unauthorized then (.orErrUnauthorizedInterruptLine, t)
  else
    match t line with
    | none => (.osErrInterruptNotRegistered, t)
    | some _ => (.osNoErr, Function.update t line none)

def kernelInterruptRegisterIntHandler (line : Line) (handler : Option H) (t : Handlers H) : OsReturnE × Handlers H :=
  registerHandler (line < minInterruptLine || maxInterruptLine < line) line handler t

def kernelInterruptRemoveIntHandler (line : Line) (t : Handlers H) : OsReturnE × Handlers H :=
  removeHandler (line < minInterruptLine || maxInterruptLine < line) line t

/-- The lower bound is compared as signed numbers. -/
def kernelExceptionRegisterHandler (line : Line) (handler : Option H) (t : Handlers H) : OsReturnE × Handlers H :=
  registerHandler (line.slt minExceptionLine || maxExceptionLine < line) line handler t

def kernelExceptionRemoveHandler (line : Line) (t : Handlers H) : OsReturnE × Handlers H :=
  removeHandler (line.slt minExceptionLine || maxExceptionLine < line) line t

/-! ## The driver -/

inductive InterruptTypeE where
  | regular
  | spurious
  deriving DecidableEq, Repr

/-- `interrupt_driver_t` -/
structure InterruptDriver (D : Type) where
  driverSetIrqMask : Irq → BitVec 32 → D → Option D
  driverSetIrqEoi : Irq → D → Option D
  driverHandleSpurious : Line → D → Option (InterruptTypeE × D)
  driverGetIrqIntLine : Irq → BitVec 32

/-- The handlers, the devices and the count of spurious interrupts. -/
structure InterruptManager (H D : Type) where
  handlers : Handlers H
  devices : D
  spuriousInterrupt : BitVec 32

def kernelInterruptRegisterIrqHandler (driver : InterruptDriver D) (irq : Irq) (handler : Option H) (t : Handlers H) :
    OsReturnE × Handlers H :=
  let intLine := driver.driverGetIrqIntLine irq
  if intLine.slt 0 then (.osErrNoSuchIrq, t) else kernelInterruptRegisterIntHandler intLine handler t

def kernelInterruptRemoveIrqHandler (driver : InterruptDriver D) (irq : Irq) (t : Handlers H) : OsReturnE × Handlers H :=
  let intLine := driver.driverGetIrqIntLine irq
  if intLine.slt 0 then (.osErrNoSuchIrq, t) else kernelInterruptRemoveIntHandler intLine t

def kernelInterruptSetIrqMask (driver : InterruptDriver D) (irq : Irq) (enabled : BitVec 32)
    (m : InterruptManager H D) : Option (InterruptManager H D) :=
  (driver.driverSetIrqMask irq enabled m.devices).map fun d => { m with devices := d }

def kernelInterruptSetIrqEoi (driver : InterruptDriver D) (irq : Irq) (m : InterruptManager H D) :
    Option (InterruptManager H D) :=
  (driver.driverSetIrqEoi irq m.devices).map fun d => { m with devices := d }

/-! ## An interrupt -/

/-- What becomes of an interrupt. -/
inductive Outcome (H : Type) where
  | blocked
  | spurious
  | handled (handler : H)

/-- `kernel_interrupt_handler`, where `enabled` is the interrupt flag that was saved on the stack. -/
def kernelInterruptHandler (driver : InterruptDriver D) (panicHandler : H) (enabled : Bool) (intId : Line)
    (m : InterruptManager H D) : Option (Outcome H × InterruptManager H D) :=
  if !enabled && intId != panicIntLine && intId != schedulerSwIntLine && minInterruptLine ≤ intId then some (.blocked, m)
  -- `panic_handler` does not come back
  else if intId = panicIntLine then some (.handled panicHandler, m)
  else
    (driver.driverHandleSpurious intId m.devices).map fun r =>
      let m := { m with devices := r.2 }
      match r.1 with
      | .spurious => (.spurious, { m with spuriousInterrupt := m.spuriousInterrupt + 1 })
      | .regular =>
        (.handled (if intId < intEntryCount then (m.handlers intId).getD panicHandler else panicHandler), m)

/-- The handlers that `kernel_interrupt_init` leaves. -/
def kernelInterruptInit (panicHandler : H) : Handlers H := Function.update (fun _ => none) panicIntLine (some panicHandler)

variable {unauthorized : Bool} {line other : Line} {handler : Option H} {h : H} {t : Handlers H}

theorem registerHandler_of_ne (hne : other ≠ line) : (registerHandler unauthorized line handler t).2 other = t other := by
  unfold registerHandler
  split
  · rfl
  · split
    · rfl
    · split
      · rfl
      · exact Function.update_of_ne hne _ _

theorem removeHandler_of_ne (hne : other ≠ line) : (removeHandler unauthorized line t).2 other = t other := by
  unfold removeHandler
  split
  · rfl
  · split
    · rfl
    · exact Function.update_of_ne hne _ _

/-- A handler is never replaced, only removed. -/
theorem registerHandler_of_some (hline : t line = some h) : (registerHandler unauthorized line handler t).2 = t := by
  unfold registerHandler
  rw [hline]
  split
  · rfl
  · split <;> rfl

theorem registerHandler_noErr {t' : Handlers H} (hr : registerHandler unauthorized line (some h) t = (.osNoErr, t')) :
    t' line = some h := by
  unfold registerHandler at hr
  split at hr
  · cases hr
  · dsimp only at hr
    split at hr
    · cases hr
    · cases hr
      exact Function.update_self ..

/-- A registered handler stays whatever else is registered. -/
theorem registerHandler_keeps (hother : t other = some h) :
    (registerHandler unauthorized line handler t).2 other = some h := by
  by_cases heq : other = line
  · rw [registerHandler_of_some (heq ▸ hother), hother]
  · rw [registerHandler_of_ne heq, hother]

end UtkKernel.Interrupts
