import UtkKernel.Interrupts.IoApic
import UtkKernel.Foundations.BitSets
import Mathlib.Tactic.IntervalCases

/-! # The PIC driver

`arch/board/x86/src/pic.c`, over the two chips that it talks to. A chip takes the initialization words after the first one
and then the mask at its data port; at its command port it takes the end of an interrupt and gives the interrupts in
service, or those asked for. -/

namespace UtkKernel.Interrupts
open Foundations
set_option autoImplicit false

/-! ## The chips -/

/-- An 8259A: the initialization words, how many of them it still waits for, the masked lines, those asked for, those in
service, and which of the two can be read. -/
structure Chip where
  icw2 : BitVec 8
  icw3 : BitVec 8
  icw4 : BitVec 8
  awaited : ℕ
  imr : BitVec 8
  irr : BitVec 8
  isr : BitVec 8
  readIsr : Bool

def picEoi : BitVec 8 := 0x20
def picIcw1Icw4 : BitVec 8 := 0x01
def picIcw1Init : BitVec 8 := 0x10
def picIcw4Mode8086 : BitVec 8 := 0x01
def picReadIsr : BitVec 8 := 0x0B

/-- The end of the interrupt of the highest priority. -/
def Chip.endOfInterrupt (c : Chip) : Chip :=
  match firstBit c.isr with
  | none => c
  | some n => { c with isr := clearBit c.isr n }

def Chip.outComm (v : BitVec 8) (c : Chip) : Chip :=
  if v.getLsbD 4 then { c with awaited := 3, imr := 0, readIsr := false }
  else if v.getLsbD 3 then if v.getLsbD 1 then { c with readIsr := v.getLsbD 0 } else c
  else if v = picEoi then c.endOfInterrupt
  else c

def Chip.outData (v : BitVec 8) (c : Chip) : Chip :=
  match c.awaited with
  | 0 => { c with imr := v }
  | 1 => { c with icw4 := v, awaited := 0 }
  | 2 => { c with icw3 := v, awaited := 1 }
  | n + 3 => { c with icw2 := v, awaited := n + 2 }

def Chip.inData (c : Chip) : BitVec 8 := c.imr

def Chip.inComm (c : Chip) : BitVec 8 := if c.readIsr then c.isr else c.irr

/-- The line that the chip interrupts for: one that is asked for and let through, before all that are in service. -/
def Chip.request (c : Chip) : Option ℕ :=
  (firstBit (c.irr &&& ~~~c.imr)).filter fun n => (firstBit c.isr).all fun k => n < k

/-- The line is no longer asked for but in service, or served already where the chip ends interrupts itself. -/
def Chip.acknowledge (c : Chip) (n : ℕ) : Chip :=
  { c with irr := clearBit c.irr n, isr := if c.icw4.getLsbD 1 then c.isr else setBit c.isr n }

def Chip.vector (c : Chip) (n : ℕ) : BitVec 8 := c.icw2 &&& 0xF8 ||| BitVec.ofNat 8 n

structure Pics where
  master : Chip
  slave : Chip

/-- The vector that the CPU gets. Where a chip has nothing more to ask for, it gives the last one. -/
def Pics.acknowledge (p : Pics) : BitVec 8 × Pics :=
  match p.master.request with
  | none => (p.master.vector 7, p)
  | some n =>
    if p.master.icw3.getLsbD n then
      match p.slave.request with
      | none => (p.slave.vector 7, { p with master := p.master.acknowledge n })
      | some k => (p.slave.vector k, ⟨p.master.acknowledge n, p.slave.acknowledge k⟩)
    else (p.master.vector n, { p with master := p.master.acknowledge n })

/-! ## The driver -/

def picCascadingIrq : Irq := 2
def picSpuriousIrqMask : BitVec 8 := 0x80
def picSpuriousIrqMaster : Irq := 0x07
def picSpuriousIrqSlave : Irq := 0x0F

/-- What `pic_init` writes to one of the chips before it masks all lines. -/
def Chip.init (base cascade : BitVec 8) (c : Chip) : Chip :=
  c.outComm (picIcw1Icw4 ||| picIcw1Init) |>.outData base |>.outData cascade |>.outData picIcw4Mode8086

def picInit (p : Pics) : Pics :=
  let p : Pics := ⟨p.master.init (intPicIrqOffset.setWidth 8) 0x4, p.slave.init ((intPicIrqOffset + 8).setWidth 8) 0x2⟩
  let p : Pics := ⟨p.master.outComm picEoi, p.slave.outComm picEoi⟩
  ⟨p.master.outData 0xFF, p.slave.outData 0xFF⟩

/-- The mask with one line changed. -/
def newMask (line : ℕ) (enabled : BitVec 32) (initMask : BitVec 8) : BitVec 8 :=
  if enabled = 0 then setBit initMask line else clearBit initMask line

def picSetIrqMask (irqNumber : Irq) (enabled : BitVec 32) (p : Pics) : Option Pics :=
  if picMaxIrqLine < irqNumber.toNat then none
  else if irqNumber < 8 then
    some { p with master := p.master.outData (newMask irqNumber.toNat enabled p.master.inData) }
  else
    let p := { p with master := p.master.outData (clearBit p.master.inData picCascadingIrq.toNat) }
    let initMask := newMask (irqNumber - 8).toNat enabled p.slave.inData
    let p := { p with slave := p.slave.outData initMask }
    if initMask = 0xFF then
      some { p with master := p.master.outData (setBit p.master.inData picCascadingIrq.toNat) }
    else some p

def picSetIrqEoi (irqNumber : Irq) (p : Pics) : Option Pics :=
  if picMaxIrqLine < irqNumber.toNat then none
  else
    let p := if 7 < irqNumber then { p with slave := p.slave.outComm picEoi } else p
    some { p with master := p.master.outComm picEoi }

def picHandleSpuriousIrq (intNumber : Line) (p : Pics) : Option (InterruptTypeE × Pics) :=
  let irqNumber := intNumber - intPicIrqOffset
  if picMaxIrqLine < irqNumber.toNat then some (.regular, p)
  else if 7 < irqNumber then
    if irqNumber ≠ picSpuriousIrqSlave then some (.regular, p)
    else
      let p := { p with slave := p.slave.outComm picReadIsr }
      if p.slave.inComm &&& picSpuriousIrqMask ≠ 0 then some (.regular, p)
      else (picSetIrqEoi picCascadingIrq p).map fun p => (.spurious, p)
  else if irqNumber ≠ picSpuriousIrqMaster then some (.regular, p)
  else
    let p := { p with master := p.master.outComm picReadIsr }
    if p.master.inComm &&& picSpuriousIrqMask ≠ 0 then some (.regular, p) else some (.spurious, p)

def picDisable (p : Pics) : Pics := ⟨p.master.outData 0xFF, p.slave.outData 0xFF⟩

def picGetIrqIntLine (irqNumber : Irq) : BitVec 32 :=
  if picMaxIrqLine < irqNumber.toNat then -1 else irqNumber + intPicIrqOffset

/-- `pic_driver` -/
def picDriver : InterruptDriver Pics where
  driverSetIrqMask := picSetIrqMask
  driverSetIrqEoi := picSetIrqEoi
  driverHandleSpurious := picHandleSpuriousIrq
  driverGetIrqIntLine := picGetIrqIntLine

/-! ## A chip and what it shows -/

/-- What a chip that has been initialized shows of its lines. -/
structure Chip.Shows (c : Chip) (base cascade : BitVec 8) (lets asked serves : ℕ → Bool) : Prop where
  icw2 : c.icw2 = base
  icw3 : c.icw3 = cascade
  icw4 : c.icw4 = picIcw4Mode8086
  awaited : c.awaited = 0
  imr : ∀ n < 8, c.imr.getLsbD n = !lets n
  irr : ∀ n < 8, c.irr.getLsbD n = asked n
  isr : ∀ n < 8, c.isr.getLsbD n = serves n

/-- A line that would interrupt if it were the only one. -/
structure Wants (lets asked serves : ℕ → Bool) (n : ℕ) : Prop where
  lt : n < 8
  asked : asked n = true
  lets : lets n = true
  first : ∀ k < 8, serves k = true → n < k

variable {c : Chip} {base cascade v : BitVec 8} {lets lets' asked asked' serves serves' : ℕ → Bool} {n k : ℕ} {p p' : Pics}

theorem Chip.Shows.congr (h : c.Shows base cascade lets asked serves) (hlets : ∀ n < 8, lets n = lets' n)
    (hasked : ∀ n < 8, asked n = asked' n) (hserves : ∀ n < 8, serves n = serves' n) :
    c.Shows base cascade lets' asked' serves' where
  icw2 := h.icw2
  icw3 := h.icw3
  icw4 := h.icw4
  awaited := h.awaited
  imr n hn := by rw [h.imr n hn, hlets n hn]
  irr n hn := by rw [h.irr n hn, hasked n hn]
  isr n hn := by rw [h.isr n hn, hserves n hn]

theorem Chip.Shows.outData_eq (h : c.Shows base cascade lets asked serves) (v : BitVec 8) :
    c.outData v = { c with imr := v } := by
  simp only [outData, h.awaited]

/-- The mask is written. -/
theorem Chip.Shows.outData (h : c.Shows base cascade lets asked serves) (hv : ∀ n < 8, v.getLsbD n = !lets' n) :
    (c.outData v).Shows base cascade lets' asked serves := by
  rw [h.outData_eq]
  exact ⟨h.icw2, h.icw3, h.icw4, h.awaited, hv, h.irr, h.isr⟩

theorem getLsbD_newMask {enabled : BitVec 32} (hn : n < 8) :
    (newMask k enabled v).getLsbD n = if n = k then decide (enabled = 0) else v.getLsbD n := by
  unfold newMask
  by_cases henabled : enabled = 0
  · rw [if_pos henabled, getLsbD_setBit hn]
    by_cases hnk : n = k
    · simp [hnk, henabled]
    · simp [hnk]
  · rw [if_neg henabled, getLsbD_clearBit hn]
    by_cases hnk : n = k
    · simpa [hnk] using henabled
    · simp [hnk]

theorem Chip.request_eq_some_iff (h : c.Shows base cascade lets asked serves) :
    c.request = some n ↔ Wants lets asked serves n ∧ ∀ m, Wants lets asked serves m → n ≤ m := by
  have hpending : ∀ m < 8, (c.irr &&& ~~~c.imr).getLsbD m = (asked m && lets m) := by
    intro m hm
    rw [BitVec.getLsbD_and, BitVec.getLsbD_not, h.irr m hm, h.imr m hm]
    simp [hm]
  have hbefore : ∀ m, (firstBit c.isr).all (fun k => decide (m < k)) = true ↔ ∀ k < 8, serves k = true → m < k := by
    intro m
    cases hfirst : firstBit c.isr with
    | none =>
      have hnone := firstBit_eq_none_iff.mp hfirst
      simp only [Option.all_none, true_iff]
      intro k hk hserves
      rw [← h.isr k hk, hnone k hk] at hserves
      cases hserves
    | some j =>
      obtain ⟨hj, hlow⟩ := firstBit_eq_some_iff.mp hfirst
      have hj8 := firstBit_lt hfirst
      simp only [Option.all_some, decide_eq_true_eq]
      refine ⟨fun hm k hk hserves => ?_, fun hall => hall j hj8 (by rw [← h.isr j hj8, hj])⟩
      by_contra hkm
      rw [← h.isr k hk, hlow k (by omega)] at hserves
      cases hserves
  simp only [request, Option.filter_eq_some_iff, hbefore]
  constructor
  · rintro ⟨hfirst, hserved⟩
    obtain ⟨hn, hlow⟩ := firstBit_eq_some_iff.mp hfirst
    have hn8 := firstBit_lt hfirst
    rw [hpending n hn8, Bool.and_eq_true] at hn
    refine ⟨⟨hn8, hn.1, hn.2, hserved⟩, fun m hm => ?_⟩
    by_contra hlt
    have hlow' := hlow m (by omega)
    rw [hpending m hm.lt, hm.asked, hm.lets] at hlow'
    cases hlow'
  · rintro ⟨hn, hmin⟩
    refine ⟨firstBit_eq_some_iff.mpr ⟨?_, fun m hm => ?_⟩, hn.first⟩
    · rw [hpending n hn.lt, hn.asked, hn.lets]
      rfl
    · have hm8 := hm.trans hn.lt
      rw [hpending m hm8, Bool.and_eq_false_iff]
      by_contra hboth
      rw [not_or, Bool.not_eq_false, Bool.not_eq_false] at hboth
      have hle := hmin m ⟨hm8, hboth.1, hboth.2, fun k hk hserves => hm.trans (hn.first k hk hserves)⟩
      omega

theorem Chip.request_eq_none_iff (h : c.Shows base cascade lets asked serves) :
    c.request = none ↔ ∀ n, ¬ Wants lets asked serves n := by
  constructor
  · intro hnone n hn
    have hex : ∃ n, Wants lets asked serves n := ⟨n, hn⟩
    classical
    have hsome := (request_eq_some_iff h).mpr ⟨Nat.find_spec hex, fun m hm => Nat.find_min' hex hm⟩
    rw [hnone] at hsome
    cases hsome
  · intro hall
    cases hrequest : c.request with
    | none => rfl
    | some n => exact absurd ((request_eq_some_iff h).mp hrequest).1 (hall n)

theorem Chip.Shows.acknowledge (h : c.Shows base cascade lets asked serves) :
    (c.acknowledge n).Shows base cascade lets (fun k => asked k && decide (k ≠ n)) (fun k => serves k || decide (k = n)) where
  icw2 := h.icw2
  icw3 := h.icw3
  icw4 := h.icw4
  awaited := h.awaited
  imr := h.imr
  irr k hk := (getLsbD_clearBit hk).trans (by rw [h.irr k hk])
  isr k hk := by
    have hnormal : c.icw4.getLsbD 1 = false := by
      rw [h.icw4]
      rfl
    have hisr : (c.acknowledge n).isr = setBit c.isr n := by
      rw [Chip.acknowledge, hnormal]
      rfl
    rw [hisr, getLsbD_setBit hk, h.isr k hk]

/-- The line that is first in service is served. -/
theorem Chip.Shows.endOfInterrupt (h : c.Shows base cascade lets asked serves) (hn : n < 8) (hserves : serves n = true)
    (hfirst : ∀ k < n, serves k = false) :
    c.endOfInterrupt.Shows base cascade lets asked (fun k => serves k && decide (k ≠ n)) := by
  have hbit : firstBit c.isr = some n :=
    firstBit_eq_some_iff.mpr ⟨by rw [h.isr n hn, hserves], fun k hk => by rw [h.isr k (hk.trans hn), hfirst k hk]⟩
  rw [Chip.endOfInterrupt, hbit]
  exact ⟨h.icw2, h.icw3, h.icw4, h.awaited, h.imr, h.irr, fun k hk => (getLsbD_clearBit hk).trans (by rw [h.isr k hk])⟩

theorem Chip.Shows.outComm_readIsr (h : c.Shows base cascade lets asked serves) :
    (c.outComm picReadIsr).Shows base cascade lets asked serves :=
  ⟨h.icw2, h.icw3, h.icw4, h.awaited, h.imr, h.irr, h.isr⟩

end UtkKernel.Interrupts
