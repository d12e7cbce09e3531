import UtkKernel.Interrupts.Pic
import UtkKernel.Foundations.Simulations
import Mathlib.Data.List.Pairwise

/-! # Interrupts from the PIC

What the two chips, their driver and `kernel_interrupt_handler` come to: sixteen lines in an order of priority, and the
interrupts that are being served, the last one first. The lines of the second chip stand in the place of line 2 of the
first one, which is open as long as one of them is. -/

namespace UtkKernel.Interrupts
open Foundations
set_option autoImplicit false

variable {H : Type}

/-! ## Lines in their order -/

/-- The place of a line in the order, which is its line of the first chip. -/
def priority (irq : ℕ) : ℕ := if irq < 8 then irq else 2

/-- An interrupt that could be served now. -/
structure Serviceable (lets asked : ℕ → Bool) (underWay : List ℕ) (irq : ℕ) : Prop where
  lt : irq < 16
  ne : irq ≠ 2
  wanted : asked irq = true
  isOpen : lets irq = true
  cascade : 8 ≤ irq → asked 2 = true ∧ lets 2 = true
  first : ∀ other ∈ underWay, priority irq < priority other

/-- The lines that are let through once a mask is set. -/
def maskLine (lets : ℕ → Bool) (irq : ℕ) (enabled : Bool) : ℕ → Bool :=
  let lets := Function.update lets irq enabled
  if irq < 8 then lets else Function.update lets 2 ((List.range 8).any fun n => lets (n + 8))

/-- The lines that are asked for once an interrupt is taken. -/
def taken (asked : ℕ → Bool) (irq : ℕ) : ℕ → Bool :=
  if irq < 8 then Function.update asked irq false else Function.update (Function.update asked irq false) 2 false

/-- What the requests of the two chips come to. -/
def askedBy (master slave : BitVec 8) (n : ℕ) : Bool := if n < 8 then master.getLsbD n else slave.getLsbD (n - 8)

/-- Both chips, with the interrupts that are being served. -/
structure Pics.Shows (p : Pics) (lets asked : ℕ → Bool) (underWay : List ℕ) : Prop where
  master : p.master.Shows 0x30 0x4 lets asked fun n => decide (n ∈ underWay.map priority)
  slave : p.slave.Shows 0x38 0x2 (fun n => lets (n + 8)) (fun n => asked (n + 8)) fun n => decide (n + 8 ∈ underWay)
  sorted : (underWay.map priority).Pairwise (· < ·)
  lt : ∀ irq ∈ underWay, irq < 16

variable {lets asked : ℕ → Bool} {underWay : List ℕ} {irq n k : ℕ} {p p' : Pics} {enabled : BitVec 32}

theorem priority_lt (irq : ℕ) : priority irq < 8 := by
  unfold priority
  split
  · assumption
  · decide

theorem priority_of_lt (h : irq < 8) : priority irq = irq := if_pos h

theorem priority_of_le (h : 8 ≤ irq) : priority irq = 2 := if_neg (Nat.not_lt.mpr h)

theorem askedBy_of_lt {master slave : BitVec 8} (h : n < 8) : askedBy master slave n = master.getLsbD n := if_pos h

theorem askedBy_add (master slave : BitVec 8) (n : ℕ) : askedBy master slave (n + 8) = slave.getLsbD n :=
  if_neg (Nat.not_lt.mpr (Nat.le_add_left 8 n))

/-! ## Masks -/

theorem newMask_eq_allOnes_iff {v : BitVec 8} : v = 0xFF ↔ ∀ n < 8, v.getLsbD n = true := by
  constructor
  · rintro rfl n hn
    interval_cases n <;> rfl
  · intro h
    refine BitVec.eq_of_getLsbD_eq fun n hn => ?_
    rw [h n hn]
    interval_cases n <;> rfl

theorem Pics.Shows.disable (h : p.Shows lets asked underWay) : (picDisable p).Shows (fun _ => false) asked underWay where
  master := h.master.outData (newMask_eq_allOnes_iff.mp rfl)
  slave := h.slave.outData (newMask_eq_allOnes_iff.mp rfl)
  sorted := h.sorted
  lt := h.lt

theorem Pics.Shows.setIrqMask {irq : Irq} (h : p.Shows lets asked underWay) (hset : picSetIrqMask irq enabled p = some p') :
    irq.toNat < 16 ∧ p'.Shows (maskLine lets irq.toNat (decide (enabled ≠ 0))) asked underWay := by
  unfold picSetIrqMask at hset
  split at hset
  · cases hset
  next hmax =>
  have hlt : irq.toNat < 16 := Nat.lt_succ_of_le (Nat.le_of_not_lt hmax)
  refine ⟨hlt, ?_⟩
  split at hset
  · next hirq =>
    have hirq' : irq.toNat < 8 := hirq
    cases hset
    rw [maskLine, if_pos hirq']
    refine ⟨h.master.outData fun n hn => ?_, h.slave.congr (fun n hn => ?_) (fun _ _ => rfl) fun _ _ => rfl, h.sorted, h.lt⟩
    · rw [getLsbD_newMask hn, Function.update_apply]
      split
      · by_cases henabled : enabled = 0 <;> simp [henabled]
      · exact h.master.imr n hn
    · exact (Function.update_of_ne (by omega) _ _).symm
  · next hirq =>
    have hirq' : 8 ≤ irq.toNat := Nat.le_of_not_lt hirq
    have hline : (irq - 8).toNat = irq.toNat - 8 := BitVec.toNat_sub_of_le hirq'
    have hslave : ∀ n < 8, (newMask (irq - 8).toNat enabled p.slave.inData).getLsbD n =
        !Function.update lets irq.toNat (decide (enabled ≠ 0)) (n + 8) := by
      intro n hn
      rw [getLsbD_newMask hn, hline, Function.update_apply]
      by_cases heq : n = irq.toNat - 8
      · rw [if_pos heq, if_pos (by omega)]
        by_cases henabled : enabled = 0 <;> simp [henabled]
      · rw [if_neg heq, if_neg (by omega)]
        exact h.slave.imr n hn
    have hmaster : ∀ (on : Bool), ∀ n < 8,
        Function.update (Function.update lets irq.toNat (decide (enabled ≠ 0))) 2 on n = Function.update lets 2 on n := by
      intro on n hn
      by_cases heq : n = 2
      · rw [heq, Function.update_self, Function.update_self]
      · rw [Function.update_of_ne heq, Function.update_of_ne (by omega), Function.update_of_ne heq]
    have hlow : ∀ on : Bool, ∀ n < 8, Function.update lets irq.toNat (decide (enabled ≠ 0)) (n + 8) =
        Function.update (Function.update lets irq.toNat (decide (enabled ≠ 0))) 2 on (n + 8) :=
      fun on n _ => (Function.update_of_ne (by omega) _ _).symm
    have hopen : (p.master.outData (clearBit p.master.inData picCascadingIrq.toNat)).Shows 0x30 0x4
        (Function.update lets 2 true) asked fun n => decide (n ∈ underWay.map priority) := by
      refine h.master.outData fun n hn => ?_
      rw [getLsbD_clearBit hn, Function.update_apply, Chip.inData, h.master.imr n hn]
      by_cases heq : n = 2 <;> simp [picCascadingIrq, heq]
    rw [maskLine, if_neg (Nat.not_lt.mpr hirq')]
    dsimp only at hset
    split at hset
    · next hall =>
      have hnone : ((List.range 8).any fun n => Function.update lets irq.toNat (decide (enabled ≠ 0)) (n + 8)) = false := by
        rw [List.any_eq_false]
        intro n hn hon
        have hbit := hslave n (List.mem_range.mp hn)
        rw [newMask_eq_allOnes_iff.mp hall n (List.mem_range.mp hn), hon] at hbit
        cases hbit
      cases hset
      refine ⟨hopen.outData fun n hn => ?_, (h.slave.outData hslave).congr (hlow _) (fun _ _ => rfl) fun _ _ => rfl,
        h.sorted, h.lt⟩
      rw [hnone, hmaster false n hn, getLsbD_setBit hn, Chip.inData, hopen.imr n hn, Function.update_apply,
        Function.update_apply]
      by_cases heq : n = 2 <;> simp [picCascadingIrq, heq]
    · next hall =>
      have hsome : ((List.range 8).any fun n => Function.update lets irq.toNat (decide (enabled ≠ 0)) (n + 8)) = true := by
        by_contra hnone
        refine hall (newMask_eq_allOnes_iff.mpr fun n hn => ?_)
        rw [hslave n hn, Bool.not_eq_true', Bool.eq_false_iff]
        exact fun hon => hnone (List.any_eq_true.mpr ⟨n, List.mem_range.mpr hn, hon⟩)
      cases hset
      refine ⟨?_, (h.slave.outData hslave).congr (hlow _) (fun _ _ => rfl) fun _ _ => rfl, h.sorted, h.lt⟩
      rw [hsome]
      exact hopen.congr (fun n hn => (hmaster true n hn).symm) (fun _ _ => rfl) fun _ _ => rfl

/-! ## The end of an interrupt -/

theorem picSetIrqEoi_eq (h : irq < 16) : picSetIrqEoi (BitVec.ofNat 32 irq) p =
    some ⟨p.master.endOfInterrupt, if 8 ≤ irq then p.slave.endOfInterrupt else p.slave⟩ := by
  interval_cases irq <;> rfl

/-- The interrupt that was taken last is the first one in service in its chips. -/
theorem Pics.Shows.setIrqEoi (h : p.Shows lets asked (irq :: underWay))
    (hset : picSetIrqEoi (BitVec.ofNat 32 irq) p = some p') : p'.Shows lets asked underWay := by
  obtain ⟨hbefore, hsorted⟩ := List.pairwise_cons.mp h.sorted
  have hirq : irq < 16 := h.lt irq List.mem_cons_self
  have hmaster : p.master.endOfInterrupt.Shows 0x30 0x4 lets asked fun n => decide (n ∈ underWay.map priority) := by
    refine (h.master.endOfInterrupt (priority_lt irq) (by simp) fun k hk => ?_).congr (fun _ _ => rfl) (fun _ _ => rfl) ?_
    · rw [decide_eq_false_iff_not, List.map_cons, List.mem_cons, not_or]
      exact ⟨hk.ne, fun hmem => absurd (hbefore k hmem) (by omega)⟩
    · intro n hn
      rw [List.map_cons, ← Bool.decide_and, decide_eq_decide, List.mem_cons]
      constructor
      · rintro ⟨rfl | hmem, hne⟩
        · exact absurd rfl hne
        · exact hmem
      · intro hmem
        exact ⟨Or.inr hmem, (hbefore n hmem).ne'⟩
  rw [picSetIrqEoi_eq hirq] at hset
  cases hset
  refine ⟨hmaster, ?_, hsorted, fun other hother => h.lt other (List.mem_cons_of_mem _ hother)⟩
  split
  · next hle =>
    have hother : ∀ n, n + 8 ∈ underWay → n + 8 ≠ irq ∧ False := by
      intro n hmem
      have hlt := hbefore _ (List.mem_map_of_mem hmem)
      rw [priority_of_le hle, priority_of_le (Nat.le_add_left 8 n)] at hlt
      exact absurd hlt (Nat.lt_irrefl 2)
    refine (h.slave.endOfInterrupt (n := irq - 8) (by omega) ?_ fun k hk => ?_).congr (fun _ _ => rfl) (fun _ _ => rfl) ?_
    · rw [Nat.sub_add_cancel hle, decide_eq_true_eq]
      exact List.mem_cons_self
    · rw [decide_eq_false_iff_not, List.mem_cons, not_or]
      exact ⟨by omega, fun hmem => (hother k hmem).2⟩
    · intro n hn
      rw [← Bool.decide_and, decide_eq_decide, List.mem_cons]
      constructor
      · rintro ⟨heq | hmem, hne⟩
        · exact absurd (by omega) hne
        · exact hmem
      · intro hmem
        exact absurd (hother n hmem).2 id
  · next hlt =>
    refine h.slave.congr (fun _ _ => rfl) (fun _ _ => rfl) fun n _ => ?_
    rw [decide_eq_decide, List.mem_cons]
    exact or_iff_right (by omega)

/-! ## Taking an interrupt -/

theorem vector_master {c : Chip} (h : c.icw2 = 0x30) (hn : n < 8) :
    (c.vector n).setWidth 32 = BitVec.ofNat 32 n + intPicIrqOffset := by
  rw [Chip.vector, h]
  interval_cases n <;> rfl

theorem vector_slave {c : Chip} (h : c.icw2 = 0x38) (hn : n < 8) :
    (c.vector n).setWidth 32 = BitVec.ofNat 32 (n + 8) + intPicIrqOffset := by
  rw [Chip.vector, h]
  interval_cases n <;> rfl

theorem spurious_bit {v : BitVec 8} : v &&& picSpuriousIrqMask ≠ 0 ↔ v.getLsbD 7 = true := by
  have hmask : picSpuriousIrqMask = BitVec.twoPow 8 7 := rfl
  rw [hmask, BitVec.and_twoPow]
  split
  · next h => exact iff_of_true (by decide) h
  · next h => exact iff_of_false (fun hne => hne rfl) h

theorem picHandleSpuriousIrq_regular (hn : n < 16) (hmaster : n ≠ 7) (hslave : n ≠ 15) :
    picHandleSpuriousIrq (BitVec.ofNat 32 n + intPicIrqOffset) p = some (.regular, p) := by
  interval_cases n
  case «7» => exact absurd rfl hmaster
  case «15» => exact absurd rfl hslave
  all_goals rfl

theorem picHandleSpuriousIrq_master : picHandleSpuriousIrq (BitVec.ofNat 32 7 + intPicIrqOffset) p =
    some (if p.master.isr.getLsbD 7 then .regular else .spurious, { p with master := p.master.outComm picReadIsr }) := by
  have h : picHandleSpuriousIrq (BitVec.ofNat 32 7 + intPicIrqOffset) p =
      if p.master.isr &&& picSpuriousIrqMask ≠ 0 then some (.regular, { p with master := p.master.outComm picReadIsr })
      else some (.spurious, { p with master := p.master.outComm picReadIsr }) := rfl
  rw [h]
  by_cases hbit : p.master.isr.getLsbD 7 = true
  · rw [if_pos (spurious_bit.mpr hbit), if_pos hbit]
  · rw [if_neg (mt spurious_bit.mp hbit), if_neg hbit]

theorem picHandleSpuriousIrq_slave : picHandleSpuriousIrq (BitVec.ofNat 32 15 + intPicIrqOffset) p =
    if p.slave.isr.getLsbD 7 then some (.regular, { p with slave := p.slave.outComm picReadIsr })
    else some (.spurious, ⟨p.master.endOfInterrupt, p.slave.outComm picReadIsr⟩) := by
  have h : picHandleSpuriousIrq (BitVec.ofNat 32 15 + intPicIrqOffset) p =
      if p.slave.isr &&& picSpuriousIrqMask ≠ 0 then some (.regular, { p with slave := p.slave.outComm picReadIsr })
      else some (.spurious, ⟨p.master.endOfInterrupt, p.slave.outComm picReadIsr⟩) := rfl
  rw [h]
  by_cases hbit : p.slave.isr.getLsbD 7 = true
  · rw [if_pos (spurious_bit.mpr hbit), if_pos hbit]
  · rw [if_neg (mt spurious_bit.mp hbit), if_neg hbit]

/-- What the first chip asks for. -/
theorem wants_master : Wants lets asked (fun n => decide (n ∈ underWay.map priority)) n ↔
    n < 8 ∧ asked n = true ∧ lets n = true ∧ ∀ other ∈ underWay, n < priority other := by
  constructor
  · rintro ⟨hlt, hasked, hlets, hfirst⟩
    exact ⟨hlt, hasked, hlets, fun other hother =>
      hfirst _ (priority_lt other) (decide_eq_true (List.mem_map_of_mem hother))⟩
  · rintro ⟨hlt, hasked, hlets, hfirst⟩
    refine ⟨hlt, hasked, hlets, fun k _ hk => ?_⟩
    obtain ⟨other, hother, rfl⟩ := List.mem_map.mp (of_decide_eq_true hk)
    exact hfirst other hother

/-- The second chip has nothing in service when the first one asks for it. -/
theorem wants_slave (hfirst : ∀ other ∈ underWay, 2 < priority other) :
    Wants (fun n => lets (n + 8)) (fun n => asked (n + 8)) (fun n => decide (n + 8 ∈ underWay)) n ↔
      n < 8 ∧ asked (n + 8) = true ∧ lets (n + 8) = true := by
  constructor
  · rintro ⟨hlt, hasked, hlets, -⟩
    exact ⟨hlt, hasked, hlets⟩
  · rintro ⟨hlt, hasked, hlets⟩
    refine ⟨hlt, hasked, hlets, fun k _ hk => ?_⟩
    have hlate := hfirst _ (of_decide_eq_true hk)
    rw [priority_of_le (Nat.le_add_left 8 k)] at hlate
    exact absurd hlate (Nat.lt_irrefl 2)

theorem serviceable_master (h : irq < 8) : Serviceable lets asked underWay irq ↔
    irq ≠ 2 ∧ Wants lets asked (fun n => decide (n ∈ underWay.map priority)) irq := by
  rw [wants_master]
  constructor
  · rintro ⟨-, hne, hasked, hlets, -, hfirst⟩
    rw [priority_of_lt h] at hfirst
    exact ⟨hne, h, hasked, hlets, hfirst⟩
  · rintro ⟨hne, -, hasked, hlets, hfirst⟩
    rw [← priority_of_lt h] at hfirst
    exact ⟨by omega, hne, hasked, hlets, fun hle => absurd h (Nat.not_lt.mpr hle), hfirst⟩

theorem serviceable_slave (h : 8 ≤ irq) : Serviceable lets asked underWay irq ↔
    Wants lets asked (fun n => decide (n ∈ underWay.map priority)) 2 ∧ irq < 16 ∧ asked irq = true ∧ lets irq = true := by
  rw [wants_master]
  constructor
  · rintro ⟨hlt, -, hasked, hlets, hcascade, hfirst⟩
    rw [priority_of_le h] at hfirst
    exact ⟨⟨by decide, (hcascade h).1, (hcascade h).2, hfirst⟩, hlt, hasked, hlets⟩
  · rintro ⟨⟨-, hasked2, hlets2, hfirst⟩, hlt, hasked, hlets⟩
    rw [← priority_of_le h] at hfirst
    exact ⟨hlt, by omega, hasked, hlets, fun _ => ⟨hasked2, hlets2⟩, hfirst⟩

/-- A chip that is asked for one more line. -/
theorem served_cons (hirq : priority irq = n) :
    (decide (k ∈ underWay.map priority) || decide (k = n)) = decide (k ∈ (irq :: underWay).map priority) := by
  rw [← Bool.decide_or, decide_eq_decide, List.map_cons, List.mem_cons, hirq]
  exact or_comm

theorem asked_update : (asked k && decide (k ≠ n)) = Function.update asked n false k := by
  rw [Function.update_apply]
  by_cases h : k = n <;> simp [h]

/-- Before the others that could be served. -/
def Foremost (lets asked : ℕ → Bool) (underWay : List ℕ) (irq : ℕ) : Prop :=
  ∀ other, Serviceable lets asked underWay other →
    priority irq ≤ priority other ∧ (priority irq = priority other → irq ≤ other)

variable {c : Chip}

theorem cascade_iff (h : c.icw3 = 0x4) (hn : n < 8) : c.icw3.getLsbD n = true ↔ n = 2 := by
  rw [h]
  interval_cases n <;> decide

/-- Nothing is asked for any more. -/
theorem Pics.Shows.acknowledge_none (h : p.Shows lets asked underWay) (hseven : 7 ∉ underWay)
    (hmaster : p.master.request = none) : (∀ irq, ¬Serviceable lets asked underWay irq) ∧
      p.acknowledge.1.setWidth 32 = BitVec.ofNat 32 7 + intPicIrqOffset ∧
      ∃ q, picHandleSpuriousIrq (p.acknowledge.1.setWidth 32) p.acknowledge.2 = some (.spurious, q) ∧
        q.Shows lets asked underWay := by
  have hnone := (Chip.request_eq_none_iff h.master).mp hmaster
  have hack : p.acknowledge = (p.master.vector 7, p) := by
    rw [Pics.acknowledge, hmaster]
  have hline : p.acknowledge.1.setWidth 32 = BitVec.ofNat 32 7 + intPicIrqOffset := by
    rw [hack]
    exact vector_master h.master.icw2 (by decide)
  refine ⟨?_, hline, ?_⟩
  · intro irq hirq
    rcases Nat.lt_or_ge irq 8 with hlt | hge
    · exact hnone irq ((serviceable_master hlt).mp hirq).2
    · exact hnone 2 ((serviceable_slave hge).mp hirq).1
  · have hbit : p.master.isr.getLsbD 7 = false := by
      rw [h.master.isr 7 (by decide), decide_eq_false_iff_not, List.mem_map]
      rintro ⟨irq, hmem, hirq⟩
      rcases Nat.lt_or_ge irq 8 with hlt | hge
      · rw [priority_of_lt hlt] at hirq
        exact hseven (hirq ▸ hmem)
      · rw [priority_of_le hge] at hirq
        cases hirq
    rw [hline, hack, picHandleSpuriousIrq_master, hbit, if_neg Bool.false_ne_true]
    exact ⟨_, rfl, h.master.outComm_readIsr, h.slave, h.sorted, h.lt⟩

/-- The second chip asked for one of its lines, and no longer does. -/
theorem Pics.Shows.acknowledge_phantom (h : p.Shows lets asked underWay) (hmaster : p.master.request = some 2)
    (hslave : p.slave.request = none) :
    asked 2 = true ∧ lets 2 = true ∧ (∀ irq, Serviceable lets asked underWay irq → 2 < priority irq) ∧
      p.acknowledge.1.setWidth 32 = BitVec.ofNat 32 15 + intPicIrqOffset ∧
      ∃ q, picHandleSpuriousIrq (p.acknowledge.1.setWidth 32) p.acknowledge.2 = some (.spurious, q) ∧
        q.Shows lets (Function.update asked 2 false) underWay := by
  obtain ⟨hwants, hmin⟩ := (Chip.request_eq_some_iff h.master).mp hmaster
  obtain ⟨-, hasked, hlets, hfirst⟩ := wants_master.mp hwants
  have hnone := (Chip.request_eq_none_iff h.slave).mp hslave
  have hack : p.acknowledge = (p.slave.vector 7, { p with master := p.master.acknowledge 2 }) := by
    rw [Pics.acknowledge, hmaster]
    dsimp only
    rw [if_pos ((cascade_iff h.master.icw3 (by decide)).mpr rfl), hslave]
  have hline : p.acknowledge.1.setWidth 32 = BitVec.ofNat 32 15 + intPicIrqOffset := by
    rw [hack]
    exact vector_slave h.slave.icw2 (by decide)
  refine ⟨hasked, hlets, fun irq hirq => ?_, hline, ?_⟩
  · rcases Nat.lt_or_ge irq 8 with hlt | hge
    · obtain ⟨hne, hirq⟩ := (serviceable_master hlt).mp hirq
      have hle := hmin irq hirq
      rw [priority_of_lt hlt]
      omega
    · obtain ⟨-, hlt, hasked', hlets'⟩ := (serviceable_slave hge).mp hirq
      refine absurd ((wants_slave hfirst).mpr ⟨?_, ?_, ?_⟩) (hnone (irq - 8))
      · omega
      · rwa [Nat.sub_add_cancel hge]
      · rwa [Nat.sub_add_cancel hge]
  · have hlate : ∀ k ≤ 2, decide (k ∈ underWay.map priority) = false := by
      intro k hk
      rw [decide_eq_false_iff_not, List.mem_map]
      rintro ⟨other, hother, heq⟩
      have hlt := hfirst other hother
      omega
    have hbit : p.slave.isr.getLsbD 7 = false := by
      rw [h.slave.isr 7 (by decide), decide_eq_false_iff_not]
      intro hmem
      exact absurd (hfirst 15 hmem) (by decide)
    rw [hline, hack, picHandleSpuriousIrq_slave]
    dsimp only
    rw [hbit, if_neg Bool.false_ne_true]
    refine ⟨_, rfl, ?_, ?_, h.sorted, h.lt⟩
    · refine (h.master.acknowledge.endOfInterrupt (n := 2) (by decide) (by simp) fun k hk => ?_).congr (fun _ _ => rfl)
        (fun k _ => asked_update) fun k _ => ?_
      · rw [hlate k (by omega)]
        simp [hk.ne]
      · by_cases heq : k = 2
        · rw [heq, hlate 2 le_rfl]
          rfl
        · simp [heq]
    · exact h.slave.outComm_readIsr.congr (fun _ _ => rfl) (fun k _ => (Function.update_of_ne (by omega) _ _).symm)
        fun _ _ => rfl

/-- Once it is in service, an interrupt is no spurious one. -/
theorem picHandleSpuriousIrq_served {q : Pics} (h : q.Shows lets asked (irq :: underWay)) :
    ∃ q', picHandleSpuriousIrq (BitVec.ofNat 32 irq + intPicIrqOffset) q = some (.regular, q') ∧
      q'.Shows lets asked (irq :: underWay) := by
  by_cases hseven : irq = 7
  · subst hseven
    have hbit : q.master.isr.getLsbD 7 = true := by
      rw [h.master.isr 7 (by decide)]
      rfl
    rw [picHandleSpuriousIrq_master, hbit, if_pos rfl]
    exact ⟨_, rfl, h.master.outComm_readIsr, h.slave, h.sorted, h.lt⟩
  · by_cases hfifteen : irq = 15
    · subst hfifteen
      have hbit : q.slave.isr.getLsbD 7 = true := by
        rw [h.slave.isr 7 (by decide)]
        rfl
      rw [picHandleSpuriousIrq_slave, hbit, if_pos rfl]
      exact ⟨_, rfl, h.master, h.slave.outComm_readIsr, h.sorted, h.lt⟩
    · exact ⟨q, picHandleSpuriousIrq_regular (h.lt irq List.mem_cons_self) hseven hfifteen, h⟩

/-- A line of the first chip is taken. -/
theorem Pics.Shows.acknowledge_master (h : p.Shows lets asked underWay) (hmaster : p.master.request = some n)
    (hne : n ≠ 2) : Serviceable lets asked underWay n ∧ Foremost lets asked underWay n ∧
      p.acknowledge.1.setWidth 32 = BitVec.ofNat 32 n + intPicIrqOffset ∧
      p.acknowledge.2.Shows lets (taken asked n) (n :: underWay) := by
  obtain ⟨hwants, hmin⟩ := (Chip.request_eq_some_iff h.master).mp hmaster
  have hlt : n < 8 := hwants.lt
  have hservice : Serviceable lets asked underWay n := (serviceable_master hlt).mpr ⟨hne, hwants⟩
  have hack : p.acknowledge = (p.master.vector n, { p with master := p.master.acknowledge n }) := by
    rw [Pics.acknowledge, hmaster]
    dsimp only
    rw [if_neg (mt (cascade_iff h.master.icw3 hlt).mp hne)]
  refine ⟨hservice, fun other hother => ?_, ?_, ?_⟩
  · have hle : n ≤ priority other := by
      rcases Nat.lt_or_ge other 8 with hlt' | hge
      · rw [priority_of_lt hlt']
        exact hmin other ((serviceable_master hlt').mp hother).2
      · rw [priority_of_le hge]
        exact hmin 2 ((serviceable_slave hge).mp hother).1
    rw [priority_of_lt hlt]
    refine ⟨hle, fun heq => ?_⟩
    rcases Nat.lt_or_ge other 8 with hlt' | hge
    · rw [priority_of_lt hlt'] at heq
      exact heq.le
    · exact hlt.le.trans hge
  · rw [hack]
    exact vector_master h.master.icw2 hlt
  · rw [hack, taken, if_pos hlt]
    refine ⟨h.master.acknowledge.congr (fun _ _ => rfl) (fun k _ => asked_update) fun k _ => served_cons (priority_of_lt hlt),
      h.slave.congr (fun _ _ => rfl) (fun k _ => (Function.update_of_ne (by omega) _ _).symm) fun k _ => ?_,
      List.pairwise_cons.mpr ⟨?_, h.sorted⟩, List.forall_mem_cons.mpr ⟨hservice.lt, h.lt⟩⟩
    · rw [decide_eq_decide, List.mem_cons]
      exact (or_iff_right (by omega)).symm
    · intro m hm
      obtain ⟨other, hother, rfl⟩ := List.mem_map.mp hm
      exact hservice.first other hother

/-- A line of the second chip is taken. -/
theorem Pics.Shows.acknowledge_slave (h : p.Shows lets asked underWay) (hmaster : p.master.request = some 2)
    (hslave : p.slave.request = some n) : Serviceable lets asked underWay (n + 8) ∧ Foremost lets asked underWay (n + 8) ∧
      p.acknowledge.1.setWidth 32 = BitVec.ofNat 32 (n + 8) + intPicIrqOffset ∧
      p.acknowledge.2.Shows lets (taken asked (n + 8)) ((n + 8) :: underWay) := by
  obtain ⟨hwants, hmin⟩ := (Chip.request_eq_some_iff h.master).mp hmaster
  obtain ⟨hwants', hmin'⟩ := (Chip.request_eq_some_iff h.slave).mp hslave
  have hfirst := (wants_master.mp hwants).2.2.2
  have hge : 8 ≤ n + 8 := Nat.le_add_left 8 n
  obtain ⟨hlt, hasked, hlets⟩ := (wants_slave hfirst).mp hwants'
  have hservice : Serviceable lets asked underWay (n + 8) :=
    (serviceable_slave hge).mpr ⟨hwants, Nat.add_lt_add_right hlt 8, hasked, hlets⟩
  have hack : p.acknowledge = (p.slave.vector n, ⟨p.master.acknowledge 2, p.slave.acknowledge n⟩) := by
    rw [Pics.acknowledge, hmaster]
    dsimp only
    rw [if_pos ((cascade_iff h.master.icw3 (by decide)).mpr rfl), hslave]
  refine ⟨hservice, fun other hother => ?_, ?_, ?_⟩
  · rw [priority_of_le hge]
    rcases Nat.lt_or_ge other 8 with hlt' | hge'
    · obtain ⟨hne, hwants''⟩ := (serviceable_master hlt').mp hother
      rw [priority_of_lt hlt']
      exact ⟨hmin other hwants'', fun heq => absurd heq.symm hne⟩
    · obtain ⟨-, hlt', hasked', hlets'⟩ := (serviceable_slave hge').mp hother
      rw [priority_of_le hge']
      refine ⟨le_rfl, fun _ => ?_⟩
      have hle := hmin' (other - 8) ((wants_slave hfirst).mpr ⟨by omega, ?_, ?_⟩)
      · omega
      · rwa [Nat.sub_add_cancel hge']
      · rwa [Nat.sub_add_cancel hge']
  · rw [hack]
    exact vector_slave h.slave.icw2 hlt
  · rw [hack, taken, if_neg (Nat.not_lt.mpr hge)]
    refine ⟨h.master.acknowledge.congr (fun _ _ => rfl) (fun k hk => ?_) fun k _ => served_cons (priority_of_le hge),
      h.slave.acknowledge.congr (fun _ _ => rfl) (fun k _ => ?_) fun k _ => ?_,
      List.pairwise_cons.mpr ⟨?_, h.sorted⟩, List.forall_mem_cons.mpr ⟨hservice.lt, h.lt⟩⟩
    · rw [asked_update, Function.update_apply, Function.update_apply, Function.update_of_ne (by omega)]
    · have hshift : decide (k ≠ n) = decide (k + 8 ≠ n + 8) := by simp
      rw [Function.update_of_ne (show k + 8 ≠ 2 by omega), ← asked_update, hshift]
    · rw [← Bool.decide_or, decide_eq_decide, List.mem_cons, or_comm, Nat.add_right_cancel_iff]
    · intro m hm
      obtain ⟨other, hother, rfl⟩ := List.mem_map.mp hm
      exact hservice.first other hother

/-! ## Runs -/

/-- The interrupt manager over the two chips, and the interrupts whose handlers have not ended, the last one first. -/
structure PicSystem (H : Type) where
  manager : InterruptManager H Pics
  underWay : List ℕ

inductive PicEvent (H : Type)
  | registerIrq (irq : Irq) (handler : Option H) (result : OsReturnE)
  | removeIrq (irq : Irq) (result : OsReturnE)
  | setIrqMask (irq : Irq) (enabled : BitVec 32)
  | disable
  | request (master slave : BitVec 8)
  | interrupt (outcome : Outcome H)
  | finish (irq : ℕ)

/-- The CPU acknowledges an interrupt, and the kernel handles the vector it gets. -/
def PicSystem.interrupt (panicHandler : H) (s : PicSystem H) : Option (Outcome H × InterruptManager H Pics) :=
  kernelInterruptHandler picDriver panicHandler true (s.manager.devices.acknowledge.1.setWidth 32)
    { s.manager with devices := s.manager.devices.acknowledge.2 }

/-- The interrupts that are being served once another one was taken. -/
def PicSystem.serving (s : PicSystem H) : Outcome H → List ℕ
  | .handled _ => (s.manager.devices.acknowledge.1.setWidth 32 - intPicIrqOffset).toNat :: s.underWay
  | _ => s.underWay

/-- The kernel and its devices. The lines of the chips may be raised and dropped at any time; the end of an interrupt is
told to the driver by its handler; line 7 is not interrupted. -/
inductive PicStep (panicHandler : H) : PicSystem H → PicEvent H → PicSystem H → Prop
  | registerIrq {s : PicSystem H} (irq : Irq) (handler : Option H) :
      PicStep panicHandler s
        (.registerIrq irq handler (kernelInterruptRegisterIrqHandler picDriver irq handler s.manager.handlers).1)
        { s with manager.handlers := (kernelInterruptRegisterIrqHandler picDriver irq handler s.manager.handlers).2 }
  | removeIrq {s : PicSystem H} (irq : Irq) :
      PicStep panicHandler s (.removeIrq irq (kernelInterruptRemoveIrqHandler picDriver irq s.manager.handlers).1)
        { s with manager.handlers := (kernelInterruptRemoveIrqHandler picDriver irq s.manager.handlers).2 }
  | setIrqMask {s : PicSystem H} {irq : Irq} {enabled : BitVec 32} {m : InterruptManager H Pics}
      (h : kernelInterruptSetIrqMask picDriver irq enabled s.manager = some m) :
      PicStep panicHandler s (.setIrqMask irq enabled) { s with manager := m }
  | disable {s : PicSystem H} :
      PicStep panicHandler s .disable { s with manager.devices := picDisable s.manager.devices }
  | request {s : PicSystem H} (master slave : BitVec 8) :
      PicStep panicHandler s (.request master slave)
        { s with
          manager.devices.master.irr := master
          manager.devices.slave.irr := slave }
  | interrupt {s : PicSystem H} {outcome : Outcome H} {m : InterruptManager H Pics} (hseven : 7 ∉ s.underWay)
      (h : s.interrupt panicHandler = some (outcome, m)) :
      PicStep panicHandler s (.interrupt outcome) ⟨m, s.serving outcome⟩
  | finish {s : PicSystem H} {irq : ℕ} {underWay : List ℕ} {m : InterruptManager H Pics}
      (hunderWay : s.underWay = irq :: underWay)
      (h : kernelInterruptSetIrqEoi picDriver (BitVec.ofNat 32 irq) s.manager = some m) :
      PicStep panicHandler s (.finish irq) ⟨m, underWay⟩

/-- The sixteen lines: their handlers, which are let through, which are asked for, and which are being served. -/
structure PicLines (H : Type) where
  handlers : Handlers H
  lets : ℕ → Bool
  asked : ℕ → Bool
  underWay : List ℕ

inductive PicLineStep (panicHandler : H) : PicLines H → PicEvent H → PicLines H → Prop
  | registerIrq {l : PicLines H} (irq : Irq) (handler : Option H) :
      PicLineStep panicHandler l
        (.registerIrq irq handler (kernelInterruptRegisterIrqHandler picDriver irq handler l.handlers).1)
        { l with handlers := (kernelInterruptRegisterIrqHandler picDriver irq handler l.handlers).2 }
  | removeIrq {l : PicLines H} (irq : Irq) :
      PicLineStep panicHandler l (.removeIrq irq (kernelInterruptRemoveIrqHandler picDriver irq l.handlers).1)
        { l with handlers := (kernelInterruptRemoveIrqHandler picDriver irq l.handlers).2 }
  | setIrqMask {l : PicLines H} {irq : Irq} {enabled : BitVec 32} (h : irq.toNat < 16) :
      PicLineStep panicHandler l (.setIrqMask irq enabled)
        { l with lets := maskLine l.lets irq.toNat (decide (enabled ≠ 0)) }
  | disable {l : PicLines H} : PicLineStep panicHandler l .disable { l with lets := fun _ => false }
  | request {l : PicLines H} (master slave : BitVec 8) :
      PicLineStep panicHandler l (.request master slave)
        { l with asked := askedBy master slave }
  | spurious {l : PicLines H} (h : ∀ irq, ¬Serviceable l.lets l.asked l.underWay irq) :
      PicLineStep panicHandler l (.interrupt .spurious) l
  | dropped {l : PicLines H} (hasked : l.asked 2 = true) (hlets : l.lets 2 = true)
      (h : ∀ irq, Serviceable l.lets l.asked l.underWay irq → 2 < priority irq) :
      PicLineStep panicHandler l (.interrupt .spurious) { l with asked := Function.update l.asked 2 false }
  | served {l : PicLines H} {irq : ℕ} (h : Serviceable l.lets l.asked l.underWay irq)
      (hfirst : Foremost l.lets l.asked l.underWay irq) :
      PicLineStep panicHandler l
        (.interrupt (.handled ((l.handlers (BitVec.ofNat 32 irq + intPicIrqOffset)).getD panicHandler)))
        { l with asked := taken l.asked irq, underWay := irq :: l.underWay }
  | finish {l : PicLines H} {irq : ℕ} {underWay : List ℕ} (h : l.underWay = irq :: underWay) :
      PicLineStep panicHandler l (.finish irq) { l with underWay := underWay }

/-- The chips show the lines as they are. -/
structure Keeps (s : PicSystem H) (l : PicLines H) : Prop where
  handlers : l.handlers = s.manager.handlers
  underWay : l.underWay = s.underWay
  shows : s.manager.devices.Shows l.lets l.asked l.underWay

variable {panicHandler : H} {m : InterruptManager H Pics} {s : PicSystem H} {l : PicLines H} {q : Pics}

/-- The lines of the PIC lie where the manager treats all of them alike. -/
theorem kernelInterruptHandler_pic (hirq : irq < 16) {type : InterruptTypeE}
    (h : picHandleSpuriousIrq (BitVec.ofNat 32 irq + intPicIrqOffset) m.devices = some (type, q)) :
    kernelInterruptHandler picDriver panicHandler true (BitVec.ofNat 32 irq + intPicIrqOffset) m =
      some (match type with
        | .spurious => (.spurious, { m with devices := q, spuriousInterrupt := m.spuriousInterrupt + 1 })
        | .regular => (.handled ((m.handlers (BitVec.ofNat 32 irq + intPicIrqOffset)).getD panicHandler),
            { m with devices := q })) := by
  have hline : BitVec.ofNat 32 irq + intPicIrqOffset < intEntryCount ∧
      BitVec.ofNat 32 irq + intPicIrqOffset ≠ panicIntLine := by
    interval_cases irq <;> decide
  simp only [kernelInterruptHandler, picDriver, h, if_neg hline.2, if_pos hline.1, Bool.not_true, Bool.false_and,
    Bool.false_eq_true, if_false, Option.map_some]
  cases type <;> rfl

variable (panicHandler) in
/-- An interrupt that is taken goes to the handler of its line. -/
theorem PicSystem.interrupt_served {vector : BitVec 8 × Pics} (hvector : s.manager.devices.acknowledge = vector)
    (hline : vector.1.setWidth 32 = BitVec.ofNat 32 irq + intPicIrqOffset)
    (h : vector.2.Shows lets asked (irq :: underWay)) :
    ∃ q : Pics, q.Shows lets asked (irq :: underWay) ∧ s.interrupt panicHandler =
      some (.handled ((s.manager.handlers (BitVec.ofNat 32 irq + intPicIrqOffset)).getD panicHandler),
        { s.manager with devices := q }) := by
  have hirq : irq < 16 := h.lt irq List.mem_cons_self
  obtain ⟨q, hq, hshows⟩ := picHandleSpuriousIrq_served h
  refine ⟨q, hshows, ?_⟩
  rw [PicSystem.interrupt, hvector, hline]
  exact kernelInterruptHandler_pic (m := { s.manager with devices := vector.2 }) hirq hq

/-- A spurious one goes to none. -/
theorem PicSystem.interrupt_spurious (hirq : irq < 16)
    (hline : s.manager.devices.acknowledge.1.setWidth 32 = BitVec.ofNat 32 irq + intPicIrqOffset)
    (h : picHandleSpuriousIrq (s.manager.devices.acknowledge.1.setWidth 32) s.manager.devices.acknowledge.2 =
      some (.spurious, q)) : s.interrupt panicHandler =
      some (.spurious, { s.manager with devices := q, spuriousInterrupt := s.manager.spuriousInterrupt + 1 }) := by
  rw [hline] at h
  rw [PicSystem.interrupt, hline]
  exact kernelInterruptHandler_pic (m := { s.manager with devices := s.manager.devices.acknowledge.2 }) hirq h

theorem serving_handled {handler : H} (hirq : irq < 16)
    (hline : s.manager.devices.acknowledge.1.setWidth 32 = BitVec.ofNat 32 irq + intPicIrqOffset) :
    s.serving (.handled handler) = irq :: s.underWay := by
  have hsub : (BitVec.ofNat 32 irq + intPicIrqOffset - intPicIrqOffset).toNat = irq := by
    interval_cases irq <;> rfl
  rw [PicSystem.serving, hline, hsub]

/-- Each interrupt is that of the first line which could be served, and a spurious one disturbs none. -/
theorem Keeps.interrupt {outcome : Outcome H} (h : Keeps s l) (hseven : 7 ∉ s.underWay)
    (hstep : s.interrupt panicHandler = some (outcome, m)) :
    ∃ l', PicLineStep panicHandler l (.interrupt outcome) l' ∧ Keeps ⟨m, s.serving outcome⟩ l' := by
  obtain ⟨hhandlers, hunderWay, hshows⟩ := h
  rw [← hunderWay] at hseven
  have hserved : ∀ irq, Serviceable l.lets l.asked l.underWay irq → Foremost l.lets l.asked l.underWay irq →
      s.manager.devices.acknowledge.1.setWidth 32 = BitVec.ofNat 32 irq + intPicIrqOffset →
      s.manager.devices.acknowledge.2.Shows l.lets (taken l.asked irq) (irq :: l.underWay) →
      ∃ l', PicLineStep panicHandler l (.interrupt outcome) l' ∧ Keeps ⟨m, s.serving outcome⟩ l' := by
    intro irq hirq hfirst hline hq
    obtain ⟨q, hq', htaken⟩ := PicSystem.interrupt_served panicHandler rfl hline hq
    rw [hstep] at htaken
    cases htaken
    rw [← hhandlers, serving_handled hirq.lt hline]
    exact ⟨_, .served hirq hfirst, hhandlers, congrArg (irq :: ·) hunderWay, hq'⟩
  cases hmaster : s.manager.devices.master.request with
  | none =>
    obtain ⟨hnone, hline, q, hq, hq'⟩ := hshows.acknowledge_none hseven hmaster
    rw [PicSystem.interrupt_spurious (by decide) hline hq] at hstep
    cases hstep
    exact ⟨l, .spurious hnone, hhandlers, hunderWay, hq'⟩
  | some n =>
    by_cases hne : n = 2
    · subst hne
      cases hslave : s.manager.devices.slave.request with
      | none =>
        obtain ⟨hasked, hlets, hlate, hline, q, hq, hq'⟩ := hshows.acknowledge_phantom hmaster hslave
        rw [PicSystem.interrupt_spurious (by decide) hline hq] at hstep
        cases hstep
        exact ⟨_, .dropped hasked hlets hlate, hhandlers, hunderWay, hq'⟩
      | some k =>
        obtain ⟨hservice, hfirst, hline, hq⟩ := hshows.acknowledge_slave hmaster hslave
        exact hserved (k + 8) hservice hfirst hline hq
    · obtain ⟨hservice, hfirst, hline, hq⟩ := hshows.acknowledge_master hmaster hne
      exact hserved n hservice hfirst hline hq

/-- What the kernel does with the chips is what the lines do. -/
theorem picLine_simulates : Simulates (PicStep panicHandler) (PicLineStep panicHandler) Keeps := by
  intro s l e s' h hstep
  cases hstep with
  | registerIrq irq handler =>
    rw [← h.handlers]
    exact ⟨_, .registerIrq irq handler, rfl, h.underWay, h.shows⟩
  | removeIrq irq =>
    rw [← h.handlers]
    exact ⟨_, .removeIrq irq, rfl, h.underWay, h.shows⟩
  | setIrqMask hmask =>
    obtain ⟨d, hd, rfl⟩ := Option.map_eq_some_iff.mp hmask
    obtain ⟨hlt, hshows⟩ := h.shows.setIrqMask hd
    exact ⟨_, .setIrqMask hlt, h.handlers, h.underWay, hshows⟩
  | disable => exact ⟨_, .disable, h.handlers, h.underWay, h.shows.disable⟩
  | request master slave =>
    refine ⟨_, .request master slave, h.handlers, h.underWay, ?_, ?_, h.shows.sorted, h.shows.lt⟩
    · obtain ⟨hicw2, hicw3, hicw4, hawaited, himr, -, hisr⟩ := h.shows.master
      exact ⟨hicw2, hicw3, hicw4, hawaited, himr, fun n hn => (askedBy_of_lt hn).symm, hisr⟩
    · obtain ⟨hicw2, hicw3, hicw4, hawaited, himr, -, hisr⟩ := h.shows.slave
      exact ⟨hicw2, hicw3, hicw4, hawaited, himr, fun n _ => (askedBy_add master slave n).symm, hisr⟩
  | interrupt hseven hint => exact h.interrupt hseven hint
  | @finish irq underWay m hunderWay heoi =>
    obtain ⟨d, hd, rfl⟩ := Option.map_eq_some_iff.mp heoi
    have hsame := h.underWay.trans hunderWay
    refine ⟨_, .finish hsame, h.handlers, rfl, Pics.Shows.setIrqEoi ?_ hd⟩
    rw [← hsame]
    exact h.shows

theorem Chip.init_shows {c : Chip} {base cascade : BitVec 8} (h : c.isr = 0) :
    (((c.init base cascade).outComm picEoi).outData 0xFF).Shows base cascade (fun _ => false) c.irr.getLsbD
      fun _ => false := by
  have hinit : c.init base cascade = ⟨base, cascade, picIcw4Mode8086, 0, 0, c.irr, c.isr, false⟩ := rfl
  have heoi : (c.init base cascade).outComm picEoi = (c.init base cascade) := by
    have hnone : firstBit (c.init base cascade).isr = none := by
      rw [hinit, h]
      rfl
    have hcommand : (c.init base cascade).outComm picEoi = (c.init base cascade).endOfInterrupt := rfl
    rw [hcommand, Chip.endOfInterrupt, hnone]
  rw [heoi, hinit]
  refine ⟨rfl, rfl, rfl, rfl, newMask_eq_allOnes_iff.mp rfl, fun _ _ => rfl, fun n hn => ?_⟩
  change c.isr.getLsbD n = false
  rw [h]
  exact BitVec.getLsbD_zero

/-- Before `pic_init` no interrupt is in service. -/
structure PicPowerOn (s : PicSystem H) : Prop where
  master : s.manager.devices.master.isr = 0
  slave : s.manager.devices.slave.isr = 0
  underWay : s.underWay = []

def PicSystem.init (s : PicSystem H) : PicSystem H := { s with manager.devices := picInit s.manager.devices }

/-- After it all lines are masked. -/
def PicSystem.initLines (s : PicSystem H) : PicLines H where
  handlers := s.manager.handlers
  lets := fun _ => false
  asked := askedBy s.manager.devices.master.irr s.manager.devices.slave.irr
  underWay := []

theorem PicPowerOn.keeps (h : PicPowerOn s) : Keeps s.init s.initLines where
  handlers := rfl
  underWay := h.underWay.symm
  shows :=
    { master := (Chip.init_shows h.master).congr (fun _ _ => rfl) (fun _ hn => (askedBy_of_lt hn).symm) fun _ _ => rfl
      slave := (Chip.init_shows h.slave).congr (fun _ _ => rfl)
        (fun n _ => (askedBy_add s.manager.devices.master.irr _ n).symm) fun _ _ => rfl
      sorted := .nil
      lt := fun _ h => absurd h List.not_mem_nil }

def pcPics : PicSystem Bool where
  manager := ⟨kernelInterruptInit false, ⟨⟨0, 0, 0, 0, 0, 0, 0, false⟩, ⟨0, 0, 0, 0, 0, 0, 0, false⟩⟩, 0⟩
  underWay := []

end UtkKernel.Interrupts
