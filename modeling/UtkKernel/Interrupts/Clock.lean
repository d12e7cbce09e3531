import Mathlib.Data.BitVec
import Mathlib.Tactic.IntervalCases

/-! # The clock

`rtc_update_time` of `arch/board/x86/src/rtc.c`. The clock keeps its time as binary numbers or in BCD, and counts hours to
12 or to 24, by its register B. Its registers are read one by one while it goes on. -/

namespace UtkKernel.Interrupts
set_option autoImplicit false

def cmosSecondsRegister : BitVec 8 := 0x00
def cmosMinutesRegister : BitVec 8 := 0x02
def cmosHoursRegister : BitVec 8 := 0x04
def cmosDayRegister : BitVec 8 := 0x07
def cmosMonthRegister : BitVec 8 := 0x08
def cmosYearRegister : BitVec 8 := 0x09
def cmosRegB : BitVec 8 := 0x0B

/-- `date_t` -/
structure Date where
  weekday : BitVec 16
  day : BitVec 16
  month : BitVec 16
  year : BitVec 16
  deriving DecidableEq

def fromBcd {w : ℕ} (v : BitVec w) : BitVec w := (v &&& 0x0F) + v / 16 * 10

/-- The hours of the day, out of their register. -/
def hoursOf (regB v : BitVec 8) : BitVec 32 :=
  let hours := v.setWidth 32
  let hours := if regB &&& 0x04 = 0 then (hours &&& 0x0F) + (hours &&& 0x70) / 16 * 10 ||| hours &&& 0x80 else hours
  if regB &&& 0x02 = 0 ∧ 1 ≤ hours &&& 0x80 then ((hours &&& 0x7F) + 12) % 24 else hours

/-- `day_time` and `date`. Each read sees the registers of its time; `CMOS_CENTURY_REGISTER` is 0, and no century is
read. -/
def rtcUpdateTime (cmos : ℕ → BitVec 8 → BitVec 8) : BitVec 32 × Date :=
  let seconds := cmos 0 cmosSecondsRegister
  let minutes := cmos 1 cmosMinutesRegister
  let hours := cmos 2 cmosHoursRegister
  let day := (cmos 3 cmosDayRegister).setWidth 16
  let month := (cmos 4 cmosMonthRegister).setWidth 16
  let year := (cmos 5 cmosYearRegister).setWidth 16
  let regB := cmos 6 cmosRegB
  let seconds := if regB &&& 0x04 = 0 then fromBcd seconds else seconds
  let minutes := if regB &&& 0x04 = 0 then fromBcd minutes else minutes
  let hours := hoursOf regB hours
  let day := if regB &&& 0x04 = 0 then fromBcd day else day
  let month := if regB &&& 0x04 = 0 then fromBcd month else month
  let year := if regB &&& 0x04 = 0 then fromBcd year else year
  let year := year + 2000
  (seconds.setWidth 32 + 60 * minutes.setWidth 32 + 3600 * hours,
    { weekday := (day + month + year + year / 4 + 1) % 7 + 1, day, month, year })

/-! ## What the registers show -/

structure Moment where
  second : ℕ
  minute : ℕ
  hour : ℕ
  day : ℕ
  month : ℕ
  year : ℕ
  second_lt : second < 60
  minute_lt : minute < 60
  hour_lt : hour < 24
  day_le : day ≤ 31
  month_le : month ≤ 12
  century : year / 100 = 20

def Moment.daytime (t : Moment) : ℕ := t.second + 60 * t.minute + 3600 * t.hour

def cmosField (binary : Bool) (n : ℕ) : BitVec 8 := BitVec.ofNat 8 (if binary then n else n / 10 * 16 + n % 10)

/-- Up to 12 there is no hour 0, and the highest bit stands for the afternoon. -/
def cmosHour (binary h24 : Bool) (hour : ℕ) : BitVec 8 :=
  if h24 then cmosField binary hour
  else cmosField binary (if hour % 12 = 0 then 12 else hour % 12) ||| if 12 ≤ hour then 0x80 else 0

/-- The registers at a time. -/
structure Moment.ShownBy (t : Moment) (regB : BitVec 8) (cmos : BitVec 8 → BitVec 8) : Prop where
  second : cmos cmosSecondsRegister = cmosField (regB.getLsbD 2) t.second
  minute : cmos cmosMinutesRegister = cmosField (regB.getLsbD 2) t.minute
  hour : cmos cmosHoursRegister = cmosHour (regB.getLsbD 2) (regB.getLsbD 1) t.hour
  day : cmos cmosDayRegister = cmosField (regB.getLsbD 2) t.day
  month : cmos cmosMonthRegister = cmosField (regB.getLsbD 2) t.month
  year : cmos cmosYearRegister = cmosField (regB.getLsbD 2) (t.year % 100)
  regB : cmos cmosRegB = regB

def Moment.registers (t : Moment) (regB r : BitVec 8) : BitVec 8 :=
  if r = cmosSecondsRegister then cmosField (regB.getLsbD 2) t.second
  else if r = cmosMinutesRegister then cmosField (regB.getLsbD 2) t.minute
  else if r = cmosHoursRegister then cmosHour (regB.getLsbD 2) (regB.getLsbD 1) t.hour
  else if r = cmosDayRegister then cmosField (regB.getLsbD 2) t.day
  else if r = cmosMonthRegister then cmosField (regB.getLsbD 2) t.month
  else if r = cmosYearRegister then cmosField (regB.getLsbD 2) (t.year % 100)
  else if r = cmosRegB then regB
  else 0

theorem Moment.registers_shownBy (t : Moment) (regB : BitVec 8) : t.ShownBy regB (t.registers regB) :=
  ⟨rfl, rfl, rfl, rfl, rfl, rfl, rfl⟩

/-- The hour that is made of it: in the count to 12, noon and midnight change places. -/
def shownHour (h24 : Bool) (hour : ℕ) : ℕ := if h24 = true ∨ hour % 12 ≠ 0 then hour else (hour + 12) % 24

variable {regB : BitVec 8} {n k : ℕ}

theorem regB_binary : regB &&& 0x04 = 0 ↔ regB.getLsbD 2 = false := by
  have hbit : (0x04 : BitVec 8) = BitVec.twoPow 8 2 := rfl
  rw [hbit, BitVec.and_twoPow]
  cases regB.getLsbD 2 <;> decide

theorem regB_h24 : regB &&& 0x02 = 0 ↔ regB.getLsbD 1 = false := by
  have hbit : (0x02 : BitVec 8) = BitVec.twoPow 8 1 := rfl
  rw [hbit, BitVec.and_twoPow]
  cases regB.getLsbD 1 <;> decide

theorem fromBcd_eight : ∀ n < 100, fromBcd (cmosField false n) = BitVec.ofNat 8 n := by decide

theorem fromBcd_sixteen : ∀ n < 100, fromBcd ((cmosField false n).setWidth 16) = BitVec.ofNat 16 n := by decide

/-- Either way the seconds and the minutes are read as they are. -/
theorem decode_eight (h : n < 100) :
    (if regB &&& 0x04 = 0 then fromBcd (cmosField (regB.getLsbD 2) n) else cmosField (regB.getLsbD 2) n) =
      BitVec.ofNat 8 n := by
  by_cases hbinary : regB &&& 0x04 = 0
  · rw [if_pos hbinary, regB_binary.mp hbinary]
    exact fromBcd_eight n h
  · rw [if_neg hbinary, Bool.eq_true_of_not_eq_false (mt regB_binary.mpr hbinary)]
    rfl

theorem setWidth_field : ∀ n < 100, (cmosField true n).setWidth 16 = BitVec.ofNat 16 n := by decide

theorem decode_sixteen (h : n < 100) :
    (if regB &&& 0x04 = 0 then fromBcd ((cmosField (regB.getLsbD 2) n).setWidth 16)
      else (cmosField (regB.getLsbD 2) n).setWidth 16) = BitVec.ofNat 16 n := by
  by_cases hbinary : regB &&& 0x04 = 0
  · rw [if_pos hbinary, regB_binary.mp hbinary]
    exact fromBcd_sixteen n h
  · rw [if_neg hbinary, Bool.eq_true_of_not_eq_false (mt regB_binary.mpr hbinary)]
    exact setWidth_field n h

theorem hoursOf_cmosHour (h : n < 24) : hoursOf regB (cmosHour (regB.getLsbD 2) (regB.getLsbD 1) n) =
    BitVec.ofNat 32 (shownHour (regB.getLsbD 1) n) := by
  simp only [hoursOf, regB_binary, regB_h24]
  generalize regB.getLsbD 2 = binary
  generalize regB.getLsbD 1 = h24
  cases binary <;> cases h24 <;> interval_cases n <;> rfl

theorem shownHour_lt {h24 : Bool} (h : n < 24) : shownHour h24 n < 24 := by
  unfold shownHour
  split
  · exact h
  · exact Nat.mod_lt _ (by decide)

variable {cmos : ℕ → BitVec 8 → BitVec 8} {t : ℕ → Moment}

/-- Every field is the one of the time at which it was read, but for noon and midnight in the count to 12. -/
theorem rtcUpdateTime_eq (h : ∀ i, (t i).ShownBy regB (cmos i)) :
    (rtcUpdateTime cmos).1.toNat = (t 0).second + 60 * (t 1).minute + 3600 * shownHour (regB.getLsbD 1) (t 2).hour ∧
      (rtcUpdateTime cmos).2.day.toNat = (t 3).day ∧ (rtcUpdateTime cmos).2.month.toNat = (t 4).month ∧
      (rtcUpdateTime cmos).2.year.toNat = (t 5).year := by
  have hsecond := (t 0).second_lt
  have hminute := (t 1).minute_lt
  have hhour : shownHour (regB.getLsbD 1) (t 2).hour < 24 := shownHour_lt (t 2).hour_lt
  have hday := (t 3).day_le
  have hmonth := (t 4).month_le
  have hcentury := (t 5).century
  simp only [rtcUpdateTime, (h 0).second, (h 1).minute, (h 2).hour, (h 3).day, (h 4).month, (h 5).year, (h 6).regB,
    hoursOf_cmosHour (t 2).hour_lt]
  rw [decode_eight (by omega), decode_eight (by omega), decode_sixteen (by omega), decode_sixteen (by omega),
    decode_sixteen (by omega)]
  refine ⟨?_, ?_, ?_, ?_⟩
  · simp (disch := omega) only [BitVec.toNat_add, BitVec.toNat_mul, BitVec.toNat_setWidth, BitVec.ofNat_eq_ofNat,
      BitVec.toNat_ofNat, Nat.mod_eq_of_lt]
  all_goals
    simp only [BitVec.toNat_add, BitVec.ofNat_eq_ofNat, BitVec.toNat_ofNat]
    omega

/-- The clock goes on while it is read, from `now` to `next`, after the first `k` of the registers. The time is one of the
two unless a minute ends between the reads of the seconds and the minutes, or an hour before that of the hours. -/
theorem rtcUpdateTime_ticking {now next : Moment} (hnext : next.daytime = (now.daytime + 1) % 86400)
    (h : ∀ i, (if i < k then now else next).ShownBy regB (cmos i)) :
    ((rtcUpdateTime cmos).1.toNat = now.daytime ∨ (rtcUpdateTime cmos).1.toNat = next.daytime ↔
      (k = 0 ∨ 3 ≤ k ∨ now.second ≠ 59 ∨ k = 2 ∧ now.minute ≠ 59) ∧
        (regB.getLsbD 1 = true ∨ (if 2 < k then now else next).hour % 12 ≠ 0)) ∧
    (rtcUpdateTime cmos).2.day.toNat = (if 3 < k then now else next).day ∧
    (rtcUpdateTime cmos).2.month.toNat = (if 4 < k then now else next).month ∧
    (rtcUpdateTime cmos).2.year.toNat = (if 5 < k then now else next).year := by
  refine ⟨?_, (rtcUpdateTime_eq h).2⟩
  have hshown : ∀ hour < 24, shownHour (regB.getLsbD 1) hour = hour ∧ (regB.getLsbD 1 = true ∨ hour % 12 ≠ 0) ∨
      (shownHour (regB.getLsbD 1) hour = hour + 12 ∨ shownHour (regB.getLsbD 1) hour + 12 = hour) ∧
        ¬(regB.getLsbD 1 = true ∨ hour % 12 ≠ 0) := by
    intro hour hhour
    unfold shownHour
    split
    · next hplain => exact Or.inl ⟨rfl, hplain⟩
    · next hplain => exact Or.inr ⟨by omega, hplain⟩
  rw [(rtcUpdateTime_eq h).1]
  unfold Moment.daytime at hnext ⊢
  have hnow : now.second < 60 ∧ now.minute < 60 ∧ now.hour < 24 := ⟨now.second_lt, now.minute_lt, now.hour_lt⟩
  have hlater : next.second < 60 ∧ next.minute < 60 ∧ next.hour < 24 := ⟨next.second_lt, next.minute_lt, next.hour_lt⟩
  obtain rfl | rfl | rfl | hk : k = 0 ∨ k = 1 ∨ k = 2 ∨ 3 ≤ k := by omega
  · rw [if_neg (Nat.not_lt_zero 0), if_neg (Nat.not_lt_zero 1), if_neg (Nat.not_lt_zero 2)]
    obtain ⟨hhour, hplain⟩ | ⟨hhour, hplain⟩ := hshown next.hour next.hour_lt
    · rw [and_iff_left hplain]
      omega
    · refine iff_of_false ?_ fun h => hplain h.2
      omega
  · rw [if_pos (show 0 < 1 by decide), if_neg (show ¬1 < 1 by decide), if_neg (show ¬2 < 1 by decide)]
    obtain ⟨hhour, hplain⟩ | ⟨hhour, hplain⟩ := hshown next.hour next.hour_lt
    · rw [and_iff_left hplain]
      omega
    · refine iff_of_false ?_ fun h => hplain h.2
      omega
  · rw [if_pos (show 0 < 2 by decide), if_pos (show 1 < 2 by decide), if_neg (show ¬2 < 2 by decide)]
    obtain ⟨hhour, hplain⟩ | ⟨hhour, hplain⟩ := hshown next.hour next.hour_lt
    · rw [and_iff_left hplain]
      omega
    · refine iff_of_false ?_ fun h => hplain h.2
      omega
  · rw [if_pos (show 0 < k by omega), if_pos (show 1 < k by omega), if_pos (show 2 < k by omega)]
    obtain ⟨hhour, hplain⟩ | ⟨hhour, hplain⟩ := hshown now.hour now.hour_lt
    · rw [and_iff_left hplain]
      omega
    · refine iff_of_false ?_ fun h => hplain h.2
      omega

def newYearsEve : Moment := ⟨58, 59, 23, 31, 12, 2022, by decide, by decide, by decide, by decide, by decide, by decide⟩

def newYearsEve' : Moment := { newYearsEve with second := 59, second_lt := by decide }

/-- The clock of a PC, in BCD and with 24 hours, goes on once its seconds have been read. -/
theorem rtcUpdateTime_ticking_newYearsEve :
    let r := rtcUpdateTime fun i => (if i < 1 then newYearsEve else newYearsEve').registers 0x02
    (r.1.toNat = newYearsEve.daytime ∨ r.1.toNat = newYearsEve'.daytime ↔
      (1 = 0 ∨ 3 ≤ 1 ∨ newYearsEve.second ≠ 59 ∨ 1 = 2 ∧ newYearsEve.minute ≠ 59) ∧
        ((0x02 : BitVec 8).getLsbD 1 = true ∨ (if 2 < 1 then newYearsEve else newYearsEve').hour % 12 ≠ 0)) ∧
    r.2.day.toNat = (if 3 < 1 then newYearsEve else newYearsEve').day ∧
    r.2.month.toNat = (if 4 < 1 then newYearsEve else newYearsEve').month ∧
    r.2.year.toNat = (if 5 < 1 then newYearsEve else newYearsEve').year :=
  rtcUpdateTime_ticking (by decide) fun i => (if i < 1 then newYearsEve else newYearsEve').registers_shownBy 0x02

end UtkKernel.Interrupts
