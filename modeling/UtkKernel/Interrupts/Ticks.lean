import UtkKernel.Structures.KernelError
import Mathlib.Data.BitVec
import Mathlib.Logic.Function.Basic

/-! # Ticks and active waiting

`time/src/time_management.c`: the ticks of the main timer on each CPU, the uptime that is made of them, and the wait of a
CPU that ends by them as long as there is no scheduler. A division by zero and a CPU that has no number are `none`. -/

namespace UtkKernel.Interrupts
set_option autoImplicit false

abbrev CpuId := BitVec 32

structure TimeManager where
  sysTickCount : CpuId → BitVec 64
  activeWait : CpuId → BitVec 64
  /-- `schedule_routine` is not `NULL`. -/
  scheduleRoutine : Bool

/-- The CPU that a number stands for in the handler of the timer; `cpu_get_id` may not know it. -/
def cpuIndex (cpuId : CpuId) : CpuId := if cpuId = -1 then 0 else cpuId

/-- What is left of a wait after a tick. -/
def waitAfter (frequency : BitVec 32) (wait : BitVec 64) : Option (BitVec 64) :=
  if (0 : BitVec 64).slt wait then
    if frequency = 0 then none
    else
      let timeSlice := (1000 / frequency).setWidth 64
      some (if timeSlice.sle wait then wait - timeSlice else 0)
  else some wait

/-- `time_main_timer_handler`; a scheduler, when there is one, is called in place of the wait. -/
def timeMainTimerHandler (frequency : BitVec 32) (cpuId : CpuId) (s : TimeManager) : Option TimeManager :=
  let cpu := cpuIndex cpuId
  let s := { s with sysTickCount := Function.update s.sysTickCount cpu (s.sysTickCount cpu + 1) }
  if s.scheduleRoutine then some s
  else (waitAfter frequency (s.activeWait cpu)).map fun w => { s with activeWait := Function.update s.activeWait cpu w }

/-- `time_wait_no_sched` up to its loop, which ends when `active_wait` is no longer positive. -/
def timeWaitNoSched (ms : BitVec 32) (cpuId : CpuId) (s : TimeManager) : Option TimeManager :=
  if s.scheduleRoutine then some s
  else if cpuId = -1 then none
  else some { s with activeWait := Function.update s.activeWait cpuId (ms.setWidth 64) }

def TimeManager.waits (s : TimeManager) (cpuId : CpuId) : Bool := (0 : BitVec 64).slt (s.activeWait cpuId)

def timeRegisterScheduler (schedulerCall : Bool) (s : TimeManager) : OsReturnE × TimeManager :=
  if schedulerCall then (.osNoErr, { s with scheduleRoutine := true }) else (.osErrNullPointer, s)

def timeGetTickCount (cpuId : CpuId) (s : TimeManager) : BitVec 64 := s.sysTickCount (cpuIndex cpuId)

/-- The main timer has been initialized. -/
def timeGetCurrentUptime (frequency : BitVec 32) (cpuId : CpuId) (s : TimeManager) : BitVec 64 :=
  1000000000 / frequency.setWidth 64 * s.sysTickCount (cpuIndex cpuId)

/-! ## Runs -/

inductive TimeEvent where
  | tick (cpuId : CpuId)
  | wait (cpuId : CpuId) (ms : BitVec 32)
  | registerScheduler (schedulerCall : Bool)

def TimeEvent.run (frequency : BitVec 32) : TimeEvent → TimeManager → Option TimeManager
  | tick cpuId, s => timeMainTimerHandler frequency cpuId s
  | wait cpuId ms, s => timeWaitNoSched ms cpuId s
  | registerScheduler schedulerCall, s => some (timeRegisterScheduler schedulerCall s).2

def TimeEvent.ticks (cpu : CpuId) : TimeEvent → ℕ
  | tick cpuId => if cpuIndex cpuId = cpu then 1 else 0
  | _ => 0

/-- The ticks of a CPU before a scheduler is registered. -/
def freeTicks (cpu : CpuId) : List TimeEvent → ℕ
  | [] => 0
  | .registerScheduler true :: _ => 0
  | e :: events => e.ticks cpu + freeTicks cpu events

variable {frequency ms : BitVec 32} {cpu cpuId : CpuId} {s s' : TimeManager} {events : List TimeEvent} {r : ℕ}

/-- How many milliseconds a tick stands for. -/
def timeSlice (frequency : BitVec 32) : ℕ := 1000 / frequency.toNat

theorem toInt_ofNat (hr : r < 2 ^ 32) : (BitVec.ofNat 64 r).toInt = r := by
  have htoNat : (BitVec.ofNat 64 r).toNat = r := Nat.mod_eq_of_lt (hr.trans (by decide))
  rw [BitVec.toInt_eq_toNat_of_lt (by omega), htoNat]

theorem slt_ofNat (hr : r < 2 ^ 32) : (0 : BitVec 64).slt (BitVec.ofNat 64 r) = true ↔ 0 < r := by
  rw [BitVec.slt_iff_toInt_lt, toInt_ofNat hr]
  exact Int.natCast_pos

/-- A wait is shortened by a slice, down to nothing. -/
theorem waitAfter_ofNat {w : BitVec 64} (hr : r < 2 ^ 32) (h : waitAfter frequency (BitVec.ofNat 64 r) = some w) :
    w = BitVec.ofNat 64 (r - timeSlice frequency) := by
  unfold waitAfter at h
  split at h
  · split at h
    · cases h
    · have hslice : (1000 / frequency).setWidth 64 = BitVec.ofNat 64 (timeSlice frequency) := by
        apply BitVec.eq_of_toNat_eq
        rw [BitVec.toNat_setWidth, BitVec.toNat_udiv]
        rfl
      have hlt : timeSlice frequency < 2 ^ 32 := Nat.lt_of_le_of_lt (Nat.div_le_self 1000 _) (by decide)
      simp only [hslice, BitVec.sle_iff_toInt_le, toInt_ofNat hr, toInt_ofNat hlt, Int.ofNat_le] at h
      cases h
      split
      · next hle => exact (BitVec.ofNat_sub_ofNat_of_le _ _ (hlt.trans (by decide)) hle)
      · next hgt =>
          rw [Nat.sub_eq_zero_of_le (Nat.le_of_not_le hgt)]
          rfl
  · next hzero =>
    have hr0 : r = 0 := Nat.eq_zero_of_not_pos (mt (slt_ofNat hr).mpr hzero)
    cases h
    rw [hr0, Nat.zero_sub]

/-- Once there is a scheduler no wait gets shorter. -/
theorem run_of_registered {e : TimeEvent} (h : s.scheduleRoutine = true) (hrun : e.run frequency s = some s') :
    s'.scheduleRoutine = true ∧ s'.activeWait = s.activeWait := by
  cases e with
  | tick cpuId =>
    rw [TimeEvent.run, timeMainTimerHandler, if_pos h] at hrun
    cases hrun
    exact ⟨h, rfl⟩
  | wait cpuId ms =>
    rw [TimeEvent.run, timeWaitNoSched, if_pos h] at hrun
    cases hrun
    exact ⟨h, rfl⟩
  | registerScheduler schedulerCall =>
    cases hrun
    cases schedulerCall
    · exact ⟨h, rfl⟩
    · exact ⟨rfl, rfl⟩

theorem events_of_registered (h : s.scheduleRoutine = true)
    (hrun : events.foldlM (fun s (e : TimeEvent) => e.run frequency s) s = some s') : s'.activeWait = s.activeWait := by
  induction events generalizing s with
  | nil =>
    cases hrun
    rfl
  | cons e events ih =>
    rw [List.foldlM_cons, Option.bind_eq_bind, Option.bind_eq_some_iff] at hrun
    obtain ⟨next, hnext, hrest⟩ := hrun
    obtain ⟨hregistered, hsame⟩ := run_of_registered h hnext
    rw [ih hregistered hrest, hsame]

/-- Before that, the ticks of the CPU shorten its wait, and nothing else touches it. -/
theorem run_wait {e : TimeEvent} (hr : r < 2 ^ 32) (hwait : s.activeWait cpu = BitVec.ofNat 64 r)
    (hfree : s.scheduleRoutine = false) (hother : ∀ ms, e ≠ .wait cpu ms) (hne : e ≠ .registerScheduler true)
    (hrun : e.run frequency s = some s') :
    s'.scheduleRoutine = false ∧ s'.activeWait cpu = BitVec.ofNat 64 (r - timeSlice frequency * e.ticks cpu) := by
  cases e with
  | tick cpuId =>
    rw [TimeEvent.run, timeMainTimerHandler, if_neg (by simp [hfree])] at hrun
    obtain ⟨w, hw, rfl⟩ := Option.map_eq_some_iff.mp hrun
    dsimp only at hw
    refine ⟨hfree, ?_⟩
    by_cases hcpu : cpuIndex cpuId = cpu
    · rw [hcpu, hwait] at hw
      rw [TimeEvent.ticks, if_pos hcpu, Nat.mul_one, hcpu]
      exact (Function.update_self _ _ _).trans (waitAfter_ofNat hr hw)
    · rw [TimeEvent.ticks, if_neg hcpu]
      exact (Function.update_of_ne (Ne.symm hcpu) _ _).trans hwait
  | wait cpuId ms =>
    rw [TimeEvent.run, timeWaitNoSched, if_neg (by simp [hfree])] at hrun
    split at hrun
    · cases hrun
    · cases hrun
      have hne' : cpu ≠ cpuId := by
        rintro rfl
        exact hother ms rfl
      exact ⟨hfree, (Function.update_of_ne hne' _ _).trans hwait⟩
  | registerScheduler schedulerCall =>
    cases hrun
    cases schedulerCall
    · exact ⟨hfree, hwait⟩
    · exact absurd rfl hne

theorem freeTicks_cons {e : TimeEvent} (hne : e ≠ .registerScheduler true) :
    freeTicks cpu (e :: events) = e.ticks cpu + freeTicks cpu events := by
  cases e with
  | registerScheduler schedulerCall =>
    cases schedulerCall
    · rfl
    · exact absurd rfl hne
  | _ => rfl

/-- What a CPU has left to wait for, `r` milliseconds, as the events go on. -/
theorem events_wait (hr : r < 2 ^ 32) (hwait : s.activeWait cpu = BitVec.ofNat 64 r) (hfree : s.scheduleRoutine = false)
    (hothers : ∀ ms, .wait cpu ms ∉ events)
    (hrun : events.foldlM (fun s (e : TimeEvent) => e.run frequency s) s = some s') :
    s'.activeWait cpu = BitVec.ofNat 64 (r - timeSlice frequency * freeTicks cpu events) := by
  induction events generalizing s r with
  | nil =>
    cases hrun
    exact hwait
  | cons e events ih =>
    rw [List.foldlM_cons, Option.bind_eq_bind, Option.bind_eq_some_iff] at hrun
    obtain ⟨next, hnext, hrest⟩ := hrun
    by_cases hregister : e = .registerScheduler true
    · subst hregister
      cases hnext
      rw [events_of_registered rfl hrest]
      exact hwait
    · have hother : ∀ ms, e ≠ .wait cpu ms := by
        rintro ms rfl
        exact hothers ms List.mem_cons_self
      obtain ⟨hfree', hwait'⟩ := run_wait hr hwait hfree hother hregister hnext
      rw [ih (Nat.lt_of_le_of_lt (Nat.sub_le _ _) hr) hwait' hfree' (fun ms hmem => hothers ms (List.mem_cons_of_mem _ hmem))
        hrest, freeTicks_cons hregister, Nat.mul_add, Nat.sub_sub]

theorem run_sysTickCount {e : TimeEvent} (hrun : e.run frequency s = some s') :
    s'.sysTickCount cpu = s.sysTickCount cpu + BitVec.ofNat 64 (e.ticks cpu) := by
  cases e with
  | tick cpuId =>
    have hcount : s'.sysTickCount = Function.update s.sysTickCount (cpuIndex cpuId) (s.sysTickCount (cpuIndex cpuId) + 1) := by
      rw [TimeEvent.run, timeMainTimerHandler] at hrun
      dsimp only at hrun
      split at hrun
      · cases hrun
        rfl
      · obtain ⟨w, -, rfl⟩ := Option.map_eq_some_iff.mp hrun
        rfl
    rw [hcount, TimeEvent.ticks, Function.update_apply]
    by_cases hcpu : cpuIndex cpuId = cpu
    · rw [if_pos hcpu.symm, if_pos hcpu, hcpu]
      rfl
    · rw [if_neg (Ne.symm hcpu), if_neg hcpu]
      exact (BitVec.add_zero _).symm
  | wait cpuId ms =>
    have hcount : s'.sysTickCount = s.sysTickCount := by
      rw [TimeEvent.run, timeWaitNoSched] at hrun
      split at hrun
      · cases hrun
        rfl
      · split at hrun
        · cases hrun
        · cases hrun
          rfl
    rw [hcount]
    exact (BitVec.add_zero _).symm
  | registerScheduler schedulerCall =>
    cases hrun
    cases schedulerCall <;> exact (BitVec.add_zero _).symm

theorem events_tickCount (hrun : events.foldlM (fun s (e : TimeEvent) => e.run frequency s) s = some s') :
    timeGetTickCount cpuId s' =
      timeGetTickCount cpuId s + BitVec.ofNat 64 (events.map (TimeEvent.ticks (cpuIndex cpuId))).sum := by
  induction events generalizing s with
  | nil =>
    cases hrun
    simp
  | cons e events ih =>
    rw [List.foldlM_cons, Option.bind_eq_bind, Option.bind_eq_some_iff] at hrun
    obtain ⟨next, hnext, hrest⟩ := hrun
    rw [ih hrest, timeGetTickCount, run_sysTickCount hnext, List.map_cons, List.sum_cons, BitVec.ofNat_add,
      timeGetTickCount, BitVec.add_assoc]

/-- The uptime of a CPU grows with its own ticks only. -/
theorem events_uptime (hrun : events.foldlM (fun s (e : TimeEvent) => e.run frequency s) s = some s') :
    timeGetCurrentUptime frequency cpuId s' = timeGetCurrentUptime frequency cpuId s +
      1000000000 / frequency.setWidth 64 * BitVec.ofNat 64 (events.map (TimeEvent.ticks (cpuIndex cpuId))).sum := by
  have hcount : s'.sysTickCount (cpuIndex cpuId) = s.sysTickCount (cpuIndex cpuId) +
      BitVec.ofNat 64 (events.map (TimeEvent.ticks (cpuIndex cpuId))).sum := events_tickCount hrun
  rw [timeGetCurrentUptime, timeGetCurrentUptime, hcount, BitVec.mul_add]

/-- A CPU that waits goes on once its own ticks, up to the time when a scheduler is registered, make up what it waits for;
where they do not, it never goes on. -/
theorem wait_over_iff {started : TimeManager} (hfree : s.scheduleRoutine = false)
    (hstart : timeWaitNoSched ms cpu s = some started) (hothers : ∀ ms, .wait cpu ms ∉ events)
    (hrun : events.foldlM (fun s (e : TimeEvent) => e.run frequency s) started = some s') :
    s'.waits cpu = false ↔ ms.toNat ≤ timeSlice frequency * freeTicks cpu events := by
  have hstarted : started.scheduleRoutine = false ∧ started.activeWait cpu = BitVec.ofNat 64 ms.toNat := by
    rw [timeWaitNoSched, if_neg (by simp [hfree])] at hstart
    split at hstart
    · cases hstart
    · cases hstart
      exact ⟨hfree, (Function.update_self _ _ _).trans (BitVec.ofNat_toNat 64 ms).symm⟩
  have hlt := ms.isLt
  rw [TimeManager.waits, events_wait hlt hstarted.2 hstarted.1 hothers hrun, Bool.eq_false_iff, Ne, slt_ofNat (by omega)]
  omega

def twoWait : List TimeEvent := [.tick 1, .wait 1 20, .tick 0, .tick 1, .tick 0]

/-- Two CPUs wait at 200 Hz. Each of its own ticks brings the first one five milliseconds further. -/
theorem wait_over_iff_two : ∃ s' : TimeManager,
    twoWait.foldlM (fun s (e : TimeEvent) => e.run 200 s) ⟨fun _ => 0, Function.update (fun _ => 0) 0 10, false⟩ = some s' ∧
      (s'.waits 0 = false ↔ (10 : BitVec 32).toNat ≤ timeSlice 200 * freeTicks 0 twoWait) := by
  have hothers : ∀ ms, .wait 0 ms ∉ twoWait := by
    intro ms hmem
    simp [twoWait] at hmem
  have hrun : ∃ s', twoWait.foldlM (fun s (e : TimeEvent) => e.run 200 s)
      ⟨fun _ => 0, Function.update (fun _ => 0) 0 10, false⟩ = some s' := ⟨_, rfl⟩
  obtain ⟨s', hrun⟩ := hrun
  exact ⟨s', hrun, wait_over_iff (s := ⟨fun _ => 0, fun _ => 0, false⟩) rfl rfl hothers hrun⟩

end UtkKernel.Interrupts
