import UtkKernel.Scheduler.QueueSafety

/-! # What joining sees of a thread

Join and exit read of a thread whether it joins another one, whether it has ended, and which thread joins
it. Most of the scheduler moves threads between the other states only, so what joining sees stays. -/

namespace UtkKernel.Scheduler
open Structures Sync Foundations
set_option autoImplicit false

/-- A thread joins another one, has ended, or neither; the state of a copy in the making is never set. -/
inductive Phase
  | live
  | joining
  | gone
  | copying
  deriving DecidableEq, Repr

def ThreadState.phase : ThreadState → Phase
  | .running | .ready | .sleeping | .waiting => .live
  | .joining => .joining
  | .zombie => .gone
  | .copying => .copying

theorem ThreadState.phase_of_electable (x : ThreadState) (h : x.electable = true) : x.phase = .live := by
  cases x <;> first | rfl | cases h

namespace Sched

/-- The phase of a thread and the thread that joins it. -/
def view (s : Sched) (tid : ℕ) : Option (Phase × Option ℕ) :=
  (s.threads tid).map fun t => (t.state.phase, t.joiningThread)

variable {s s' : Sched} {out : Option ℕ} {a tid : ℕ} {t : KernelThread}

theorem view_of_threads (ht : s.threads tid = some t) :
    s.view tid = some (t.state.phase, t.joiningThread) := by
  rw [view, ht]
  rfl

theorem view_update {v : Option KernelThread} (h : s'.threads = Function.update s.threads tid v) :
    s'.view = Function.update s.view tid (v.map fun t => (t.state.phase, t.joiningThread)) := by
  funext u
  unfold view
  rw [h]
  by_cases hu : u = tid
  · rw [hu, Function.update_self, Function.update_self]
  · rw [Function.update_of_ne hu, Function.update_of_ne hu]

/-- A thread is rewritten in the phase it is in. -/
theorem view_eq_self (ht : s.threads tid = some t) {t' : KernelThread}
    (h : s'.threads = Function.update s.threads tid (some t')) (hphase : t'.state.phase = t.state.phase)
    (hjoiner : t'.joiningThread = t.joiningThread) : s'.view = s.view := by
  rw [view_update h, Option.map_some, hphase, hjoiner, ← view_of_threads ht, Function.update_eq_self]

/-! ## Steps that joining does not see -/

/-- Processes keep their main threads, and their threads as long as these are there. -/
def ProcessesKept (s s' : Sched) : Prop :=
  ∀ pid p', s'.processes pid = some p' → ∃ p, s.processes pid = some p ∧
    p'.mainThread = p.mainThread ∧ ∀ u ∈ p.threads, s'.view u ≠ none → u ∈ p'.threads

theorem processesKept_of_eq (h : s'.processes = s.processes) : ProcessesKept s s' :=
  fun pid p hp => ⟨p, by rw [← h]; exact hp, rfl, fun _ hu _ => hu⟩

/-- What the invariant of joining reads, but for the active thread, is the same. -/
structure Unseen (s s' : Sched) : Prop where
  view : s'.view = s.view
  pc : s'.pc = s.pc
  given : s.lastGivenTid ≤ s'.lastGivenTid
  processes : ProcessesKept s s'

theorem unseen_of_eq (hview : s'.view = s.view) (hpc : s'.pc = s.pc)
    (hgiven : s.lastGivenTid ≤ s'.lastGivenTid) (hprocesses : s'.processes = s.processes) :
    Unseen s s' :=
  ⟨hview, hpc, hgiven, processesKept_of_eq hprocesses⟩

theorem Unseen.refl (s : Sched) : Unseen s s := unseen_of_eq rfl rfl le_rfl rfl

theorem Unseen.trans {s1 : Sched} (h : Unseen s s1) (h' : Unseen s1 s') : Unseen s s' := by
  refine ⟨h'.view.trans h.view, h'.pc.trans h.pc, h.given.trans h'.given, fun pid p' hp' => ?_⟩
  obtain ⟨p1, hp1, hmain1, hthreads1⟩ := h'.processes pid p' hp'
  obtain ⟨p, hp, hmain, hthreads⟩ := h.processes pid p1 hp1
  refine ⟨p, hp, hmain1.trans hmain, fun u hu hview => hthreads1 u (hthreads u hu ?_) hview⟩
  rwa [← h'.view]

theorem unseen_setThread (ht : s.threads tid = some t) {t' : KernelThread}
    (hphase : t'.state.phase = t.state.phase) (hjoiner : t'.joiningThread = t.joiningThread) :
    Unseen s (s.setThread tid t') :=
  unseen_of_eq (view_eq_self ht rfl hphase hjoiner) rfl le_rfl rfl

theorem unseen_pushReady (ht : s.threads tid = some t) (hlive : t.state.phase = .live)
    (h : s.pushReady tid t = some s') : Unseen s s' := by
  obtain ⟨-, rfl⟩ := pushReady_eq_some h
  exact unseen_of_eq (view_eq_self ht rfl hlive.symm rfl) rfl le_rfl rfl

/-- An election moves threads between the queues and the processor only. -/
theorem unseen_selectThread {currentTime : ℕ} (h : Inv s)
    (hselect : s.selectThread currentTime = some s') : Unseen s s' := by
  have hoverlooks : Overlooks fun t => (t.state.phase, t.joiningThread) := by
    intro t x ht hx
    rw [Prod.mk.injEq]
    refine ⟨?_, rfl⟩
    show x.phase = t.state.phase
    rw [x.phase_of_electable hx, t.state.phase_of_electable ht]
  obtain ⟨threads, ready, sleeping, active, rfl, hview⟩ := h.reordered_selectThread hoverlooks hselect
  exact unseen_of_eq (funext hview) rfl le_rfl rfl

theorem unseen_schedUnlockThread {blockType : ThreadWaitType}
    (h : s.schedUnlockThread tid blockType = some s') : Unseen s s' := by
  unfold schedUnlockThread at h
  obtain ⟨t, ht, hpush⟩ := Option.bind_eq_some_iff.mp h
  split_ifs at hpush with hcond
  rw [not_or, not_or, not_not] at hcond
  exact unseen_pushReady ht (by rw [hcond.2.1]; rfl) hpush

theorem unseen_futexWakeThreads {addr val : ℕ} {value : BitVec 32}
    (h : s.futexWakeThreads addr value val = some s') :
    Unseen s s' ∧ s'.activeThread = s.activeThread := by
  unfold futexWakeThreads at h
  refine foldlM_invariant (fun s1 => Unseen s s1 ∧ s1.activeThread = s.activeThread)
    (fun s1 u s2 hs1 hstep => ?_) ?_ h
  swap
  · exact ⟨unseen_of_eq rfl rfl le_rfl rfl, rfl⟩
  unfold wakeWaiter at hstep
  obtain ⟨t, ht, hbody⟩ := Option.bind_eq_some_iff.mp hstep
  split_ifs at hbody
  have hset : Unseen s1 (s1.setThread u { t with resources := t.resources.erase addr }) :=
    unseen_setThread ht rfl rfl
  refine ⟨(hs1.1.trans hset).trans (unseen_schedUnlockThread hbody), ?_⟩
  unfold schedUnlockThread at hbody
  obtain ⟨t', -, hpush⟩ := Option.bind_eq_some_iff.mp hbody
  split_ifs at hpush
  obtain ⟨-, rfl⟩ := pushReady_eq_some hpush
  exact hs1.2

end Sched

end UtkKernel.Scheduler
