import UtkKernel.Scheduler.Queues

/-! # The queues agree with the states after every election

Every call keeps `InvAt` for the active thread, as long as a thread that leaves its state to block, to
end or to change its priority is in the state the scheduler elected it in. -/

namespace UtkKernel.Scheduler
open Structures Sync Foundations
set_option autoImplicit false

namespace Sched

variable {s s' : Sched} {out : Option ℕ} {a tid : ℕ} {t : KernelThread}

/-! ## Creation -/

theorem InvAt.schedCreateKernelThread {priority : ℕ} (h : InvAt out a s)
    (hcreate : s.schedCreateKernelThread t priority = some s') : InvAt out a s' := by
  unfold Sched.schedCreateKernelThread at hcreate
  split_ifs at hcreate with hp
  · cases hcreate
    exact h
  · obtain ⟨p, -, hpush⟩ := Option.bind_eq_some_iff.mp hcreate
    refine InvAt.pushReady ?_ (not_lt.mp hp) (Nat.lt_succ_self _) hpush
    exact h.congr rfl rfl rfl rfl (Nat.le_succ _)

theorem InvAt.schedForkProcess {fault : Option ForkFault} (h : InvAt out a s)
    (ht : s.threads a = some t) (hfork : s.schedForkProcess t fault = some s') : InvAt out a s' := by
  unfold Sched.schedForkProcess at hfork
  split_ifs at hfork
  · cases hfork
    exact h
  · cases hfork
    exact h.congr rfl rfl rfl rfl (Nat.le_succ _)
  · obtain ⟨p, -, hpush⟩ := Option.bind_eq_some_iff.mp hfork
    refine InvAt.pushReady ?_ ?_ (Nat.lt_succ_self _) hpush
    · exact h.congr rfl rfl rfl rfl (Nat.le_succ _)
    · exact h.priority a t ht

/-! ## Sleep and priority -/

/-- The active thread may be marked as anything but ready while it is out of the queues. -/
theorem InvAt.setActive (h : InvAt (some a) a s) (ht : s.threads a = some t)
    (hrun : t.state = .running) {t' : KernelThread} (hr' : t'.state ≠ .ready)
    (hp : t'.priority ≤ kernelLowestPriority) :
    InvAt (some a) a (s.setThread s.activeThread t') := by
  rw [h.active]
  refine h.setThread ht (fun p => ?_) ?_ hp
  · simp [hrun, hr']
  · simp

theorem InvAt.schedSleep {currTime timeMs : ℕ} (h : InvAt (some a) a s)
    (ht : s.threads a = some t) (hrun : t.state = .running) :
    InvAt (some a) a (s.schedSleep t currTime timeMs) := by
  unfold Sched.schedSleep
  split_ifs
  · exact h
  · refine InvAt.setPc (h.setActive ht hrun ?_ ?_) _
    · simp
    · exact h.priority a t ht

theorem InvAt.schedSetThreadParams {priority : ℕ} (h : InvAt (some a) a s)
    (ht : s.threads a = some t) (hrun : t.state = .running) :
    InvAt (some a) a (s.schedSetThreadParams t priority) := by
  unfold Sched.schedSetThreadParams
  split_ifs with hp
  · exact h.setActive ht hrun (by simp [hrun]) hp
  · exact h

/-! ## Futexes -/

theorem InvAt.schedUnlockThread {blockType : ThreadWaitType} (h : InvAt out a s)
    (hunlock : s.schedUnlockThread tid blockType = some s') : InvAt out a s' := by
  unfold Sched.schedUnlockThread at hunlock
  obtain ⟨t, ht, hpush⟩ := Option.bind_eq_some_iff.mp hunlock
  split_ifs at hpush
  exact h.requeue ht hpush

theorem InvAt.schedLockThread {blockType : ThreadWaitType} (h : InvAt (some a) a s)
    (ht : s.threads a = some t) (hrun : t.state = .running) (resources : List ℕ) :
    InvAt (some a) a (s.schedLockThread { t with resources := resources } blockType) :=
  h.setActive ht hrun (by simp) (h.priority a t ht)

theorem InvAt.futexWaitThread {addr : ℕ} {value val : BitVec 32} {fault : Option FutexFault}
    (h : InvAt (some a) a s) (ht : s.threads a = some t) (hrun : t.state = .running)
    (hwait : s.futexWaitThread t addr value val fault = some s') : InvAt (some a) a s' := by
  unfold Sched.futexWaitThread at hwait
  split at hwait
  · cases hwait
    exact h
  · split_ifs at hwait
    · cases hwait
      exact h
    · cases hwait
      exact h
    · exact (h.schedLockThread ht hrun t.resources).schedUnlockThread hwait
    · cases hwait
      refine InvAt.setPc (InvAt.schedLockThread ?_ ?_ hrun _) _
      · exact h.congr rfl rfl rfl rfl le_rfl
      · exact ht

theorem InvAt.wakeWaiter {addr : ℕ} (h : InvAt out a s)
    (hwake : wakeWaiter addr s tid = some s') : InvAt out a s' := by
  unfold Sched.wakeWaiter at hwake
  obtain ⟨t, ht, hbody⟩ := Option.bind_eq_some_iff.mp hwake
  split_ifs at hbody
  refine InvAt.schedUnlockThread ?_ hbody
  exact h.setData ht rfl rfl

theorem InvAt.futexWakeThreads {addr val : ℕ} {value : BitVec 32} (h : InvAt out a s)
    (hwake : s.futexWakeThreads addr value val = some s') : InvAt out a s' := by
  unfold Sched.futexWakeThreads at hwake
  refine foldlM_invariant (InvAt out a) (fun _ _ _ hs hstep => hs.wakeWaiter hstep) ?_ hwake
  exact h.congr rfl rfl rfl rfl le_rfl

/-! ## Cleaning -/

/-- What the cleanup of resources leaves alone. -/
theorem futexCleanup_frame {addr : ℕ} (h : futexCleanup tid s addr = some s') :
    ∃ table, s' = { s with futexTable := table } := by
  unfold futexCleanup at h
  obtain ⟨queue, -, hbody⟩ := Option.bind_eq_some_iff.mp h
  split_ifs at hbody
  cases hbody
  exact ⟨_, rfl⟩

theorem futexCleanup_foldlM_frame {resources : List ℕ}
    (h : resources.foldlM (futexCleanup tid) s = some s') :
    ∃ table, s' = { s with futexTable := table } := by
  refine foldlM_invariant (fun s1 => ∃ table, s1 = { s with futexTable := table })
    (fun s1 addr s2 hs1 hstep => ?_) ⟨s.futexTable, rfl⟩ h
  obtain ⟨table, rfl⟩ := hs1
  obtain ⟨table', rfl⟩ := futexCleanup_frame hstep
  exact ⟨table', rfl⟩

theorem sleepers_eraseP : (s.sleepingThreadsTable.eraseP fun n => n.data = tid).map KqueueNode.data =
    s.sleepers.erase tid := by
  unfold sleepers
  rw [List.erase_eq_eraseP, List.eraseP_map]
  congr 1
  refine congrArg (fun p => List.eraseP p s.sleepingThreadsTable) (funext fun n => ?_)
  rw [Bool.eq_iff_iff, decide_eq_true_iff, Function.comp_apply, beq_iff_eq, eq_comm]

/-- A thread leaves its queue, for a state of no queue or for good. -/
theorem InvAt.dequeue (h : InvAt out a s) (ht : s.threads tid = some t) {v : Option KernelThread}
    (hv : ∀ t', v = some t' →
      t'.state ≠ .ready ∧ t'.state ≠ .sleeping ∧ t'.priority ≤ kernelLowestPriority) :
    InvAt out a { s with
      threads := Function.update s.threads tid v
      activeThreadsTable := Function.update s.activeThreadsTable t.priority
        ((s.activeThreadsTable t.priority).erase tid)
      sleepingThreadsTable := s.sleepingThreadsTable.eraseP fun n => n.data = tid } := by
  refine ⟨h.active, fun p u => ?_, fun u => ?_, fun p => ?_, ?_, fun u w hu => ?_, fun u w hu => ?_⟩
  · show u ∈ Function.update s.activeThreadsTable t.priority _ p ↔
      ∃ w, Function.update s.threads tid v u = some w ∧ _
    have hu := h.ready p u
    by_cases hut : u = tid
    · subst hut
      have hnone : ¬ ∃ w, v = some w ∧ w.state = .ready ∧ w.priority = p :=
        fun ⟨w, hw, hr, _⟩ => (hv w hw).1 hr
      by_cases hpt : p = t.priority
      · subst hpt
        simp [(h.readyNodup _).not_mem_erase, hnone]
      · have hnot : u ∉ s.activeThreadsTable p := by
          intro hp
          obtain ⟨w, hw, -, rfl⟩ := hu.mp hp
          rw [ht] at hw
          cases hw
          exact hpt rfl
        simp [Function.update_of_ne hpt, hnot, hnone]
    · by_cases hpt : p = t.priority
      · subst hpt
        simpa [Function.update_of_ne hut, List.mem_erase_of_ne hut] using hu
      · simpa [Function.update_of_ne hut, Function.update_of_ne hpt] using hu
  · unfold sleepers
    rw [sleepers_eraseP, h.sleepingNodup.mem_erase_iff, h.sleeping]
    show _ ↔ ∃ w, Function.update s.threads tid v u = some w ∧ _
    by_cases hut : u = tid
    · subst hut
      have hnone : ¬ ∃ w, v = some w ∧ w.state = .sleeping ∧ out ≠ some u :=
        fun ⟨w, hw, hs, _⟩ => (hv w hw).2.1 hs
      simpa using hnone
    · simp [hut]
  · show (Function.update s.activeThreadsTable t.priority _ p).Nodup
    by_cases hpt : p = t.priority
    · subst hpt
      simpa using (h.readyNodup t.priority).erase tid
    · simpa [Function.update_of_ne hpt] using h.readyNodup p
  · unfold sleepers
    rw [sleepers_eraseP]
    exact h.sleepingNodup.erase tid
  · change Function.update s.threads tid v u = some w at hu
    by_cases hut : u = tid
    · subst hut
      rw [Function.update_self] at hu
      exact (hv w hu).2.2
    · rw [Function.update_of_ne hut] at hu
      exact h.priority u w hu
  · change Function.update s.threads tid v u = some w at hu
    by_cases hut : u = tid
    · exact hut ▸ h.given tid t ht
    · rw [Function.update_of_ne hut] at hu
      exact h.given u w hu

theorem InvAt.schedCleanThread (h : InvAt out a s) (hclean : s.schedCleanThread tid = some s') :
    InvAt out a s' := by
  unfold Sched.schedCleanThread at hclean
  obtain ⟨t, ht, h1⟩ := Option.bind_eq_some_iff.mp hclean
  obtain ⟨b, -, h2⟩ := Option.bind_eq_some_iff.mp h1
  split_ifs at h2
  obtain ⟨s1, hres, h3⟩ := Option.bind_eq_some_iff.mp h2
  obtain ⟨table, rfl⟩ := futexCleanup_foldlM_frame hres
  obtain ⟨p, -, h4⟩ := Option.bind_eq_some_iff.mp h3
  split_ifs at h4 with hcond
  cases h4
  rw [not_or] at hcond
  have hsleep : (s.sleepingThreadsTable.eraseP fun n => n.data = tid) = s.sleepingThreadsTable :=
    List.eraseP_of_forall_not fun n hn hdata =>
      hcond.1 (of_decide_eq_true hdata ▸ List.mem_map_of_mem hn)
  exact (h.dequeue ht (v := none) nofun).congr rfl rfl rfl hsleep.symm le_rfl

theorem InvAt.reparent {pid : ℕ} (h : InvAt out a s) (hrep : s.reparent pid = some s') :
    InvAt out a s' := by
  unfold Sched.reparent at hrep
  obtain ⟨p, -, hloop⟩ := Option.bind_eq_some_iff.mp hrep
  refine foldlM_invariant (InvAt out a) (fun s1 child s2 hs1 hstep => ?_) h hloop
  obtain ⟨c, -, hmap⟩ := Option.bind_eq_some_iff.mp hstep
  obtain ⟨m, -, rfl⟩ := Option.map_eq_some_iff.mp hmap
  exact (hs1.setProcess _ _).setProcess _ _

theorem InvAt.schedCleanProcess {pid : ℕ} (h : InvAt out a s)
    (hclean : s.schedCleanProcess pid = some s') : InvAt out a s' := by
  unfold Sched.schedCleanProcess at hclean
  obtain ⟨p, -, h1⟩ := Option.bind_eq_some_iff.mp hclean
  obtain ⟨s1, hloop, h2⟩ := Option.bind_eq_some_iff.mp h1
  obtain ⟨s2, hrep, rfl⟩ := Option.map_eq_some_iff.mp h2
  have hs1 : InvAt out a s1 :=
    foldlM_invariant (InvAt out a) (fun _ _ _ hs hstep => hs.schedCleanThread hstep) h hloop
  exact (hs1.reparent hrep).congr rfl rfl rfl rfl le_rfl

/-! ## Exit -/

theorem InvAt.stopThread (h : InvAt out a s) (hstop : s.stopThread tid = some s') :
    InvAt out a s' := by
  unfold Sched.stopThread at hstop
  obtain ⟨t, ht, rfl⟩ := Option.map_eq_some_iff.mp hstop
  refine h.dequeue ht fun t' ht' => ?_
  cases ht'
  exact ⟨by simp, by simp, h.priority tid t ht⟩

theorem InvAt.wakeJoiner (h : InvAt out a s) (hwake : s.wakeJoiner t = some s') :
    InvAt out a s' := by
  unfold Sched.wakeJoiner at hwake
  split at hwake
  · cases hwake
    exact h
  · obtain ⟨j, hj, hbody⟩ := Option.bind_eq_some_iff.mp hwake
    split_ifs at hbody
    · exact h.requeue hj hbody
    · cases hbody
      exact h

theorem InvAt.buryProcess {pid : ℕ} {p : KernelProcess} (h : InvAt out a s)
    (hbury : s.buryProcess pid p = some s') : InvAt out a s' := by
  unfold Sched.buryProcess at hbury
  obtain ⟨parent, -, h1⟩ := Option.bind_eq_some_iff.mp hbury
  obtain ⟨q, -, h2⟩ := Option.bind_eq_some_iff.mp h1
  split_ifs at h2
  cases h2
  exact h.setProcess _ _

theorem InvAt.schedExitProcess (h : InvAt out a s) (hexit : s.schedExitProcess t = some s') :
    InvAt out a s' := by
  unfold Sched.schedExitProcess at hexit
  split_ifs at hexit
  obtain ⟨p, -, h1⟩ := Option.bind_eq_some_iff.mp hexit
  obtain ⟨s1, hloop, h2⟩ := Option.bind_eq_some_iff.mp h1
  obtain ⟨s2, hbury, h3⟩ := Option.bind_eq_some_iff.mp h2
  obtain ⟨main, -, h4⟩ := Option.bind_eq_some_iff.mp h3
  obtain ⟨s3, hwake, rfl⟩ := Option.map_eq_some_iff.mp h4
  have hs1 : InvAt out a s1 :=
    foldlM_invariant (InvAt out a) (fun _ _ _ hs hstep => hs.stopThread hstep) h hloop
  exact ((hs1.buryProcess hbury).wakeJoiner hwake).setPc _

theorem InvAt.threadExit (h : InvAt (some a) a s) (ht : s.threads a = some t)
    (hrun : t.state = .running) (hexit : s.threadExit t = some s') : InvAt (some a) a s' := by
  unfold Sched.threadExit at hexit
  split_ifs at hexit
  cases hexit
  refine InvAt.setPc (h.setActive ht hrun ?_ ?_) _
  · simp
  · exact h.priority a t ht

theorem InvAt.threadExitJoiner (h : InvAt out a s) (hexit : s.threadExitJoiner t = some s') :
    InvAt out a s' := by
  unfold Sched.threadExitJoiner at hexit
  obtain ⟨s1, hwake, hdel⟩ := Option.bind_eq_some_iff.mp hexit
  unfold deleteActiveNode at hdel
  split_ifs at hdel
  cases hdel
  exact (h.wakeJoiner hwake).setPc _

/-! ## Join and wait -/

theorem InvAt.joinClean {target : ℕ} {next : SchedPc} (h : InvAt out a s)
    (hclean : s.joinClean target next = some s') : InvAt out a s' := by
  unfold Sched.joinClean at hclean
  obtain ⟨s1, hs1, rfl⟩ := Option.map_eq_some_iff.mp hclean
  exact (h.schedCleanThread hs1).setPc _

theorem InvAt.joinStart {target : ℕ} (h : InvAt out a s) (hjoin : s.joinStart target = some s') :
    InvAt out a s' := by
  unfold Sched.joinStart at hjoin
  obtain ⟨t, -, rfl⟩ := Option.map_eq_some_iff.mp hjoin
  split_ifs
  · exact h
  · exact h.setPc _

theorem InvAt.joinCheck {target : ℕ} (h : InvAt out a s) (hjoin : s.joinCheck target = some s') :
    InvAt out a s' := by
  unfold Sched.joinCheck at hjoin
  obtain ⟨t, -, hbody⟩ := Option.bind_eq_some_iff.mp hjoin
  split_ifs at hbody
  · exact h.joinClean hbody
  · cases hbody
    exact h.setPc _

theorem InvAt.joinState {target : ℕ} (h : InvAt (some a) a s) (ht : s.threads a = some t)
    (hrun : t.state = .running) : InvAt (some a) a (s.joinState t target) := by
  refine InvAt.setPc (h.setActive ht hrun ?_ ?_) _
  · simp
  · exact h.priority a t ht

theorem InvAt.joinSet {target : ℕ} (h : InvAt out a s) (hjoin : s.joinSet target = some s') :
    InvAt out a s' := by
  unfold Sched.joinSet at hjoin
  obtain ⟨t, ht, rfl⟩ := Option.map_eq_some_iff.mp hjoin
  refine InvAt.setPc ?_ _
  exact h.setData ht rfl rfl

theorem InvAt.schedWaitProcessPid {child : ℕ} (h : InvAt (some a) a s)
    (ht : s.threads a = some t) (hrun : t.state = .running)
    (hwait : s.schedWaitProcessPid t child = some s') : InvAt (some a) a s' := by
  unfold Sched.schedWaitProcessPid at hwait
  obtain ⟨p, -, h1⟩ := Option.bind_eq_some_iff.mp hwait
  split_ifs at h1
  · cases h1
    exact h
  · obtain ⟨c, -, h2⟩ := Option.bind_eq_some_iff.mp h1
    obtain ⟨main, -, h3⟩ := Option.bind_eq_some_iff.mp h2
    split_ifs at h3
    · cases h3
      exact h.setPc _
    · exact h.joinClean h3
    · obtain ⟨s1, hset, rfl⟩ := Option.map_eq_some_iff.mp h3
      refine InvAt.setPc (InvAt.joinSet (h.setActive ht hrun ?_ ?_) hset) _
      · simp
      · exact h.priority a t ht

theorem InvAt.waitRemove {child : ℕ} (h : InvAt out a s)
    (hremove : s.waitRemove t child = some s') : InvAt out a s' := by
  unfold Sched.waitRemove at hremove
  obtain ⟨p, -, hbody⟩ := Option.bind_eq_some_iff.mp hremove
  split_ifs at hbody
  cases hbody
  exact h.congr rfl rfl rfl rfl le_rfl

/-! ## Runs -/

/-- The active thread is in the state it was elected in. -/
def activeRunning (s : Sched) : Bool :=
  (s.threads s.activeThread).all fun t => decide (t.state = .running)

/-- Does the action block or end the active thread, or change its priority? The idle thread does not
sleep or wait, and a wait on a word that has changed returns. -/
def leavesState (s : Sched) : SchedAct → Bool
  | .sleep _ _ => decide (s.activeThread ≠ idleThread)
  | .futexWait _ value val fault =>
    decide (value = val ∧ fault ≠ some .table ∧ s.activeThread ≠ idleThread)
  | .setPriority priority => decide (priority ≤ kernelLowestPriority)
  | .exit | .waitpid _ => true
  | .go _ => match s.pc s.activeThread with
    | .joinState _ => true
    | _ => false
  | _ => false

/-- A thread that blocks, ends or changes its priority is in the state it was elected in. -/
def RunsElected (s : Sched) (act : SchedAct) : Prop :=
  s.leavesState act = true → s.activeRunning = true

instance (s : Sched) (act : SchedAct) : Decidable (s.RunsElected act) :=
  inferInstanceAs (Decidable (_ → _))

/-- Is the action an election? -/
def elects (s : Sched) : SchedAct → Bool
  | .tick _ => true
  | .go _ => match s.pc s.activeThread with
    | .yield | .joinYield _ | .waitYield _ _ => true
    | _ => false
  | _ => false

theorem running_of_activeRunning (ht : s.threads s.activeThread = some t)
    (h : s.activeRunning = true) : t.state = .running := by
  unfold activeRunning at h
  rw [ht, Option.all_some] at h
  exact of_decide_eq_true h

theorem Inv.setPc (h : Inv s) (pc : SchedPc) : Inv (s.setPc pc) :=
  InvAt.setPc h pc

theorem Inv.yieldTo {currentTime : ℕ} {next : SchedPc} (h : Inv s)
    (hyield : s.yieldTo currentTime next = some s') : InvAt none s'.activeThread s' ∧ Inv s' :=
  ⟨((h.setPc next).selectThread hyield).1, (h.setPc next).selectThread_inv hyield⟩

theorem Inv.go {currentTime : ℕ} (h : Inv s) (ht : s.threads s.activeThread = some t)
    (hrun : s.leavesState (.go currentTime) = true → t.state = .running)
    (hgo : s.go t currentTime = some s') : Inv s' := by
  unfold Sched.go at hgo
  unfold leavesState at hrun
  split at hgo <;> rename_i hpc <;> simp only [hpc] at hrun
  · cases hgo
  · exact (h.yieldTo hgo).2
  · exact (InvAt.joinCheck h hgo).inv
  · cases hgo
    exact (InvAt.joinState h ht (hrun trivial)).inv
  · exact (InvAt.joinSet h hgo).inv
  · exact (h.yieldTo hgo).2
  · exact (InvAt.joinClean h hgo).inv
  · exact (InvAt.threadExitJoiner h hgo).inv
  · exact (h.yieldTo hgo).2
  · exact (InvAt.joinClean h hgo).inv
  · obtain ⟨s1, hclean, rfl⟩ := Option.map_eq_some_iff.mp hgo
    exact ((InvAt.schedCleanProcess h hclean).setPc _).inv
  · exact (InvAt.waitRemove h hgo).inv

/-- A wait that does not reach the blocking of the thread leaves the state alone. -/
theorem futexWaitThread_eq_self {addr : ℕ} {value val : BitVec 32} {fault : Option FutexFault}
    (hwait : s.futexWaitThread t addr value val fault = some s')
    (hret : ¬(value = val ∧ fault ≠ some .table ∧ s.activeThread ≠ idleThread)) : s' = s := by
  unfold futexWaitThread futexWait at hwait
  by_cases hval : value = val
  · simp only [hval, ne_eq, not_true_eq_false, if_false] at hwait
    by_cases htable : fault = some .table
    · rw [if_pos htable] at hwait
      exact (Option.some.inj hwait).symm
    · have hidle : s.activeThread = idleThread := by
        by_contra hne
        exact hret ⟨hval, htable, hne⟩
      rw [if_neg htable, if_pos hidle] at hwait
      split_ifs at hwait
      exact (Option.some.inj hwait).symm
  · simp only [ne_eq, hval, not_false_eq_true, if_true] at hwait
    exact (Option.some.inj hwait).symm

theorem Inv.call {act : SchedAct} (h : Inv s) (ht : s.threads s.activeThread = some t)
    (hrun : s.leavesState act = true → t.state = .running) (hcall : s.call t act = some s') :
    Inv s' := by
  unfold leavesState at hrun
  cases act <;> simp only [Sched.call] at hcall <;> simp only [decide_eq_true_eq] at hrun
  case tick => cases hcall
  case sleep currTime timeMs =>
    cases hcall
    by_cases hidle : s.activeThread = idleThread
    · unfold Sched.schedSleep
      rwa [if_pos hidle]
    · exact (InvAt.schedSleep h ht (hrun hidle)).inv
  case create => exact (InvAt.schedCreateKernelThread h hcall).inv
  case fork => exact (InvAt.schedForkProcess h ht hcall).inv
  case futexWait addr value val fault =>
    by_cases hblock : value = val ∧ fault ≠ some .table ∧ s.activeThread ≠ idleThread
    · exact (InvAt.futexWaitThread h ht (hrun hblock) hcall).inv
    · exact futexWaitThread_eq_self hcall hblock ▸ h
  case futexWake => exact (InvAt.futexWakeThreads h hcall).inv
  case setPriority priority =>
    cases hcall
    by_cases hp : priority ≤ kernelLowestPriority
    · exact (InvAt.schedSetThreadParams h ht (hrun hp)).inv
    · unfold Sched.schedSetThreadParams
      rwa [if_neg hp]
  case join => exact (InvAt.joinStart h hcall).inv
  case exit => exact (InvAt.threadExit h ht (hrun trivial) hcall).inv
  case exitProcess => exact (InvAt.schedExitProcess h hcall).inv
  case waitpid => exact (InvAt.schedWaitProcessPid h ht (hrun trivial) hcall).inv
  case go => cases hcall

theorem Inv.step {act : SchedAct} (h : Inv s) (hguard : s.RunsElected act)
    (hstep : s.Step act s') : Inv s' := by
  unfold Step exec at hstep
  obtain ⟨t, ht, hact⟩ := Option.bind_eq_some_iff.mp hstep
  have hrun := fun hl => running_of_activeRunning ht (hguard hl)
  split at hact
  · exact h.selectThread_inv hact
  · exact h.go ht hrun hact
  · split_ifs at hact
    exact h.call ht hrun hact

/-- `sched_init` creates two threads, and both are ready. -/
theorem schedInit_threads {u : ℕ} (h : schedInit.threads u = some t) :
    t.state = .ready ∧ (u = idleThread ∧ t.priority = kernelLowestPriority ∨
      u = initThread ∧ t.priority = 0) := by
  simp only [schedInit] at h
  split_ifs at h with hidle hinit <;> cases h
  · exact ⟨rfl, .inl ⟨hidle, rfl⟩⟩
  · exact ⟨rfl, .inr ⟨hinit, rfl⟩⟩

theorem inv_schedInit : Inv schedInit := by
  refine ⟨rfl, fun p u => ⟨fun hu => ?_, ?_⟩, fun u => ⟨nofun, ?_⟩, fun p => ?_, List.nodup_nil,
    fun u v hu => ?_, fun u v hu => ?_⟩
  · simp only [schedInit] at hu
    split_ifs at hu with hlow hhigh
    · rw [List.mem_singleton] at hu
      subst hu hlow
      exact ⟨_, rfl, rfl, rfl⟩
    · rw [List.mem_singleton] at hu
      subst hu hhigh
      exact ⟨_, rfl, rfl, rfl⟩
    · cases hu
  · rintro ⟨t, ht, -, hp⟩
    obtain ⟨-, ⟨rfl, hlow⟩ | ⟨rfl, hhigh⟩⟩ := schedInit_threads ht
    · obtain rfl := hp.symm.trans hlow
      exact List.mem_singleton_self _
    · obtain rfl := hp.symm.trans hhigh
      exact List.mem_singleton_self _
  · rintro ⟨t, ht, hs, -⟩
    rw [(schedInit_threads ht).1] at hs
    cases hs
  · simp only [schedInit]
    split_ifs
    · exact List.nodup_singleton _
    · exact List.nodup_singleton _
    · exact List.nodup_nil
  · obtain ⟨-, ⟨-, hp⟩ | ⟨-, hp⟩⟩ := schedInit_threads hu
    · exact hp.le
    · exact hp ▸ Nat.zero_le _
  · obtain ⟨-, ⟨rfl, -⟩ | ⟨rfl, -⟩⟩ := schedInit_threads hu
    · decide
    · decide

theorem inv_of_guarded (h : Guarded Started Step RunsElected s) : Inv s := by
  refine h.invariant Inv (fun s0 hs0 => ?_) fun _ _ _ hs hg hstep => hs.step hg hstep
  unfold Started at hs0
  exact hs0 ▸ inv_schedInit

/-! ## After an election -/

/-- Every thread is in the queue of its state: a ready one once in the ready queue of its priority, a
sleeping one once in the sleeping queue, and one that runs, waits, joins or has ended in none. -/
def QueuesAgree (s : Sched) : Prop :=
  ∀ tid t, s.threads tid = some t →
    match t.state with
    | .ready => (∀ p, (s.activeThreadsTable p).count tid = if p = t.priority then 1 else 0) ∧
        tid ∉ s.sleepers
    | .sleeping => s.sleepers.count tid = 1 ∧ ∀ p, tid ∉ s.activeThreadsTable p
    | .running | .waiting | .joining | .zombie =>
        (∀ p, tid ∉ s.activeThreadsTable p) ∧ tid ∉ s.sleepers
    | .copying => True

theorem InvAt.not_mem_ready (h : InvAt out a s) (ht : s.threads tid = some t)
    (hr : t.state ≠ .ready) (p : ℕ) : tid ∉ s.activeThreadsTable p := by
  intro hmem
  obtain ⟨v, hv, hvr, -⟩ := (h.ready p tid).mp hmem
  rw [ht] at hv
  exact hr (Option.some.inj hv ▸ hvr)

theorem InvAt.not_mem_sleepers (h : InvAt out a s) (ht : s.threads tid = some t)
    (hs : t.state ≠ .sleeping ∨ out = some tid) : tid ∉ s.sleepers := by
  intro hmem
  obtain ⟨v, hv, hvs, hout⟩ := (h.sleeping tid).mp hmem
  rw [ht] at hv
  exact hs.elim (fun hne => hne (Option.some.inj hv ▸ hvs)) fun heq => hout heq

theorem InvAt.queuesAgree (h : InvAt none a s) : s.QueuesAgree := by
  intro tid t ht
  have hready := h.not_mem_ready ht
  have hsleep := h.not_mem_sleepers ht
  split
  · rename_i hstate
    refine ⟨fun p => ?_, hsleep (.inl (by simp [hstate]))⟩
    split_ifs with hp
    · exact List.count_eq_one_of_mem (h.readyNodup p) ((h.ready p tid).mpr ⟨t, ht, hstate, hp.symm⟩)
    · refine List.count_eq_zero.mpr fun hmem => ?_
      obtain ⟨v, hv, -, hvp⟩ := (h.ready p tid).mp hmem
      rw [ht] at hv
      exact hp (Option.some.inj hv ▸ hvp.symm)
  · rename_i hstate
    refine ⟨?_, hready (by simp [hstate])⟩
    exact List.count_eq_one_of_mem h.sleepingNodup ((h.sleeping tid).mpr ⟨t, ht, hstate, nofun⟩)
  · rename_i hstate
    exact ⟨hready (by simp [hstate]), hsleep (.inl (by simp [hstate]))⟩
  · rename_i hstate
    exact ⟨hready (by simp [hstate]), hsleep (.inl (by simp [hstate]))⟩
  · rename_i hstate
    exact ⟨hready (by simp [hstate]), hsleep (.inl (by simp [hstate]))⟩
  · rename_i hstate
    exact ⟨hready (by simp [hstate]), hsleep (.inl (by simp [hstate]))⟩
  · trivial

/-- In a run whose threads block, end and change their priority in the state they were elected in,
the queues agree with the states at the end of every election. -/
theorem queues_agree {act : SchedAct} (h : Guarded Started Step RunsElected s)
    (helects : s.elects act = true) (hstep : s.Step act s') : s'.QueuesAgree := by
  have hinv := inv_of_guarded h
  unfold Step exec at hstep
  obtain ⟨t, ht, hact⟩ := Option.bind_eq_some_iff.mp hstep
  unfold elects at helects
  split at helects
  · exact (hinv.selectThread hact).1.queuesAgree
  · unfold Sched.go at hact
    split at helects <;> rename_i hpc <;> simp only [hpc] at hact
    · exact (hinv.yieldTo hact).1.queuesAgree
    · exact (hinv.yieldTo hact).1.queuesAgree
    · exact (hinv.yieldTo hact).1.queuesAgree
    · cases helects
  · cases helects

/-! ## An election goes through

No push finds its node in a queue, so an election fails only when there is nobody to elect. -/

theorem InvAt.enlisted_eq_false (h : InvAt out a s) (ht : s.threads tid = some t)
    (hr : t.state ≠ .ready) (hs : t.state ≠ .sleeping ∨ out = some tid) :
    s.enlisted tid = false := by
  have hsleep := h.not_mem_sleepers ht hs
  unfold sleepers at hsleep
  simp only [enlisted, Bool.or_eq_false_iff, List.any_eq_false, decide_eq_true_eq,
    decide_eq_false_iff_not]
  exact ⟨fun p _ => h.not_mem_ready ht hr p, hsleep⟩

/-- There is somebody to elect. -/
def HasReady (s : Sched) : Prop := ∃ u v, s.threads u = some v ∧ v.state = .ready

theorem InvAt.exists_pushReady (h : InvAt out a s) (ht : s.threads tid = some t)
    (hr : t.state ≠ .ready) (hs : t.state ≠ .sleeping ∨ out = some tid) :
    ∃ s', s.pushReady tid t = some s' ∧ s'.HasReady := by
  unfold Sched.pushReady
  rw [h.enlisted_eq_false ht hr hs]
  refine ⟨_, rfl, tid, { t with state := .ready }, ?_, rfl⟩
  show Function.update s.threads tid _ tid = some _
  rw [Function.update_self]

theorem InvAt.exists_enqueueActive (h : InvAt (some a) a s) (ht : s.threads a = some t)
    (hready : t.state = .running ∨ s.HasReady) :
    ∃ s', s.enqueueActive t = some s' ∧ s'.HasReady := by
  obtain rfl : s.activeThread = a := h.active
  unfold Sched.enqueueActive
  split
  · rename_i hrun
    exact h.exists_pushReady ht (by simp [hrun]) (.inl (by simp [hrun]))
  · rename_i hsleep
    rw [h.enlisted_eq_false ht (by simp [hsleep]) (.inr rfl)]
    exact ⟨_, rfl, hready.resolve_left (by simp [hsleep])⟩
  · rename_i hrun _
    exact ⟨_, rfl, hready.resolve_left hrun⟩

theorem InvAt.exists_wakeSleepers (currentTime : ℕ) {fuel : ℕ} (h : InvAt none a s)
    (hready : s.HasReady) : ∃ s', Sched.wakeSleepers currentTime fuel s = some s' ∧ s'.HasReady := by
  induction fuel generalizing s with
  | zero => exact ⟨s, rfl, hready⟩
  | succ fuel ih =>
    unfold Sched.wakeSleepers
    split
    · exact ⟨s, rfl, hready⟩
    · rename_i node rest hpop
      have hmem : node.data ∈ s.sleepers :=
        ((kqueuePop_perm hpop).map KqueueNode.data).mem_iff.mpr (List.mem_cons_self ..)
      obtain ⟨t, ht, hs, -⟩ := (h.sleeping _).mp hmem
      have hout := h.popSleeping hpop
      rw [ht]
      dsimp only
      split_ifs
      · obtain ⟨s1, hpush, hready1⟩ := hout.exists_pushReady ht (by simp [hs]) (.inr rfl)
        rw [hpush]
        refine ih ((invAt_some_iff fun v hv => ?_).mp (hout.requeue ht hpush)) hready1
        rw [pushReady_threads hpush, Option.some.injEq] at hv
        simp [← hv]
      · exact ⟨_, rfl, hready⟩

theorem electFrom_isSome {table : ℕ → List ℕ} {n i j : ℕ} (hi : i ≤ j) (hj : j < i + n)
    (hne : table j ≠ []) : (electFrom table n i).isSome := by
  induction n generalizing i with
  | zero => omega
  | succ n ih =>
    unfold electFrom
    split
    · rfl
    · rename_i hpop
      refine ih (lt_of_le_of_ne hi fun heq => hne ?_) (by omega)
      exact heq ▸ kqueuePop_eq_none.mp hpop

theorem InvAt.exists_elect (h : InvAt none a s) (hready : s.HasReady) :
    ∃ s', s.elect = some s' := by
  obtain ⟨u, v, hu, hv⟩ := hready
  have hmem := (h.ready v.priority u).mpr ⟨v, hu, hv, rfl⟩
  have hsome : (electFrom s.activeThreadsTable (kernelLowestPriority + 1) 0).isSome := by
    refine electFrom_isSome (Nat.zero_le _) ?_ (List.ne_nil_of_mem hmem)
    have := h.priority u v hu
    omega
  obtain ⟨⟨i, tid, rest⟩, hfrom⟩ := Option.isSome_iff_exists.mp hsome
  have hpop := kqueuePop_perm (electFrom_eq_some hfrom)
  obtain ⟨t, ht, -⟩ := (h.ready i tid).mp (hpop.mem_iff.mpr (List.mem_cons_self ..))
  unfold Sched.elect
  rw [hfrom, Option.bind_some, ht]
  exact ⟨_, rfl⟩

theorem Inv.exists_selectThread (currentTime : ℕ) (h : Inv s)
    (ht : s.threads s.activeThread = some t) (hready : t.state = .running ∨ s.HasReady) :
    ∃ s', s.selectThread currentTime = some s' := by
  unfold Sched.selectThread
  obtain ⟨s1, henq, hready1⟩ := InvAt.exists_enqueueActive h ht hready
  have hnone := InvAt.enqueueActive h ht henq
  obtain ⟨s2, hwake, hready2⟩ := hnone.exists_wakeSleepers currentTime hready1
  rw [ht, Option.bind_some, henq, Option.bind_some, hwake, Option.bind_some]
  exact (hnone.wakeSleepers hwake).exists_elect hready2

/-! ## Runs of both kinds -/

/-- A thread sleeps, wakes another that waits on a futex, and both are queued when the idle thread
runs. -/
def sleepWakeActs : List SchedAct :=
  [.tick 0, .create 0, .tick 0, .futexWait 100 7 7 none, .go 0, .futexWake 100 8 1, .sleep 0 5]

/-- A step that the guard allows. -/
def guardedExec (s : Sched) (act : SchedAct) : Option Sched :=
  if s.RunsElected act then s.exec act else none

theorem guardedExec_spec (s : Sched) (act : SchedAct) (s' : Sched)
    (h : s.guardedExec act = some s') : s.RunsElected act ∧ s.Step act s' := by
  unfold guardedExec at h
  split_ifs at h with hguard
  exact ⟨hguard, h⟩

theorem queues_agree_sleep_wake : ∃ s s' : Sched, s.Step (.go 1) s' ∧ s'.activeThread = 2 ∧
    s'.sleepers = [initThread] ∧ s'.QueuesAgree := by
  have hval : (runActs guardedExec schedInit sleepWakeActs).map (fun s =>
      ((s.exec (.go 1)).map fun s' => (s'.activeThread, s'.sleepers), s.elects (.go 1))) =
        some (some (2, [initThread]), true) := by decide +kernel
  obtain ⟨s, hs, he⟩ := Option.map_eq_some_iff.mp hval
  rw [Prod.mk.injEq] at he
  obtain ⟨s', hs', he'⟩ := Option.map_eq_some_iff.mp he.1
  rw [Prod.mk.injEq] at he'
  have hstart : Guarded Started Step RunsElected schedInit := .start rfl
  have hguarded := hstart.runActs guardedExec_spec hs
  exact ⟨s, s', hs', he'.1, he'.2, queues_agree hguarded he.2 hs'⟩

/-- The futex wait of a running thread fails when the futex is added to its resources: the thread is
made ready and queued, and runs on. It changes its priority. -/
def failedWaitActs : List SchedAct :=
  [.tick 0, .create 0, .create 0, .tick 0, .futexWait 100 7 7 none, .go 0,
    .futexWait 100 7 7 (some .resource), .setPriority 5]

/-- The thread is then ready with a priority whose queue it is not in. -/
theorem queues_disagree_after_failed_wait : ¬ ∀ (s : Sched) (act : SchedAct) (s' : Sched),
    Reachable Started Step s → s.elects act = true → s.Step act s' → s'.QueuesAgree := by
  intro hclaim
  have hval : (runActs exec schedInit failedWaitActs).bind (fun s =>
      (s.exec (.tick 0)).map fun s' => (s'.threads 3, s'.activeThreadsTable 5)) =
        some (some ⟨mainKprocess, 5, .ready, .resource, 0, none, []⟩, []) := by decide +kernel
  obtain ⟨s, hs, hbind⟩ := Option.bind_eq_some_iff.mp hval
  obtain ⟨s', hs', he⟩ := Option.map_eq_some_iff.mp hbind
  rw [Prod.mk.injEq] at he
  have hstart : Reachable Started Step schedInit := .start rfl
  have hreach := hstart.runActs (fun _ _ _ h => ⟨trivial, h⟩) hs
  have hcount := (hclaim s (.tick 0) s' hreach rfl hs' 3 _ he.1).1 5
  rw [he.2] at hcount
  simp at hcount

end Sched

end UtkKernel.Scheduler
