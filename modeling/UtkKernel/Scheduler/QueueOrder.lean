import UtkKernel.Foundations.Arrivals
import UtkKernel.Scheduler.QueueSafety

/-! # The order of the ready queues

Between two elections threads join the ready queues at their heads, and the ones that leave have ended. No other
thread changes places: `Shifts` says so of a call, and every call that is not an election keeps it. -/

namespace UtkKernel.Scheduler
open Structures Sync Foundations
set_option autoImplicit false

namespace Sched

variable {s s' s'' : Sched} {out : Option ℕ} {a tid : ℕ} {t : KernelThread}

/-- The thread was created and has ended: it is a zombie, or gone. -/
def Ended (s : Sched) (tid : ℕ) : Prop :=
  tid < s.lastGivenTid ∧ ∀ t, s.threads tid = some t → t.state = .zombie

structure Shifts (s s' : Sched) : Prop where
  active : s'.activeThread = s.activeThread
  queue (p : ℕ) : Shifted (s.activeThreadsTable p) (s'.activeThreadsTable p)
  left (p : ℕ) : ∀ u ∈ s.activeThreadsTable p, u ∉ s'.activeThreadsTable p → s'.Ended u
  ended (u : ℕ) : s.Ended u → s'.Ended u

/-- A thread in a ready queue has not ended. -/
theorem InvAt.not_ended (h : InvAt out a s) {p u : ℕ} (hu : u ∈ s.activeThreadsTable p) : ¬s.Ended u := by
  rintro ⟨-, hzombie⟩
  obtain ⟨t, ht, hready, -⟩ := (h.ready p u).mp hu
  rw [hzombie t ht] at hready
  exact nomatch hready

theorem Shifts.trans (h : Shifts s s') (h' : Shifts s' s'') (hinv : InvAt out a s'') : Shifts s s'' := by
  refine ⟨h'.active.trans h.active, fun p => (h.queue p).trans (h'.queue p) fun u hu hus => ?_,
    fun p u hu hus => ?_, fun u hu => h'.ended u (h.ended u hu)⟩
  · by_contra hleft
    exact hinv.not_ended hu (h'.ended u (h.left p u hus hleft))
  · by_cases hmid : u ∈ s'.activeThreadsTable p
    · exact h'.left p u hmid hus
    · exact h'.ended u (h.left p u hu hmid)

theorem shifts_congr (hactive : s'.activeThread = s.activeThread)
    (hthreads : ∀ u, s.Ended u → ∀ t, s'.threads u = some t → t.state = .zombie)
    (hready : s'.activeThreadsTable = s.activeThreadsTable) (hgiven : s.lastGivenTid ≤ s'.lastGivenTid) :
    Shifts s s' := by
  refine ⟨hactive, fun p => ?_, fun p u hu hus => ?_, fun u hu => ⟨hu.1.trans_le hgiven, hthreads u hu⟩⟩
  · rw [hready]
    exact Shifted.refl _
  · rw [hready] at hus
    exact absurd hu hus

theorem Shifts.refl (s : Sched) : Shifts s s := shifts_congr rfl (fun _ hu => hu.2) rfl le_rfl

theorem Shifts.setPc (h : Shifts s s') (pc : SchedPc) : Shifts s (s'.setPc pc) :=
  ⟨h.active, h.queue, h.left, h.ended⟩

theorem Shifts.setProcess (h : Shifts s s') (pid : ℕ) (p : KernelProcess) : Shifts s (s'.setProcess pid p) :=
  ⟨h.active, h.queue, h.left, h.ended⟩

/-- A thread is rewritten, and a zombie stays one. -/
theorem shifts_update (ht : s.threads tid = some t) {t' : KernelThread}
    (hzombie : t.state = .zombie → t'.state = .zombie) (hactive : s'.activeThread = s.activeThread)
    (hthreads : s'.threads = Function.update s.threads tid (some t'))
    (hready : s'.activeThreadsTable = s.activeThreadsTable) (hgiven : s'.lastGivenTid = s.lastGivenTid) :
    Shifts s s' := by
  refine shifts_congr hactive (fun u hu v hv => ?_) hready hgiven.ge
  rw [hthreads] at hv
  by_cases hut : u = tid
  · subst hut
    rw [Function.update_self, Option.some.injEq] at hv
    exact hv ▸ hzombie (hu.2 t ht)
  · rw [Function.update_of_ne hut] at hv
    exact hu.2 v hv

theorem shifts_setThread (ht : s.threads tid = some t) {t' : KernelThread}
    (hzombie : t.state = .zombie → t'.state = .zombie) : Shifts s (s.setThread tid t') :=
  shifts_update ht hzombie rfl rfl rfl rfl

/-- A thread that has not ended joins its ready queue. -/
theorem InvAt.shifts_pushReady (h : InvAt out a s) {s1 : Sched} (hpush : s1.pushReady tid t = some s')
    (hactive : s1.activeThread = s.activeThread) (hthreads : s1.threads = s.threads)
    (hready : s1.activeThreadsTable = s.activeThreadsTable)
    (hsleep : s1.sleepingThreadsTable = s.sleepingThreadsTable) (hgiven : s.lastGivenTid ≤ s1.lastGivenTid)
    (hlive : ¬s.Ended tid) : Shifts s s' := by
  have h1 : InvAt out a s1 := h.congr hactive hthreads hready hsleep hgiven
  obtain ⟨hn, rfl⟩ := pushReady_eq_some hpush
  obtain ⟨hnot, -⟩ := h1.not_mem hn
  rw [hready] at hnot
  refine ⟨hactive, fun p => ?_, fun p u hu hus => absurd ?_ hus, fun u hu => ⟨hu.1.trans_le hgiven, ?_⟩⟩
  · by_cases hp : p = t.priority
    · subst hp
      change Shifted _ (Function.update s1.activeThreadsTable t.priority _ t.priority)
      rw [Function.update_self, hready]
      exact shifted_cons (hnot _)
    · change Shifted _ (Function.update s1.activeThreadsTable t.priority _ p)
      rw [Function.update_of_ne hp, hready]
      exact Shifted.refl _
  · by_cases hp : p = t.priority
    · subst hp
      change u ∈ Function.update s1.activeThreadsTable t.priority _ t.priority
      rw [Function.update_self, hready]
      exact List.mem_cons_of_mem _ hu
    · change u ∈ Function.update s1.activeThreadsTable t.priority _ p
      rw [Function.update_of_ne hp, hready]
      exact hu
  · intro v hv
    change Function.update s1.threads tid _ u = some v at hv
    have hut : u ≠ tid := fun heq => hlive (heq ▸ hu)
    rw [Function.update_of_ne hut, hthreads] at hv
    exact hu.2 v hv

theorem not_ended_of_state (ht : s.threads tid = some t) (hz : t.state ≠ .zombie) : ¬s.Ended tid :=
  fun hended => hz (hended.2 t ht)

theorem InvAt.shifts_requeue (h : InvAt out a s) (ht : s.threads tid = some t) (hz : t.state ≠ .zombie)
    (hpush : s.pushReady tid t = some s') : Shifts s s' :=
  h.shifts_pushReady hpush rfl rfl rfl rfl le_rfl (not_ended_of_state ht hz)

/-! ## The calls -/

theorem InvAt.shifts_schedCreateKernelThread {priority : ℕ} (h : InvAt out a s)
    (hcreate : s.schedCreateKernelThread t priority = some s') : Shifts s s' := by
  unfold Sched.schedCreateKernelThread at hcreate
  split_ifs at hcreate with hp
  · cases hcreate
    exact Shifts.refl s
  · obtain ⟨p, -, hpush⟩ := Option.bind_eq_some_iff.mp hcreate
    exact h.shifts_pushReady hpush rfl rfl rfl rfl (Nat.le_succ _) fun hended => lt_irrefl _ hended.1

theorem InvAt.shifts_schedForkProcess {fault : Option ForkFault} (h : InvAt out a s)
    (hfork : s.schedForkProcess t fault = some s') : Shifts s s' := by
  unfold Sched.schedForkProcess at hfork
  split_ifs at hfork
  · cases hfork
    exact Shifts.refl s
  · cases hfork
    exact shifts_congr rfl (fun _ hu => hu.2) rfl (Nat.le_succ _)
  · obtain ⟨p, -, hpush⟩ := Option.bind_eq_some_iff.mp hfork
    exact h.shifts_pushReady hpush rfl rfl rfl rfl (Nat.le_succ _) fun hended => lt_irrefl _ hended.1

theorem shifts_schedSleep {currTime timeMs : ℕ} (ht : s.threads s.activeThread = some t)
    (hrun : t.state = .running) : Shifts s (s.schedSleep t currTime timeMs) := by
  unfold Sched.schedSleep
  split_ifs
  · exact Shifts.refl s
  · exact (shifts_setThread ht (by simp [hrun])).setPc _

theorem shifts_schedSetThreadParams {priority : ℕ} (ht : s.threads s.activeThread = some t) :
    Shifts s (s.schedSetThreadParams t priority) := by
  unfold Sched.schedSetThreadParams
  split_ifs
  · exact shifts_setThread ht id
  · exact Shifts.refl s

theorem InvAt.shifts_schedUnlockThread {blockType : ThreadWaitType} (h : InvAt out a s)
    (hunlock : s.schedUnlockThread tid blockType = some s') : Shifts s s' := by
  unfold Sched.schedUnlockThread at hunlock
  obtain ⟨t, ht, hpush⟩ := Option.bind_eq_some_iff.mp hunlock
  split_ifs at hpush with hwaiting
  simp only [not_or, not_not] at hwaiting
  exact h.shifts_requeue ht (by simp [hwaiting.2.1]) hpush

theorem InvAt.shifts_futexWaitThread {addr : ℕ} {value val : BitVec 32} {fault : Option FutexFault}
    (h : InvAt (some a) a s) (ht : s.threads s.activeThread = some t) (hrun : t.state = .running)
    (hwait : s.futexWaitThread t addr value val fault = some s') : Shifts s s' := by
  have hta : s.threads a = some t := h.active ▸ ht
  have hinv' := h.futexWaitThread hta hrun hwait
  unfold Sched.futexWaitThread at hwait
  split at hwait
  · cases hwait
    exact Shifts.refl s
  · split_ifs at hwait
    · cases hwait
      exact Shifts.refl s
    · cases hwait
      exact Shifts.refl s
    · have hlock : Shifts s (s.schedLockThread t .resource) := shifts_setThread ht (by simp [hrun])
      have hback := (h.schedLockThread hta hrun t.resources).shifts_schedUnlockThread hwait
      exact hlock.trans hback hinv'
    · cases hwait
      exact shifts_update ht (by simp [hrun]) rfl rfl rfl rfl

theorem InvAt.shifts_wakeWaiter {addr : ℕ} (h : InvAt out a s)
    (hwake : Sched.wakeWaiter addr s tid = some s') : Shifts s s' := by
  have hinv' := h.wakeWaiter hwake
  unfold Sched.wakeWaiter at hwake
  obtain ⟨t, ht, hbody⟩ := Option.bind_eq_some_iff.mp hwake
  split_ifs at hbody
  have hset : Shifts s (s.setThread tid { t with resources := t.resources.erase addr }) := shifts_setThread ht id
  have hdata : InvAt out a (s.setThread tid { t with resources := t.resources.erase addr }) := h.setData ht rfl rfl
  exact hset.trans (hdata.shifts_schedUnlockThread hbody) hinv'

/-- What every turn of a loop keeps, the loop keeps. -/
theorem InvAt.shifts_foldlM {A : Type} {f : Sched → A → Option Sched} (h : InvAt out a s)
    (hinv : ∀ s x s', InvAt out a s → f s x = some s' → InvAt out a s')
    (hshifts : ∀ s x s', InvAt out a s → f s x = some s' → Shifts s s') {xs : List A}
    (hfold : xs.foldlM f s = some s') : Shifts s s' := by
  refine (foldlM_invariant (fun s1 => InvAt out a s1 ∧ Shifts s s1) (fun s1 x s2 hs1 hstep => ?_)
    ⟨h, Shifts.refl s⟩ hfold).2
  have hs2 := hinv s1 x s2 hs1.1 hstep
  exact ⟨hs2, hs1.2.trans (hshifts s1 x s2 hs1.1 hstep) hs2⟩

theorem InvAt.shifts_futexWakeThreads {addr val : ℕ} {value : BitVec 32} (h : InvAt out a s)
    (hwake : s.futexWakeThreads addr value val = some s') : Shifts s s' := by
  have hinv' := h.futexWakeThreads hwake
  unfold Sched.futexWakeThreads at hwake
  have hframe : Shifts s { s with
      futexTable := Function.update s.futexTable addr (futexWake value val (s.futexTable addr)).2.2 } :=
    shifts_congr rfl (fun _ hu => hu.2) rfl le_rfl
  have hinv : InvAt out a { s with
      futexTable := Function.update s.futexTable addr (futexWake value val (s.futexTable addr)).2.2 } :=
    h.congr rfl rfl rfl rfl le_rfl
  exact hframe.trans (hinv.shifts_foldlM (fun _ _ _ hs hstep => hs.wakeWaiter hstep)
    (fun _ _ _ hs hstep => hs.shifts_wakeWaiter hstep) hwake) hinv'

/-- A thread leaves its ready queue as a zombie, or for good. -/
theorem InvAt.shifts_dequeue (h : InvAt out a s) (ht : s.threads tid = some t) {v : Option KernelThread}
    (hv : ∀ t', v = some t' → t'.state = .zombie) (hactive : s'.activeThread = s.activeThread)
    (hthreads : s'.threads = Function.update s.threads tid v)
    (hready : s'.activeThreadsTable = Function.update s.activeThreadsTable t.priority
      ((s.activeThreadsTable t.priority).erase tid))
    (hgiven : s'.lastGivenTid = s.lastGivenTid) : Shifts s s' := by
  have hended : s'.Ended tid := by
    refine ⟨hgiven ▸ h.given tid t ht, fun t' ht' => ?_⟩
    rw [hthreads, Function.update_self] at ht'
    exact hv t' ht'
  have hkept : ∀ p, (s'.activeThreadsTable p).Sublist (s.activeThreadsTable p) ∧
      ∀ u ∈ s.activeThreadsTable p, u ∉ s'.activeThreadsTable p → u = tid := by
    intro p
    rw [hready]
    by_cases hp : p = t.priority
    · subst hp
      rw [Function.update_self]
      refine ⟨List.erase_sublist, fun u hu hus => ?_⟩
      by_contra hne
      exact hus ((List.mem_erase_of_ne hne).mpr hu)
    · rw [Function.update_of_ne hp]
      exact ⟨List.Sublist.refl _, fun u hu hus => absurd hu hus⟩
  refine ⟨hactive, fun p => shifted_of_sublist (hkept p).1, fun p u hu hus => ?_, fun u hu => ?_⟩
  · rw [(hkept p).2 u hu hus]
    exact hended
  · by_cases hut : u = tid
    · exact hut ▸ hended
    · refine ⟨hgiven ▸ hu.1, fun t' ht' => hu.2 t' ?_⟩
      rwa [hthreads, Function.update_of_ne hut] at ht'

theorem InvAt.shifts_schedCleanThread (h : InvAt out a s) (hclean : s.schedCleanThread tid = some s') :
    Shifts s s' := by
  unfold Sched.schedCleanThread at hclean
  obtain ⟨t, ht, h1⟩ := Option.bind_eq_some_iff.mp hclean
  obtain ⟨b, -, h2⟩ := Option.bind_eq_some_iff.mp h1
  split_ifs at h2
  obtain ⟨s1, hres, h3⟩ := Option.bind_eq_some_iff.mp h2
  obtain ⟨table, rfl⟩ := futexCleanup_foldlM_frame hres
  obtain ⟨p, -, h4⟩ := Option.bind_eq_some_iff.mp h3
  split_ifs at h4
  cases h4
  exact h.shifts_dequeue ht (v := none) nofun rfl rfl rfl rfl

theorem InvAt.shifts_reparent {pid : ℕ} (h : InvAt out a s) (hrep : s.reparent pid = some s') : Shifts s s' := by
  unfold Sched.reparent at hrep
  obtain ⟨p, -, hloop⟩ := Option.bind_eq_some_iff.mp hrep
  refine h.shifts_foldlM (fun s1 child s2 hs1 hstep => ?_) (fun s1 child s2 hs1 hstep => ?_) hloop
  · obtain ⟨c, -, hmap⟩ := Option.bind_eq_some_iff.mp hstep
    obtain ⟨m, -, rfl⟩ := Option.map_eq_some_iff.mp hmap
    exact (hs1.setProcess _ _).setProcess _ _
  · obtain ⟨c, -, hmap⟩ := Option.bind_eq_some_iff.mp hstep
    obtain ⟨m, -, rfl⟩ := Option.map_eq_some_iff.mp hmap
    exact ((Shifts.refl s1).setProcess _ _).setProcess _ _

theorem InvAt.shifts_schedCleanProcess {pid : ℕ} (h : InvAt out a s)
    (hclean : s.schedCleanProcess pid = some s') : Shifts s s' := by
  unfold Sched.schedCleanProcess at hclean
  obtain ⟨p, -, h1⟩ := Option.bind_eq_some_iff.mp hclean
  obtain ⟨s1, hloop, h2⟩ := Option.bind_eq_some_iff.mp h1
  obtain ⟨s2, hrep, rfl⟩ := Option.map_eq_some_iff.mp h2
  have hs1 : InvAt out a s1 :=
    foldlM_invariant (InvAt out a) (fun _ _ _ hs hstep => hs.schedCleanThread hstep) h hloop
  have hthreads : Shifts s s1 := h.shifts_foldlM (fun _ _ _ hs hstep => hs.schedCleanThread hstep)
    (fun _ _ _ hs hstep => hs.shifts_schedCleanThread hstep) hloop
  have hboth := hthreads.trans (hs1.shifts_reparent hrep) (hs1.reparent hrep)
  exact ⟨hboth.active, hboth.queue, hboth.left, hboth.ended⟩

/-! ## Exit, join and wait -/

theorem InvAt.shifts_stopThread (h : InvAt out a s) (hstop : s.stopThread tid = some s') : Shifts s s' := by
  unfold Sched.stopThread at hstop
  obtain ⟨t, ht, rfl⟩ := Option.map_eq_some_iff.mp hstop
  refine h.shifts_dequeue ht (v := some { t with state := .zombie }) (fun t' ht' => ?_) rfl rfl rfl rfl
  rw [← Option.some.inj ht']

theorem InvAt.shifts_wakeJoiner (h : InvAt out a s) (hwake : s.wakeJoiner t = some s') : Shifts s s' := by
  unfold Sched.wakeJoiner at hwake
  split at hwake
  · cases hwake
    exact Shifts.refl s
  · obtain ⟨j, hj, hbody⟩ := Option.bind_eq_some_iff.mp hwake
    split_ifs at hbody with hjoining
    · exact h.shifts_requeue hj (by simp [hjoining]) hbody
    · cases hbody
      exact Shifts.refl s

theorem shifts_buryProcess {pid : ℕ} {p : KernelProcess} (hbury : s.buryProcess pid p = some s') :
    Shifts s s' := by
  unfold Sched.buryProcess at hbury
  obtain ⟨parent, -, h1⟩ := Option.bind_eq_some_iff.mp hbury
  obtain ⟨q, -, h2⟩ := Option.bind_eq_some_iff.mp h1
  split_ifs at h2
  cases h2
  exact (Shifts.refl s).setProcess _ _

theorem InvAt.shifts_schedExitProcess (h : InvAt out a s) (hexit : s.schedExitProcess t = some s') :
    Shifts s s' := by
  unfold Sched.schedExitProcess at hexit
  split_ifs at hexit
  obtain ⟨p, -, h1⟩ := Option.bind_eq_some_iff.mp hexit
  obtain ⟨s1, hloop, h2⟩ := Option.bind_eq_some_iff.mp h1
  obtain ⟨s2, hbury, h3⟩ := Option.bind_eq_some_iff.mp h2
  obtain ⟨main, -, h4⟩ := Option.bind_eq_some_iff.mp h3
  obtain ⟨s3, hwake, rfl⟩ := Option.map_eq_some_iff.mp h4
  have hs1 : InvAt out a s1 :=
    foldlM_invariant (InvAt out a) (fun _ _ _ hs hstep => hs.stopThread hstep) h hloop
  have hs2 := hs1.buryProcess hbury
  have hstopped : Shifts s s1 := h.shifts_foldlM (fun _ _ _ hs hstep => hs.stopThread hstep)
    (fun _ _ _ hs hstep => hs.shifts_stopThread hstep) hloop
  have hburied := hstopped.trans (shifts_buryProcess hbury) hs2
  exact (hburied.trans (hs2.shifts_wakeJoiner hwake) (hs2.wakeJoiner hwake)).setPc _

theorem shifts_threadExit (ht : s.threads s.activeThread = some t) (hexit : s.threadExit t = some s') :
    Shifts s s' := by
  unfold Sched.threadExit at hexit
  split_ifs at hexit
  cases hexit
  exact (shifts_setThread ht fun _ => rfl).setPc _

theorem InvAt.shifts_threadExitJoiner (h : InvAt out a s) (hexit : s.threadExitJoiner t = some s') :
    Shifts s s' := by
  unfold Sched.threadExitJoiner at hexit
  obtain ⟨s1, hwake, hdel⟩ := Option.bind_eq_some_iff.mp hexit
  unfold deleteActiveNode at hdel
  split_ifs at hdel
  cases hdel
  exact (h.shifts_wakeJoiner hwake).setPc _

theorem InvAt.shifts_joinClean {target : ℕ} {next : SchedPc} (h : InvAt out a s)
    (hclean : s.joinClean target next = some s') : Shifts s s' := by
  unfold Sched.joinClean at hclean
  obtain ⟨s1, hs1, rfl⟩ := Option.map_eq_some_iff.mp hclean
  exact (h.shifts_schedCleanThread hs1).setPc _

theorem shifts_joinStart {target : ℕ} (hjoin : s.joinStart target = some s') : Shifts s s' := by
  unfold Sched.joinStart at hjoin
  obtain ⟨t, -, rfl⟩ := Option.map_eq_some_iff.mp hjoin
  split_ifs
  · exact Shifts.refl s
  · exact (Shifts.refl s).setPc _

theorem InvAt.shifts_joinCheck {target : ℕ} (h : InvAt out a s) (hjoin : s.joinCheck target = some s') :
    Shifts s s' := by
  unfold Sched.joinCheck at hjoin
  obtain ⟨t, -, hbody⟩ := Option.bind_eq_some_iff.mp hjoin
  split_ifs at hbody
  · obtain ⟨s1, hs1, rfl⟩ := Option.map_eq_some_iff.mp hbody
    exact (h.shifts_schedCleanThread hs1).setPc _
  · cases hbody
    exact (Shifts.refl s).setPc _

theorem shifts_joinState {target : ℕ} (ht : s.threads s.activeThread = some t) (hrun : t.state = .running) :
    Shifts s (s.joinState t target) :=
  (shifts_setThread ht (by simp [hrun])).setPc _

theorem shifts_joinSet {target : ℕ} (hjoin : s.joinSet target = some s') : Shifts s s' := by
  unfold Sched.joinSet at hjoin
  obtain ⟨t, ht, rfl⟩ := Option.map_eq_some_iff.mp hjoin
  refine Shifts.setPc (shifts_setThread ht fun hzombie => ?_) _
  exact hzombie

theorem InvAt.shifts_schedWaitProcessPid {child : ℕ} (h : InvAt (some a) a s)
    (ht : s.threads s.activeThread = some t) (hrun : t.state = .running)
    (hwait : s.schedWaitProcessPid t child = some s') : Shifts s s' := by
  have hinv' := h.schedWaitProcessPid (h.active ▸ ht) hrun hwait
  unfold Sched.schedWaitProcessPid at hwait
  obtain ⟨p, -, h1⟩ := Option.bind_eq_some_iff.mp hwait
  split_ifs at h1
  · cases h1
    exact Shifts.refl s
  · obtain ⟨c, -, h2⟩ := Option.bind_eq_some_iff.mp h1
    obtain ⟨main, -, h3⟩ := Option.bind_eq_some_iff.mp h2
    split_ifs at h3
    · cases h3
      exact (Shifts.refl s).setPc _
    · exact h.shifts_joinClean h3
    · obtain ⟨s1, hset, rfl⟩ := Option.map_eq_some_iff.mp h3
      have hstate : Shifts s (s.setThread s.activeThread { t with state := .joining }) :=
        shifts_setThread ht (by simp [hrun])
      exact hstate.trans ((shifts_joinSet hset).setPc _) hinv'

theorem shifts_waitRemove {child : ℕ} (hwait : s.waitRemove t child = some s') : Shifts s s' := by
  unfold Sched.waitRemove at hwait
  obtain ⟨p, -, h1⟩ := Option.bind_eq_some_iff.mp hwait
  split_ifs at h1
  cases h1
  exact shifts_congr rfl (fun _ hu => hu.2) rfl le_rfl

/-! ## Steps that are no elections -/

theorem Inv.shifts_go {currentTime : ℕ} (h : Inv s) (ht : s.threads s.activeThread = some t)
    (hrun : s.leavesState (.go currentTime) = true → t.state = .running)
    (helects : s.elects (.go currentTime) = false) (hgo : s.go t currentTime = some s') : Shifts s s' := by
  unfold Sched.go at hgo
  unfold leavesState at hrun
  unfold elects at helects
  split at hgo <;> rename_i hpc <;> simp only [hpc] at hrun helects
  case h_1 => cases hgo
  case h_2 => cases helects
  case h_3 => exact InvAt.shifts_joinCheck h hgo
  case h_4 =>
    cases hgo
    exact shifts_joinState ht (hrun trivial)
  case h_5 => exact shifts_joinSet hgo
  case h_6 => cases helects
  case h_7 => exact InvAt.shifts_joinClean h hgo
  case h_8 => exact InvAt.shifts_threadExitJoiner h hgo
  case h_9 => cases helects
  case h_10 => exact InvAt.shifts_joinClean h hgo
  case h_11 =>
    obtain ⟨s1, hclean, rfl⟩ := Option.map_eq_some_iff.mp hgo
    exact (InvAt.shifts_schedCleanProcess h hclean).setPc _
  case h_12 => exact shifts_waitRemove hgo

theorem Inv.shifts_call {act : SchedAct} (h : Inv s) (ht : s.threads s.activeThread = some t)
    (hrun : s.leavesState act = true → t.state = .running) (hcall : s.call t act = some s') : Shifts s s' := by
  unfold leavesState at hrun
  cases act <;> simp only [Sched.call] at hcall <;> simp only [decide_eq_true_eq] at hrun
  case tick => cases hcall
  case sleep currTime timeMs =>
    cases hcall
    by_cases hidle : s.activeThread = idleThread
    · unfold Sched.schedSleep
      rw [if_pos hidle]
      exact Shifts.refl s
    · exact shifts_schedSleep ht (hrun hidle)
  case create => exact InvAt.shifts_schedCreateKernelThread h hcall
  case fork => exact InvAt.shifts_schedForkProcess h hcall
  case futexWait addr value val fault =>
    by_cases hblock : value = val ∧ fault ≠ some .table ∧ s.activeThread ≠ idleThread
    · exact InvAt.shifts_futexWaitThread h ht (hrun hblock) hcall
    · rw [futexWaitThread_eq_self hcall hblock]
      exact Shifts.refl s
  case futexWake => exact InvAt.shifts_futexWakeThreads h hcall
  case setPriority priority =>
    cases hcall
    exact shifts_schedSetThreadParams ht
  case join => exact shifts_joinStart hcall
  case exit => exact shifts_threadExit ht hcall
  case exitProcess => exact InvAt.shifts_schedExitProcess h hcall
  case waitpid => exact InvAt.shifts_schedWaitProcessPid h ht (hrun trivial) hcall
  case go => cases hcall

theorem Inv.shifts_step {act : SchedAct} (h : Inv s) (hguard : s.RunsElected act) (hstep : s.Step act s')
    (helects : s.elects act = false) : Shifts s s' := by
  unfold Step exec at hstep
  obtain ⟨t, ht, hact⟩ := Option.bind_eq_some_iff.mp hstep
  have hrun := fun hl => running_of_activeRunning ht (hguard hl)
  split at hact
  · cases helects
  · exact h.shifts_go ht hrun helects hact
  · split_ifs at hact
    exact h.shifts_call ht hrun hact

end Sched
end UtkKernel.Scheduler
