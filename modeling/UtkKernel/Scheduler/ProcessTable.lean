import UtkKernel.Scheduler.QueueSafety

/-! # Threads and processes

Elections, wake-ups and futex calls move threads between states and queues; which threads and processes
there are, whose they are and where each thread goes on is left alone. `roll` is that part of the state, and
`Move` says once what an action can do to it. -/

namespace UtkKernel.Scheduler
open Structures Sync Foundations
set_option autoImplicit false

/-- The process of each thread, the processes, the program points and the counters. -/
structure Roll where
  home : ℕ → Option ℕ
  processes : ℕ → Option KernelProcess
  pc : ℕ → SchedPc
  lastGivenTid : ℕ
  lastGivenPid : ℕ
  threadCount : ℕ
  processCount : ℕ

namespace Roll

def setPc (r : Roll) (tid : ℕ) (next : SchedPc) : Roll :=
  { r with pc := Function.update r.pc tid next }

/-- A thread leaves its process and is freed. -/
def dropThread (r : Roll) (tid pid : ℕ) (p : KernelProcess) : Roll :=
  { r with
    home := Function.update r.home tid none
    processes := Function.update r.processes pid (some { p with threads := p.threads.erase tid }) }

end Roll

/-- The child that a point of a waitpid is about. -/
def SchedPc.child : SchedPc → Option ℕ
  | .waitYield child _ | .waitJoined child _ | .waitClean child | .waitRemove child => some child
  | _ => none

namespace Sched

def roll (s : Sched) : Roll :=
  ⟨fun tid => (s.threads tid).map KernelThread.process, s.processes, s.pc, s.lastGivenTid,
    s.lastGivenPid, s.threadCount, s.processCount⟩

variable {s s' : Sched} {a tid : ℕ} {t : KernelThread}

/-! ## What scheduling leaves alone -/

theorem roll_home (ht : s.threads tid = some t) : s.roll.home tid = some t.process := by
  simp only [roll, ht, Option.map_some]

theorem roll_setThread_home (s : Sched) (tid : ℕ) (t' : KernelThread) : (s.setThread tid t').roll =
    { s.roll with home := Function.update s.roll.home tid (some t'.process) } := by
  have hhome : (fun u => ((s.setThread tid t').threads u).map KernelThread.process) =
      Function.update s.roll.home tid (some t'.process) := by
    funext u
    by_cases hu : u = tid
    · simp [setThread, hu]
    · simp [setThread, roll, Function.update_of_ne hu]
  unfold roll at hhome ⊢
  rw [hhome]
  rfl

theorem roll_setThread (ht : s.threads tid = some t) {t' : KernelThread}
    (hprocess : t'.process = t.process) : (s.setThread tid t').roll = s.roll := by
  rw [roll_setThread_home, hprocess, ← roll_home ht, Function.update_eq_self]

theorem roll_setPc (s : Sched) (next : SchedPc) :
    (s.setPc next).roll = s.roll.setPc s.activeThread next := rfl

theorem roll_setActive (ht : s.threads s.activeThread = some t) {t' : KernelThread}
    (hprocess : t'.process = t.process) (next : SchedPc) :
    ((s.setThread s.activeThread t').setPc next).roll = s.roll.setPc s.activeThread next := by
  rw [roll_setPc, roll_setThread ht hprocess]
  rfl

theorem roll_pushReady_home (h : s.pushReady tid t = some s') :
    s'.roll = { s.roll with home := Function.update s.roll.home tid (some t.process) } := by
  obtain ⟨-, rfl⟩ := pushReady_eq_some h
  exact roll_setThread_home s tid { t with state := .ready }

theorem roll_pushReady (ht : s.threads tid = some t) {t' : KernelThread}
    (hprocess : t'.process = t.process) (h : s.pushReady tid t' = some s') : s'.roll = s.roll := by
  rw [roll_pushReady_home h, hprocess, ← roll_home ht, Function.update_eq_self]

theorem roll_enqueueActive (ht : s.threads s.activeThread = some t)
    (h : s.enqueueActive t = some s') : s'.roll = s.roll := by
  unfold enqueueActive at h
  split at h
  · exact roll_pushReady ht rfl h
  · split_ifs at h
    cases h
    rfl
  · cases h
    rfl

theorem roll_wakeSleepers {currentTime fuel : ℕ} (h : wakeSleepers currentTime fuel s = some s') :
    s'.roll = s.roll := by
  induction fuel generalizing s with
  | zero =>
    cases h
    rfl
  | succ fuel ih =>
    unfold wakeSleepers at h
    split at h
    · cases h
      rfl
    · rename_i node rest hpop
      split at h
      · cases h
      · rename_i t ht
        split_ifs at h
        · obtain ⟨s1, hpush, hrest⟩ := Option.bind_eq_some_iff.mp h
          have hpushed := roll_pushReady (s := { s with sleepingThreadsTable := rest }) ht rfl hpush
          exact (ih hrest).trans hpushed
        · cases h
          rfl

theorem roll_elect (h : s.elect = some s') : s'.roll = s.roll := by
  obtain ⟨r, -, hmap⟩ := Option.bind_eq_some_iff.mp h
  obtain ⟨t, ht, rfl⟩ := Option.map_eq_some_iff.mp hmap
  exact roll_setThread ht (by rfl)

theorem roll_selectThread {currentTime : ℕ} (h : s.selectThread currentTime = some s') :
    s'.roll = s.roll := by
  obtain ⟨t, ht, h1⟩ := Option.bind_eq_some_iff.mp h
  obtain ⟨s1, hs1, h2⟩ := Option.bind_eq_some_iff.mp h1
  obtain ⟨s2, hs2, helect⟩ := Option.bind_eq_some_iff.mp h2
  rw [roll_elect helect, roll_wakeSleepers hs2, roll_enqueueActive ht hs1]

theorem roll_schedUnlockThread {blockType : ThreadWaitType}
    (h : s.schedUnlockThread tid blockType = some s') : s'.roll = s.roll := by
  obtain ⟨t, ht, hunlock⟩ := Option.bind_eq_some_iff.mp h
  split_ifs at hunlock
  exact roll_pushReady ht rfl hunlock

theorem roll_futexWakeThreads {addr val : ℕ} {value : BitVec 32}
    (h : s.futexWakeThreads addr value val = some s') : s'.roll = s.roll := by
  unfold futexWakeThreads at h
  split at h
  refine foldlM_invariant (fun s1 => s1.roll = s.roll) (fun s1 u s2 hs1 hstep => ?_) rfl h
  obtain ⟨t, ht, hwake⟩ := Option.bind_eq_some_iff.mp hstep
  split_ifs at hwake
  have hset : (s1.setThread u { t with resources := t.resources.erase addr }).roll = s1.roll :=
    roll_setThread ht rfl
  exact (roll_schedUnlockThread hwake).trans (hset.trans hs1)

theorem roll_wakeJoiner (h : s.wakeJoiner t = some s') :
    s'.roll = s.roll ∧ s'.activeThread = s.activeThread := by
  unfold wakeJoiner at h
  split at h
  · cases h
    exact ⟨rfl, rfl⟩
  · obtain ⟨j, hj, hwake⟩ := Option.bind_eq_some_iff.mp h
    split_ifs at hwake
    · have hroll := roll_pushReady hj rfl hwake
      obtain ⟨-, rfl⟩ := pushReady_eq_some hwake
      exact ⟨hroll, rfl⟩
    · cases hwake
      exact ⟨rfl, rfl⟩

theorem roll_stopThreads {threads : List ℕ} (h : threads.foldlM stopThread s = some s') :
    s'.roll = s.roll ∧ s'.activeThread = s.activeThread := by
  refine foldlM_invariant (fun s1 => s1.roll = s.roll ∧ s1.activeThread = s.activeThread)
    (fun s1 u s2 hs1 hstep => ?_) ⟨rfl, rfl⟩ h
  obtain ⟨t, ht, rfl⟩ := Option.map_eq_some_iff.mp hstep
  have hset : (s1.setThread u { t with state := .zombie }).roll = s1.roll := roll_setThread ht rfl
  exact ⟨hset.trans hs1.1, hs1.2⟩

/-- A thread is cleaned: it was not the active one, and it leaves its process. -/
theorem roll_schedCleanThread (h : s.schedCleanThread tid = some s') :
    tid ≠ s.activeThread ∧ s'.activeThread = s.activeThread ∧ ∃ pid p, s.roll.home tid = some pid ∧
      s.processes pid = some p ∧ tid ∈ p.threads ∧ s'.roll = s.roll.dropThread tid pid p := by
  unfold schedCleanThread at h
  obtain ⟨t, ht, h1⟩ := Option.bind_eq_some_iff.mp h
  obtain ⟨b, -, h2⟩ := Option.bind_eq_some_iff.mp h1
  split_ifs at h2 with hcond
  obtain ⟨s1, hres, h3⟩ := Option.bind_eq_some_iff.mp h2
  obtain ⟨table, rfl⟩ := futexCleanup_foldlM_frame hres
  obtain ⟨p, hp, h4⟩ := Option.bind_eq_some_iff.mp h3
  split_ifs at h4 with hmem
  cases h4
  rw [not_or, not_not] at hmem
  refine ⟨fun he => hcond (.inl he), rfl, t.process, p, roll_home ht, hp, hmem.2, ?_⟩
  have hhome : (fun u => (Function.update s.threads tid none u).map KernelThread.process) =
      Function.update s.roll.home tid none := by
    funext u
    by_cases hu : u = tid
    · simp [hu]
    · simp [roll, Function.update_of_ne hu]
  simp only [roll, setProcess, Roll.dropThread] at hhome ⊢
  rw [hhome]

/-! ## What an action does -/

/-- Does the action create a thread? -/
def creates : SchedAct → Bool
  | .create priority => decide (priority ≤ kernelLowestPriority)
  | _ => false

/-- Does the action fork a process? -/
def forks (s : Sched) : SchedAct → Bool
  | .fork none => decide (s.processCount < kernelMaxProcess)
  | _ => false

/-- The process of the active thread. -/
def activeProcess (s : Sched) : Option KernelProcess :=
  (s.threads s.activeThread).bind fun t => s.processes t.process

/-- Is the process in one of the queues of the active process? -/
def hasChild (s : Sched) (child : ℕ) : Bool :=
  s.activeProcess.any fun p => decide (child ∈ p.children ∨ child ∈ p.deadChildren)

/-- The main thread of a process is joined by a thread already. -/
def mainJoined (s : Sched) (child : ℕ) : Bool :=
  (s.processes child).any fun c => (s.threads c.mainThread).any fun main => main.joiningThread.isSome

/-- The main thread of a process has ended. -/
def mainEnded (s : Sched) (child : ℕ) : Bool :=
  (s.processes child).any fun c => (s.threads c.mainThread).any fun main => decide (main.state = .zombie)

/-- The join that cleans the thread was made by the thread itself, or by a waitpid. -/
inductive Joins (s : Sched) (tid : ℕ) : SchedAct → SchedPc → Prop
  | own {currentTime : ℕ} (hpc : s.pc s.activeThread = .joinCheck tid ∨ s.pc s.activeThread = .joinClean tid) :
      Joins s tid (.go currentTime) .user
  | woken {currentTime child : ℕ} (hpc : s.pc s.activeThread = .waitJoined child tid) :
      Joins s tid (.go currentTime) (.waitClean child)
  | ended {child : ℕ} (hpc : s.pc s.activeThread = .user) (hchild : s.hasChild child = true)
      (hjoined : s.mainJoined child = false) (hended : s.mainEnded child = true) :
      Joins s tid (.waitpid child) (.waitClean child)

/-- What an action does to the roll. -/
inductive Move (s : Sched) : SchedAct → Roll → Prop
  | stay {act : SchedAct} {next : SchedPc} (hcreates : creates act = false) (hforks : s.forks act = false)
      (hexit : act ≠ .exitProcess) (hwait : ∀ child, act = .waitpid child → s.hasChild child = false)
      (hgo : ∀ currentTime, act = .go currentTime → ∀ child,
        s.pc s.activeThread ≠ .waitClean child ∧ s.pc s.activeThread ≠ .waitRemove child)
      (hnext : (next = s.pc s.activeThread ∧ ∀ currentTime, act ≠ .go currentTime) ∨
        (next.child = none ∧ (next = .exitJoiner → act = .exit)) ∨
        ∃ child main, s.pc s.activeThread = .waitYield child main ∧ next = .waitJoined child main) :
      Move s act (s.roll.setPc s.activeThread next)
  | create {priority pid : ℕ} {p : KernelProcess} (hpriority : priority ≤ kernelLowestPriority)
      (hhome : s.roll.home s.activeThread = some pid) (hp : s.processes pid = some p) :
      Move s (.create priority) { s.roll with
        home := Function.update s.roll.home s.lastGivenTid (some pid)
        processes := Function.update s.processes pid
          (some { p with threads := kqueuePush s.lastGivenTid p.threads })
        pc := Function.update s.pc s.lastGivenTid .user
        lastGivenTid := s.lastGivenTid + 1
        threadCount := s.threadCount + 1 }
  | fork {pid : ℕ} {p : KernelProcess} (hcount : s.processCount < kernelMaxProcess)
      (hhome : s.roll.home s.activeThread = some pid) (hp : s.processes pid = some p) :
      Move s (.fork none) { s.roll with
        home := Function.update s.roll.home s.lastGivenTid (some s.lastGivenPid)
        processes := Function.update (Function.update s.processes pid
          (some { p with children := kqueuePush s.lastGivenPid p.children })) s.lastGivenPid
          (some ⟨some pid, s.lastGivenTid, [s.lastGivenTid], [], []⟩)
        pc := Function.update s.pc s.lastGivenTid .user
        lastGivenTid := s.lastGivenTid + 1
        lastGivenPid := s.lastGivenPid + 1
        processCount := s.processCount + 1 }
  | failFork : Move s (.fork (some .memory)) { s.roll with lastGivenTid := s.lastGivenTid + 1 }
  | exitProcess {pid parent : ℕ} {p q : KernelProcess} (hpc : s.pc s.activeThread = .user)
      (hhome : s.roll.home s.activeThread = some pid) (hp : s.processes pid = some p)
      (hparent : p.parentProcess = some parent) (hq : s.processes parent = some q)
      (hchild : pid ∈ q.children) :
      Move s .exitProcess (Roll.setPc { s.roll with
        processes := Function.update s.processes parent (some { q with
          children := q.children.erase pid, deadChildren := kqueuePush pid q.deadChildren }) }
        s.activeThread .yield)
  | block {child main : ℕ} (hpc : s.pc s.activeThread = .user) (hchild : s.hasChild child = true)
      (hjoined : s.mainJoined child = false) :
      Move s (.waitpid child) (s.roll.setPc s.activeThread (.waitYield child main))
  | clash {child : ℕ} (hpc : s.pc s.activeThread = .user) (hchild : s.hasChild child = true)
      (hjoined : s.mainJoined child = true) :
      Move s (.waitpid child) (s.roll.setPc s.activeThread (.waitClean child))
  | cleanThread {act : SchedAct} {next : SchedPc} {tid pid : ℕ} {p : KernelProcess}
      (hjoins : s.Joins tid act next) (hne : tid ≠ s.activeThread)
      (hhome : s.roll.home tid = some pid) (hp : s.processes pid = some p) (hmem : tid ∈ p.threads) :
      Move s act ((s.roll.dropThread tid pid p).setPc s.activeThread next)
  | cleanProcess {currentTime child : ℕ} {s1 : Sched} (hpc : s.pc s.activeThread = .waitClean child)
      (hclean : s.schedCleanProcess child = some s1) :
      Move s (.go currentTime) (s1.roll.setPc s.activeThread (.waitRemove child))
  | remove {currentTime child pid : ℕ} {p : KernelProcess}
      (hpc : s.pc s.activeThread = .waitRemove child)
      (hhome : s.roll.home s.activeThread = some pid) (hp : s.processes pid = some p)
      (hdead : child ∈ p.deadChildren) :
      Move s (.go currentTime) (Roll.setPc { s.roll with
        processes := Function.update s.processes pid
          (some { p with deadChildren := p.deadChildren.erase child })
        processCount := s.processCount - 1 } s.activeThread .user)

theorem Roll.setPc_self (r : Roll) (tid : ℕ) : r.setPc tid (r.pc tid) = r := by
  unfold Roll.setPc
  rw [Function.update_eq_self]

/-- An action of another kind that leaves the roll alone, but for the point the thread goes on at. -/
theorem Move.still {act : SchedAct} (hcreates : creates act = false) (hforks : s.forks act = false)
    (hexit : act ≠ .exitProcess) (hwait : ∀ child, act = .waitpid child → s.hasChild child = false)
    (hgo : ∀ currentTime, act ≠ .go currentTime) (hroll : s'.roll = s.roll) : Move s act s'.roll := by
  have h : Move s act (s.roll.setPc s.activeThread (s.pc s.activeThread)) :=
    .stay hcreates hforks hexit hwait (fun time hact => absurd hact (hgo time)) (.inl ⟨rfl, hgo⟩)
  rw [hroll]
  rwa [show s.roll.setPc s.activeThread (s.pc s.activeThread) = s.roll from
    Roll.setPc_self s.roll s.activeThread] at h

theorem schedCleanProcess_active {pid : ℕ} (h : s.schedCleanProcess pid = some s') :
    s'.activeThread = s.activeThread ∧ s'.pc = s.pc := by
  obtain ⟨p, -, h1⟩ := Option.bind_eq_some_iff.mp h
  obtain ⟨s1, hloop, h2⟩ := Option.bind_eq_some_iff.mp h1
  obtain ⟨s2, hrep, rfl⟩ := Option.map_eq_some_iff.mp h2
  have hs1 : s1.activeThread = s.activeThread ∧ s1.pc = s.pc := by
    refine foldlM_invariant (fun s2 => s2.activeThread = s.activeThread ∧ s2.pc = s.pc)
      (fun s2 u s3 hs2 hstep => ?_) ⟨rfl, rfl⟩ hloop
    obtain ⟨-, hactive, pid, p, -, -, -, hroll⟩ := roll_schedCleanThread hstep
    exact ⟨hactive.trans hs2.1, (congrArg Roll.pc hroll).trans hs2.2⟩
  obtain ⟨q, -, hreparent⟩ := Option.bind_eq_some_iff.mp hrep
  refine foldlM_invariant (fun s2 => s2.activeThread = s.activeThread ∧ s2.pc = s.pc)
    (fun s2 u s3 hs2 hstep => ?_) hs1 hreparent
  obtain ⟨c, -, hmap⟩ := Option.bind_eq_some_iff.mp hstep
  obtain ⟨m, -, rfl⟩ := Option.map_eq_some_iff.mp hmap
  exact hs2

theorem Move.joinClean {act : SchedAct} {next : SchedPc} (hjoins : s.Joins tid act next)
    (h : s.joinClean tid next = some s') : Move s act s'.roll := by
  obtain ⟨s1, hs1, rfl⟩ := Option.map_eq_some_iff.mp h
  obtain ⟨hne, hactive, pid, p, hhome, hp, hmem, hroll⟩ := roll_schedCleanThread hs1
  rw [roll_setPc, hactive, hroll]
  exact .cleanThread hjoins hne hhome hp hmem

theorem roll_joinSet {target : ℕ} (h : s.joinSet target = some s') :
    s'.roll = s.roll.setPc s.activeThread (.joinYield target) ∧ s'.activeThread = s.activeThread := by
  obtain ⟨m, hm, rfl⟩ := Option.map_eq_some_iff.mp h
  refine ⟨?_, rfl⟩
  have hset : (s.setThread target { m with joiningThread := some s.activeThread }).roll = s.roll :=
    roll_setThread hm rfl
  rw [roll_setPc, hset]
  rfl

theorem hasChild_of (ht : s.threads s.activeThread = some t) {p : KernelProcess}
    (hp : s.processes t.process = some p) (child : ℕ) :
    s.hasChild child = decide (child ∈ p.children ∨ child ∈ p.deadChildren) := by
  simp only [hasChild, activeProcess, ht, Option.bind_some, hp, Option.any_some]

theorem exists_of_hasChild {child : ℕ} (h : s.hasChild child = true) : ∃ pid p,
    s.roll.home s.activeThread = some pid ∧ s.processes pid = some p ∧
      (child ∈ p.children ∨ child ∈ p.deadChildren) := by
  unfold hasChild at h
  cases hp : s.activeProcess with
  | none =>
    rw [hp] at h
    cases h
  | some p =>
    obtain ⟨t, ht, hpid⟩ := Option.bind_eq_some_iff.mp hp
    rw [hp, Option.any_some, decide_eq_true_eq] at h
    exact ⟨t.process, p, roll_home ht, hpid, h⟩

theorem Move.waitpid (ht : s.threads s.activeThread = some t) (hpc : s.pc s.activeThread = .user)
    {child : ℕ} (h : s.schedWaitProcessPid t child = some s') : Move s (.waitpid child) s'.roll := by
  obtain ⟨p, hp, h1⟩ := Option.bind_eq_some_iff.mp h
  have hchild := hasChild_of ht hp child
  split_ifs at h1 with hmissing
  · cases h1
    refine .still rfl rfl nofun (fun c hc => ?_) nofun rfl
    cases hc
    rw [hchild]
    exact decide_eq_false (not_or.mpr hmissing)
  · have hfound : s.hasChild child = true := by
      rw [hchild, decide_eq_true_eq]
      by_contra hno
      exact hmissing (not_or.mp hno)
    obtain ⟨c, hc, h2⟩ := Option.bind_eq_some_iff.mp h1
    obtain ⟨main, hmain, h3⟩ := Option.bind_eq_some_iff.mp h2
    have hjoined : s.mainJoined child = main.joiningThread.isSome := by
      simp only [mainJoined, hc, Option.any_some, hmain]
    split_ifs at h3 with hj hz
    · cases h3
      rw [roll_setPc]
      exact .clash hpc hfound (by rw [hjoined]; exact Option.isSome_iff_ne_none.mpr hj)
    · rw [not_not] at hj
      have hended : s.mainEnded child = true := by
        simp only [mainEnded, hc, Option.any_some, hmain, hz, decide_true]
      exact .joinClean (.ended hpc hfound (by rw [hjoined, hj]; rfl) hended) h3
    · rw [not_not] at hj
      obtain ⟨s1, hset, rfl⟩ := Option.map_eq_some_iff.mp h3
      obtain ⟨hroll, hactive⟩ := roll_joinSet hset
      have hfirst : (s.setThread s.activeThread { t with state := .joining }).roll = s.roll :=
        roll_setThread ht rfl
      have hmove : Move s (.waitpid child) (s.roll.setPc s.activeThread (.waitYield child c.mainThread)) :=
        .block hpc hfound (by rw [hjoined, hj]; rfl)
      rw [roll_setPc, hactive, hroll, hfirst]
      change Move s _ ((s.roll.setPc s.activeThread _).setPc s.activeThread _)
      simpa only [Roll.setPc, Function.update_idem] using hmove

theorem Move.of_call {act : SchedAct} (ht : s.threads s.activeThread = some t)
    (hpc : s.pc s.activeThread = .user) (h : s.call t act = some s') : Move s act s'.roll := by
  have hhome := roll_home ht
  have hquiet : ∀ (next : SchedPc) {r : Roll}, creates act = false → s.forks act = false →
      act ≠ .exitProcess → (∀ child, act ≠ .waitpid child) → (∀ time, act ≠ .go time) →
      r = s.roll.setPc s.activeThread next → next.child = none ∧ (next = .exitJoiner → act = .exit) →
      Move s act r := by
    rintro next r h1 h2 h3 h4 h5 rfl hnext
    exact .stay h1 h2 h3 (fun c hc => absurd hc (h4 c)) (fun time hc => absurd hc (h5 time)) (.inr (.inl hnext))
  cases act with
  | sleep currTime timeMs =>
    cases h
    unfold schedSleep
    split_ifs
    · exact .still rfl rfl nofun nofun nofun rfl
    · exact hquiet _ rfl rfl nofun nofun nofun (roll_setActive ht (by rfl) .yield) ⟨rfl, nofun⟩
  | create priority =>
    unfold call schedCreateKernelThread at h
    dsimp only at h
    split_ifs at h with hpriority
    · cases h
      exact .still (decide_eq_false (not_le.mpr hpriority)) rfl nofun nofun nofun rfl
    · obtain ⟨p, hp, hpush⟩ := Option.bind_eq_some_iff.mp h
      rw [roll_pushReady_home hpush]
      exact Move.create (not_lt.mp hpriority) hhome hp
  | fork fault =>
    unfold call schedForkProcess at h
    dsimp only at h
    split_ifs at h with hfull hmemory
    · cases h
      refine .still rfl ?_ nofun nofun nofun rfl
      cases fault with
      | none => exact decide_eq_false (not_lt.mpr (hfull.resolve_right nofun))
      | some _ => rfl
    · cases h
      cases hmemory
      exact Move.failFork
    · obtain ⟨p, hp, hpush⟩ := Option.bind_eq_some_iff.mp h
      obtain ⟨hcount, hfault⟩ := not_or.mp hfull
      cases fault with
      | some fault =>
        cases fault with
        | thread => exact absurd rfl hfault
        | memory => exact absurd rfl hmemory
      | none =>
        rw [roll_pushReady_home hpush]
        exact Move.fork (not_le.mp hcount) hhome hp
  | futexWait addr value val fault =>
    unfold call futexWaitThread at h
    dsimp only at h
    split at h
    · cases h
      exact .still rfl rfl nofun nofun nofun rfl
    · rename_i queue hqueue
      split_ifs at h with htable hidle hnew hresource hnew'
      · cases h
        exact .still rfl rfl nofun nofun nofun rfl
      · cases h
        exact .still rfl rfl nofun nofun nofun rfl
      · exact .still rfl rfl nofun nofun nofun
          ((roll_schedUnlockThread h).trans (roll_setThread ht (by rfl)))
      · cases h
        refine hquiet .yield rfl rfl nofun nofun nofun ?_ ⟨rfl, nofun⟩
        exact roll_setActive (s := { s with futexTable := Function.update s.futexTable addr queue }) ht
          (by rfl) .yield
  | futexWake addr value val => exact .still rfl rfl nofun nofun nofun (roll_futexWakeThreads h)
  | setPriority priority =>
    cases h
    unfold schedSetThreadParams
    split_ifs
    · exact .still rfl rfl nofun nofun nofun (roll_setThread ht (by rfl))
    · exact .still rfl rfl nofun nofun nofun rfl
  | join target =>
    obtain ⟨u, -, rfl⟩ := Option.map_eq_some_iff.mp h
    split_ifs
    · exact .still rfl rfl nofun nofun nofun rfl
    · exact hquiet _ rfl rfl nofun nofun nofun (roll_setPc s (.joinCheck target)) ⟨rfl, nofun⟩
  | exit =>
    unfold call threadExit at h
    dsimp only at h
    split_ifs at h
    cases h
    exact hquiet _ rfl rfl nofun nofun nofun (roll_setActive ht (by rfl) .exitJoiner) ⟨rfl, fun _ => rfl⟩
  | exitProcess =>
    unfold call schedExitProcess at h
    dsimp only at h
    split_ifs at h
    obtain ⟨p, hp, h1⟩ := Option.bind_eq_some_iff.mp h
    obtain ⟨s1, hstop, h2⟩ := Option.bind_eq_some_iff.mp h1
    obtain ⟨s2, hbury, h3⟩ := Option.bind_eq_some_iff.mp h2
    obtain ⟨main, hmain, h4⟩ := Option.bind_eq_some_iff.mp h3
    obtain ⟨s3, hwake, rfl⟩ := Option.map_eq_some_iff.mp h4
    obtain ⟨hroll1, hactive1⟩ := roll_stopThreads hstop
    obtain ⟨hroll3, hactive3⟩ := roll_wakeJoiner hwake
    obtain ⟨parent, hparent, h5⟩ := Option.bind_eq_some_iff.mp hbury
    obtain ⟨q, hq, h6⟩ := Option.bind_eq_some_iff.mp h5
    split_ifs at h6 with hmem
    cases h6
    have hprocesses : s1.processes = s.processes := congrArg Roll.processes hroll1
    rw [hprocesses] at hq
    have hbury : (s1.setProcess parent { q with
        children := q.children.erase t.process, deadChildren := kqueuePush t.process q.deadChildren }).roll =
        { s.roll with processes := Function.update s.processes parent (some { q with
          children := q.children.erase t.process
          deadChildren := kqueuePush t.process q.deadChildren }) } := by
      rw [← hroll1, ← hprocesses]
      rfl
    rw [roll_setPc, hroll3, hactive3, hbury]
    change Move s .exitProcess (Roll.setPc _ s1.activeThread _)
    rw [hactive1]
    exact Move.exitProcess hpc hhome hp hparent hq hmem
  | waitpid child => exact .waitpid ht hpc h
  | tick => cases h
  | go => cases h

theorem Move.of_go {currentTime : ℕ} (ht : s.threads s.activeThread = some t)
    (h : s.go t currentTime = some s') : Move s (.go currentTime) s'.roll := by
  have hquiet : ∀ (next : SchedPc) {r : Roll}, (∀ child,
      s.pc s.activeThread ≠ .waitClean child ∧ s.pc s.activeThread ≠ .waitRemove child) →
      r = s.roll.setPc s.activeThread next → ((next.child = none ∧ (next = .exitJoiner →
        SchedAct.go currentTime = .exit)) ∨ ∃ child main,
        s.pc s.activeThread = .waitYield child main ∧ next = .waitJoined child main) →
      Move s (.go currentTime) r := by
    rintro next r hpc rfl hnext
    exact .stay rfl rfl nofun nofun (fun _ _ => hpc) (.inr hnext)
  have hyield : ∀ {next : SchedPc}, s.yieldTo currentTime next = some s' →
      s'.roll = s.roll.setPc s.activeThread next := fun hy => roll_selectThread hy
  unfold go at h
  split at h
  case h_1 => cases h
  case h_2 hpc => exact hquiet _ (fun c => by simp [hpc]) (hyield h) (.inl ⟨rfl, nofun⟩)
  case h_3 target hpc =>
    obtain ⟨u, hu, h1⟩ := Option.bind_eq_some_iff.mp h
    split_ifs at h1
    · exact .joinClean (.own (.inl hpc)) h1
    · cases h1
      exact hquiet _ (fun c => by simp [hpc]) (roll_setPc s _) (.inl ⟨rfl, nofun⟩)
  case h_4 target hpc =>
    cases h
    exact hquiet _ (fun c => by simp [hpc]) (roll_setActive ht (by rfl) _) (.inl ⟨rfl, nofun⟩)
  case h_5 target hpc => exact hquiet _ (fun c => by simp [hpc]) (roll_joinSet h).1 (.inl ⟨rfl, nofun⟩)
  case h_6 target hpc => exact hquiet _ (fun c => by simp [hpc]) (hyield h) (.inl ⟨rfl, nofun⟩)
  case h_7 target hpc => exact .joinClean (.own (.inr hpc)) h
  case h_8 hpc =>
    obtain ⟨s1, hwake, h1⟩ := Option.bind_eq_some_iff.mp h
    obtain ⟨hroll, hactive⟩ := roll_wakeJoiner hwake
    unfold deleteActiveNode at h1
    split_ifs at h1
    cases h1
    refine hquiet .yield (fun c => by simp [hpc]) ?_ (.inl ⟨rfl, nofun⟩)
    rw [roll_setPc, hroll, hactive]
  case h_9 child main hpc =>
    exact hquiet _ (fun c => by simp [hpc]) (hyield h) (.inr ⟨child, main, hpc, rfl⟩)
  case h_10 child main hpc => exact .joinClean (.woken hpc) h
  case h_11 child hpc =>
    obtain ⟨s1, hclean, rfl⟩ := Option.map_eq_some_iff.mp h
    rw [roll_setPc, (schedCleanProcess_active hclean).1]
    exact .cleanProcess hpc hclean
  case h_12 child hpc =>
    obtain ⟨p, hp, h1⟩ := Option.bind_eq_some_iff.mp h
    split_ifs at h1 with hdead
    cases h1
    exact Move.remove hpc (roll_home ht) hp hdead

/-- Every action moves the roll in one of these ways. -/
theorem exec_move {act : SchedAct} (h : s.exec act = some s') : Move s act s'.roll := by
  obtain ⟨t, ht, hact⟩ := Option.bind_eq_some_iff.mp h
  split at hact
  · exact .still rfl rfl nofun nofun nofun (roll_selectThread hact)
  · exact .of_go ht hact
  · split_ifs at hact with hpc
    exact .of_call ht hpc hact

/-! ## Program points -/

theorem Roll.setPc_pc (r : Roll) (a : ℕ) (next : SchedPc) : (r.setPc a next).pc a = next :=
  Function.update_self ..

theorem Roll.setPc_of_ne (r : Roll) {a u : ℕ} (hu : u ≠ a) (next : SchedPc) :
    (r.setPc a next).pc u = r.pc u := Function.update_of_ne hu ..

/-- The threads that do not act stay where they are, but for one that is created. -/
theorem Move.pc_of_ne {act : SchedAct} {r : Roll} (h : s.Move act r) {u : ℕ} (hu : u ≠ s.activeThread) :
    r.pc u = s.pc u ∨ r.pc u = .user ∧ u = s.lastGivenTid ∧ (creates act || s.forks act) = true := by
  have hfresh : ∀ {tid : ℕ}, (Function.update s.pc tid .user u = s.pc u) ∨
      Function.update s.pc tid .user u = .user ∧ u = tid := by
    intro tid
    rw [Function.update_apply]
    split_ifs with hut
    · exact .inr ⟨rfl, hut⟩
    · exact .inl rfl
  cases h with
  | create hpriority _ _ =>
    have hcreates : creates (.create _) = true := decide_eq_true hpriority
    exact hfresh.imp_right fun hnew => ⟨hnew.1, hnew.2, by rw [hcreates]; rfl⟩
  | fork hcount _ _ =>
    have hforks : s.forks (.fork none) = true := decide_eq_true hcount
    exact hfresh.imp_right fun hnew => ⟨hnew.1, hnew.2, by rw [hforks]; rfl⟩
  | failFork => exact .inl rfl
  | @cleanProcess time child s1 hpc hclean =>
    exact .inl ((Roll.setPc_of_ne _ hu _).trans (congrFun (schedCleanProcess_active hclean).2 u))
  | _ => exact .inl (Roll.setPc_of_ne _ hu _)

/-- Where the thread that acts comes to the critical section of its exit. -/
theorem Move.pc_exitJoiner {act : SchedAct} {r : Roll} (h : s.Move act r)
    (hr : r.pc s.activeThread = .exitJoiner) :
    act = .exit ∨ s.pc s.activeThread = .exitJoiner ∧ ∀ currentTime, act ≠ .go currentTime := by
  have hfresh : ∀ {tid : ℕ}, Function.update s.pc tid .user s.activeThread = .exitJoiner →
      s.pc s.activeThread = .exitJoiner := by
    intro tid hpc
    rw [Function.update_apply] at hpc
    split_ifs at hpc
    exact hpc
  cases h with
  | stay _ _ _ _ _ hnext =>
    rw [Roll.setPc_pc] at hr
    rcases hnext with ⟨hsame, hgo⟩ | ⟨-, hexit⟩ | ⟨child, main, -, hjoined⟩
    · exact .inr ⟨hsame.symm.trans hr, hgo⟩
    · exact .inl (hexit hr)
    · rw [hjoined] at hr
      cases hr
  | create => exact .inr ⟨hfresh hr, nofun⟩
  | fork => exact .inr ⟨hfresh hr, nofun⟩
  | failFork => exact .inr ⟨hr, nofun⟩
  | cleanThread hjoins _ _ _ _ =>
    rw [Roll.setPc_pc] at hr
    subst hr
    cases hjoins
  | _ =>
    rw [Roll.setPc_pc] at hr
    cases hr

/-- A thread that is created or copied starts in its own code. -/
theorem Move.pc_new {act : SchedAct} {r : Roll} (h : s.Move act r)
    (hnew : (creates act || s.forks act) = true) : r.pc s.lastGivenTid = .user := by
  cases h with
  | stay hcreates hforks =>
    rw [hcreates, hforks] at hnew
    cases hnew
  | create => exact Function.update_self ..
  | fork => exact Function.update_self ..
  | cleanThread hjoins => cases hjoins <;> cases hnew
  | _ => cases hnew

theorem pc_of_call {act : SchedAct} (h : s.exec act = some s') (htick : ∀ currentTime, act ≠ .tick currentTime)
    (hgo : ∀ currentTime, act ≠ .go currentTime) : s.pc s.activeThread = .user := by
  obtain ⟨t, ht, hact⟩ := Option.bind_eq_some_iff.mp h
  split at hact
  · exact absurd rfl (htick _)
  · exact absurd rfl (hgo _)
  · split_ifs at hact with hpc
    exact hpc

/-- Which threads have still to run the critical section of their exit after an action other than the call
of `thread_exit`. -/
theorem pc_exitJoiner_iff {act : SchedAct} (h : s.exec act = some s') (hexit : act ≠ .exit) {u : ℕ}
    (hnew : ¬ (u = s.lastGivenTid ∧ (creates act || s.forks act) = true)) :
    s'.pc u = .exitJoiner ↔
      s.pc u = .exitJoiner ∧ ¬ (u = s.activeThread ∧ ∃ currentTime, act = .go currentTime) := by
  have hm := exec_move h
  by_cases hu : u = s.activeThread
  · subst hu
    constructor
    · intro hpc
      obtain ⟨hold, hgo⟩ := (hm.pc_exitJoiner hpc).resolve_left hexit
      exact ⟨hold, fun hand => hand.2.elim hgo⟩
    · rintro ⟨hold, hgo⟩
      by_cases htick : ∃ time, act = .tick time
      · obtain ⟨time, rfl⟩ := htick
        obtain ⟨t, ht, hact⟩ := Option.bind_eq_some_iff.mp h
        have hroll : s'.roll = s.roll := roll_selectThread hact
        rw [← hold]
        exact congrFun (congrArg Roll.pc hroll) s.activeThread
      · have huser := pc_of_call h (fun time he => htick ⟨time, he⟩) fun time he => hgo ⟨rfl, time, he⟩
        rw [huser] at hold
        cases hold
  · have hsame : s'.pc u = s.pc u := (hm.pc_of_ne hu).resolve_right fun hand => hnew hand.2
    rw [hsame]
    exact ⟨fun hpc => ⟨hpc, fun hand => hu hand.1⟩, And.left⟩

end Sched

end UtkKernel.Scheduler
