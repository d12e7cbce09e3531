import Mathlib.Data.List.TakeWhile
import UtkKernel.Scheduler.QueueOrder
import UtkKernel.Scheduler.Sleepers

/-! # Priorities and turns

An election takes the tail of the first ready queue that is not empty. It makes the active thread ready if that
runs, and the sleeping threads that it finds due, up to the first that is not. As long as none of the threads that
it does not find due is more urgent than all others, the elected thread has the most urgent priority and nobody
has been ready for longer; and while the same threads are runnable at that priority, they take turns. -/

namespace UtkKernel.Scheduler
open Structures Sync Foundations
set_option autoImplicit false

namespace Sched

variable {s s' s1 s2 : Sched} {out : Option ℕ} {a tid currentTime : ℕ} {t : KernelThread} {woken L L' : List ℕ}

/-! ## Who can be elected -/

/-- The thread is ready with this priority. -/
def ReadyAt (s : Sched) (p tid : ℕ) : Prop :=
  ∃ t, s.threads tid = some t ∧ t.priority = p ∧ t.state = .ready

/-- The thread has this priority and is ready, or runs, or sleeps and is due. -/
def Runnable (s : Sched) (currentTime p tid : ℕ) : Prop :=
  ∃ t, s.threads tid = some t ∧ t.priority = p ∧ (t.state = .ready ∨
    t.state = .running ∧ tid = s.activeThread ∨ t.state = .sleeping ∧ t.wakeupTime < currentTime)

/-- The sleeping threads that the loop of `select_thread` pops before one that is not due. -/
def dueFront (s : Sched) (t : KernelThread) (currentTime : ℕ) : List ℕ :=
  ((s.sleepingQueue t).map KqueueNode.data).reverse.takeWhile fun u => decide (s.wakeup u < currentTime)

/-- The threads that an election makes ready, in this order. -/
def risers (s : Sched) (currentTime : ℕ) : List ℕ :=
  (s.threads s.activeThread).elim [] fun t =>
    (if t.state = .running then [s.activeThread] else []) ++ s.dueFront t currentTime

/-- The thread has this priority and is ready, or is made ready by the election. -/
def Electable (s : Sched) (currentTime p tid : ℕ) : Prop :=
  ∃ t, s.threads tid = some t ∧ t.priority = p ∧ (t.state = .ready ∨ tid ∈ s.risers currentTime)

/-- A runnable thread that the election does not find is less urgent than one that it finds. -/
def DueServed (s : Sched) (currentTime : ℕ) : Prop :=
  ∀ q tid, s.Runnable currentTime q tid →
    s.Electable currentTime q tid ∨ ∃ p u, p < q ∧ s.Electable currentTime p u

def hasPriority (s : Sched) (p tid : ℕ) : Bool := decide ((s.threads tid).map KernelThread.priority = some p)

/-! ## The threads that an election makes ready -/

/-- The threads of `L` become ready, one after the other. -/
structure Roused (L : List ℕ) (s s' : Sched) : Prop where
  active : s'.activeThread = s.activeThread
  threads (u : ℕ) : s'.threads u =
    if u ∈ L then (s.threads u).map fun t => { t with state := .ready } else s.threads u
  queue (p : ℕ) : s'.activeThreadsTable p = (L.filter (s.hasPriority p)).reverse ++ s.activeThreadsTable p

theorem Roused.hasPriority (h : Roused L s s') (p u : ℕ) : s'.hasPriority p u = s.hasPriority p u := by
  unfold Sched.hasPriority
  rw [h.threads]
  split_ifs
  · rw [Option.map_map]
    rfl
  · rfl

theorem roused_nil (hactive : s'.activeThread = s.activeThread) (hthreads : s'.threads = s.threads)
    (hready : s'.activeThreadsTable = s.activeThreadsTable) : Roused [] s s' :=
  ⟨hactive, fun u => congrFun hthreads u, fun p => congrFun hready p⟩

theorem Roused.trans (h : Roused L s s1) (h' : Roused L' s1 s') : Roused (L ++ L') s s' := by
  refine ⟨h'.active.trans h.active, fun u => ?_, fun p => ?_⟩
  · rw [h'.threads, h.threads]
    by_cases hu : u ∈ L
    · rw [if_pos hu, if_pos (List.mem_append_left _ hu), Option.map_map]
      exact ite_self _
    · have hmem : u ∈ L ++ L' ↔ u ∈ L' := by
        rw [List.mem_append]
        exact or_iff_right hu
      rw [if_neg hu]
      simp only [hmem]
  · have hfilter : L'.filter (s1.hasPriority p) = L'.filter (s.hasPriority p) :=
      List.filter_congr fun u _ => h.hasPriority p u
    rw [h'.queue, h.queue, hfilter, List.filter_append, List.reverse_append, List.append_assoc]

theorem roused_pushReady (ht : s.threads tid = some t) (hpush : s.pushReady tid t = some s') :
    Roused [tid] s s' := by
  obtain ⟨-, rfl⟩ := pushReady_eq_some hpush
  refine ⟨rfl, fun u => ?_, fun p => ?_⟩
  · change Function.update s.threads tid _ u = _
    by_cases hu : u = tid
    · subst hu
      rw [Function.update_self, if_pos (List.mem_singleton_self u), ht]
      rfl
    · rw [Function.update_of_ne hu, if_neg (fun hmem => hu (List.mem_singleton.mp hmem))]
  · change Function.update s.activeThreadsTable t.priority _ p = _
    have hpriority : s.hasPriority p tid = decide (t.priority = p) := by
      unfold Sched.hasPriority
      rw [ht, Option.map_some]
      exact decide_eq_decide.mpr Option.some_inj
    by_cases hp : p = t.priority
    · subst hp
      rw [Function.update_self, List.filter_cons_of_pos (by rw [hpriority]; exact decide_eq_true rfl)]
      rfl
    · rw [Function.update_of_ne hp,
        List.filter_cons_of_neg (by rw [hpriority, decide_eq_true_eq]; exact fun heq => hp heq.symm)]
      rfl

theorem roused_enqueueActive (ht : s.threads s.activeThread = some t) (henq : s.enqueueActive t = some s') :
    Roused (if t.state = .running then [s.activeThread] else []) s s' := by
  unfold Sched.enqueueActive at henq
  split at henq
  next hrun =>
    rw [if_pos hrun]
    exact roused_pushReady ht henq
  next hsleep =>
    rw [if_neg (by rw [hsleep]; exact nofun)]
    split_ifs at henq
    cases henq
    exact roused_nil rfl rfl rfl
  next hrun _ =>
    rw [if_neg hrun]
    cases henq
    exact roused_nil rfl rfl rfl

theorem roused_wakeSleepersLog {fuel : ℕ} (hwake : wakeSleepersLog currentTime fuel s = some (s', woken)) :
    Roused woken s s' := by
  induction fuel generalizing s woken with
  | zero =>
    cases hwake
    exact roused_nil rfl rfl rfl
  | succ fuel ih =>
    unfold wakeSleepersLog at hwake
    split at hwake
    next =>
      cases hwake
      exact roused_nil rfl rfl rfl
    next node rest hpop =>
      split at hwake
      · cases hwake
      next t ht =>
      split_ifs at hwake
      · obtain ⟨s1, hpush, hrest⟩ := Option.bind_eq_some_iff.mp hwake
        obtain ⟨⟨s2, woken'⟩, hloop, hpair⟩ := Option.map_eq_some_iff.mp hrest
        obtain ⟨rfl, rfl⟩ := Prod.mk.inj hpair
        have hfirst : Roused [] s { s with sleepingThreadsTable := rest } := roused_nil rfl rfl rfl
        have hpushed : Roused [node.data] { s with sleepingThreadsTable := rest } s1 := roused_pushReady ht hpush
        exact (hfirst.trans hpushed).trans (ih hloop)
      · cases hwake
        exact roused_nil rfl rfl rfl

theorem takeWhile_split {α : Type} {p : α → Bool} {front rest : List α} (hfront : ∀ u ∈ front, p u = true)
    (hrest : ∀ u ∈ rest.head?, p u = false) : (front ++ rest).takeWhile p = front := by
  rw [List.takeWhile_append_of_pos hfront]
  cases rest with
  | nil => exact List.append_nil front
  | cons u rest =>
    rw [List.takeWhile_cons_of_neg (by rw [hrest u rfl]; exact Bool.false_ne_true), List.append_nil]

/-! ## An election -/

/-- An election of a thread of priority `p` from the queues `lineup`. -/
structure Election (s : Sched) (currentTime : ℕ) (s' : Sched) (p : ℕ) (lineup : ℕ → List ℕ) : Prop where
  arrivals (q : ℕ) : lineup q =
    ((s.risers currentTime).filter (s.hasPriority q)).reverse ++ s.activeThreadsTable q
  nodup (q : ℕ) : (lineup q).Nodup
  mem (q u : ℕ) : u ∈ lineup q ↔ s.Electable currentTime q u
  above (q : ℕ) : q < p → lineup q = []
  last : lineup p = s'.activeThreadsTable p ++ [s'.activeThread]
  others (q : ℕ) : q ≠ p → s'.activeThreadsTable q = lineup q

theorem electFrom_above {table : ℕ → List ℕ} {n i p q : ℕ} {rest : List ℕ}
    (h : electFrom table n i = some (p, tid, rest)) (hi : i ≤ q) (hq : q < p) : table q = [] := by
  induction n generalizing i with
  | zero => cases h
  | succ n ih =>
    unfold electFrom at h
    split at h
    next hpop =>
      cases h
      omega
    next hpop =>
      rcases Nat.eq_or_lt_of_le hi with rfl | hlt
      · exact kqueuePop_eq_none.mp hpop
      · exact ih h hlt

theorem InvAt.roused_iff (h : InvAt out a s') (hroused : Roused L s s') (q u : ℕ) :
    u ∈ s'.activeThreadsTable q ↔
      ∃ t, s.threads u = some t ∧ t.priority = q ∧ (t.state = .ready ∨ u ∈ L) := by
  rw [h.ready, hroused.threads]
  by_cases hu : u ∈ L
  · rw [if_pos hu]
    constructor
    · rintro ⟨v, hv, -, hq⟩
      obtain ⟨t, ht, rfl⟩ := Option.map_eq_some_iff.mp hv
      exact ⟨t, ht, hq, .inr hu⟩
    · rintro ⟨t, ht, hq, -⟩
      exact ⟨_, Option.map_eq_some_iff.mpr ⟨t, ht, rfl⟩, rfl, hq⟩
  · rw [if_neg hu]
    constructor
    · rintro ⟨t, ht, hready, hq⟩
      exact ⟨t, ht, hq, .inl hready⟩
    · rintro ⟨t, ht, hq, hready⟩
      exact ⟨t, ht, hready.resolve_right hu, hq⟩

theorem Inv.election (h : Inv s) (hselect : s.selectThread currentTime = some s') :
    ∃ p lineup, s.Election currentTime s' p lineup := by
  rw [← selectThreadLog_fst] at hselect
  obtain ⟨⟨s3, woken⟩, hlog, rfl⟩ := Option.map_eq_some_iff.mp hselect
  obtain ⟨t, ht, hlog⟩ := Option.bind_eq_some_iff.mp hlog
  obtain ⟨s1, henq, hlog⟩ := Option.bind_eq_some_iff.mp hlog
  obtain ⟨⟨s2, woken'⟩, hwake, hlog⟩ := Option.bind_eq_some_iff.mp hlog
  obtain ⟨s4, helect, hs4⟩ := Option.map_eq_some_iff.mp hlog
  obtain ⟨rfl, rfl⟩ := Prod.mk.inj hs4
  have hinv1 : InvAt none s.activeThread s1 := InvAt.enqueueActive h ht henq
  have hwakeFst : wakeSleepers currentTime s1.sleepingThreadsTable.length s1 = some s2 := by
    rw [← wakeSleepersLog_fst, hwake]
    rfl
  have hinv2 : InvAt none s.activeThread s2 := hinv1.wakeSleepers hwakeFst
  have hfront : woken' = s.dueFront t currentTime := by
    obtain ⟨hwakeup, hqueue⟩ := wakeup_enqueueActive ht henq
    obtain ⟨-, rest, hsplit, hdue, hhead, -⟩ := wakeSleepersLog_queue le_rfl hwake
    rw [hwakeup] at hdue hhead
    unfold dueFront
    rw [← hqueue, hsplit]
    exact (takeWhile_split (fun u hu => decide_eq_true (hdue u hu))
      fun u hu => decide_eq_false (not_lt.mpr (hhead u hu))).symm
  have hroused : Roused (s.risers currentTime) s s2 := by
    have hrisers : s.risers currentTime =
        (if t.state = .running then [s.activeThread] else []) ++ s.dueFront t currentTime := by
      unfold risers
      rw [ht]
      rfl
    rw [hrisers, ← hfront]
    exact (roused_enqueueActive ht henq).trans (roused_wakeSleepersLog hwake)
  obtain ⟨⟨p, tid, rest⟩, hfrom, hmap⟩ := Option.bind_eq_some_iff.mp helect
  obtain ⟨v, hv, rfl⟩ := Option.map_eq_some_iff.mp hmap
  have hpop := kqueuePop_eq_some (electFrom_eq_some hfrom)
  refine ⟨p, s2.activeThreadsTable, hroused.queue, hinv2.readyNodup, hinv2.roused_iff hroused,
    fun q hq => electFrom_above hfrom (Nat.zero_le q) hq, ?_, fun q hq => ?_⟩
  · change _ = Function.update s2.activeThreadsTable p rest p ++ [tid]
    rw [Function.update_self]
    exact hpop
  · exact Function.update_of_ne hq ..

theorem Inv.sleeping_of_queue (h : Inv s) (ht : s.threads s.activeThread = some t) {u : ℕ}
    (hu : u ∈ (s.sleepingQueue t).map KqueueNode.data) {v : KernelThread} (hv : s.threads u = some v) :
    v.state = .sleeping := by
  have hqueued : u ∈ s.sleepers → v.state = .sleeping := by
    intro hmem
    obtain ⟨v', hv', hsleep, -⟩ := (InvAt.sleeping h u).mp hmem
    rw [hv, Option.some.injEq] at hv'
    exact hv' ▸ hsleep
  unfold sleepingQueue at hu
  split_ifs at hu with hsleep
  · obtain ⟨n, hn, rfl⟩ := List.mem_map.mp hu
    rcases mem_kqueuePushPrio.mp hn with rfl | hn
    · rw [ht, Option.some.injEq] at hv
      exact hv ▸ hsleep
    · exact hqueued (List.mem_map_of_mem hn)
  · exact hqueued hu

theorem Inv.riser (h : Inv s) {u : ℕ} (hu : u ∈ s.risers currentTime) {v : KernelThread}
    (hv : s.threads u = some v) :
    v.state = .running ∧ u = s.activeThread ∨ v.state = .sleeping ∧ v.wakeupTime < currentTime := by
  unfold risers at hu
  cases ht : s.threads s.activeThread with
  | none =>
    rw [ht] at hu
    exact nomatch hu
  | some t =>
    rw [ht] at hu
    rcases List.mem_append.mp hu with hu | hu
    · split_ifs at hu with hrun
      · obtain rfl := List.mem_singleton.mp hu
        rw [ht, Option.some.injEq] at hv
        exact .inl ⟨hv ▸ hrun, rfl⟩
      · exact nomatch hu
    · unfold dueFront at hu
      have hmem := List.mem_reverse.mp (List.takeWhile_subset _ hu)
      have hdue : s.wakeup u < currentTime := by simpa using List.mem_takeWhile_imp hu
      unfold wakeup at hdue
      rw [hv] at hdue
      exact .inr ⟨h.sleeping_of_queue ht hmem hv, hdue⟩

/-- Who can be elected is runnable. -/
theorem Inv.runnable (h : Inv s) {p u : ℕ} (hu : s.Electable currentTime p u) : s.Runnable currentTime p u := by
  obtain ⟨v, hv, hp, hready | hriser⟩ := hu
  · exact ⟨v, hv, hp, .inl hready⟩
  · exact ⟨v, hv, hp, .inr (h.riser hriser hv)⟩

variable {p : ℕ} {lineup : ℕ → List ℕ}

theorem Election.elected_mem (h : s.Election currentTime s' p lineup) : s'.activeThread ∈ lineup p := by
  rw [h.last]
  exact List.mem_append_right _ (List.mem_singleton_self _)

theorem Election.le_of_electable (h : s.Election currentTime s' p lineup) {q u : ℕ}
    (hu : s.Electable currentTime q u) : p ≤ q := by
  by_contra hlt
  have hmem := (h.mem q u).mpr hu
  rw [h.above q (not_le.mp hlt)] at hmem
  exact nomatch hmem

/-- Nobody who is runnable is more urgent than the elected thread. -/
theorem Election.le_of_runnable (h : s.Election currentTime s' p lineup) (hdue : s.DueServed currentTime) {q u : ℕ}
    (hu : s.Runnable currentTime q u) : p ≤ q := by
  obtain hfound | ⟨r, w, hrq, hw⟩ := hdue q u hu
  · exact h.le_of_electable hfound
  · exact (h.le_of_electable hw).trans hrq.le

/-- All that are runnable with the priority of the elected thread could be elected. -/
theorem Election.electable (h : s.Election currentTime s' p lineup) (hdue : s.DueServed currentTime) {u : ℕ}
    (hu : s.Runnable currentTime p u) : s.Electable currentTime p u := by
  obtain hfound | ⟨r, w, hrp, hw⟩ := hdue p u hu
  · exact hfound
  · exact absurd (h.le_of_electable hw) (not_le.mpr hrp)

theorem Election.shifted (h : s.Election currentTime s' p lineup) (q : ℕ) :
    Shifted (s.activeThreadsTable q) (s'.activeThreadsTable q) := by
  have hnodup := h.nodup q
  have hlineup := h.arrivals q
  rw [hlineup] at hnodup
  have hnew := (List.nodup_append.mp hnodup).2.2
  have hdisjoint : ∀ u ∈ ((s.risers currentTime).filter (s.hasPriority q)).reverse,
      u ∉ s.activeThreadsTable q := fun u hu hmem => hnew u hu u hmem rfl
  by_cases hq : q = p
  · have hrest : s'.activeThreadsTable q = (lineup q).dropLast := by
      rw [hq, h.last, List.dropLast_concat]
    rw [hrest, hlineup]
    exact shifted_dropLast hdisjoint
  · rw [h.others q hq, hlineup]
    exact shifted_append hdisjoint

/-- From a queue that is not empty its last is elected. -/
theorem Election.last_of_ne_nil (h : s.Election currentTime s' p lineup) (hne : s.activeThreadsTable p ≠ []) :
    s.activeThreadsTable p = (s.activeThreadsTable p).dropLast ++ [s'.activeThread] := by
  have hlast := h.last
  rw [h.arrivals p] at hlast
  have hgetLast := congrArg List.getLast? hlast
  rw [List.getLast?_append_of_ne_nil _ hne, List.getLast?_concat] at hgetLast
  exact (List.dropLast_append_getLast? _ hgetLast).symm

/-- From an empty queue the first of its threads that are made ready is elected. -/
theorem Election.first_riser (h : s.Election currentTime s' p lineup) (hnil : s.activeThreadsTable p = []) :
    ((s.risers currentTime).filter (s.hasPriority p)).head? = some s'.activeThread := by
  have hlast := congrArg List.reverse h.last
  rw [h.arrivals p, hnil, List.append_nil, List.reverse_reverse, List.reverse_append] at hlast
  rw [hlast]
  rfl

/-! ## Runs -/

/-- The time of an election. -/
def SchedAct.time : SchedAct → ℕ
  | .tick currentTime | .go currentTime => currentTime
  | _ => 0

/-- A run of `n` steps from the start whose threads leave their state in the one they were elected in, and in
which no election misses a thread that is due and as urgent as any it finds. -/
structure PromptRun (σ : ℕ → Sched) (act : ℕ → SchedAct) (n : ℕ) : Prop where
  start : Started (σ 0)
  step (i : ℕ) : i < n → (σ i).Step (act i) (σ (i + 1))
  elected (i : ℕ) : i < n → (σ i).RunsElected (act i)
  due (i : ℕ) : i < n → (σ i).elects (act i) = true → (σ i).DueServed (act i).time

/-- Step `i` elects at a time a thread of the most urgent priority of all that are runnable, and one that is ready
for as long as any other of that priority; if none was ready yet, it is the first that the election makes ready. -/
def ElectsOldest (σ : ℕ → Sched) (currentTime i : ℕ) : Prop :=
  ∃ p, (σ i).Runnable currentTime p (σ (i + 1)).activeThread ∧
    (∀ q u, (σ i).Runnable currentTime q u → p ≤ q) ∧
    (∀ u, ∀ j ≤ i, (∀ k, j ≤ k → k ≤ i → (σ k).ReadyAt p u) →
      ∀ k, j ≤ k → k ≤ i → (σ k).ReadyAt p (σ (i + 1)).activeThread) ∧
    ((∀ u, ¬(σ i).ReadyAt p u) →
      (((σ i).risers currentTime).filter ((σ i).hasPriority p)).head? = some (σ (i + 1)).activeThread)

/-- Consecutive elections, at the steps `e 0`, `e 1`, ..., one for each member of `T`, before each of which `T`
are the runnable threads of the most urgent priority. -/
structure Turn (σ : ℕ → Sched) (act : ℕ → SchedAct) (n : ℕ) (e : ℕ → ℕ) (p : ℕ) (T : Finset ℕ) : Prop where
  bound (i : ℕ) : i < T.card → e i < n
  elects (i : ℕ) : i < T.card → (σ (e i)).elects (act (e i)) = true
  runnable (i : ℕ) : i < T.card → ∀ u, u ∈ T ↔ (σ (e i)).Runnable (act (e i)).time p u
  urgent (i : ℕ) : i < T.card → ∀ q u, (σ (e i)).Runnable (act (e i)).time q u → p ≤ q
  rising (i : ℕ) : i + 1 < T.card → e i < e (i + 1)
  consecutive (i : ℕ) : i + 1 < T.card → ∀ k, e i < k → k < e (i + 1) → (σ k).elects (act k) = false

/-- Every election takes the oldest of the most urgent, and in every turn each member is elected once. -/
structure InTurn (σ : ℕ → Sched) (act : ℕ → SchedAct) (n : ℕ) : Prop where
  oldest (i : ℕ) : i < n → (σ i).elects (act i) = true → ElectsOldest σ (act i).time i
  once (e : ℕ → ℕ) (p : ℕ) (T : Finset ℕ) : Turn σ act n e p T →
    ∀ u ∈ T, ∃! i, i < T.card ∧ (σ (e i + 1)).activeThread = u

variable {σ : ℕ → Sched} {act : ℕ → SchedAct} {n : ℕ}

theorem PromptRun.inv (h : PromptRun σ act n) {i : ℕ} (hi : i ≤ n) : Inv (σ i) := by
  induction i with
  | zero =>
    have hstart := h.start
    unfold Started at hstart
    rw [hstart]
    exact inv_schedInit
  | succ i ih => exact (ih (Nat.le_of_succ_le hi)).step (h.elected i hi) (h.step i hi)

/-- An election is one of the scheduler, from a state that differs in where the active thread goes on. -/
theorem Inv.election_of_step {act : SchedAct} (h : Inv s) (hstep : s.Step act s') (helects : s.elects act = true) :
    ∃ p lineup, s.Election act.time s' p lineup := by
  unfold Step exec at hstep
  obtain ⟨t, ht, hact⟩ := Option.bind_eq_some_iff.mp hstep
  have hyield : ∀ {currentTime : ℕ} {next : SchedPc}, s.yieldTo currentTime next = some s' →
      ∃ p lineup, s.Election currentTime s' p lineup := by
    intro currentTime next hyield
    obtain ⟨p, lineup, helection⟩ := (h.setPc next).election hyield
    exact ⟨p, lineup, helection.arrivals, helection.nodup, helection.mem, helection.above, helection.last,
      helection.others⟩
  unfold elects at helects
  split at helects
  · exact h.election hact
  · unfold Sched.go at hact
    split at helects <;> rename_i hpc <;> simp only [hpc] at hact
    · exact hyield hact
    · exact hyield hact
    · exact hyield hact
    · cases helects
  · cases helects

/-- Over any step the ready queues shift. -/
theorem PromptRun.shifted (h : PromptRun σ act n) {i : ℕ} (hi : i < n) (p : ℕ) :
    Shifted ((σ i).activeThreadsTable p) ((σ (i + 1)).activeThreadsTable p) := by
  have hinv := h.inv hi.le
  cases helects : (σ i).elects (act i) with
  | false => exact (hinv.shifts_step (h.elected i hi) (h.step i hi) helects).queue p
  | true =>
    obtain ⟨r, lineup, helection⟩ := hinv.election_of_step (h.step i hi) helects
    exact helection.shifted p

theorem InvAt.readyAt_iff (h : InvAt out a s) {p u : ℕ} : s.ReadyAt p u ↔ u ∈ s.activeThreadsTable p := by
  rw [h.ready]
  constructor
  · rintro ⟨t, ht, hp, hr⟩
    exact ⟨t, ht, hr, hp⟩
  · rintro ⟨t, ht, hr, hp⟩
    exact ⟨t, ht, hp, hr⟩

theorem PromptRun.electsOldest (h : PromptRun σ act n) {i : ℕ} (hi : i < n)
    (helects : (σ i).elects (act i) = true) : ElectsOldest σ (act i).time i := by
  have hready : ∀ k ≤ i, ∀ p u, (σ k).ReadyAt p u ↔ u ∈ (σ k).activeThreadsTable p :=
    fun k hk p u => (h.inv (hk.trans hi.le)).readyAt_iff
  have hinv := h.inv hi.le
  have hdue := h.due i hi helects
  obtain ⟨p, lineup, helection⟩ := hinv.election_of_step (h.step i hi) helects
  refine ⟨p, hinv.runnable ((helection.mem p _).mp helection.elected_mem),
    fun q u hu => helection.le_of_runnable hdue hu, fun u j hj hu => ?_, fun hnone => ?_⟩
  · have hmem := (hready i le_rfl p u).mp (hu i hj le_rfl)
    have hlast := helection.last_of_ne_nil (List.ne_nil_of_mem hmem)
    have hstay := last_of_shifted hj (fun k _ hk => h.shifted (hk.trans hi) p) hlast
      fun k hjk hki => (hready k hki p u).mp (hu k hjk hki)
    exact fun k hjk hki => (hready k hki p _).mpr (hstay k hjk hki)
  · refine helection.first_riser (List.eq_nil_iff_forall_not_mem.mpr fun u hu => ?_)
    exact hnone u ((hready i le_rfl p u).mpr hu)

/-- Between two elections. -/
theorem PromptRun.shifts (h : PromptRun σ act n) {i j : ℕ} (hij : i ≤ j) (hj : j ≤ n)
    (hquiet : ∀ k, i ≤ k → k < j → (σ k).elects (act k) = false) : Shifts (σ i) (σ j) := by
  induction j, hij using Nat.le_induction with
  | base => exact Shifts.refl _
  | succ j hij ih =>
    have hstep := (h.inv (Nat.le_of_succ_le hj)).shifts_step (h.elected j hj) (h.step j hj)
      (hquiet j hij (Nat.lt_succ_self j))
    exact (ih (Nat.le_of_succ_le hj) fun k hik hkj => hquiet k hik (hkj.trans (Nat.lt_succ_self j))).trans hstep
      (h.inv hj)

theorem Ended.not_runnable {u p : ℕ} (h : s.Ended u) : ¬s.Runnable currentTime p u := by
  rintro ⟨t, ht, -, hstate⟩
  rw [h.2 t ht] at hstate
  obtain hready | ⟨hrun, -⟩ | ⟨hsleep, -⟩ := hstate
  · exact nomatch hready
  · exact nomatch hrun
  · exact nomatch hsleep

variable {e : ℕ → ℕ} {T : Finset ℕ}

/-- Each election of a turn is one from a queue that holds the members. -/
theorem Turn.election (ht : Turn σ act n e p T) (h : PromptRun σ act n) {i : ℕ} (hi : i < T.card) :
    ∃ lineup, (σ (e i)).Election (act (e i)).time (σ (e i + 1)) p lineup ∧ ∀ u, u ∈ lineup p ↔ u ∈ T := by
  have hbound := ht.bound i hi
  have hinv := h.inv hbound.le
  have hdue := h.due (e i) hbound (ht.elects i hi)
  obtain ⟨r, lineup, helection⟩ := hinv.election_of_step (h.step (e i) hbound) (ht.elects i hi)
  obtain ⟨u, hu⟩ := Finset.card_pos.mp (Nat.zero_lt_of_lt hi)
  have hrp : r ≤ p := helection.le_of_runnable hdue ((ht.runnable i hi u).mp hu)
  have hpr : p ≤ r :=
    ht.urgent i hi r _ (hinv.runnable ((helection.mem r _).mp helection.elected_mem))
  obtain rfl := le_antisymm hrp hpr
  refine ⟨lineup, helection, fun w => ?_⟩
  rw [helection.mem, ht.runnable i hi]
  exact ⟨hinv.runnable, helection.electable hdue⟩

/-- From one election of a turn to the next the elected thread goes from the last place to the first. -/
theorem Turn.rotates (ht : Turn σ act n e p T) (h : PromptRun σ act n) {i : ℕ} (hi : i + 1 < T.card)
    {lineup lineup' : ℕ → List ℕ}
    (h1 : (σ (e i)).Election (act (e i)).time (σ (e i + 1)) p lineup) (hmem : ∀ u, u ∈ lineup p ↔ u ∈ T)
    (h2 : (σ (e (i + 1))).Election (act (e (i + 1))).time (σ (e (i + 1) + 1)) p lineup')
    (hmem' : ∀ u, u ∈ lineup' p ↔ u ∈ T) :
    lineup' p = (σ (e i + 1)).activeThread :: (lineup p).dropLast := by
  have hshifts : Shifts (σ (e i + 1)) (σ (e (i + 1))) :=
    h.shifts (ht.rising i hi) (ht.bound (i + 1) hi).le fun k hk => ht.consecutive i hi k hk
  have hperm : (lineup' p).Perm (lineup p) :=
    (List.perm_ext_iff_of_nodup (h2.nodup p) (h1.nodup p)).mpr fun u => (hmem' u).trans (hmem u).symm
  have hdrop : (lineup p).dropLast = (σ (e i + 1)).activeThreadsTable p := by
    rw [h1.last, List.dropLast_concat]
  have hnodup := h1.nodup p
  rw [h1.last] at hperm hnodup
  rw [hdrop, h2.arrivals p]
  rw [h2.arrivals p] at hperm
  refine (hshifts.queue p).rotated hnodup (fun u hu => ?_) hperm
  by_contra hleft
  have hT : u ∈ T := (hmem u).mp (by rw [h1.last]; exact List.mem_append_left _ hu)
  exact (hshifts.left p u hu hleft).not_runnable ((ht.runnable (i + 1) hi u).mp hT)

theorem Turn.once (ht : Turn σ act n e p T) (h : PromptRun σ act n) :
    ∀ u ∈ T, ∃! i, i < T.card ∧ (σ (e i + 1)).activeThread = u := by
  intro u hu
  have hlineups : ∀ i, ∃ lineup, i < T.card →
      (σ (e i)).Election (act (e i)).time (σ (e i + 1)) p lineup ∧ ∀ u, u ∈ lineup p ↔ u ∈ T := by
    intro i
    by_cases hi : i < T.card
    · obtain ⟨lineup, hlineup⟩ := ht.election h hi
      exact ⟨lineup, fun _ => hlineup⟩
    · exact ⟨fun _ => [], fun hi' => absurd hi' hi⟩
  choose lineup hlineup using hlineups
  have hpos : 0 < T.card := Finset.card_pos.mpr ⟨u, hu⟩
  obtain ⟨h0, hmem0⟩ := hlineup 0 hpos
  have hlength : (lineup 0 p).length = T.card := by
    have hperm : (lineup 0 p).Perm T.toList :=
      (List.perm_ext_iff_of_nodup (h0.nodup p) T.nodup_toList).mpr fun w => (hmem0 w).trans Finset.mem_toList.symm
    rw [hperm.length_eq, Finset.length_toList]
  rw [← hlength]
  refine rotation_once (L := fun i => lineup i p) (h0.nodup p) (fun i hi => ?_) (fun i hi => ?_)
    ((hmem0 u).mpr hu)
  · change i < (lineup 0 p).length at hi
    rw [hlength] at hi
    rw [(hlineup i hi).1.last, List.dropLast_concat]
  · change i + 1 < (lineup 0 p).length at hi
    rw [hlength] at hi
    obtain ⟨h1, hmem1⟩ := hlineup i (Nat.lt_of_succ_lt hi)
    obtain ⟨h2, hmem2⟩ := hlineup (i + 1) hi
    exact ht.rotates h hi h1 hmem1 h2 hmem2

theorem PromptRun.inTurn (h : PromptRun σ act n) : InTurn σ act n :=
  ⟨fun _ hi helects => h.electsOldest hi helects, fun _ _ _ ht => ht.once h⟩

/-! ## Runs of both kinds -/

/-- The states of the run of some actions from the start. -/
def actsRun (acts : List SchedAct) (i : ℕ) : Sched := (runActs exec schedInit (acts.take i)).getD schedInit

theorem runActs_append {s : Sched} {as bs : List SchedAct} :
    runActs exec s (as ++ bs) = (runActs exec s as).bind fun s' => runActs exec s' bs := by
  induction as generalizing s with
  | nil => rfl
  | cons a as ih =>
    rw [List.cons_append, runActs, runActs, Option.bind_assoc]
    exact congrArg _ (funext fun s' => ih)

theorem actsRun_step {acts : List SchedAct} (hsome : (runActs exec schedInit acts).isSome = true) {i : ℕ}
    (hi : i < acts.length) : (actsRun acts i).Step (acts.getD i (.go 0)) (actsRun acts (i + 1)) := by
  have htake : ∀ k, ∃ s, runActs exec schedInit (acts.take k) = some s := by
    intro k
    obtain ⟨s, hs⟩ := Option.isSome_iff_exists.mp hsome
    rw [← List.take_append_drop k acts, runActs_append] at hs
    obtain ⟨s', hs', -⟩ := Option.bind_eq_some_iff.mp hs
    exact ⟨s', hs'⟩
  obtain ⟨s, hs⟩ := htake i
  obtain ⟨s', hs'⟩ := htake (i + 1)
  have hget : acts.take (i + 1) = acts.take i ++ [acts.getD i (.go 0)] := by
    rw [List.take_add_one, List.getD_eq_getElem?_getD, List.getElem?_eq_getElem hi]
    rfl
  have hnext := hs'
  rw [hget, runActs_append, hs, Option.bind_some] at hnext
  obtain ⟨s1, hexec, hs1⟩ := Option.bind_eq_some_iff.mp hnext
  unfold Step actsRun
  rw [hs, hs']
  exact hexec.trans hs1

/-- When nobody sleeps, an election misses nobody. -/
theorem Inv.dueServed (h : Inv s) (hawake : ∀ u < s.lastGivenTid, (s.threads u).all fun t => decide (t.state ≠ .sleeping)) :
    s.DueServed currentTime := by
  rintro q u ⟨t, ht, hq, hready | ⟨hrun, rfl⟩ | ⟨hsleep, -⟩⟩
  · exact .inl ⟨t, ht, hq, .inl hready⟩
  · refine .inl ⟨t, ht, hq, .inr ?_⟩
    unfold risers
    rw [ht]
    change s.activeThread ∈ (if t.state = .running then [s.activeThread] else []) ++ _
    rw [if_pos hrun]
    exact List.mem_append_left _ (List.mem_singleton_self _)
  · have hall := hawake u (InvAt.given h u t ht)
    rw [ht, Option.all_some, decide_eq_true_eq] at hall
    exact absurd hsleep hall

instance (s : Sched) (currentTime p tid : ℕ) : Decidable (s.Runnable currentTime p tid) :=
  decidable_of_iff ((s.threads tid).any fun t => decide (t.priority = p ∧ (t.state = .ready ∨
    t.state = .running ∧ tid = s.activeThread ∨ t.state = .sleeping ∧ t.wakeupTime < currentTime)) = true) (by
      rw [Option.any_eq_true]
      simp only [decide_eq_true_eq]
      rfl)

/-- Init creates a thread of its priority, and the two take turns. -/
def turnActs : List SchedAct := [.tick 0, .create 0, .tick 0, .tick 0]

theorem promptRun_turnActs : PromptRun (actsRun turnActs) (fun i => turnActs.getD i (.go 0)) 4 := by
  have hsome : (runActs exec schedInit turnActs).isSome = true := by decide +kernel
  have hstep : ∀ i < 4, (actsRun turnActs i).Step (turnActs.getD i (.go 0)) (actsRun turnActs (i + 1)) :=
    fun i hi => actsRun_step hsome hi
  have helected : ∀ i < 4, (actsRun turnActs i).RunsElected (turnActs.getD i (.go 0)) := by decide +kernel
  have hawake : ∀ i < 4, ∀ u < (actsRun turnActs i).lastGivenTid,
      ((actsRun turnActs i).threads u).all fun t => decide (t.state ≠ .sleeping) := by decide +kernel
  have hinv : ∀ i ≤ 4, Inv (actsRun turnActs i) := by
    intro i hi
    induction i with
    | zero => exact inv_schedInit
    | succ i ih => exact (ih (Nat.le_of_succ_le hi)).step (helected i hi) (hstep i hi)
  exact ⟨rfl, hstep, helected, fun i hi _ => (hinv i hi.le).dueServed (hawake i hi)⟩

theorem turn_turnActs : Turn (actsRun turnActs) (fun i => turnActs.getD i (.go 0)) 4 (fun i => i + 2) 0 {1, 2} := by
  have hgiven : ∀ i < 2, (actsRun turnActs (i + 2)).lastGivenTid = 3 := by decide +kernel
  have hmembers : ∀ i < 2, ∀ u < 3, u ∈ ({1, 2} : Finset ℕ) ↔ (actsRun turnActs (i + 2)).Runnable 0 0 u := by
    decide +kernel
  have htime : ∀ i < 2, (turnActs.getD (i + 2) (.go 0)).time = 0 := by decide
  refine ⟨fun i hi => Nat.add_lt_add_right hi 2, ?_, fun i hi u => ?_, fun _ _ _ _ _ => Nat.zero_le _,
    fun i _ => Nat.lt_succ_self (i + 2), fun i _ k h1 h2 => absurd h1 (by omega)⟩
  · change ∀ i < 2, _
    decide +kernel
  · have hinv := promptRun_turnActs.inv (Nat.add_lt_add_right hi 2).le
    rw [htime i hi]
    by_cases hu : u < 3
    · exact hmembers i hi u hu
    · have hmem : u ∉ ({1, 2} : Finset ℕ) := by
        simp only [Finset.mem_insert, Finset.mem_singleton]
        omega
      refine iff_of_false hmem fun ⟨t, ht, _⟩ => hu ?_
      have hlt := InvAt.given hinv u t ht
      rwa [hgiven i hi] at hlt

theorem inTurn_turnActs : InTurn (actsRun turnActs) (fun i => turnActs.getD i (.go 0)) 4 ∧
    Turn (actsRun turnActs) (fun i => turnActs.getD i (.go 0)) 4 (fun i => i + 2) 0 {1, 2} :=
  ⟨promptRun_turnActs.inTurn, turn_turnActs⟩

def lateActs : List SchedAct := sleepActs ++ [SchedAct.tick 3000000]

/-- Thread 2 of `sleepActs`, of the most urgent priority, is due at 3000000, and the idle thread is elected. -/
theorem due_thread_not_elected : ¬∀ (σ : ℕ → Sched) (act : ℕ → SchedAct) (n : ℕ), Started (σ 0) →
    (∀ i < n, (σ i).Step (act i) (σ (i + 1))) → InTurn σ act n := by
  intro hclaim
  have hsome : (runActs exec schedInit lateActs).isSome = true := by decide +kernel
  have hturn := hclaim (actsRun lateActs) (fun i => lateActs.getD i (.go 0)) 7 rfl
    fun i hi => actsRun_step hsome hi
  obtain ⟨p, helected, hurgent, -⟩ := hturn.oldest 6 (by decide) (by decide)
  have hdue : (actsRun lateActs 6).Runnable 3000000 0 2 := by decide +kernel
  obtain rfl : p = 0 := Nat.le_zero.mp (hurgent 0 2 hdue)
  revert helected
  decide +kernel

end Sched
end UtkKernel.Scheduler
