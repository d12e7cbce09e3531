import UtkKernel.Scheduler.Calls

/-! # The sleeping queue

An election wakes the sleeping threads from the tail of their queue on and stops at the first that is not due.
The queue is ordered by its 32-bit priorities and the test reads the 64-bit `wakeup_time`, so the threads that
are due are at the tail only while the two orders agree. -/

namespace UtkKernel.Scheduler
open Structures Sync Foundations
set_option autoImplicit false

namespace Sched

variable {s s' : Sched} {t : KernelThread} {tid currentTime : ℕ} {woken : List ℕ}

/-- The field `wakeup_time` of a thread. -/
def wakeup (s : Sched) (tid : ℕ) : ℕ := (s.threads tid).elim 0 KernelThread.wakeupTime

/-- The sleeping queue as the loop of `select_thread` finds it: the active thread is in it if it goes to
sleep. -/
def sleepingQueue (s : Sched) (t : KernelThread) : List (KqueueNode ℕ) :=
  if t.state = .sleeping then
    kqueuePushPrio ⟨s.activeThread, t.wakeupTime % 2 ^ 32⟩ s.sleepingThreadsTable
  else s.sleepingThreadsTable

/-- `wakeSleepers` with the threads that it makes ready, in this order. -/
def wakeSleepersLog (currentTime : ℕ) : ℕ → Sched → Option (Sched × List ℕ)
  | 0, s => some (s, [])
  | fuel + 1, s =>
    match kqueuePop s.sleepingThreadsTable with
    | none => some (s, [])
    | some (node, rest) =>
      match s.threads node.data with
      | none => none
      | some t =>
        if t.wakeupTime < currentTime then
          ({ s with sleepingThreadsTable := rest }.pushReady node.data t).bind fun s1 =>
            (wakeSleepersLog currentTime fuel s1).map (Prod.map id (node.data :: ·))
        else some ({ s with
          sleepingThreadsTable := kqueuePushPrio ⟨node.data, t.wakeupTime % 2 ^ 32⟩ rest }, [])

/-- `selectThread` with the sleeping threads that it makes ready, in this order. -/
def selectThreadLog (s : Sched) (currentTime : ℕ) : Option (Sched × List ℕ) :=
  (s.threads s.activeThread).bind fun t =>
    (s.enqueueActive t).bind fun s1 =>
      (wakeSleepersLog currentTime s1.sleepingThreadsTable.length s1).bind fun r =>
        r.1.elect.map fun s2 => (s2, r.2)

theorem wakeSleepersLog_fst (currentTime fuel : ℕ) (s : Sched) :
    (wakeSleepersLog currentTime fuel s).map Prod.fst = wakeSleepers currentTime fuel s := by
  induction fuel generalizing s with
  | zero => rfl
  | succ fuel ih =>
    unfold wakeSleepersLog wakeSleepers
    cases kqueuePop s.sleepingThreadsTable with
    | none => rfl
    | some popped =>
      obtain ⟨node, rest⟩ := popped
      dsimp only
      cases s.threads node.data with
      | none => rfl
      | some t =>
        dsimp only
        split_ifs
        · rw [Option.map_bind]
          refine congrArg _ (funext fun s1 => ?_)
          rw [Function.comp_apply, Option.map_map, ← ih s1]
          rfl
        · rfl

/-- The log does not change what is computed. -/
theorem selectThreadLog_fst (s : Sched) (currentTime : ℕ) :
    (s.selectThreadLog currentTime).map Prod.fst = s.selectThread currentTime := by
  unfold selectThreadLog selectThread
  rw [Option.map_bind]
  refine congrArg _ (funext fun t => ?_)
  rw [Function.comp_apply, Option.map_bind]
  refine congrArg _ (funext fun s1 => ?_)
  rw [Function.comp_apply, ← wakeSleepersLog_fst, Option.map_bind, Option.bind_map]
  refine congrArg _ (funext fun r => ?_)
  rw [Function.comp_apply, Function.comp_apply, Option.map_map]
  exact congrFun Option.map_id _

/-! ## Wake-up times stay -/

theorem wakeup_setThread (ht : s.threads tid = some t) {t' : KernelThread}
    (hwakeup : t'.wakeupTime = t.wakeupTime) : (s.setThread tid t').wakeup = s.wakeup := by
  funext u
  unfold wakeup
  by_cases hu : u = tid
  · subst hu
    change (Function.update s.threads u (some t') u).elim 0 _ = _
    rw [Function.update_self, ht]
    exact hwakeup
  · change (Function.update s.threads tid (some t') u).elim 0 _ = _
    rw [Function.update_of_ne hu]

theorem wakeup_pushReady (ht : s.threads tid = some t) (h : s.pushReady tid t = some s') :
    s'.wakeup = s.wakeup ∧ s'.sleepingThreadsTable = s.sleepingThreadsTable := by
  unfold pushReady at h
  split_ifs at h
  cases h
  exact ⟨wakeup_setThread ht rfl, rfl⟩

theorem wakeup_enqueueActive (ht : s.threads s.activeThread = some t) (h : s.enqueueActive t = some s') :
    s'.wakeup = s.wakeup ∧ s'.sleepingThreadsTable = s.sleepingQueue t := by
  unfold enqueueActive at h
  unfold sleepingQueue
  split at h
  next hstate =>
    rw [hstate]
    exact wakeup_pushReady ht h
  next hstate =>
    rw [if_pos hstate]
    split_ifs at h
    cases h
    exact ⟨rfl, rfl⟩
  next _ hsleeping =>
    rw [if_neg hsleeping]
    cases h
    exact ⟨rfl, rfl⟩

theorem wakeup_elect (h : s.elect = some s') :
    s'.wakeup = s.wakeup ∧ s'.sleepingThreadsTable = s.sleepingThreadsTable := by
  obtain ⟨r, -, hr⟩ := Option.bind_eq_some_iff.mp h
  obtain ⟨t, ht, rfl⟩ := Option.map_eq_some_iff.mp hr
  exact ⟨wakeup_setThread ht rfl, rfl⟩

/-! ## The loop -/

/-- The loop makes the threads at the tail of the queue ready, up to the first that is not due, and leaves the
others. -/
theorem wakeSleepersLog_queue {fuel : ℕ} (hfuel : s.sleepingThreadsTable.length ≤ fuel)
    (h : wakeSleepersLog currentTime fuel s = some (s', woken)) :
    s'.wakeup = s.wakeup ∧ ∃ rest, (s.sleepingThreadsTable.map KqueueNode.data).reverse = woken ++ rest ∧
      (∀ u ∈ woken, s.wakeup u < currentTime) ∧ (∀ u ∈ rest.head?, currentTime ≤ s.wakeup u) ∧
      (s'.sleepingThreadsTable.map KqueueNode.data).Perm rest := by
  induction fuel generalizing s woken with
  | zero =>
    have hnil := List.length_eq_zero_iff.mp (Nat.le_zero.mp hfuel)
    cases h
    exact ⟨rfl, [], by rw [hnil]; rfl, nofun, nofun, by rw [hnil]; rfl⟩
  | succ fuel ih =>
    unfold wakeSleepersLog at h
    split at h
    next hpop =>
      have hnil := kqueuePop_eq_none.mp hpop
      cases h
      exact ⟨rfl, [], by rw [hnil]; rfl, nofun, nofun, by rw [hnil]; rfl⟩
    next node rest hpop =>
      have hqueue := kqueuePop_eq_some hpop
      have hreverse : (s.sleepingThreadsTable.map KqueueNode.data).reverse =
          node.data :: (rest.map KqueueNode.data).reverse := by
        rw [hqueue, List.map_append, List.reverse_append]
        rfl
      split at h
      · cases h
      next t ht =>
      have hwakeup : s.wakeup node.data = t.wakeupTime := by
        unfold wakeup
        rw [ht]
        rfl
      split_ifs at h with hdue
      · obtain ⟨s1, hpush, h⟩ := Option.bind_eq_some_iff.mp h
        obtain ⟨r, hloop, hr⟩ := Option.map_eq_some_iff.mp h
        cases hr
        obtain ⟨hwake, htable⟩ := wakeup_pushReady (by exact ht) hpush
        have hwake : s1.wakeup = s.wakeup := hwake
        have hlength : s1.sleepingThreadsTable.length ≤ fuel := by
          rw [hqueue, List.length_append, List.length_singleton] at hfuel
          rw [htable]
          exact Nat.le_of_succ_le_succ hfuel
        obtain ⟨hsame, rest', hsplit, hwoken, hhead, hperm⟩ := ih hlength hloop
        rw [hwake] at hsame hwoken hhead
        rw [htable] at hsplit
        refine ⟨hsame, rest', ?_, List.forall_mem_cons.mpr ⟨hwakeup ▸ hdue, hwoken⟩, hhead, hperm⟩
        rw [hreverse, hsplit]
        rfl
      · cases h
        refine ⟨rfl, _, hreverse, nofun, fun u hu => ?_, ?_⟩
        · obtain rfl : node.data = u := Option.some.inj hu
          rw [hwakeup]
          exact not_lt.mp hdue
        · refine ((kqueuePushPrio_perm _ rest).map KqueueNode.data).trans ?_
          exact (List.reverse_perm _).symm.cons _

/-! ## Waking on time and in order -/

/-- After an election at `currentTime` that made `woken` ready: every thread that is left is not due, every
thread made ready was, and they were made ready in the order of their wake-up times. -/
structure WokenOnTime (s' : Sched) (currentTime : ℕ) (woken : List ℕ) : Prop where
  remaining : ∀ n ∈ s'.sleepingThreadsTable, currentTime ≤ s'.wakeup n.data
  due : ∀ u ∈ woken, s'.wakeup u < currentTime
  ordered : woken.Pairwise fun u v => s'.wakeup u ≤ s'.wakeup v

/-- No thread that is due is behind one with a later wake-up time in the order in which the queue is popped. -/
def DueInOrder (s : Sched) (t : KernelThread) (currentTime : ℕ) : Prop :=
  ((s.sleepingQueue t).map KqueueNode.data).reverse.Pairwise fun u v =>
    s.wakeup v < currentTime → s.wakeup u ≤ s.wakeup v

/-- A list cut at its first element that is not below a bound: what is left is not below it, and the front
rises, exactly when nothing below the bound is behind something greater. -/
theorem pairwise_due_iff {wake : ℕ → ℕ} {bound : ℕ} {front rest : List ℕ} (hfront : ∀ u ∈ front, wake u < bound)
    (hhead : ∀ u ∈ rest.head?, bound ≤ wake u) :
    ((front ++ rest).Pairwise fun u v => wake v < bound → wake u ≤ wake v) ↔
      (∀ u ∈ rest, bound ≤ wake u) ∧ front.Pairwise fun u v => wake u ≤ wake v := by
  rw [List.pairwise_append]
  constructor
  · rintro ⟨hpairs, hrest, -⟩
    refine ⟨?_, hpairs.imp_of_mem fun {u v} _ hv hle => hle (hfront v hv)⟩
    cases rest with
    | nil => exact nofun
    | cons u rest =>
      have hu : bound ≤ wake u := hhead u rfl
      refine List.forall_mem_cons.mpr ⟨hu, fun v hv => ?_⟩
      by_contra hlt
      exact hlt (hu.trans ((List.pairwise_cons.mp hrest).1 v hv (not_le.mp hlt)))
  · rintro ⟨hrest, hpairs⟩
    have hnot : ∀ v ∈ rest, ¬ wake v < bound := fun v hv => not_lt.mpr (hrest v hv)
    refine ⟨hpairs.imp_of_mem fun {u v} _ _ hle _ => hle, ?_, fun u _ v hv hlt => absurd hlt (hnot v hv)⟩
    exact List.pairwise_of_forall_mem_list fun u _ v hv hlt => absurd hlt (hnot v hv)

/-- An election wakes on time and in order exactly when the queue has the due threads in order. -/
theorem wokenOnTime_iff (ht : s.threads s.activeThread = some t)
    (h : s.selectThreadLog currentTime = some (s', woken)) :
    s'.WokenOnTime currentTime woken ↔ s.DueInOrder t currentTime := by
  obtain ⟨t', ht', h⟩ := Option.bind_eq_some_iff.mp h
  cases ht.symm.trans ht'
  obtain ⟨s1, henqueue, h⟩ := Option.bind_eq_some_iff.mp h
  obtain ⟨⟨s2, woken'⟩, hloop, h⟩ := Option.bind_eq_some_iff.mp h
  obtain ⟨s3, helect, hs3⟩ := Option.map_eq_some_iff.mp h
  cases hs3
  obtain ⟨hwake1, hqueue1⟩ := wakeup_enqueueActive ht henqueue
  obtain ⟨hwake2, rest, hsplit, hwoken, hhead, hperm⟩ := wakeSleepersLog_queue le_rfl hloop
  obtain ⟨hwake3, hqueue3⟩ := wakeup_elect helect
  have hwake : s'.wakeup = s.wakeup := hwake3.trans (hwake2.trans hwake1)
  rw [hwake1] at hwoken hhead
  unfold DueInOrder
  rw [← hqueue1, hsplit, pairwise_due_iff hwoken hhead]
  have hrest : (∀ n ∈ s'.sleepingThreadsTable, currentTime ≤ s.wakeup n.data) ↔
      ∀ u ∈ rest, currentTime ≤ s.wakeup u := by
    rw [← List.forall_mem_map (f := KqueueNode.data) (P := fun u => currentTime ≤ s.wakeup u), hqueue3]
    exact ⟨fun hall u hu => hall u (hperm.mem_iff.mpr hu), fun hall u hu => hall u (hperm.mem_iff.mp hu)⟩
  constructor
  · rintro ⟨hremaining, -, hordered⟩
    rw [hwake] at hremaining hordered
    exact ⟨hrest.mp hremaining, hordered⟩
  · rintro ⟨hremaining, hordered⟩
    rw [← hwake] at hwoken hordered
    refine ⟨?_, hwoken, hordered⟩
    rw [hwake]
    exact hrest.mpr hremaining

/-- Init creates thread 2 and sleeps for 4295 ms, until 4295000000, whose low word is 32704; thread 2 sleeps
for 1 ms from 1000000 on; the idle thread runs. -/
def sleepActs : List SchedAct :=
  [.tick 0, .create 0, .sleep 0 4295, .go 0, .sleep 1000000 1, .go 1000000]

theorem exists_asleep : ∃ s : Sched, ∃ t s', Reachable Started Step s ∧ s.threads s.activeThread = some t ∧
    s.selectThreadLog 3000000 = some (s', []) ∧ s'.sleepingThreadsTable.map KqueueNode.data = [2, 1] ∧
      s'.wakeup 2 = 2000000 := by
  have hval : (runActs exec schedInit sleepActs).bind (fun s => (s.selectThreadLog 3000000).map fun r =>
      (r.1.sleepingThreadsTable.map KqueueNode.data, r.1.wakeup 2, r.2)) = some ([2, 1], 2000000, []) := by
    decide +kernel
  obtain ⟨s, hs, hval⟩ := Option.bind_eq_some_iff.mp hval
  obtain ⟨⟨s', woken⟩, hr, hval⟩ := Option.map_eq_some_iff.mp hval
  simp only [Prod.mk.injEq] at hval
  obtain ⟨htable, hwakeup, rfl⟩ := hval
  obtain ⟨t, ht, -⟩ := Option.bind_eq_some_iff.mp hr
  have hstart : Reachable Started Step schedInit := .start rfl
  exact ⟨s, t, s', hstart.runActs (fun _ _ _ h => ⟨trivial, h⟩) hs, ht, hr, htable, hwakeup⟩

theorem wokenOnTime_asleep : ∃ s s' : Sched, ∃ t, s.threads s.activeThread = some t ∧ s'.wakeup 2 = 2000000 ∧
    (s'.WokenOnTime 3000000 [] ↔ s.DueInOrder t 3000000) := by
  obtain ⟨s, t, s', -, ht, hlog, -, hwakeup⟩ := exists_asleep
  exact ⟨s, s', t, ht, hwakeup, wokenOnTime_iff ht hlog⟩

/-- At 3000000 thread 2, which was to sleep until 2000000, sleeps on. -/
theorem sleeper_behind_low_word : ¬ ∀ s : Sched, Reachable Started Step s → ∀ currentTime s' woken,
    s.selectThreadLog currentTime = some (s', woken) → s'.WokenOnTime currentTime woken := by
  intro hclaim
  obtain ⟨s, t, s', hreach, -, hlog, htable, hwakeup⟩ := exists_asleep
  have hmem : 2 ∈ s'.sleepingThreadsTable.map KqueueNode.data := by
    rw [htable]
    exact List.mem_cons_self ..
  obtain ⟨n, hn, hdata⟩ := List.mem_map.mp hmem
  have hlate := (hclaim s hreach 3000000 s' [] hlog).remaining n hn
  rw [hdata, hwakeup] at hlate
  omega

end Sched

end UtkKernel.Scheduler
