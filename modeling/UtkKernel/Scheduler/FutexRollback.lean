import UtkKernel.Scheduler.Calls
import UtkKernel.Scheduler.FutexCalls

/-! # Errors on the way to a wait

`futex_recover` takes back what it finds in `recover_data_t`. That is all there is only where the insertion in the
table fails: a failed lock is reported as no error, and a failed registration of the resource puts a thread that was
running in a ready queue. -/

namespace UtkKernel.Scheduler
open Structures Foundations Sync
set_option autoImplicit false

namespace FutexState

variable {s s' s1 : FutexState} {virt phys node tid : ℕ} {value val : BitVec 32} {setErr err : OsReturnE}
  {resource : Option ℕ} {contents : WaitList} {d : RecoverData} {entry : Option (Option WaitList)}

/-- The table with its queues, the calling thread with its resources, and how often it stands in the ready queues are
as they were. -/
structure RolledBack (s s' : FutexState) : Prop where
  table : s'.table = s.table
  thread : s'.threads s.activeThread = s.threads s.activeThread
  ready (p : ℕ) : (s'.activeThreadsTable p).count s.activeThread = (s.activeThreadsTable p).count s.activeThread

/-- Some step of the wait fails: the insertion in the table, the lock of the thread or the registration of its
resource. -/
def ErrorArises (s : FutexState) (phys : ℕ) (setErr : OsReturnE) (resource : Option ℕ) : Prop :=
  s.table phys = none ∧ setErr ≠ .osNoErr ∨ s.activeThread = idleThread ∨ resource = none

/-! ## The ready queues over a recovery -/

theorem recoverNode_ready (h : s.recoverNode phys d = some s') : s'.activeThreadsTable = s.activeThreadsTable := by
  unfold recoverNode at h
  cases hnode : d.createdWaitNode with
  | none =>
    rw [hnode] at h
    exact congrArg activeThreadsTable (Option.some.inj h).symm
  | some node =>
    rw [hnode] at h
    obtain ⟨q, -, hq⟩ := Option.bind_eq_some_iff.mp h
    obtain ⟨q', -, rfl⟩ := Option.map_eq_some_iff.mp hq
    rfl

theorem recoverTable_ready (h : s.recoverTable virt d = some s') : s'.activeThreadsTable = s.activeThreadsTable := by
  unfold recoverTable at h
  by_cases htable : d.futexTable = true
  · rw [if_pos htable] at h
    by_cases hnone : s.table virt = none
    · rw [if_pos hnone] at h
      exact nomatch h
    · rw [if_neg hnone] at h
      obtain rfl := Option.some.inj h
      rfl
  · rw [if_neg htable] at h
    exact congrArg activeThreadsTable (Option.some.inj h).symm

theorem recoverQueue_ready (h : s.recoverQueue phys contents d = some s') :
    s'.activeThreadsTable = s.activeThreadsTable := by
  unfold recoverQueue at h
  by_cases hqueue : d.createdFutexQueue = true
  · rw [if_pos hqueue] at h
    by_cases hnodes : contents.nodes = []
    · rw [if_pos hnodes] at h
      have hs' := congrArg activeThreadsTable (Option.some.inj h).symm
      rw [hs']
      split <;> rfl
    · rw [if_neg hnodes] at h
      exact nomatch h
  · rw [if_neg hqueue] at h
    exact congrArg activeThreadsTable (Option.some.inj h).symm

/-- A thread that is unlocked stands in one more ready queue. -/
theorem schedUnlockThread_count {blockType : ThreadWaitType} (h : s.schedUnlockThread tid blockType = some s') :
    ∃ p, (s'.activeThreadsTable p).count tid = (s.activeThreadsTable p).count tid + 1 := by
  unfold schedUnlockThread at h
  obtain ⟨t, -, ht⟩ := Option.bind_eq_some_iff.mp h
  split at ht
  · exact nomatch ht
  · refine ⟨t.priority, ?_⟩
    have hs' := congrArg activeThreadsTable (Option.some.inj ht).symm
    rw [hs']
    change (Function.update s.activeThreadsTable t.priority (tid :: s.activeThreadsTable t.priority) t.priority).count
      tid = _
    rw [Function.update_self, List.count_cons_self]

/-- A recovery that unlocks a thread leaves it in one more ready queue. -/
theorem futexRecover_count (hlocked : d.lockedThread = some tid) (hres : d.createdResNode = none)
    (h : s.futexRecover virt phys d = some s') :
    ∃ p, (s'.activeThreadsTable p).count tid = (s.activeThreadsTable p).count tid + 1 := by
  unfold futexRecover at h
  obtain ⟨s1, h1, h⟩ := Option.bind_eq_some_iff.mp h
  obtain ⟨s2, h2, h⟩ := Option.bind_eq_some_iff.mp h
  obtain ⟨s3, h3, h⟩ := Option.bind_eq_some_iff.mp h
  obtain ⟨s4, h4, h5⟩ := Option.bind_eq_some_iff.mp h
  have hs1 : s1 = s := by
    unfold recoverResource at h1
    rw [hres] at h1
    exact (Option.some.inj h1).symm
  unfold recoverThread at h3
  rw [hlocked] at h3
  obtain ⟨p, hp⟩ := schedUnlockThread_count h3
  exact ⟨p, by rw [recoverQueue_ready h5, recoverTable_ready h4, hp, recoverNode_ready h2, hs1]⟩

/-! ## Failures behind the insertion -/

/-- From the lock of the thread on, a failure is reported as no error or leaves the thread in one more ready
queue. -/
theorem blockOn_not_ready (hfails : s.activeThread = idleThread ∨ resource = none) (hd : d.createdResNode = none)
    (h : s.blockOn virt phys val node resource d = some (.returned err, s')) :
    err = .osNoErr ∨
      ∃ p, (s'.activeThreadsTable p).count s.activeThread = (s.activeThreadsTable p).count s.activeThread + 1 := by
  unfold blockOn at h
  obtain ⟨⟨locked, s1⟩, hlock, h⟩ := Option.bind_eq_some_iff.mp h
  unfold schedLockThread at hlock
  by_cases hidle : s.activeThread = idleThread
  · rw [if_pos hidle] at hlock
    obtain ⟨rfl, rfl⟩ := Prod.mk.inj (Option.some.inj hlock)
    obtain ⟨s2, -, h⟩ := Option.bind_eq_some_iff.mp h
    obtain ⟨hresult, -⟩ := Prod.mk.inj (Option.some.inj h)
    exact .inl (WaitResult.returned.inj hresult).symm
  · rw [if_neg hidle] at hlock
    obtain ⟨t, ht, hpair⟩ := Option.map_eq_some_iff.mp hlock
    obtain ⟨rfl, rfl⟩ := Prod.mk.inj hpair
    obtain ⟨q, -, h⟩ := Option.bind_eq_some_iff.mp h
    obtain rfl := hfails.resolve_left hidle
    dsimp only at h
    split at h
    · obtain ⟨⟨err', s2⟩, hadd, h⟩ := Option.bind_eq_some_iff.mp h
      obtain ⟨rfl, rfl⟩ := Prod.mk.inj (Option.some.inj hadd)
      rw [if_pos (show OsReturnE.osErrMalloc ≠ .osNoErr by decide)] at h
      obtain ⟨s3, hrecover, h⟩ := Option.bind_eq_some_iff.mp h
      obtain ⟨-, rfl⟩ := Prod.mk.inj (Option.some.inj h)
      have hres : { d with lockedThread := some s.activeThread, createdWaitNode := some node }.createdResNode = none := hd
      obtain ⟨p, hp⟩ := futexRecover_count rfl hres hrecover
      exact .inr ⟨p, hp⟩
    · exact nomatch h

theorem not_rolledBack_of_blockOn (hfails : s.activeThread = idleThread ∨ resource = none)
    (hd : d.createdResNode = none) (hactive : s.activeThread = s1.activeThread)
    (hready : s.activeThreadsTable = s1.activeThreadsTable) :
    ¬∃ err s', s.blockOn virt phys val node resource d = some (.returned err, s') ∧ err ≠ .osNoErr ∧
      s1.RolledBack s' := by
  rintro ⟨err, s', h, herr, hback⟩
  obtain hno | ⟨p, hp⟩ := blockOn_not_ready hfails hd h
  · exact herr hno
  · rw [hactive, hready, hback.ready p] at hp
    omega

/-! ## The whole call -/

/-- A wait that fails takes everything back and reports the error if and only if it fails in the insertion. -/
theorem rollsBack_iff (hval : value = val) (herr : s.ErrorArises phys setErr resource) :
    (∃ err s', s.futexWait virt phys value val setErr node resource = some (.returned err, s') ∧ err ≠ .osNoErr ∧
      s.RolledBack s') ↔ s.table phys = none ∧ setErr ≠ .osNoErr := by
  unfold futexWait
  rw [if_neg (not_not_intro hval)]
  cases htable : s.table phys with
  | some entry =>
    have hfails := herr.resolve_left fun h => Option.some_ne_none _ (htable.symm.trans h.1)
    exact iff_of_false (not_rolledBack_of_blockOn hfails rfl rfl rfl) fun h => nomatch h.1
  | none =>
    dsimp only
    by_cases hset : setErr = .osNoErr
    · rw [if_neg (not_not_intro hset)]
      have hfails := herr.resolve_left fun h => h.2 hset
      exact iff_of_false (not_rolledBack_of_blockOn hfails rfl rfl rfl) fun h => h.2 hset
    · rw [if_pos hset]
      have hrecover : s.futexRecover virt phys ⟨true, false, none, none, none⟩ = some s := by
        change s.recoverQueue phys ((s.table phys).join.getD WaitList.empty) ⟨true, false, none, none, none⟩ = some s
        unfold recoverQueue
        rw [htable]
        rfl
      rw [hrecover]
      exact iff_of_true ⟨setErr, s, rfl, hset, rfl, rfl, fun _ => rfl⟩ ⟨rfl, hset⟩

/-! ## The first wait on an address -/

/-- The threads of the scheduler and an empty table. -/
def ofThreads (r : Sched) : FutexState where
  table := fun _ => none
  threads := r.threads
  activeThreadsTable := r.activeThreadsTable
  activeThread := r.activeThread

/-- No memory for the entry. -/
theorem rollsBack_iff_no_entry :
    ∃ err s', (ofThreads Sched.schedInit).futexWait 0x2000 0x1000 7 7 .osErrMalloc 1 (some 2) =
      some (.returned err, s') ∧ err ≠ .osNoErr ∧ (ofThreads Sched.schedInit).RolledBack s' :=
  (rollsBack_iff rfl (.inl ⟨rfl, by decide⟩)).mpr ⟨rfl, by decide⟩

/-- No memory for the resource of the first thread that waits on an address: the entry is there under the physical
address, the recovery asks for it under the virtual one and panics. -/
theorem unregistered_wait_not_rolledBack : ∃ r : Sched, Reachable Sched.Started Sched.Step r ∧
    r.activeThread ≠ idleThread ∧ (ofThreads r).ErrorArises 0x1000 .osNoErr none ∧
    ¬∃ err s', (ofThreads r).futexWait 0x2000 0x1000 7 7 .osNoErr 1 none = some (.returned err, s') ∧
      err ≠ .osNoErr ∧ (ofThreads r).RolledBack s' := by
  have hval : (runActs Sched.exec Sched.schedInit [.tick 0]).map (fun r =>
      (decide (r.activeThread ≠ idleThread), ((ofThreads r).futexWait 0x2000 0x1000 7 7 .osNoErr 1 none).isNone)) =
        some (true, true) := by decide +kernel
  obtain ⟨r, hr, hpair⟩ := Option.map_eq_some_iff.mp hval
  obtain ⟨hactive, hnone⟩ := Prod.mk.inj hpair
  have hstart : Reachable Sched.Started Sched.Step Sched.schedInit := .start rfl
  refine ⟨r, hstart.runActs (fun _ _ _ h => ⟨trivial, h⟩) hr, of_decide_eq_true hactive, .inr (.inr rfl), ?_⟩
  rintro ⟨err, s', hsome, -⟩
  rw [hsome] at hnone
  exact nomatch hnone

end FutexState
end UtkKernel.Scheduler
