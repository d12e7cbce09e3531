import UtkKernel.Memory.System
import UtkKernel.Scheduler.JoinView

/-! # The identity of a futex

`futex_wait` and `futex_wake` look a futex up by the physical address of its word. A thread that waits stays in
the queue of the address its word had then, and a wake goes through the queue of the address its word has now:
these are the threads that wait on the word as long as no process shares the frame of its copy with another. -/

namespace UtkKernel.Scheduler
open Structures Sync Foundations Memory
set_option autoImplicit false

namespace Sched

variable {s s' : Sched} {tid addr : ℕ} {t : KernelThread} {woken : List ℕ}

/-! ## Waiting threads and their keys -/

/-- The queues of the futexes hold the threads that wait, each under the one key it has registered, but for
the threads of `woken`, which have left the queue of `addr` and wait still. -/
structure Keyed (addr : ℕ) (woken : List ℕ) (s : Sched) : Prop where
  resources : ∀ u t, s.threads u = some t →
    t.state ≠ .waiting ∧ t.resources = [] ∨ t.state = .waiting ∧ ∃ k, t.resources = [k]
  queued : ∀ k u, (u ∈ waiting (s.futexTable k) ∨ k = addr ∧ u ∈ woken) ↔
    ∃ t, s.threads u = some t ∧ k ∈ t.resources
  nodup : ∀ k, (waiting (s.futexTable k)).Nodup
  wokenNodup : (woken ++ waiting (s.futexTable addr)).Nodup

/-- What the invariant reads of a thread. -/
def waitsFor (t : KernelThread) : Bool × List ℕ := (decide (t.state = .waiting), t.resources)

theorem overlooks_waitsFor : Overlooks waitsFor := by
  intro t x ht hx
  have hnot : ∀ y : ThreadState, y.electable = true → decide (y = .waiting) = false := by
    intro y hy
    cases y <;> first | rfl | cases hy
  show (decide (x = .waiting), t.resources) = (decide (t.state = .waiting), t.resources)
  rw [hnot x hx, hnot t.state ht]

theorem Keyed.of_nil (h : Keyed addr [] s) (addr' : ℕ) : Keyed addr' [] s := by
  refine ⟨h.resources, fun k u => ?_, h.nodup, ?_⟩
  · rw [← h.queued k u]
    simp only [List.not_mem_nil, and_false, or_false]
  · exact h.nodup addr'

theorem exists_of_map_eq {x y : Option KernelThread} (h : y.map waitsFor = x.map waitsFor)
    (hy : y = some t) : ∃ v, x = some v ∧ (v.state = .waiting ↔ t.state = .waiting) ∧
      v.resources = t.resources := by
  rw [hy, Option.map_some] at h
  obtain ⟨v, hv, hview⟩ := Option.map_eq_some_iff.mp h.symm
  obtain ⟨hstate, hresources⟩ := Prod.mk.inj hview
  exact ⟨v, hv, decide_eq_decide.mp hstate, hresources⟩

/-- The threads read the same and the table is the same. -/
theorem Keyed.congr (h : Keyed addr woken s)
    (hview : ∀ u, (s'.threads u).map waitsFor = (s.threads u).map waitsFor)
    (htable : s'.futexTable = s.futexTable) : Keyed addr woken s' := by
  refine ⟨fun u t ht => ?_, fun k u => ?_, ?_, ?_⟩
  · obtain ⟨v, hv, hstate, hres⟩ := exists_of_map_eq (hview u) ht
    rw [← hres, ne_eq, ← hstate]
    exact h.resources u v hv
  · rw [htable, h.queued k u]
    constructor
    · rintro ⟨t, ht, hk⟩
      obtain ⟨v, hv, -, hres⟩ := exists_of_map_eq (hview u).symm ht
      exact ⟨v, hv, hres ▸ hk⟩
    · rintro ⟨t, ht, hk⟩
      obtain ⟨v, hv, -, hres⟩ := exists_of_map_eq (hview u) ht
      exact ⟨v, hv, hres ▸ hk⟩
  · rw [htable]
    exact h.nodup
  · rw [htable]
    exact h.wokenNodup

theorem Keyed.reordered (h : Keyed addr woken s) (hr : Reordered waitsFor s s') : Keyed addr woken s' := by
  obtain ⟨threads, ready, sleeping, active, rfl, hview⟩ := hr
  exact h.congr hview rfl

/-- A thread that is not there yet does not wait. -/
theorem Keyed.fresh (h : Keyed addr woken s) (ht : s.threads tid = none)
    (hthreads : s'.threads = Function.update s.threads tid (some t)) (hres : t.resources = [])
    (hstate : t.state ≠ .waiting) (htable : s'.futexTable = s.futexTable) : Keyed addr woken s' := by
  refine ⟨fun u v hu => ?_, fun k u => ?_, ?_, ?_⟩
  · rw [hthreads] at hu
    by_cases hut : u = tid
    · rw [hut, Function.update_self] at hu
      cases hu
      exact .inl ⟨hstate, hres⟩
    · rw [Function.update_of_ne hut] at hu
      exact h.resources u v hu
  · rw [htable, h.queued k u, hthreads]
    by_cases hut : u = tid
    · subst hut
      rw [Function.update_self, ht]
      refine iff_of_false ?_ ?_
      · rintro ⟨v, hv, -⟩
        cases hv
      · rintro ⟨v, hv, hk⟩
        cases hv
        rw [hres] at hk
        cases hk
    · rw [Function.update_of_ne hut]
  · rw [htable]
    exact h.nodup
  · rw [htable]
    exact h.wokenNodup

/-! ## Wait and wake -/

/-- A woken thread gives its key back and is ready. -/
theorem wakeWaiter_eq_some (h : wakeWaiter addr s tid = some s') : ∃ t ready, s.threads tid = some t ∧
    addr ∈ t.resources ∧ s' = { s with
      threads := Function.update s.threads tid
        (some { t with resources := t.resources.erase addr, state := .ready })
      activeThreadsTable := ready } := by
  unfold wakeWaiter at h
  obtain ⟨t, ht, hbody⟩ := Option.bind_eq_some_iff.mp h
  split_ifs at hbody with hmem
  unfold schedUnlockThread at hbody
  obtain ⟨t', ht', hpush⟩ := Option.bind_eq_some_iff.mp hbody
  split_ifs at hpush
  change Function.update s.threads tid (some _) tid = some t' at ht'
  rw [Function.update_self] at ht'
  cases ht'
  obtain ⟨-, rfl⟩ := pushReady_eq_some hpush
  refine ⟨t, Function.update s.activeThreadsTable t.priority (tid :: s.activeThreadsTable t.priority), ht,
    hmem, ?_⟩
  unfold setThread
  dsimp only
  rw [Function.update_idem]

theorem Keyed.wakeWaiter (h : Keyed addr (tid :: woken) s) (hwake : Sched.wakeWaiter addr s tid = some s') :
    Keyed addr woken s' := by
  obtain ⟨t, ready, ht, hmem, rfl⟩ := wakeWaiter_eq_some hwake
  have hres : t.resources.erase addr = [] := by
    obtain ⟨-, hnil⟩ | ⟨-, k, hk⟩ := h.resources tid t ht
    · rw [hnil] at hmem
      cases hmem
    · rw [hk, List.mem_singleton] at hmem
      rw [hk, hmem, List.erase_cons_head]
  have hnodup := h.wokenNodup
  rw [List.cons_append, List.nodup_cons, List.mem_append, not_or] at hnodup
  refine ⟨fun u v hu => ?_, fun k u => ?_, h.nodup, hnodup.2⟩
  · change Function.update s.threads tid _ u = some v at hu
    by_cases hut : u = tid
    · rw [hut, Function.update_self] at hu
      cases hu
      exact .inl ⟨nofun, hres⟩
    · rw [Function.update_of_ne hut] at hu
      exact h.resources u v hu
  · have hold := h.queued k u
    show (u ∈ waiting (s.futexTable k) ∨ k = addr ∧ u ∈ woken) ↔
      ∃ v, Function.update s.threads tid _ u = some v ∧ k ∈ v.resources
    by_cases hut : u = tid
    · subst hut
      rw [Function.update_self]
      refine iff_of_false ?_ ?_
      · rintro (hqueue | ⟨-, hwoken⟩)
        · obtain ⟨v, hv, hk⟩ := hold.mp (.inl hqueue)
          rw [ht] at hv
          cases hv
          -- its only key is the one it is woken at
          obtain ⟨-, hnil⟩ | ⟨-, k', hk'⟩ := h.resources u t ht
          · rw [hnil] at hk
            cases hk
          · rw [hk', List.mem_singleton] at hk hmem
            rw [hk, ← hmem] at hqueue
            exact hnodup.1.2 hqueue
        · exact hnodup.1.1 hwoken
      · rintro ⟨v, hv, hk⟩
        cases hv
        dsimp only at hk
        rw [hres] at hk
        cases hk
    · rw [Function.update_of_ne hut, ← hold, List.mem_cons]
      simp only [hut, false_or]

theorem Keyed.futexWakeThreads {value : BitVec 32} {val : ℕ} (h : Keyed addr [] s)
    (hwake : s.futexWakeThreads addr value val = some s') : Keyed addr [] s' := by
  unfold Sched.futexWakeThreads at hwake
  have hperm := futexWake_perm value val (s.futexTable addr)
  revert hwake hperm
  generalize futexWake value val (s.futexTable addr) = r
  obtain ⟨-, woken, queue⟩ := r
  intro hwake hperm
  dsimp only at hwake hperm
  have hstart : Keyed addr woken { s with futexTable := Function.update s.futexTable addr queue } := by
    have hnodup := hperm.nodup_iff.mpr (h.nodup addr)
    refine ⟨h.resources, fun k u => ?_, fun k => ?_, ?_⟩
    · rw [← h.queued k u]
      show (u ∈ waiting (Function.update s.futexTable addr queue k) ∨ k = addr ∧ u ∈ woken) ↔ _
      by_cases hk : k = addr
      · subst hk
        rw [Function.update_self, ← hperm.mem_iff, List.mem_append]
        simp only [true_and, List.not_mem_nil, and_false, or_false]
        exact or_comm
      · rw [Function.update_of_ne hk]
        simp only [hk, false_and]
    · show (waiting (Function.update s.futexTable addr queue k)).Nodup
      by_cases hk : k = addr
      · rw [hk, Function.update_self]
        exact (List.nodup_append.mp hnodup).2.1
      · rw [Function.update_of_ne hk]
        exact h.nodup k
    · show (woken ++ waiting (Function.update s.futexTable addr queue addr)).Nodup
      rw [Function.update_self]
      exact hnodup
  clear hperm
  generalize ({ s with futexTable := Function.update s.futexTable addr queue } : Sched) = s1 at hstart hwake
  induction woken generalizing s1 with
  | nil =>
    cases hwake
    exact hstart
  | cons w woken ih =>
    rw [List.foldlM_cons] at hwake
    obtain ⟨s2, hw, hrest⟩ := Option.bind_eq_some_iff.mp hwake
    exact ih s2 (hstart.wakeWaiter hw) hrest

/-- What a wait does when the thread blocks. -/
theorem Keyed.block (h : Keyed addr [] s) (ht : s.threads tid = some t) (hstate : t.state ≠ .waiting)
    {t' : KernelThread} (hwaits : waitsFor t' = (true, [addr])) {val : BitVec 32}
    (hthreads : s'.threads = Function.update s.threads tid (some t'))
    (htable : s'.futexTable = Function.update s.futexTable addr
      (some (⟨tid, val⟩ :: (s.futexTable addr).getD []))) : Keyed addr [] s' := by
  obtain ⟨hwaiting, hkey⟩ := Prod.mk.inj hwaits
  have hnot : ∀ k, tid ∉ waiting (s.futexTable k) := by
    intro k hmem
    obtain ⟨v, hv, hk⟩ := (h.queued k tid).mp (.inl hmem)
    rw [ht] at hv
    cases hv
    obtain ⟨-, hnil⟩ | ⟨hs, -⟩ := h.resources tid t ht
    · rw [hnil] at hk
      cases hk
    · exact hstate hs
  have hqueue : waiting (s'.futexTable addr) = tid :: waiting (s.futexTable addr) := by
    rw [htable, Function.update_self]
    rfl
  have hother : ∀ k, k ≠ addr → s'.futexTable k = s.futexTable k := by
    intro k hk
    rw [htable, Function.update_of_ne hk]
  have hnodup : ∀ k, (waiting (s'.futexTable k)).Nodup := by
    intro k
    by_cases hk : k = addr
    · rw [hk, hqueue]
      exact List.nodup_cons.mpr ⟨hnot addr, h.nodup addr⟩
    · rw [hother k hk]
      exact h.nodup k
  refine ⟨fun u v hu => ?_, fun k u => ?_, hnodup, hnodup addr⟩
  · rw [hthreads] at hu
    by_cases hut : u = tid
    · rw [hut, Function.update_self] at hu
      cases hu
      exact .inr ⟨of_decide_eq_true hwaiting, addr, hkey⟩
    · rw [Function.update_of_ne hut] at hu
      exact h.resources u v hu
  · have hold := h.queued k u
    simp only [List.not_mem_nil, and_false, or_false] at hold ⊢
    rw [hthreads]
    by_cases hut : u = tid
    · subst hut
      rw [Function.update_self]
      have hiff : (∃ v, some t' = some v ∧ k ∈ v.resources) ↔ k = addr := by
        rw [← List.mem_singleton, ← hkey]
        exact ⟨fun ⟨v, hv, hk⟩ => by cases hv; exact hk, fun hk => ⟨t', rfl, hk⟩⟩
      rw [hiff]
      by_cases hk : k = addr
      · rw [hk, hqueue]
        exact iff_of_true (List.mem_cons_self ..) rfl
      · rw [hother k hk]
        exact iff_of_false (hnot k) hk
    · rw [Function.update_of_ne hut, ← hold]
      by_cases hk : k = addr
      · rw [hk, hqueue, List.mem_cons]
        simp only [hut, false_or]
      · rw [hother k hk]

/-! ## The scheduler -/

/-- What holds while threads wait and wake, sleep, and create threads and processes. -/
structure FutexInv (s : Sched) : Prop where
  inv : Inv s
  keyed : Keyed 0 [] s
  pc : ∀ u, s.pc u = .user ∨ s.pc u = .yield
  yields : ∀ t, s.threads s.activeThread = some t → t.state = .waiting → s.pc s.activeThread = .yield

/-- Is the action one of these? -/
def staysAlive : SchedAct → Bool
  | .join _ | .exit | .exitProcess | .waitpid _ => false
  | _ => true

theorem FutexInv.selectThread {currentTime : ℕ} (h : FutexInv s)
    (hselect : s.selectThread currentTime = some s') : FutexInv s' := by
  have hr := h.inv.reordered_selectThread overlooks_waitsFor hselect
  obtain ⟨-, v, hv, hrun⟩ := h.inv.selectThread hselect
  refine ⟨h.inv.selectThread_inv hselect, h.keyed.reordered hr, ?_, fun t ht hwaiting => ?_⟩
  · obtain ⟨threads, ready, sleeping, active, rfl, -⟩ := hr
    exact h.pc
  · cases hv.symm.trans ht
    rw [hrun] at hwaiting
    cases hwaiting

theorem pc_setPc (hpc : ∀ u, s.pc u = .user ∨ s.pc u = .yield) {u : ℕ} {pc : SchedPc}
    (h : pc = .user ∨ pc = .yield) {v : ℕ} :
    Function.update s.pc v pc u = .user ∨ Function.update s.pc v pc u = .yield := by
  by_cases hu : u = v
  · rwa [hu, Function.update_self]
  · rw [Function.update_of_ne hu]
    exact hpc u

theorem FutexInv.go {currentTime : ℕ} (h : FutexInv s) (hgo : s.go t currentTime = some s') : FutexInv s' := by
  unfold Sched.go at hgo
  obtain hpc | hpc := h.pc s.activeThread
  · rw [hpc] at hgo
    cases hgo
  · rw [hpc] at hgo
    have hset : Inv (s.setPc .user) := h.inv.setPc .user
    have hr := hset.reordered_selectThread overlooks_waitsFor hgo
    obtain ⟨-, v, hv, hrun⟩ := hset.selectThread hgo
    refine ⟨hset.selectThread_inv hgo, ?_, ?_, fun t ht hwaiting => ?_⟩
    · have hkeyed : Keyed 0 [] (s.setPc .user) := h.keyed.congr (fun _ => rfl) rfl
      exact hkeyed.reordered hr
    · obtain ⟨threads, ready, sleeping, active, rfl, -⟩ := hr
      exact fun u => pc_setPc h.pc (.inl rfl)
    · cases hv.symm.trans ht
      rw [hrun] at hwaiting
      cases hwaiting

theorem Inv.threads_lastGivenTid (h : Inv s) : s.threads s.lastGivenTid = none := by
  by_contra hne
  obtain ⟨t, ht⟩ := Option.ne_none_iff_exists'.mp hne
  exact lt_irrefl _ (h.given _ t ht)

/-- A new thread is ready and has no key; the rest but the queues of the scheduler is as it was. -/
theorem FutexInv.newThread (h : FutexInv s) (hinv : Inv s') (hready : t.state = .ready) (hres : t.resources = [])
    (hthreads : s'.threads = Function.update s.threads s.lastGivenTid (some t))
    (htable : s'.futexTable = s.futexTable) (hactive : s'.activeThread = s.activeThread)
    (hpc : s'.pc = Function.update s.pc s.lastGivenTid .user) : FutexInv s' := by
  refine ⟨hinv, ?_, fun u => ?_, fun v hv hwaiting => ?_⟩
  · exact h.keyed.fresh h.inv.threads_lastGivenTid hthreads hres (by simp [hready]) htable
  · rw [hpc]
    exact pc_setPc h.pc (.inl rfl)
  · rw [hactive, hthreads] at hv
    rw [hactive, hpc]
    by_cases hnew : s.activeThread = s.lastGivenTid
    · rw [hnew, Function.update_self] at hv
      cases hv
      rw [hready] at hwaiting
      cases hwaiting
    · rw [Function.update_of_ne hnew] at hv ⊢
      exact h.yields v hv hwaiting

/-- The active thread is rewritten and does not wait. -/
theorem FutexInv.setActive (h : FutexInv s) (hinv : Inv s') (ht : s.threads s.activeThread = some t)
    {v : KernelThread} (hstate : t.state ≠ .waiting) (hstate' : v.state ≠ .waiting)
    (hres : v.resources = t.resources)
    (hthreads : s'.threads = Function.update s.threads s.activeThread (some v))
    (htable : s'.futexTable = s.futexTable) (hactive : s'.activeThread = s.activeThread)
    (hpc : ∀ u, s'.pc u = .user ∨ s'.pc u = .yield) : FutexInv s' := by
  have hview : waitsFor v = waitsFor t := by
    unfold waitsFor
    rw [hres, decide_eq_false hstate, decide_eq_false hstate']
  refine ⟨hinv, h.keyed.congr (fun u => ?_) htable, hpc, fun v hv hwaiting => ?_⟩
  · rw [hthreads]
    exact map_update_eq ht hview u
  · rw [hactive, hthreads, Function.update_self] at hv
    cases hv
    exact absurd hwaiting hstate'

theorem futexWakeThreads_waiting {value : BitVec 32} {val : ℕ}
    (h : s.futexWakeThreads addr value val = some s') :
    s'.pc = s.pc ∧ s'.activeThread = s.activeThread ∧
      ∀ u t, s'.threads u = some t → t.state = .waiting → s.threads u = some t := by
  unfold futexWakeThreads at h
  refine foldlM_invariant (fun s1 => s1.pc = s.pc ∧ s1.activeThread = s.activeThread ∧
    ∀ u t, s1.threads u = some t → t.state = .waiting → s.threads u = some t)
    (fun s1 w s2 hs1 hstep => ?_) ⟨rfl, rfl, fun _ _ ht _ => ht⟩ h
  obtain ⟨t, ready, -, -, rfl⟩ := wakeWaiter_eq_some hstep
  refine ⟨hs1.1, hs1.2.1, fun u v hu hwaiting => ?_⟩
  change Function.update s1.threads w _ u = some v at hu
  by_cases huw : u = w
  · rw [huw, Function.update_self] at hu
    cases hu
    cases hwaiting
  · rw [Function.update_of_ne huw] at hu
    exact hs1.2.2 u v hu hwaiting

theorem FutexInv.schedCreateKernelThread {priority : ℕ} (h : FutexInv s) (hinv : Inv s')
    (hcreate : s.schedCreateKernelThread t priority = some s') : FutexInv s' := by
  unfold Sched.schedCreateKernelThread at hcreate
  split_ifs at hcreate
  · cases hcreate
    exact h
  · obtain ⟨p, -, hpush⟩ := Option.bind_eq_some_iff.mp hcreate
    obtain ⟨-, rfl⟩ := pushReady_eq_some hpush
    exact h.newThread (t := ⟨t.process, priority, .ready, .resource, 0, none, []⟩) hinv rfl rfl rfl rfl rfl rfl

theorem FutexInv.schedForkProcess {fault : Option ForkFault} (h : FutexInv s) (hinv : Inv s')
    (hfork : s.schedForkProcess t fault = some s') : FutexInv s' := by
  unfold Sched.schedForkProcess at hfork
  split_ifs at hfork
  · cases hfork
    exact h
  · cases hfork
    exact ⟨hinv, h.keyed.congr (fun _ => rfl) rfl, h.pc, h.yields⟩
  · obtain ⟨p, -, hpush⟩ := Option.bind_eq_some_iff.mp hfork
    obtain ⟨-, rfl⟩ := pushReady_eq_some hpush
    exact h.newThread
      (t := { t with process := s.lastGivenPid, joiningThread := none, resources := [], state := .ready })
      hinv rfl rfl rfl rfl rfl rfl

theorem FutexInv.futexWaitThread {value val : BitVec 32} {fault : Option FutexFault} (h : FutexInv s)
    (hinv : Inv s') (ht : s.threads s.activeThread = some t) (hstate : t.state ≠ .waiting)
    (hwait : s.futexWaitThread t addr value val fault = some s') : FutexInv s' := by
  by_cases hblock : value = val ∧ fault ≠ some .table ∧ s.activeThread ≠ idleThread
  swap
  · exact futexWaitThread_eq_self hwait hblock ▸ h
  obtain ⟨rfl, htable, hidle⟩ := hblock
  unfold Sched.futexWaitThread at hwait
  have hwaits : futexWait value value s.activeThread none (s.futexTable addr) =
      (.blocked, some (⟨s.activeThread, value⟩ :: (s.futexTable addr).getD [])) := by
    unfold futexWait
    rw [if_neg (not_not.mpr rfl)]
  rw [hwaits] at hwait
  dsimp only at hwait
  rw [if_neg htable, if_neg hidle] at hwait
  split_ifs at hwait with hfault
  · -- the thread is locked and unlocked at once
    unfold schedLockThread schedUnlockThread at hwait
    obtain ⟨v, hv, hpush⟩ := Option.bind_eq_some_iff.mp hwait
    change Function.update s.threads s.activeThread _ s.activeThread = some v at hv
    rw [Function.update_self] at hv
    cases hv
    split_ifs at hpush
    obtain ⟨-, rfl⟩ := pushReady_eq_some hpush
    refine h.setActive hinv ht hstate (v := { t with state := .ready, blockType := .resource })
      nofun rfl ?_ rfl rfl h.pc
    show Function.update (Function.update _ _ _) _ _ = _
    rw [Function.update_idem]
  · cases hwait
    have hres : t.resources = [] := by
      obtain ⟨-, hnil⟩ | ⟨hs, -⟩ := h.keyed.resources _ t ht
      · exact hnil
      · exact absurd hs hstate
    refine ⟨hinv, ?_, fun u => pc_setPc h.pc (.inr rfl), fun _ _ _ => Function.update_self ..⟩
    refine ((h.keyed.of_nil addr).block ht hstate ?_ rfl rfl).of_nil 0
    show (true, addr :: t.resources) = _
    rw [hres]

theorem FutexInv.call {act : SchedAct} (h : FutexInv s) (hinv : Inv s') (hstays : staysAlive act = true)
    (ht : s.threads s.activeThread = some t) (hpc : s.pc s.activeThread = .user)
    (hcall : s.call t act = some s') : FutexInv s' := by
  have hstate : t.state ≠ .waiting := by
    intro hwaiting
    rw [h.yields t ht hwaiting] at hpc
    cases hpc
  cases act <;> simp only [Sched.call] at hcall
  case sleep currTime timeMs =>
    cases hcall
    unfold Sched.schedSleep at hinv ⊢
    split_ifs at hinv ⊢
    · exact h
    · refine h.setActive hinv ht hstate
        (v := { t with wakeupTime := (currTime + timeMs * 1000000) % 2 ^ 64, state := .sleeping })
        (by simp) rfl rfl rfl rfl fun u => pc_setPc h.pc (.inr rfl)
  case create => exact h.schedCreateKernelThread hinv hcall
  case fork => exact h.schedForkProcess hinv hcall
  case futexWait => exact h.futexWaitThread hinv ht hstate hcall
  case futexWake addr value val =>
    obtain ⟨hpcs, hactive, hthreads⟩ := futexWakeThreads_waiting hcall
    refine ⟨hinv, ((h.keyed.of_nil addr).futexWakeThreads hcall).of_nil 0, hpcs ▸ h.pc, fun v hv hw => ?_⟩
    rw [hpcs, hactive] at *
    exact h.yields v (hthreads _ v hv hw) hw
  case setPriority priority =>
    cases hcall
    unfold Sched.schedSetThreadParams at hinv ⊢
    split_ifs at hinv ⊢
    · exact h.setActive hinv ht hstate (v := { t with priority := priority }) hstate rfl rfl rfl rfl h.pc
    · exact h
  case join | exit | exitProcess | waitpid => cases hstays
  case tick | go => cases hcall

theorem FutexInv.step {act : SchedAct} (h : FutexInv s) (hstays : staysAlive act = true)
    (hguard : s.RunsElected act) (hstep : s.Step act s') : FutexInv s' := by
  have hinv := h.inv.step hguard hstep
  unfold Step exec at hstep
  obtain ⟨t, ht, hact⟩ := Option.bind_eq_some_iff.mp hstep
  split at hact
  · exact h.selectThread hact
  · exact h.go hact
  · split_ifs at hact with hpc
    exact h.call hinv hstays ht hpc hact

theorem schedInit_resources {u : ℕ} (h : schedInit.threads u = some t) : t.resources = [] := by
  simp only [schedInit] at h
  split_ifs at h <;> cases h <;> rfl

theorem futexInv_schedInit : FutexInv schedInit := by
  refine ⟨inv_schedInit, ⟨fun u t ht => ?_, fun k u => ?_, fun _ => List.nodup_nil, List.nodup_nil⟩,
    fun _ => .inl rfl, fun t ht hwaiting => ?_⟩
  · refine .inl ⟨?_, schedInit_resources ht⟩
    rw [(schedInit_threads ht).1]
    nofun
  · refine iff_of_false ?_ ?_
    · rintro (hmem | ⟨-, hmem⟩) <;> cases hmem
    · rintro ⟨t, ht, hk⟩
      rw [schedInit_resources ht] at hk
      cases hk
  · rw [(schedInit_threads ht).1] at hwaiting
    cases hwaiting

end Sched

/-! ## Futexes over the memory manager -/

/-- The scheduler on the memory manager. A call to a futex reads the physical address of its word before
its critical section: `calls` has, for a thread in between, the address it was called with and the physical one.
`waits` has the address of the last wait of each thread. -/
structure FutexSystem where
  memory : MemState
  sched : Sched
  calls : ℕ → Option (ℕ × ℕ)
  waits : ℕ → ℕ

/-- The timer elects; the active thread starts or goes on with a call of the scheduler, or forks; it uses the
memory, which faults where it writes to a page marked copy on write; it starts a call to a futex, or it goes
through the critical section of one, on a word that holds `value`. -/
inductive FutexAct
  | tick (currentTime : ℕ)
  | thread (act : Sched.SchedAct)
  | fork (failed : Bool) (kstack kstackSize : ℕ)
  | memory (act : MemAct)
  | call (addr : ℕ)
  | wait (value val : BitVec 32) (fault : Option Sched.FutexFault)
  | wake (value : BitVec 32) (val : ℕ)

/-- Calls of the scheduler that are not about futexes and processes. -/
def ofThread : Sched.SchedAct → Bool
  | .go _ | .sleep _ _ | .create _ | .setPriority _ => true
  | _ => false

/-- Uses of the memory manager that stay in the process. -/
def ofProcess : MemAct → Bool
  | .switch _ | .fork _ _ _ | .clean _ => false
  | _ => true

namespace FutexSystem

/-- The active thread is in a call to a futex. -/
def inCall (r : FutexSystem) : Bool := (r.calls r.sched.activeThread).isSome

/-- The scheduler takes a step, and the processor runs in the address space of the active thread. -/
def schedule (r : FutexSystem) (act : Sched.SchedAct) : Option FutexSystem :=
  (r.sched.exec act).bind fun s =>
    (s.threads s.activeThread).bind fun t =>
      (r.memory.switch t.process).map fun m => { r with memory := m, sched := s }

/-- `sched_fork_process`; the child has an address space if the memory could be copied. -/
def fork (r : FutexSystem) (failed : Bool) (kstack kstackSize : ℕ) : Option FutexSystem :=
  if failed ∨ r.sched.processCount ≥ kernelMaxProcess then r.schedule (.fork (some .thread))
  else
    (r.memory.fork r.sched.lastGivenPid kstack kstackSize).bind fun m =>
      { r with memory := m }.schedule
        (.fork (if (m.processes r.sched.lastGivenPid).isSome then none else some .memory))

/-- The active thread leaves the call to a futex that it is in. -/
def leave (r : FutexSystem) : FutexSystem :=
  { r with calls := Function.update r.calls r.sched.activeThread none }

def exec (r : FutexSystem) : FutexAct → Option FutexSystem
  | .tick currentTime => r.schedule (.tick currentTime)
  | .thread act => if ofThread act ∧ ¬ r.inCall then r.schedule act else none
  | .fork failed kstack kstackSize => if r.inCall then none else r.fork failed kstack kstackSize
  | .memory act =>
    if ofProcess act ∧ ¬ r.inCall then (r.memory.exec act).map fun m => { r with memory := m } else none
  | .call addr =>
    if r.inCall ∨ r.sched.pc r.sched.activeThread ≠ .user then none
    else some { r with
      calls := Function.update r.calls r.sched.activeThread (some (addr, r.memory.memoryGetPhysAddr addr)) }
  | .wait value val fault =>
    (r.calls r.sched.activeThread).bind fun c =>
      { r.leave with waits := Function.update r.waits r.sched.activeThread c.1 }.schedule
        (.futexWait c.2 value val fault)
  | .wake value val =>
    (r.calls r.sched.activeThread).bind fun c => r.leave.schedule (.futexWake c.2 value val)

def Step (r : FutexSystem) (act : FutexAct) (r' : FutexSystem) : Prop := r.exec act = some r'

/-- The memory manager and the scheduler have started. -/
def Started (r : FutexSystem) : Prop :=
  r.memory.Started ∧ r.sched.Started ∧ r.calls = fun _ => none

/-- Does the action block the active thread or change its priority? -/
def leavesState (r : FutexSystem) : FutexAct → Bool
  | .thread act => r.sched.leavesState act
  | .wait value val fault => r.sched.leavesState (.futexWait 0 value val fault)
  | _ => false

/-- A thread that blocks or changes its priority is in the state it was elected in. -/
def RunsElected (r : FutexSystem) (act : FutexAct) : Prop :=
  r.leavesState act = true → r.sched.activeRunning = true

variable {r r' : FutexSystem}

theorem schedule_sched {act : Sched.SchedAct} (h : r.schedule act = some r') :
    r.sched.Step act r'.sched := by
  unfold schedule at h
  obtain ⟨s, hs, h⟩ := Option.bind_eq_some_iff.mp h
  obtain ⟨t, -, h⟩ := Option.bind_eq_some_iff.mp h
  obtain ⟨m, -, rfl⟩ := Option.map_eq_some_iff.mp h
  exact hs

theorem fork_sched {failed : Bool} {kstack kstackSize : ℕ} (h : r.fork failed kstack kstackSize = some r') :
    ∃ fault, r.sched.Step (.fork fault) r'.sched := by
  unfold fork at h
  split_ifs at h
  · exact ⟨_, schedule_sched h⟩
  · obtain ⟨m, -, h⟩ := Option.bind_eq_some_iff.mp h
    exact ⟨_, schedule_sched (r := { r with memory := m }) h⟩

/-- The scheduler of the system takes the steps of a scheduler whose threads stay alive. -/
theorem futexInv_step {act : FutexAct} (h : r.sched.FutexInv) (hguard : r.RunsElected act)
    (hstep : r.Step act r') : r'.sched.FutexInv := by
  unfold Step exec at hstep
  cases act with
  | tick currentTime => exact h.step rfl (fun hleaves => by cases hleaves) (schedule_sched hstep)
  | thread act =>
    dsimp only at hstep
    split_ifs at hstep with hact
    refine h.step ?_ hguard (schedule_sched hstep)
    cases act <;> first | rfl | cases hact.1
  | fork failed kstack kstackSize =>
    dsimp only at hstep
    split_ifs at hstep
    obtain ⟨fault, hs⟩ := fork_sched hstep
    exact h.step rfl (fun hleaves => by cases hleaves) hs
  | memory act =>
    dsimp only at hstep
    split_ifs at hstep
    obtain ⟨m, -, rfl⟩ := Option.map_eq_some_iff.mp hstep
    exact h
  | call addr =>
    dsimp only at hstep
    split_ifs at hstep
    cases hstep
    exact h
  | wait value val fault =>
    obtain ⟨c, -, hs⟩ := Option.bind_eq_some_iff.mp hstep
    have hs := schedule_sched hs
    exact (@Sched.FutexInv.step _ _ (.futexWait c.2 value val fault) h rfl hguard hs)
  | wake value val =>
    obtain ⟨c, -, hs⟩ := Option.bind_eq_some_iff.mp hstep
    have hs := schedule_sched hs
    exact (@Sched.FutexInv.step _ _ (.futexWake c.2 value val) h rfl (fun hleaves => by cases hleaves) hs)

theorem futexInv_of_guarded (h : Guarded Started Step RunsElected r) : r.sched.FutexInv := by
  refine h.invariant (fun r => r.sched.FutexInv) (fun r0 hr0 => ?_)
    fun _ _ _ hs hg hstep => futexInv_step hs hg hstep
  have hstart : r0.sched = Sched.schedInit := hr0.2.1
  rw [hstart]
  exact Sched.futexInv_schedInit

/-! ## Whom a wake considers -/

/-- The queue that a wake with this key goes through has exactly the threads of the process that are blocked
by a wait on the address. -/
def ConsidersExactly (r : FutexSystem) (process addr key : ℕ) : Prop :=
  ∀ u, u ∈ waiting (r.sched.futexTable key) ↔ ∃ t, r.sched.threads u = some t ∧ t.state = .waiting ∧
    t.process = process ∧ r.waits u = addr

/-- Of the threads that are blocked, those of the process that wait on the address are the ones that have
registered the key, the physical address of their word when they blocked. -/
def KeyIsOwn (r : FutexSystem) (process addr key : ℕ) : Prop :=
  ∀ u t, r.sched.threads u = some t → t.state = .waiting →
    (key ∈ t.resources ↔ t.process = process ∧ r.waits u = addr)

/-- The small machine with its two threads. -/
def smallRun (acts : List FutexAct) : Option FutexSystem :=
  (memoryManagerInit smallBoot).bind fun m =>
    runActs (fun r act => if r.leavesState act = true → r.sched.activeRunning = true then r.exec act else none)
      ⟨m, Sched.schedInit, fun _ => none, fun _ => 0⟩ acts

theorem guarded_of_smallRun {acts : List FutexAct} (h : smallRun acts = some r) :
    Guarded Started Step RunsElected r := by
  obtain ⟨m, hm, hrun⟩ := Option.bind_eq_some_iff.mp h
  have hstart : Started ⟨m, Sched.schedInit, fun _ => none, fun _ => 0⟩ := ⟨⟨smallBoot, hm⟩, rfl, rfl⟩
  refine (Guarded.start hstart).runActs (fun r act r' hs => ?_) hrun
  split_ifs at hs with hguard
  exact ⟨hguard, hs⟩

/-- Init waits on a page of its own, and a second thread of its process calls with the same address. -/
def sameProcessActs : List FutexAct :=
  [.tick 0, .memory (.allocPage 1), .thread (.create 0), .call 0x100000, .wait 7 7 none, .thread (.go 0),
    .call 0x100000]

/-- Init forks and waits on a page that it has not written since; its child calls with the same address. -/
def forkedActs : List FutexAct :=
  [.tick 0, .memory (.allocPage 1), .memory (.allocStack 4096 true), .fork false 0xDFFFF 4096, .call 0x100000,
    .wait 7 7 none, .thread (.go 0), .call 0x100000]

end FutexSystem

end UtkKernel.Scheduler
