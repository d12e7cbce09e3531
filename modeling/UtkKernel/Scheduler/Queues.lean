import UtkKernel.Scheduler.Calls

/-! # Thread states and scheduler queues

A ready thread is in the ready queue of its priority and a sleeping one in the sleeping queue, and the
queues hold no other thread. Between two elections one thread may be out of step: it is marked as
sleeping and not queued yet, or it has just been taken from the sleeping queue. -/

namespace UtkKernel.Scheduler
open Structures Sync Foundations
set_option autoImplicit false

/-- The states that an election takes a thread from and brings it to. -/
def ThreadState.electable : ThreadState → Bool
  | .running | .ready | .sleeping => true
  | _ => false

namespace Sched

/-- The threads in the sleeping queue. -/
def sleepers (s : Sched) : List ℕ := s.sleepingThreadsTable.map KqueueNode.data

/-- The queues hold the ready and the sleeping threads, but for the thread `out`, which is in no
sleeping queue; `a` is the active thread. -/
structure InvAt (out : Option ℕ) (a : ℕ) (s : Sched) : Prop where
  active : s.activeThread = a
  ready : ∀ p tid, tid ∈ s.activeThreadsTable p ↔
    ∃ t, s.threads tid = some t ∧ t.state = .ready ∧ t.priority = p
  sleeping : ∀ tid, tid ∈ s.sleepers ↔
    ∃ t, s.threads tid = some t ∧ t.state = .sleeping ∧ out ≠ some tid
  readyNodup : ∀ p, (s.activeThreadsTable p).Nodup
  sleepingNodup : s.sleepers.Nodup
  priority : ∀ tid t, s.threads tid = some t → t.priority ≤ kernelLowestPriority
  given : ∀ tid t, s.threads tid = some t → tid < s.lastGivenTid

/-- What holds between any two actions. -/
def Inv (s : Sched) : Prop := InvAt (some s.activeThread) s.activeThread s

variable {s s' : Sched} {out : Option ℕ} {a tid : ℕ} {t : KernelThread}

theorem InvAt.inv (h : InvAt (some a) a s) : Inv s := by
  unfold Inv
  rw [h.active]
  exact h

/-- A node that `enlisted` does not find is in no queue at all. -/
theorem InvAt.not_mem (h : InvAt out a s) (ht : s.enlisted tid = false) :
    (∀ p, tid ∉ s.activeThreadsTable p) ∧ tid ∉ s.sleepers := by
  simp only [enlisted, Bool.or_eq_false_iff, List.any_eq_false, List.mem_range, Nat.lt_succ_iff,
    decide_eq_true_eq, decide_eq_false_iff_not] at ht
  refine ⟨fun p hp => ?_, ht.2⟩
  obtain ⟨t, hthread, -, rfl⟩ := (h.ready p tid).mp hp
  exact ht.1 _ (h.priority tid t hthread) hp

/-! ## Updates of one thread -/

/-- The tables, the queues and the active thread are all that the invariant reads. -/
theorem InvAt.congr (h : InvAt out a s) (hactive : s'.activeThread = s.activeThread)
    (hthreads : s'.threads = s.threads) (hready : s'.activeThreadsTable = s.activeThreadsTable)
    (hsleep : s'.sleepingThreadsTable = s.sleepingThreadsTable)
    (hgiven : s.lastGivenTid ≤ s'.lastGivenTid) : InvAt out a s' := by
  have hsleepers : s'.sleepers = s.sleepers := by
    unfold sleepers
    rw [hsleep]
  refine ⟨hactive.trans h.active, ?_, ?_, ?_, ?_, ?_, ?_⟩
  · rw [hready, hthreads]
    exact h.ready
  · rw [hsleepers, hthreads]
    exact h.sleeping
  · rw [hready]
    exact h.readyNodup
  · rw [hsleepers]
    exact h.sleepingNodup
  · rw [hthreads]
    exact h.priority
  · intro u v hu
    rw [hthreads] at hu
    exact (h.given u v hu).trans_le hgiven

theorem InvAt.setPc (h : InvAt out a s) (pc : SchedPc) : InvAt out a (s.setPc pc) :=
  h.congr rfl rfl rfl rfl le_rfl

theorem InvAt.setProcess (h : InvAt out a s) (pid : ℕ) (p : KernelProcess) :
    InvAt out a (s.setProcess pid p) :=
  h.congr rfl rfl rfl rfl le_rfl

/-- Only a sleeping thread can be missing from the sleeping queue. -/
theorem invAt_some_iff (ht : ∀ t, s.threads tid = some t → t.state ≠ .sleeping) :
    InvAt (some tid) a s ↔ InvAt none a s := by
  have hsame : ∀ u t, s.threads u = some t → t.state = .sleeping → some tid ≠ some u := by
    intro u t hu hs heq
    cases heq
    exact ht t hu hs
  constructor
  · intro h
    refine ⟨h.active, h.ready, fun u => ?_, h.readyNodup, h.sleepingNodup, h.priority, h.given⟩
    rw [h.sleeping]
    exact ⟨fun ⟨t, hu, hs, _⟩ => ⟨t, hu, hs, nofun⟩,
      fun ⟨t, hu, hs, _⟩ => ⟨t, hu, hs, hsame u t hu hs⟩⟩
  · intro h
    refine ⟨h.active, h.ready, fun u => ?_, h.readyNodup, h.sleepingNodup, h.priority, h.given⟩
    rw [h.sleeping]
    exact ⟨fun ⟨t, hu, hs, _⟩ => ⟨t, hu, hs, hsame u t hu hs⟩,
      fun ⟨t, hu, hs, _⟩ => ⟨t, hu, hs, nofun⟩⟩

/-- A thread is rewritten so that it belongs in the same queue as before, or again in none. -/
theorem InvAt.setThread (h : InvAt out a s) (ht : s.threads tid = some t) {t' : KernelThread}
    (hready : ∀ p, t'.state = .ready ∧ t'.priority = p ↔ t.state = .ready ∧ t.priority = p)
    (hsleep : t'.state = .sleeping ∧ out ≠ some tid ↔ t.state = .sleeping ∧ out ≠ some tid)
    (hp : t'.priority ≤ kernelLowestPriority) : InvAt out a (s.setThread tid t') := by
  refine ⟨h.active, fun p u => ?_, fun u => ?_, h.readyNodup, h.sleepingNodup, fun u v hu => ?_,
    fun u v hu => ?_⟩
  · show u ∈ s.activeThreadsTable p ↔ ∃ v, Function.update s.threads tid (some t') u = some v ∧ _
    rw [h.ready]
    by_cases hu : u = tid
    · subst hu
      simp [ht, hready]
    · simp [Function.update_of_ne hu]
  · show u ∈ s.sleepers ↔ ∃ v, Function.update s.threads tid (some t') u = some v ∧ _
    rw [h.sleeping]
    by_cases hu : u = tid
    · subst hu
      simp [ht, hsleep]
    · simp [Function.update_of_ne hu]
  · change Function.update s.threads tid (some t') u = some v at hu
    by_cases hut : u = tid
    · subst hut
      rw [Function.update_self, Option.some.injEq] at hu
      exact hu ▸ hp
    · rw [Function.update_of_ne hut] at hu
      exact h.priority u v hu
  · change Function.update s.threads tid (some t') u = some v at hu
    by_cases hut : u = tid
    · subst hut
      exact h.given u t ht
    · rw [Function.update_of_ne hut] at hu
      exact h.given u v hu

/-- A thread that is in no queue may be marked as anything that belongs in none. -/
theorem InvAt.setState (h : InvAt out a s) (ht : s.threads tid = some t) {t' : KernelThread}
    (hr : t.state ≠ .ready) (hs : t.state ≠ .sleeping ∨ out = some tid) (hr' : t'.state ≠ .ready)
    (hs' : t'.state ≠ .sleeping ∨ out = some tid) (hp : t'.priority = t.priority) :
    InvAt out a (s.setThread tid t') := by
  refine h.setThread ht (fun p => ?_) ?_ (hp ▸ h.priority tid t ht)
  · simp [hr, hr']
  · tauto

/-- A thread that keeps its state and its priority stays where it is. -/
theorem InvAt.setData (h : InvAt out a s) (ht : s.threads tid = some t) {t' : KernelThread}
    (hstate : t'.state = t.state) (hp : t'.priority = t.priority) :
    InvAt out a (s.setThread tid t') := by
  refine h.setThread ht (fun p => ?_) ?_ (hp ▸ h.priority tid t ht)
  · rw [hstate, hp]
  · rw [hstate]

theorem pushReady_eq_some (h : s.pushReady tid t = some s') : s.enlisted tid = false ∧
    s' = { s.setThread tid { t with state := .ready } with
      activeThreadsTable := Function.update s.activeThreadsTable t.priority
        (tid :: s.activeThreadsTable t.priority) } := by
  unfold pushReady at h
  split at h
  · cases h
  · rename_i hn
    cases h
    exact ⟨by simpa using hn, rfl⟩

theorem pushReady_threads (h : s.pushReady tid t = some s') :
    s'.threads tid = some { t with state := .ready } := by
  obtain ⟨-, rfl⟩ := pushReady_eq_some h
  show Function.update s.threads tid _ tid = some _
  rw [Function.update_self]

theorem InvAt.pushReady (h : InvAt out a s) (hp : t.priority ≤ kernelLowestPriority)
    (hgiven : tid < s.lastGivenTid) (hpush : s.pushReady tid t = some s') : InvAt out a s' := by
  obtain ⟨hn, rfl⟩ := pushReady_eq_some hpush
  obtain ⟨hready, hsleep⟩ := h.not_mem hn
  refine ⟨h.active, fun p u => ?_, fun u => ?_, fun p => ?_, h.sleepingNodup, fun u v hu => ?_,
    fun u v hu => ?_⟩
  · show u ∈ Function.update s.activeThreadsTable t.priority _ p ↔
      ∃ v, Function.update s.threads tid _ u = some v ∧ _
    have hu := h.ready p u
    by_cases hut : u = tid
    · subst hut
      by_cases hpt : p = t.priority
      · subst hpt
        simp
      · simp [Function.update_of_ne hpt, hready, Ne.symm hpt]
    · by_cases hpt : p = t.priority
      · subst hpt
        simp [hut, hu]
      · simp [Function.update_of_ne hut, Function.update_of_ne hpt, hu]
  · show u ∈ s.sleepers ↔ ∃ v, Function.update s.threads tid _ u = some v ∧ _
    by_cases hut : u = tid
    · subst hut
      simp [hsleep]
    · simp [Function.update_of_ne hut, h.sleeping]
  · show (Function.update s.activeThreadsTable t.priority _ p).Nodup
    by_cases hpt : p = t.priority
    · subst hpt
      simp [hready, h.readyNodup]
    · simpa [Function.update_of_ne hpt] using h.readyNodup p
  · change Function.update s.threads tid _ u = some v at hu
    by_cases hut : u = tid
    · subst hut
      rw [Function.update_self, Option.some.injEq] at hu
      exact hu ▸ hp
    · rw [Function.update_of_ne hut] at hu
      exact h.priority u v hu
  · change Function.update s.threads tid _ u = some v at hu
    by_cases hut : u = tid
    · exact hut ▸ hgiven
    · rw [Function.update_of_ne hut] at hu
      exact h.given u v hu

/-- A thread that is there already is pushed with the priority it has. -/
theorem InvAt.requeue (h : InvAt out a s) (ht : s.threads tid = some t)
    (hpush : s.pushReady tid t = some s') : InvAt out a s' :=
  h.pushReady (h.priority tid t ht) (h.given tid t ht) hpush

/-! ## The election -/

/-- A sleeping thread that is missing from the sleeping queue is put back. -/
theorem InvAt.pushSleeping (h : InvAt (some tid) a s) (ht : s.threads tid = some t)
    (hs : t.state = .sleeping) (priority : ℕ) : InvAt none a { s with
      sleepingThreadsTable := kqueuePushPrio ⟨tid, priority⟩ s.sleepingThreadsTable } := by
  have hperm : ((kqueuePushPrio ⟨tid, priority⟩ s.sleepingThreadsTable).map KqueueNode.data).Perm
      (tid :: s.sleepers) := (kqueuePushPrio_perm ⟨tid, priority⟩ s.sleepingThreadsTable).map _
  have hnot : tid ∉ s.sleepers := by
    intro hmem
    obtain ⟨_, -, -, hne⟩ := (h.sleeping tid).mp hmem
    exact hne rfl
  refine ⟨h.active, h.ready, fun u => ?_, h.readyNodup, ?_, h.priority, h.given⟩
  · unfold sleepers
    rw [hperm.mem_iff, List.mem_cons, h.sleeping]
    constructor
    · rintro (rfl | ⟨v, hv, hvs, -⟩)
      · exact ⟨t, ht, hs, nofun⟩
      · exact ⟨v, hv, hvs, nofun⟩
    · rintro ⟨v, hv, hvs, -⟩
      by_cases hu : u = tid
      · exact .inl hu
      · exact .inr ⟨v, hv, hvs, fun heq => hu (Option.some.inj heq).symm⟩
  · unfold sleepers
    exact hperm.nodup_iff.mpr (List.nodup_cons.mpr ⟨hnot, h.sleepingNodup⟩)

theorem InvAt.popSleeping (h : InvAt none a s) {node : KqueueNode ℕ} {rest : List (KqueueNode ℕ)}
    (hpop : kqueuePop s.sleepingThreadsTable = some (node, rest)) :
    InvAt (some node.data) a { s with sleepingThreadsTable := rest } := by
  have hperm : s.sleepers.Perm (node.data :: rest.map KqueueNode.data) := (kqueuePop_perm hpop).map _
  have hnodup := hperm.nodup_iff.mp h.sleepingNodup
  rw [List.nodup_cons] at hnodup
  refine ⟨h.active, h.ready, fun u => ?_, h.readyNodup, hnodup.2, h.priority, h.given⟩
  have hu := h.sleeping u
  rw [hperm.mem_iff, List.mem_cons] at hu
  show u ∈ rest.map KqueueNode.data ↔ _
  by_cases hdata : u = node.data
  · subst hdata
    simp [hnodup.1]
  · have hne : some node.data ≠ some u := fun heq => hdata (Option.some.inj heq).symm
    simpa [hdata, hne] using hu

theorem InvAt.sleeping_of_pop (h : InvAt none a s) {node : KqueueNode ℕ} {rest : List (KqueueNode ℕ)}
    (hpop : kqueuePop s.sleepingThreadsTable = some (node, rest)) (ht : s.threads node.data = some t) :
    t.state = .sleeping := by
  have hmem : node.data ∈ s.sleepers :=
    ((kqueuePop_perm hpop).map KqueueNode.data).mem_iff.mpr (List.mem_cons_self ..)
  obtain ⟨v, hv, hvs, -⟩ := (h.sleeping _).mp hmem
  rw [ht] at hv
  exact Option.some.inj hv ▸ hvs

theorem InvAt.enqueueActive (h : InvAt (some a) a s) (ht : s.threads a = some t)
    (henq : s.enqueueActive t = some s') : InvAt none a s' := by
  obtain rfl : s.activeThread = a := h.active
  unfold Sched.enqueueActive at henq
  split at henq
  · have hs' := h.requeue ht henq
    refine (invAt_some_iff fun v hv => ?_).mp hs'
    rw [pushReady_threads henq, Option.some.injEq] at hv
    simp [← hv]
  · rename_i hsleep
    split at henq
    · cases henq
    · cases henq
      exact h.pushSleeping ht hsleep _
  · rename_i hsleep
    cases henq
    refine (invAt_some_iff fun v hv => ?_).mp h
    rw [ht] at hv
    cases hv
    exact hsleep

theorem InvAt.wakeSleepers {currentTime fuel : ℕ} (h : InvAt none a s)
    (hwake : wakeSleepers currentTime fuel s = some s') : InvAt none a s' := by
  induction fuel generalizing s with
  | zero =>
    cases hwake
    exact h
  | succ fuel ih =>
    unfold Sched.wakeSleepers at hwake
    split at hwake
    · cases hwake
      exact h
    · rename_i node rest hpop
      have hout := h.popSleeping hpop
      split at hwake
      · cases hwake
      · rename_i t ht
        split_ifs at hwake with htime
        · obtain ⟨s1, hpush, hrest⟩ := Option.bind_eq_some_iff.mp hwake
          refine ih ((invAt_some_iff fun v hv => ?_).mp (hout.requeue ht hpush)) hrest
          rw [pushReady_threads hpush, Option.some.injEq] at hv
          simp [← hv]
        · cases hwake
          exact hout.pushSleeping ht (h.sleeping_of_pop hpop ht) _

theorem electFrom_eq_some {table : ℕ → List ℕ} {n i j : ℕ} {rest : List ℕ}
    (h : electFrom table n i = some (j, tid, rest)) : kqueuePop (table j) = some (tid, rest) := by
  induction n generalizing i with
  | zero => cases h
  | succ n ih =>
    unfold electFrom at h
    split at h
    · cases h
      assumption
    · exact ih h

/-- The elected thread leaves its queue and runs. -/
theorem InvAt.elect (h : InvAt none a s) (helect : s.elect = some s') :
    InvAt none s'.activeThread s' ∧
      ∃ t, s'.threads s'.activeThread = some t ∧ t.state = .running := by
  unfold Sched.elect at helect
  obtain ⟨⟨i, tid, rest⟩, hfrom, hmap⟩ := Option.bind_eq_some_iff.mp helect
  obtain ⟨t, ht, rfl⟩ := Option.map_eq_some_iff.mp hmap
  have hpop := kqueuePop_perm (electFrom_eq_some hfrom)
  have hnodup := hpop.nodup_iff.mp (h.readyNodup i)
  rw [List.nodup_cons] at hnodup
  have hmem : tid ∈ s.activeThreadsTable i := hpop.mem_iff.mpr (List.mem_cons_self ..)
  have hstate : t.state = .ready ∧ t.priority = i := by
    obtain ⟨v, hv, hvs⟩ := (h.ready i tid).mp hmem
    rw [ht] at hv
    exact Option.some.inj hv ▸ hvs
  have hsleep : tid ∉ s.sleepers := by
    intro hs
    obtain ⟨v, hv, hvs, -⟩ := (h.sleeping tid).mp hs
    rw [ht] at hv
    cases hv
    simp [hstate.1] at hvs
  refine ⟨⟨rfl, fun p u => ?_, fun u => ?_, fun p => ?_, h.sleepingNodup, fun u v hu => ?_,
    fun u v hu => ?_⟩, { t with state := .running }, ?_, rfl⟩
  · show u ∈ Function.update s.activeThreadsTable i rest p ↔
      ∃ v, Function.update s.threads tid _ u = some v ∧ _
    have hu := h.ready p u
    by_cases hut : u = tid
    · subst hut
      by_cases hpi : p = i
      · subst hpi
        simp [hnodup.1]
      · have hnot : u ∉ s.activeThreadsTable p := by
          intro hp
          obtain ⟨v, hv, -, rfl⟩ := hu.mp hp
          rw [ht] at hv
          cases hv
          exact hpi hstate.2
        simp [Function.update_of_ne hpi, hnot]
    · by_cases hpi : p = i
      · subst hpi
        rw [hpop.mem_iff, List.mem_cons] at hu
        simpa [Function.update_of_ne hut, hut] using hu
      · simpa [Function.update_of_ne hut, Function.update_of_ne hpi] using hu
  · show u ∈ s.sleepers ↔ ∃ v, Function.update s.threads tid _ u = some v ∧ _
    by_cases hut : u = tid
    · subst hut
      simp [hsleep]
    · simp [Function.update_of_ne hut, h.sleeping]
  · show (Function.update s.activeThreadsTable i rest p).Nodup
    by_cases hpi : p = i
    · subst hpi
      simpa using hnodup.2
    · simpa [Function.update_of_ne hpi] using h.readyNodup p
  · change Function.update s.threads tid _ u = some v at hu
    by_cases hut : u = tid
    · subst hut
      rw [Function.update_self, Option.some.injEq] at hu
      exact hu ▸ h.priority u t ht
    · rw [Function.update_of_ne hut] at hu
      exact h.priority u v hu
  · change Function.update s.threads tid _ u = some v at hu
    by_cases hut : u = tid
    · exact hut ▸ h.given tid t ht
    · rw [Function.update_of_ne hut] at hu
      exact h.given u v hu
  · show Function.update s.threads tid _ tid = some _
    rw [Function.update_self]

/-- An election leaves the queues in order, with no exception. -/
theorem Inv.selectThread {currentTime : ℕ} (h : Inv s)
    (hselect : s.selectThread currentTime = some s') :
    InvAt none s'.activeThread s' ∧
      ∃ t, s'.threads s'.activeThread = some t ∧ t.state = .running := by
  unfold Sched.selectThread at hselect
  obtain ⟨t, ht, h1⟩ := Option.bind_eq_some_iff.mp hselect
  obtain ⟨s1, henq, h2⟩ := Option.bind_eq_some_iff.mp h1
  obtain ⟨s2, hwake, helect⟩ := Option.bind_eq_some_iff.mp h2
  exact ((h.enqueueActive ht henq).wakeSleepers hwake).elect helect

theorem Inv.selectThread_inv {currentTime : ℕ} (h : Inv s)
    (hselect : s.selectThread currentTime = some s') : Inv s' := by
  obtain ⟨hnone, t, ht, hrun⟩ := h.selectThread hselect
  refine (invAt_some_iff fun v hv => ?_).mpr hnone
  rw [ht] at hv
  cases hv
  simp [hrun]

/-! ## What an election leaves alone -/

/-- A reading of the threads that cannot tell running, ready and sleeping ones apart. -/
def Overlooks {α : Type} (g : KernelThread → α) : Prop :=
  ∀ t x, t.state.electable = true → x.electable = true → g { t with state := x } = g t

/-- The threads read the same, and all else but the active thread and the queues of the scheduler is the
same. -/
def Reordered {α : Type} (g : KernelThread → α) (s s' : Sched) : Prop :=
  ∃ threads ready sleeping active, s' = { s with
    threads := threads, activeThreadsTable := ready, sleepingThreadsTable := sleeping,
    activeThread := active } ∧ ∀ u, (threads u).map g = (s.threads u).map g

section Reordered

variable {α : Type} {g : KernelThread → α}

theorem Reordered.refl (g : KernelThread → α) (s : Sched) : Reordered g s s :=
  ⟨_, _, _, _, rfl, fun _ => rfl⟩

theorem Reordered.trans {s1 : Sched} (h : Reordered g s s1) (h' : Reordered g s1 s') : Reordered g s s' := by
  obtain ⟨threads, ready, sleeping, active, rfl, hg⟩ := h
  obtain ⟨threads', ready', sleeping', active', rfl, hg'⟩ := h'
  exact ⟨_, _, _, _, rfl, fun u => (hg' u).trans (hg u)⟩

theorem map_update_eq (ht : s.threads tid = some t) {t' : KernelThread} (hg : g t' = g t) (u : ℕ) :
    (Function.update s.threads tid (some t') u).map g = (s.threads u).map g := by
  by_cases hu : u = tid
  · rw [hu, Function.update_self, ht, Option.map_some, Option.map_some, hg]
  · rw [Function.update_of_ne hu]

theorem reordered_pushReady (ht : s.threads tid = some t) (hg : g { t with state := .ready } = g t)
    (h : s.pushReady tid t = some s') : Reordered g s s' := by
  obtain ⟨-, rfl⟩ := pushReady_eq_some h
  exact ⟨_, _, _, _, rfl, map_update_eq ht hg⟩

theorem reordered_enqueueActive (hg : Overlooks g) (ht : s.threads s.activeThread = some t)
    (h : s.enqueueActive t = some s') : Reordered g s s' := by
  unfold enqueueActive at h
  split at h
  · rename_i hrun
    exact reordered_pushReady ht (hg t .ready (by rw [hrun]; rfl) rfl) h
  · split_ifs at h
    cases h
    exact ⟨_, _, _, _, rfl, fun _ => rfl⟩
  · cases h
    exact .refl g s

theorem InvAt.reordered_wakeSleepers {currentTime fuel : ℕ} (h : InvAt none a s) (hg : Overlooks g)
    (hwake : Sched.wakeSleepers currentTime fuel s = some s') : Reordered g s s' := by
  induction fuel generalizing s with
  | zero =>
    cases hwake
    exact .refl g _
  | succ fuel ih =>
    unfold Sched.wakeSleepers at hwake
    split at hwake
    · cases hwake
      exact .refl g _
    · rename_i node rest hpop
      have hout := h.popSleeping hpop
      have hpopped : Reordered g s { s with sleepingThreadsTable := rest } :=
        ⟨_, _, _, _, rfl, fun _ => rfl⟩
      split at hwake
      · cases hwake
      · rename_i t ht
        have hs := h.sleeping_of_pop hpop ht
        split_ifs at hwake with htime
        · obtain ⟨s1, hpush, hrest⟩ := Option.bind_eq_some_iff.mp hwake
          have hnone : InvAt none a s1 := by
            refine (invAt_some_iff fun v hv => ?_).mp (hout.requeue ht hpush)
            rw [pushReady_threads hpush, Option.some.injEq] at hv
            simp [← hv]
          have hready := hg t .ready (by rw [hs]; rfl) rfl
          have hpushed := reordered_pushReady (s := { s with sleepingThreadsTable := rest }) ht hready hpush
          exact (hpopped.trans hpushed).trans (ih hnone hrest)
        · cases hwake
          exact ⟨_, _, _, _, rfl, fun _ => rfl⟩

theorem InvAt.reordered_elect (h : InvAt none a s) (hg : Overlooks g) (helect : s.elect = some s') :
    Reordered g s s' := by
  unfold Sched.elect at helect
  obtain ⟨⟨i, tid, rest⟩, hfrom, hmap⟩ := Option.bind_eq_some_iff.mp helect
  obtain ⟨t, ht, rfl⟩ := Option.map_eq_some_iff.mp hmap
  have hmem : tid ∈ s.activeThreadsTable i :=
    (kqueuePop_perm (electFrom_eq_some hfrom)).mem_iff.mpr (List.mem_cons_self ..)
  obtain ⟨v, hv, hready, -⟩ := (h.ready i tid).mp hmem
  rw [ht] at hv
  cases hv
  exact ⟨_, _, _, _, rfl, map_update_eq ht (hg t .running (by rw [hready]; rfl) rfl)⟩

/-- An election moves threads between the queues and the processor only. -/
theorem Inv.reordered_selectThread {currentTime : ℕ} (h : Inv s) (hg : Overlooks g)
    (hselect : s.selectThread currentTime = some s') : Reordered g s s' := by
  unfold Sched.selectThread at hselect
  obtain ⟨t, ht, h1⟩ := Option.bind_eq_some_iff.mp hselect
  obtain ⟨s1, henq, h2⟩ := Option.bind_eq_some_iff.mp h1
  obtain ⟨s2, hwake, helect⟩ := Option.bind_eq_some_iff.mp h2
  have hnone := InvAt.enqueueActive h ht henq
  have hawake := hnone.reordered_wakeSleepers hg hwake
  exact ((reordered_enqueueActive hg ht henq).trans hawake).trans
    ((hnone.wakeSleepers hwake).reordered_elect hg helect)

end Reordered

end Sched

end UtkKernel.Scheduler
