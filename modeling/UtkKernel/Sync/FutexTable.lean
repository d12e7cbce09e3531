import UtkKernel.Structures.UhashtableRuns
import UtkKernel.Sync.Futex

/-! # The futex table (`core/src/futex.c`)

All futexes, in the hash table that the kernel keeps them in: the data of an entry is the queue of the
threads that wait on its physical address. Both system calls run with interrupts disabled, so each is
one step; what memory holds at an address when it is called, and which allocations fail, comes with the
call. A call gives `none` where the source panics, uses a freed queue, or goes on searching. -/

namespace UtkKernel.Sync
open Foundations HashTable
set_option autoImplicit false

/-! ## State -/

/-- A wait queue, `kqueue_t`, whose size `kqueue_remove` does not count down. -/
structure FutexQueue where
  waiters : List (FutexData ℕ)
  size : BitVec 32
  deriving DecidableEq, Repr

/-- The futex table, the queues by their identifiers, and the addresses that threads are blocked on. -/
structure FutexTable where
  table : Uhashtable ℕ
  queues : ℕ → Option FutexQueue
  nextQueue : ℕ
  waitsOn : ℕ → Option (BitVec 32)

/-- Where `futex_wait` fails once it has a queue: the thread cannot be locked, or the futex cannot be
added to its resources. -/
inductive WaitFault
  | lock
  | resource
  deriving DecidableEq, Repr

namespace FutexTable

def setQueue (s : FutexTable) (q : ℕ) (queue : Option FutexQueue) : FutexTable :=
  { s with queues := Function.update s.queues q queue }

/-! ## Waiting -/

/-- `futex_recover` after a failure behind the search for the queue. A queue that the call has created
is deleted, and the table entry with it: it is looked for under the virtual address. -/
def futexRecover (fuel : ℕ) (s : FutexTable) (addr : BitVec 32) (mallocEntries : Bool) (q : ℕ)
    (created : Bool) : Option FutexTable :=
  if created then
    (uhashtableRemove fuel s.table addr mallocEntries).bind fun r =>
      if r.1 ≠ .osNoErr then none else some ({ s with table := r.2.2 }.setQueue q none)
  else some s

/-- `futex_wait` from the lock of the thread on. -/
def blockOn (fuel : ℕ) (s : FutexTable) (t : ℕ) (addr phys val : BitVec 32) (mallocEntries : Bool)
    (fault : Option WaitFault) (q : ℕ) (created : Bool) : Option FutexTable :=
  match fault with
  | some .lock => futexRecover fuel s addr mallocEntries q created
  | some .resource =>
    (s.queues q).bind fun queue =>
      futexRecover fuel (s.setQueue q (some { queue with size := queue.size + 1 })) addr mallocEntries q
        created
  | none =>
    (s.queues q).map fun queue =>
      { s.setQueue q (some ⟨⟨t, val⟩ :: queue.waiters, queue.size + 1⟩) with
        waitsOn := Function.update s.waitsOn t (some phys) }

/-- `futex_wait` on a word that holds `value`. -/
def futexWait (fuel : ℕ) (s : FutexTable) (t : ℕ) (addr phys value val : BitVec 32)
    (mallocEntries mallocEntry : Bool) (fault : Option WaitFault) : Option FutexTable :=
  if value ≠ val then some s
  else
    (uhashtableGet fuel s.table phys).bind fun r =>
      match r with
      | (.osNoErr, some q) => blockOn fuel s t addr phys val mallocEntries fault q false
      | (.osErrNoSuchId, _) =>
        (uhashtableSet fuel s.table phys s.nextQueue mallocEntries mallocEntry).bind fun r =>
          if r.1 ≠ .osNoErr then some { s with table := r.2 }
          else
            blockOn fuel ({ s with table := r.2, nextQueue := s.nextQueue + 1 }.setQueue s.nextQueue
              (some ⟨[], 0⟩)) t addr phys val mallocEntries fault s.nextQueue true
      | _ => some s

/-! ## Waking -/

/-- The threads go back to the scheduler, which panics for one that does not wait on the futex. -/
def unblock (phys : BitVec 32) (s : FutexTable) (t : ℕ) : Option FutexTable :=
  if s.waitsOn t = some phys then some { s with waitsOn := Function.update s.waitsOn t none } else none

/-- `futex_wake` on a word that holds `value`. The size is the number of threads that ever waited in the
queue, so it is zero again only if that number wraps; then the queue is deleted after the first thread
that is woken, which panics if others wait. -/
def futexWake (fuel : ℕ) (s : FutexTable) (phys value : BitVec 32) (val : ℕ) (mallocEntries : Bool) :
    Option FutexTable :=
  (uhashtableGet fuel s.table phys).bind fun r =>
    match r with
    | (.osNoErr, some q) =>
      (s.queues q).bind fun queue =>
        if queue.size ≠ 0 then
          (wakeLoop value val queue.waiters).1.foldlM (unblock phys)
            (s.setQueue q (some { queue with waiters := (wakeLoop value val queue.waiters).2 }))
        else
          let r := wakeLoop value (min val 1) queue.waiters
          if r.1 = [] then some s
          else if r.2 ≠ [] then none
          else
            (uhashtableRemove fuel s.table phys mallocEntries).bind fun r' =>
              if r'.1 ≠ .osNoErr then none
              else r.1.foldlM (unblock phys) ({ s with table := r'.2.2 }.setQueue q none)
    | _ => some s

/-! ## Steps -/

end FutexTable

/-- A call of a thread. -/
inductive FutexAct
  | wait (t : ℕ) (addr phys value val : BitVec 32) (mallocEntries mallocEntry : Bool)
    (fault : Option WaitFault)
  | wake (t : ℕ) (phys value : BitVec 32) (val : ℕ) (mallocEntries : Bool)
  deriving DecidableEq, Repr

namespace FutexTable

/-- A thread that is blocked makes no calls. -/
def exec (fuel : ℕ) (s : FutexTable) : FutexAct → Option FutexTable
  | .wait t addr phys value val mallocEntries mallocEntry fault =>
    if s.waitsOn t ≠ none then none
    else futexWait fuel s t addr phys value val mallocEntries mallocEntry fault
  | .wake t phys value val mallocEntries =>
    if s.waitsOn t ≠ none then none else futexWake fuel s phys value val mallocEntries

/-- A call that returns, or that blocks the thread. -/
def Step (s : FutexTable) (act : FutexAct) (s' : FutexTable) : Prop :=
  ∃ fuel, exec fuel s act = some s'

/-- `futex_init` -/
structure Started (s : FutexTable) : Prop where
  table : s.table.Created
  queues : ∀ q, s.queues q = none
  waitsOn : ∀ t, s.waitsOn t = none

/-! ## Entries -/

/-- The table has an entry exactly for the addresses that threads are blocked on, and its queue holds
exactly those threads. -/
structure NoStaleEntry (s : FutexTable) : Prop where
  entry : ∀ phys, (∃ fuel q, uhashtableGet fuel s.table phys = some (.osNoErr, some q)) ↔
    ∃ t, s.waitsOn t = some phys
  queue : ∀ phys fuel q, uhashtableGet fuel s.table phys = some (.osNoErr, some q) →
    ∃ queue, s.queues q = some queue ∧ (queue.waiters.map FutexData.waitingThread).Nodup ∧
      ∀ t, t ∈ queue.waiters.map FutexData.waitingThread ↔ s.waitsOn t = some phys

/-- A wait fails only where other threads wait already, and a wake leaves a thread of the queue asleep:
the queue is longer than the number to wake, or the word still holds what a thread waits with. -/
def Keeps (s : FutexTable) : FutexAct → Prop
  | .wait _ _ phys value val _ _ fault => fault = none ∨ value ≠ val ∨ ∃ t, s.waitsOn t = some phys
  | .wake _ phys value val _ => ∀ fuel q queue,
    uhashtableGet fuel s.table phys = some (.osNoErr, some q) → s.queues q = some queue →
      val < queue.waiters.length ∨ ∃ w ∈ queue.waiters, w.wait = value

/-- The hash table has no tombstone and stands for a map of addresses to queues, each of which holds
the threads that are blocked on its address, at least one. -/
structure Tracks (s : FutexTable) (m : BitVec 32 → Option ℕ) : Prop where
  stands : Stands s.table m
  balanced : Balanced s.table
  null : none ∈ s.table.entries
  tombs : tombCount s.table.entries = 0
  fresh : ∀ phys q, m phys = some q → q < s.nextQueue
  inj : ∀ phys phys' q, m phys = some q → m phys' = some q → phys = phys'
  queue : ∀ phys q, m phys = some q → ∃ queue, s.queues q = some queue ∧ queue.waiters ≠ [] ∧
    (queue.waiters.map FutexData.waitingThread).Nodup ∧
    ∀ t, t ∈ queue.waiters.map FutexData.waitingThread ↔ s.waitsOn t = some phys
  absent : ∀ phys t, m phys = none → s.waitsOn t ≠ some phys

variable {s s' : FutexTable} {m : BitVec 32 → Option ℕ} {phys value : BitVec 32} {fuel val q : ℕ}

/-! ## The hash table -/

theorem get_answer {t : Uhashtable ℕ} (h : Stands t m) (hnull : none ∈ t.entries)
    {r : OsReturnE × Option ℕ} (hget : uhashtableGet fuel t phys = some r) :
    r = getAnswer (m phys) := by
  have h1 := get_mono hget (le_max_left fuel t.capacity)
  rw [get_eq h hnull phys (le_max_right fuel t.capacity)] at h1
  exact (Option.some.inj h1).symm

theorem setEntry_tombs {t t' : Uhashtable ℕ} (h : Shaped t) (hnull : none ∈ t.entries)
    (ht : tombCount t.entries = 0) {b : Bool} {err : OsReturnE}
    (hs : uhashtableSetEntry fuel t phys q b = some (err, t')) : tombCount t'.entries = 0 := by
  obtain ⟨d, hd, hcases⟩ := setEntry_cases h hnull hs
  rcases hcases with ⟨hc, ⟨-, rfl⟩ | ⟨-, rfl⟩⟩ | ⟨w, hc, -, rfl⟩ | ⟨k, w, hc, -, rfl⟩
  · exact ht
  · rw [(fill_counts hc phys q).2.1, ht]
  · rw [(renew_counts hc q).2.1, ht]
  · exact absurd hc (noReuse_of_no_tomb ht phys d hd k w)

/-- A set in a table without tombstones is safe and leaves none. -/
theorem set_no_tombs {t t' : Uhashtable ℕ} (h : Stands t m) (hb : Balanced t)
    (hnull : none ∈ t.entries) (ht : tombCount t.entries = 0) {b b' : Bool} {err : OsReturnE}
    (hs : uhashtableSet fuel t phys q b b' = some (err, t')) :
    Stands t' (setMap m phys q err) ∧ Balanced t' ∧ none ∈ t'.entries ∧ tombCount t'.entries = 0 := by
  have hno := noReuse_of_no_tomb ht phys
  have hkeep := set_keeps h hnull (fun hl => hno.setsSafely h.toShaped hb hl) hs
  have hstep : t.Step (.set phys q) t' := ⟨fuel, b, b', err, hs⟩
  have hinv := Uhashtable.Step.inv ⟨⟨m, h⟩, hb, hnull⟩ hstep fun _ => hno
  refine ⟨hkeep.1, hinv.2.1, hkeep.2, ?_⟩
  rcases set_cases h hs with ⟨-, rfl⟩ | ⟨-, hs'⟩ | ⟨t1, hd, hs'⟩
  · exact ht
  · exact setEntry_tombs h.toShaped hnull ht hs'
  · have hnull1 : none ∈ t1.entries := by
      rw [null_mem_iff]
      have := hd.null_room h
      omega
    exact setEntry_tombs hd.stands.toShaped hnull1 hd.tombs hs'

theorem Tracks.noStaleEntry (h : Tracks s m) : NoStaleEntry s := by
  refine ⟨fun phys => ⟨?_, ?_⟩, fun phys fuel q hget => ?_⟩
  · rintro ⟨fuel, q, hget⟩
    have hm : m phys ≠ none := fun hm => by
      have hr := get_answer h.stands h.null hget
      rw [hm] at hr
      cases hr
    obtain ⟨q', hq'⟩ := Option.ne_none_iff_exists'.mp hm
    obtain ⟨queue, -, hne, -, hiff⟩ := h.queue phys q' hq'
    obtain ⟨w, hw⟩ := List.exists_mem_of_ne_nil _ hne
    exact ⟨w.waitingThread, (hiff _).mp (List.mem_map_of_mem hw)⟩
  · rintro ⟨t, ht⟩
    have hm : m phys ≠ none := fun hm => h.absent phys t hm ht
    obtain ⟨q, hq⟩ := Option.ne_none_iff_exists'.mp hm
    refine ⟨s.table.capacity, q, ?_⟩
    rw [get_eq h.stands h.null phys le_rfl, hq]
    rfl
  · have hr := get_answer h.stands h.null hget
    cases hm : m phys with
    | none =>
      rw [hm] at hr
      cases hr
    | some q' =>
      rw [hm] at hr
      cases hr
      obtain ⟨queue, hqueue, -, hnodup, hiff⟩ := h.queue phys q hm
      exact ⟨queue, hqueue, hnodup, hiff⟩

/-! ## Waiting -/

/-- A queue of the table is changed without its threads. -/
theorem Tracks.resize (h : Tracks s m) {queue : FutexQueue} (hq : s.queues q = some queue)
    (size : BitVec 32) : Tracks (s.setQueue q (some { queue with size := size })) m := by
  refine ⟨h.stands, h.balanced, h.null, h.tombs, h.fresh, h.inj, fun phys q' hq' => ?_, h.absent⟩
  obtain ⟨queue', hqueue', hrest⟩ := h.queue phys q' hq'
  by_cases he : q' = q
  · subst he
    rw [hq] at hqueue'
    obtain rfl := Option.some.inj hqueue'
    exact ⟨_, Function.update_self .., hrest⟩
  · exact ⟨queue', (Function.update_of_ne he ..).trans hqueue', hrest⟩

/-- A thread blocks in the queue of its address. -/
theorem Tracks.enqueue (h : Tracks s m) (hq : m phys = some q) {queue : FutexQueue}
    (hqueue : s.queues q = some queue) {t : ℕ} (ht : s.waitsOn t = none) (w : BitVec 32) (size : BitVec 32) :
    Tracks { s.setQueue q (some ⟨⟨t, w⟩ :: queue.waiters, size⟩) with
      waitsOn := Function.update s.waitsOn t (some phys) } m := by
  refine ⟨h.stands, h.balanced, h.null, h.tombs, h.fresh, h.inj, fun phys' q' hq' => ?_,
    fun phys' t' hm => ?_⟩
  · obtain ⟨queue', hqueue', hne, hnodup, hiff⟩ := h.queue phys' q' hq'
    by_cases he : q' = q
    · subst he
      obtain rfl := h.inj phys' phys q' hq' hq
      rw [hqueue] at hqueue'
      obtain rfl := Option.some.inj hqueue'
      refine ⟨_, Function.update_self .., List.cons_ne_nil _ _, ?_, fun t' => ?_⟩
      · rw [List.map_cons, List.nodup_cons]
        refine ⟨fun hmem => ?_, hnodup⟩
        rw [hiff, ht] at hmem
        cases hmem
      · rw [List.map_cons, List.mem_cons, hiff]
        dsimp only
        rw [Function.update_apply]
        split_ifs with htt
        · simp [htt]
        · simp [htt]
    · refine ⟨queue', (Function.update_of_ne he ..).trans hqueue', hne, hnodup, fun t' => ?_⟩
      rw [hiff]
      dsimp only
      rw [Function.update_apply]
      split_ifs with htt
      · subst htt
        rw [ht, Option.some.injEq]
        refine ⟨nofun, fun hphys => ?_⟩
        subst hphys
        exact absurd (Option.some.inj (hq'.symm.trans hq)) he
      · exact Iff.rfl
  · dsimp only
    rw [Function.update_apply]
    split_ifs with htt
    · intro hphys
      rw [← Option.some.inj hphys, hq] at hm
      cases hm
    · exact h.absent phys' t' hm

theorem Tracks.blockOn (h : Tracks s m) (hq : m phys = some q) {t : ℕ} (ht : s.waitsOn t = none)
    {addr w : BitVec 32} {b : Bool} {fault : Option WaitFault}
    (hs : blockOn fuel s t addr phys w b fault q false = some s') : Tracks s' m := by
  unfold FutexTable.blockOn at hs
  cases fault with
  | none =>
    obtain ⟨queue, hqueue, rfl⟩ := Option.map_eq_some_iff.mp hs
    exact h.enqueue hq hqueue ht w _
  | some fault =>
    cases fault with
    | lock =>
      cases hs
      exact h
    | resource =>
      obtain ⟨queue, hqueue, hs'⟩ := Option.bind_eq_some_iff.mp hs
      cases hs'
      exact h.resize hqueue _

/-- The first thread blocks on an address, in a queue of its own. -/
theorem Tracks.create (h : Tracks s m) (hm : m phys = none) {t : ℕ} (ht : s.waitsOn t = none)
    (addr : BitVec 32) {table : Uhashtable ℕ} {b b' : Bool} {w : BitVec 32}
    (hset : uhashtableSet fuel s.table phys s.nextQueue b b' = some (.osNoErr, table))
    (hs : FutexTable.blockOn fuel ({ s with table := table, nextQueue := s.nextQueue + 1 }.setQueue
      s.nextQueue (some ⟨[], 0⟩)) t addr phys w b none s.nextQueue true = some s') :
    Tracks s' (Function.update m phys (some s.nextQueue)) := by
  obtain ⟨hstands, hbalanced, hnull, htombs⟩ := set_no_tombs h.stands h.balanced h.null h.tombs hset
  obtain ⟨queue, hqueue, rfl⟩ := Option.map_eq_some_iff.mp hs
  obtain rfl : (⟨[], 0⟩ : FutexQueue) = queue := by
    simpa [setQueue] using hqueue
  have hfresh : ∀ phys' q', m phys' = some q' → q' ≠ s.nextQueue := fun phys' q' hq' =>
    Nat.ne_of_lt (h.fresh phys' q' hq')
  refine ⟨hstands, hbalanced, hnull, htombs, fun phys' q' hq' => ?_, fun p p' q' hp hp' => ?_,
    fun phys' q' hq' => ?_, fun phys' t' hq' => ?_⟩
  · rw [Function.update_apply] at hq'
    split_ifs at hq' with he
    · cases hq'
      exact Nat.lt_succ_self _
    · exact Nat.lt_succ_of_lt (h.fresh phys' q' hq')
  · rw [Function.update_apply] at hp hp'
    split_ifs at hp hp' with he he' he'
    · rw [he, he']
    · cases hp
      exact absurd rfl (hfresh p' _ hp')
    · cases hp'
      exact absurd rfl (hfresh p _ hp)
    · exact h.inj p p' q' hp hp'
  · rw [Function.update_apply] at hq'
    split_ifs at hq' with he
    · cases hq'
      refine ⟨_, Function.update_self .., List.cons_ne_nil _ _, by simp, fun t' => ?_⟩
      rw [List.map_singleton, List.mem_singleton]
      dsimp only
      rw [Function.update_apply, he]
      split_ifs with htt
      · simp [htt]
      · simp only [htt, false_iff]
        exact h.absent phys t' hm
    · obtain ⟨queue, hqueue', hne, hnodup, hiff⟩ := h.queue phys' q' hq'
      refine ⟨queue, ?_, hne, hnodup, fun t' => ?_⟩
      · refine (Function.update_of_ne (hfresh phys' q' hq') ..).trans ?_
        exact (Function.update_of_ne (hfresh phys' q' hq') ..).trans hqueue'
      · rw [hiff]
        dsimp only
        rw [Function.update_apply]
        split_ifs with htt
        · rw [htt, ht, Option.some.injEq]
          exact ⟨nofun, fun hp => absurd hp.symm he⟩
        · exact Iff.rfl
  · rw [Function.update_apply] at hq'
    split_ifs at hq' with he
    dsimp only
    rw [Function.update_apply]
    split_ifs with htt
    · exact fun hp => he (Option.some.inj hp).symm
    · exact h.absent phys' t' hq'

/-! ## Waking -/

theorem wakeLoop_length_le (value : BitVec 32) (n : ℕ) (ws : List (FutexData ℕ)) :
    (wakeLoop value n ws).1.length ≤ n := by
  induction ws generalizing n with
  | nil => cases n <;> simp [wakeLoop]
  | cons w ws ih =>
    cases n with
    | zero => simp [wakeLoop]
    | succ n =>
      by_cases hw : w.wait ≠ value
      · simpa [wakeLoop, hw] using ih n
      · simpa [wakeLoop, hw] using ih (n + 1)

/-- A thread that waits with the value the word holds is not woken. -/
theorem wakeLoop_stays {n : ℕ} {ws : List (FutexData ℕ)} {w : FutexData ℕ} (hw : w ∈ ws)
    (hv : w.wait = value) : w ∈ (wakeLoop value n ws).2 := by
  induction ws generalizing n with
  | nil => cases hw
  | cons u ws ih =>
    cases n with
    | zero => exact hw
    | succ n =>
      by_cases hu : u.wait ≠ value
      · have hne : w ≠ u := fun he => hu (he ▸ hv)
        simpa [wakeLoop, hu] using ih (List.mem_of_ne_of_mem hne hw)
      · simp only [wakeLoop, hu, if_false, List.mem_cons]
        rcases List.mem_cons.mp hw with rfl | hw'
        · exact .inl rfl
        · exact .inr (ih hw')

/-- What the guard asks for: some thread of the queue is not woken. -/
theorem wakeLoop_ne_nil_of_stays {n : ℕ} {ws : List (FutexData ℕ)} (hn : n ≤ val)
    (h : val < ws.length ∨ ∃ w ∈ ws, w.wait = value) : (wakeLoop value n ws).2 ≠ [] := by
  rcases h with hlt | ⟨w, hw, hv⟩
  · intro hnil
    have hperm := (wakeLoop_perm value n ws).length_eq
    rw [hnil, List.map_nil, List.append_nil, List.length_map] at hperm
    have := wakeLoop_length_le value n ws
    omega
  · exact List.ne_nil_of_mem (wakeLoop_stays hw hv)

theorem unblock_all {ws : List ℕ} (h : ws.foldlM (unblock phys) s = some s') :
    s'.table = s.table ∧ s'.queues = s.queues ∧ s'.nextQueue = s.nextQueue ∧
      ∀ t, s'.waitsOn t = if t ∈ ws then none else s.waitsOn t := by
  induction ws generalizing s with
  | nil =>
    cases h
    exact ⟨rfl, rfl, rfl, fun t => rfl⟩
  | cons a ws ih =>
    obtain ⟨s1, hs1, hs'⟩ := Option.bind_eq_some_iff.mp h
    unfold unblock at hs1
    split_ifs at hs1
    cases hs1
    obtain ⟨h1, h2, h3, h4⟩ := ih hs'
    refine ⟨h1, h2, h3, fun t => ?_⟩
    rw [h4]
    dsimp only
    rw [Function.update_apply]
    by_cases hta : t = a
    · simp [hta]
    · simp [hta]

/-- Some threads of a queue are woken, and others wait on. -/
theorem Tracks.woken (h : Tracks s m) (hq : m phys = some q) {queue : FutexQueue}
    (hqueue : s.queues q = some queue) {n : ℕ} (hstay : (wakeLoop value n queue.waiters).2 ≠ [])
    (hs : (wakeLoop value n queue.waiters).1.foldlM (unblock phys)
      (s.setQueue q (some { queue with waiters := (wakeLoop value n queue.waiters).2 })) = some s') :
    Tracks s' m := by
  obtain ⟨htable, hqueues, hnext, hwaits⟩ := unblock_all hs
  have hperm := wakeLoop_perm value n queue.waiters
  generalize wakeLoop value n queue.waiters = r at hstay hs hqueues hwaits hperm
  obtain ⟨queue', hqueue', -, hnodup, hiff⟩ := h.queue phys q hq
  obtain rfl : queue = queue' := Option.some.inj (hqueue.symm.trans hqueue')
  have hnodup' := hperm.nodup_iff.mpr hnodup
  obtain ⟨-, hrest, hdisjoint⟩ := List.nodup_append.mp hnodup'
  have hwoken : ∀ t ∈ r.1, s.waitsOn t = some phys := fun t ht =>
    (hiff t).mp (hperm.mem_iff.mp (List.mem_append_left _ ht))
  refine ⟨htable ▸ h.stands, htable ▸ h.balanced, htable ▸ h.null, htable ▸ h.tombs,
    fun p q' hq' => hnext ▸ h.fresh p q' hq', h.inj, fun phys' q' hq' => ?_, fun phys' t hm => ?_⟩
  · rw [hqueues]
    by_cases he : q' = q
    · subst he
      obtain rfl := h.inj phys' phys q' hq' hq
      refine ⟨_, Function.update_self .., hstay, hrest, fun t => ?_⟩
      rw [hwaits]
      split_ifs with ht
      · exact ⟨fun ht' => absurd rfl (hdisjoint t ht t ht'), nofun⟩
      · show t ∈ r.2.map FutexData.waitingThread ↔ s.waitsOn t = some phys'
        rw [← hiff, ← hperm.mem_iff, List.mem_append]
        exact (or_iff_right ht).symm
    · obtain ⟨queue1, hqueue1, hne1, hnodup1, hiff1⟩ := h.queue phys' q' hq'
      refine ⟨queue1, (Function.update_of_ne he ..).trans hqueue1, hne1, hnodup1, fun t => ?_⟩
      rw [hiff1, hwaits]
      split_ifs with ht
      · rw [hwoken t ht, Option.some.injEq]
        refine ⟨fun hp => he ?_, nofun⟩
        subst hp
        exact Option.some.inj (hq'.symm.trans hq)
      · exact Iff.rfl
  · rw [hwaits]
    split_ifs
    · nofun
    · exact h.absent phys' t hm

/-! ## Runs -/

theorem Started.tracks (h : Started s) : Tracks s fun _ => none := by
  obtain ⟨b, b', hcreate⟩ := h.table
  have hinv := h.table.inv
  have htable : s.table = ⟨newEntries ℕ htInitialSize, htInitialSize, 0, 0⟩ := by
    cases b <;> cases b' <;> simp [uhashtableCreate] at hcreate
    exact hcreate.symm
  refine ⟨?_, hinv.2.1, hinv.2.2, ?_, (by simp), (by simp), (by simp), fun phys t _ => ?_⟩
  · rw [htable]
    exact stands_new (n := 4) le_rfl (by omega) rfl
  · rw [← hinv.2.1.graveyard, htable]
  · rw [h.waitsOn]
    rintro ⟨⟩

theorem Tracks.step {act : FutexAct} (h : Tracks s m) (hkeeps : Keeps s act) (hs : Step s act s') :
    ∃ m', Tracks s' m' := by
  obtain ⟨fuel, hexec⟩ := hs
  cases act with
  | wait t addr phys value w b b' fault =>
    unfold exec at hexec
    dsimp only at hexec
    split_ifs at hexec with ht
    rw [not_not] at ht
    unfold futexWait at hexec
    split_ifs at hexec with hvalue
    · cases hexec
      exact ⟨m, h⟩
    rw [not_not] at hvalue
    obtain ⟨r, hget, hbody⟩ := Option.bind_eq_some_iff.mp hexec
    obtain rfl := get_answer h.stands h.null hget
    cases hm : m phys with
    | some q =>
      rw [hm] at hbody
      exact ⟨m, h.blockOn hm ht hbody⟩
    | none =>
      rw [hm] at hbody
      obtain ⟨r, hset, hrest⟩ := Option.bind_eq_some_iff.mp hbody
      obtain ⟨err, table⟩ := r
      by_cases herr : err = .osNoErr
      · subst herr
        -- nobody waits there, so the call does not fail
        have hfault : fault = none := by
          rcases hkeeps with hf | hv | ⟨t', ht'⟩
          · exact hf
          · exact absurd hvalue hv
          · exact absurd ht' (h.absent phys t' hm)
        subst hfault
        exact ⟨_, h.create hm ht addr hset hrest⟩
      · rw [if_pos herr] at hrest
        cases hrest
        obtain ⟨hstands, hbalanced, hnull, htombs⟩ :=
          set_no_tombs h.stands h.balanced h.null h.tombs hset
        rw [setMap, if_neg herr] at hstands
        exact ⟨m, hstands, hbalanced, hnull, htombs, h.fresh, h.inj, h.queue, h.absent⟩
  | wake t phys value val b =>
    unfold exec at hexec
    dsimp only at hexec
    split_ifs at hexec with ht
    obtain ⟨r, hget, hbody⟩ := Option.bind_eq_some_iff.mp hexec
    obtain rfl := get_answer h.stands h.null hget
    cases hm : m phys with
    | none =>
      rw [hm] at hbody
      cases hbody
      exact ⟨m, h⟩
    | some q =>
      rw [hm] at hbody hget
      obtain ⟨queue, hqueue, hwake⟩ := Option.bind_eq_some_iff.mp hbody
      have hstay := hkeeps fuel q queue hget hqueue
      dsimp only at hwake
      split_ifs at hwake with hsize hnone hrest
      · exact ⟨m, h.woken hm hqueue (wakeLoop_ne_nil_of_stays le_rfl hstay) hwake⟩
      · cases hwake
        exact ⟨m, h⟩
      · exact absurd (not_not.mp hrest) (wakeLoop_ne_nil_of_stays (min_le_left val 1) hstay)

/-- In every run in which no wait that has to create its queue fails and every wake leaves a thread in
the queue, the table holds no stale entry. -/
theorem no_stale_entry (h : Guarded Started Step Keeps s) : NoStaleEntry s := by
  have htracks : ∃ m, Tracks s m := by
    refine h.invariant (fun s => ∃ m, Tracks s m) (fun s hs => ⟨_, hs.tracks⟩) ?_
    rintro s act s' ⟨m, hm⟩ hkeeps hstep
    exact hm.step hkeeps hstep
  obtain ⟨m, hm⟩ := htracks
  exact hm.noStaleEntry

/-! ### Runs on fixed calls -/

/-- The table that `futex_init` creates. -/
def freshFutexTable : FutexTable where
  table := ⟨newEntries ℕ htInitialSize, htInitialSize, 0, 0⟩
  queues := fun _ => none
  nextQueue := 0
  waitsOn := fun _ => none

theorem freshFutexTable_started : Started freshFutexTable :=
  ⟨⟨true, true, rfl⟩, fun _ => rfl, fun _ => rfl⟩

/-- Thread 1 waits on a word that holds 0. -/
def firstWait : FutexAct := .wait 1 0x2000 0x1000 0 0 true true none

/-- Thread 2 stores 1 in it and wakes one thread. -/
def onlyWake : FutexAct := .wake 2 0x1000 1 1 true

theorem no_stale_entry_one_wait : ∃ s, Step freshFutexTable firstWait s ∧ NoStaleEntry s := by
  have hrun : (exec 16 freshFutexTable firstWait).isSome := by decide +kernel
  obtain ⟨s, hs⟩ := Option.isSome_iff_exists.mp hrun
  have hstep : Step freshFutexTable firstWait s := ⟨16, hs⟩
  have hkeeps : Keeps freshFutexTable firstWait := by
    left
    rfl
  exact ⟨s, hstep, no_stale_entry (.next (.start freshFutexTable_started) hkeeps hstep)⟩

/-- The entry of an address stays in the table when its only thread is woken. -/
theorem stale_entry_after_wake : ¬ ∀ s, Reachable Started Step s → NoStaleEntry s := by
  intro hclaim
  have hrun : ((exec 16 freshFutexTable firstWait).bind fun s => exec 16 s onlyWake).any (fun s =>
      decide (uhashtableGet 16 s.table 0x1000 = some (.osNoErr, some 0)) &&
      decide (s.queues 0 = some ⟨[], 1⟩)) = true := by decide +kernel
  obtain ⟨s2, hs2, hvals⟩ := (Option.any_eq_true _ _).mp hrun
  simp only [Bool.and_eq_true, decide_eq_true_eq] at hvals
  obtain ⟨s1, hs1, hwake⟩ := Option.bind_eq_some_iff.mp hs2
  have hreach : Reachable Started Step s2 :=
    .next (.next (.start freshFutexTable_started) trivial ⟨16, hs1⟩) trivial ⟨16, hwake⟩
  have hgood := hclaim s2 hreach
  obtain ⟨t, ht⟩ := (hgood.entry 0x1000).mp ⟨16, 0, hvals.1⟩
  obtain ⟨queue, hqueue, -, hiff⟩ := hgood.queue 0x1000 16 0 hvals.1
  rw [hvals.2] at hqueue
  cases hqueue
  exact List.not_mem_nil ((hiff t).mpr ht)

end FutexTable

end UtkKernel.Sync
