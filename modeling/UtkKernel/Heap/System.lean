import UtkKernel.Foundations.Runs
import UtkKernel.Heap.Initial

/-! # A heap in use

Blocks are asked for and given back in any order, and their owners write what they like into them. -/

namespace UtkKernel.Heap
open Foundations Code Cell
set_option autoImplicit false

/-! ## Steps -/

/-- The memory, and the live blocks with the sizes that were asked for. -/
structure HeapState where
  store : Store
  live : List (ℕ × ℕ)

/-- The kernel's heap, and that of a process with its size. -/
inductive Allocator
  | kernel
  | process (processHeapSize : ℕ)

inductive HeapAct
  | alloc (calls : HeapCalls) (size : ℕ)
  | free (calls : HeapCalls) (ptr : ℕ)
  | write (addr value : ℕ)

namespace Allocator

/-- `kmalloc` or `malloc` -/
def alloc (calls : HeapCalls) (size : ℕ) : Allocator → Access (Option ℕ)
  | kernel => do
    let ptr ← kmalloc size
    pure (some ptr)
  | process processHeapSize => malloc processHeapSize calls size

/-- `kfree` or `free` -/
def free (calls : HeapCalls) (ptr : ℕ) : Allocator → Access (Option Unit)
  | kernel => do
    kfree ptr
    pure (some ())
  | process _ => Heap.free calls ptr

/-- The pages that a process gets are in memory and hold its heap. -/
def Serves (r : HeapRegion) (calls : HeapCalls) : Allocator → Prop
  | kernel => True
  | process processHeapSize => calls.pageAlloc = .osNoErr → calls.startAddr = r.mem ∧ processHeapSize = r.size

/-- A block is given back once, and only its owner writes into it. -/
def Step (a : Allocator) (r : HeapRegion) (s : HeapState) (act : HeapAct) (s' : HeapState) : Prop :=
  match act with
  | .alloc calls size => size < 2 ^ 32 ∧ a.Serves r calls ∧ ∃ ptr, (a.alloc calls size).run s.store = (some ptr, s'.store) ∧
      s'.live = if ptr = 0 then s.live else (ptr, size) :: s.live
  | .free calls ptr => (∃ size, (ptr, size) ∈ s.live) ∧ (a.free calls ptr).run s.store = (some (), s'.store) ∧
      s'.live = s.live.filter fun b => decide (b.1 ≠ ptr)
  | .write addr value => (∃ b ∈ s.live, Cell.word addr ∈ dataCells s.store (b.1 - headerSize)) ∧
      s'.store = Function.update s.store (.word addr) value ∧ s'.live = s.live

/-- The kernel initialises its heap at boot; a process does it when it first asks for a block. -/
def Started (r : HeapRegion) (s : HeapState) : Allocator → Prop
  | kernel => (∃ m : Store, (∀ n, 0 ≤ n → n < numSizes → m (.freeChunk n) = 0) ∧
      s.store = ((kheapInit r.mem r.size).run m).2) ∧ s.live = []
  | process _ => s.store .init = 0 ∧ (∀ n, 0 ≤ n → n < numSizes → s.store (.freeChunk n) = 0) ∧ s.live = []

end Allocator

/-- A page for a heap, behind the first one. -/
def smallRegion : HeapRegion := ⟨4096, 4096, by decide, by decide, by decide⟩

/-- Calls that the kernel heap does not make. -/
def noCalls : HeapCalls := ⟨.osNoErr, 0, .osNoErr, .osNoErr, .osNoErr⟩

/-- The kernel heap at boot. -/
def booted (r : HeapRegion) : HeapState := ⟨((kheapInit r.mem r.size).run fun _ => 0).2, []⟩

namespace HeapState

def kmalloc (s : HeapState) (size : ℕ) : HeapState :=
  let result := (Heap.kmalloc size).run s.store
  ⟨result.2, if result.1 = 0 then s.live else (result.1, size) :: s.live⟩

def kfree (s : HeapState) (ptr : ℕ) : HeapState :=
  ⟨((Heap.kfree ptr).run s.store).2, s.live.filter fun b => decide (b.1 ≠ ptr)⟩

end HeapState

theorem booted_started (r : HeapRegion) : Allocator.kernel.Started r (booted r) :=
  ⟨⟨fun _ => 0, fun _ _ _ => rfl, rfl⟩, rfl⟩

theorem kernel_alloc_run (calls : HeapCalls) (size : ℕ) (m : Store) :
    (Allocator.kernel.alloc calls size).run m = (some ((kmalloc size).run m).1, ((kmalloc size).run m).2) := by
  unfold Allocator.alloc
  dsimp only
  rw [run_bind]
  rfl

theorem kmalloc_step {r : HeapRegion} {size : ℕ} (s : HeapState) (hsize : size < 2 ^ 32) (calls : HeapCalls) :
    Allocator.kernel.Step r s (.alloc calls size) (s.kmalloc size) :=
  ⟨hsize, trivial, ((Heap.kmalloc size).run s.store).1, kernel_alloc_run calls size s.store, rfl⟩

theorem kfree_step {r : HeapRegion} {ptr size : ℕ} (s : HeapState) (hlive : (ptr, size) ∈ s.live) (calls : HeapCalls) :
    Allocator.kernel.Step r s (.free calls ptr) (s.kfree ptr) := by
  refine ⟨⟨size, hlive⟩, ?_, rfl⟩
  unfold Allocator.free
  dsimp only
  rw [run_bind]
  rfl

/-! ## The invariant -/

/-- The variables of a heap that was initialised. -/
structure Fixed (r : HeapRegion) (m : Store) : Prop where
  init : m .init ≠ 0
  firstChunk : m .firstChunk = r.first
  lastChunk : m .lastChunk = r.last

/-- The chunks are a heap, and the taken ones are the live blocks. -/
structure InUse (r : HeapRegion) (s : HeapState) (chunks : List ℕ) : Prop where
  inv : HeapInv s.store r.first chunks r.last
  fixed : Fixed r s.store
  live : ∀ ptr, (∃ size, (ptr, size) ∈ s.live) ↔ ∃ c, Taken s.store chunks c ∧ ptr = c + headerSize
  nodup : (s.live.map Prod.fst).Nodup
  room : ∀ b ∈ s.live, roundedSize b.2 ≤ usable s.store (b.1 - headerSize)

variable {r : HeapRegion} {s s' : HeapState} {m m' : Store} {chunks chunks' : List ℕ} {a c ptr size : ℕ} {S : ℕ → Prop}
  {live : List (ℕ × ℕ)}

theorem Fixed.congr (h : Fixed r m) (hsame : ∀ x ∈ fixedCells, m' x = m x) : Fixed r m' := by
  refine ⟨?_, ?_, ?_⟩
  · rw [hsame _ (.inr (.inr rfl))]
    exact h.init
  · rw [hsame _ (.inl rfl)]
    exact h.firstChunk
  · rw [hsame _ (.inr (.inl rfl))]
    exact h.lastChunk

theorem Fixed.outside (h : Fixed r m) (hframe : ∀ x, x ∉ Outside m S → m' x = m x) : Fixed r m' :=
  h.congr fun x hx => hframe x fun hout => hout.1 hx

/-- A chunk that is taken becomes a live block. -/
theorem InUse.alloc (h : InUse r s chunks) (hfree : IsFree s.store chunks c)
    (hallocated : Allocated s.store s'.store r.first chunks chunks' r.last (roundedSize size) c)
    (hfixed : Fixed r s'.store) (hlive : s'.live = (c + headerSize, size) :: s.live) : InUse r s' chunks' := by
  have hfresh : ∀ b ∈ s.live, b.1 ≠ c + headerSize := by
    intro b hb he
    obtain ⟨c', hc', hptr⟩ := (h.live b.1).mp ⟨b.2, hb⟩
    have hcc : c = c' := Nat.add_right_cancel (he.symm.trans hptr)
    exact hc'.2 (hcc ▸ hfree.2)
  refine ⟨hallocated.inv, hfixed, fun ptr => ?_, ?_, fun b hb => ?_⟩
  · rw [hlive]
    constructor
    · rintro ⟨size', hmem⟩
      rcases List.mem_cons.mp hmem with he | hmem
      · exact ⟨c, (hallocated.taken c).mpr (.inr rfl), (Prod.mk.inj he).1⟩
      · obtain ⟨c', hc', hptr⟩ := (h.live ptr).mp ⟨size', hmem⟩
        exact ⟨c', (hallocated.taken c').mpr (.inl hc'), hptr⟩
    · rintro ⟨c', hc', hptr⟩
      rcases (hallocated.taken c').mp hc' with hc' | rfl
      · obtain ⟨size', hmem⟩ := (h.live ptr).mpr ⟨c', hc', hptr⟩
        exact ⟨size', List.mem_cons_of_mem _ hmem⟩
      · exact ⟨size, List.mem_cons.mpr (.inl (by rw [hptr]))⟩
  · rw [hlive, List.map_cons, List.nodup_cons]
    refine ⟨fun hmem => ?_, h.nodup⟩
    obtain ⟨b, hb, he⟩ := List.mem_map.mp hmem
    exact hfresh b hb he
  · rw [hlive] at hb
    rcases List.mem_cons.mp hb with rfl | hb
    · exact hallocated.room
    · obtain ⟨c', hc', hptr⟩ := (h.live b.1).mp ⟨b.2, hb⟩
      have hroom := h.room b hb
      rw [hptr, Nat.add_sub_cancel] at hroom ⊢
      unfold usable at hroom ⊢
      rw [hallocated.next c' hc']
      exact hroom

/-- A live block is given back. -/
theorem InUse.release (h : InUse r s chunks) (hinv : HeapInv s'.store r.first chunks' r.last)
    (htaken : ∀ a, Taken s'.store chunks' a ↔ Taken s.store chunks a ∧ a ≠ c)
    (hnext : ∀ a, Taken s.store chunks a → a ≠ c → s'.store (next a) = s.store (next a)) (hfixed : Fixed r s'.store)
    (hlive : s'.live = s.live.filter fun b => decide (b.1 ≠ c + headerSize)) : InUse r s' chunks' := by
  refine ⟨hinv, hfixed, fun ptr => ?_, ?_, fun b hb => ?_⟩
  · rw [hlive]
    constructor
    · rintro ⟨size', hmem⟩
      obtain ⟨hmem, hne⟩ := List.mem_filter.mp hmem
      obtain ⟨c', hc', hptr⟩ := (h.live ptr).mp ⟨size', hmem⟩
      refine ⟨c', (htaken c').mpr ⟨hc', ?_⟩, hptr⟩
      rintro rfl
      exact of_decide_eq_true hne hptr
    · rintro ⟨c', hc', hptr⟩
      obtain ⟨hc', hne⟩ := (htaken c').mp hc'
      obtain ⟨size', hmem⟩ := (h.live ptr).mpr ⟨c', hc', hptr⟩
      refine ⟨size', List.mem_filter.mpr ⟨hmem, decide_eq_true fun he => hne ?_⟩⟩
      exact Nat.add_right_cancel (hptr.symm.trans he)
  · rw [hlive]
    exact h.nodup.sublist (List.filter_sublist.map _)
  · rw [hlive] at hb
    obtain ⟨hb, hne⟩ := List.mem_filter.mp hb
    obtain ⟨c', hc', hptr⟩ := (h.live b.1).mp ⟨b.2, hb⟩
    have hcc : c' ≠ c := by
      rintro rfl
      exact of_decide_eq_true hne hptr
    have hroom := h.room b hb
    rw [hptr, Nat.add_sub_cancel] at hroom ⊢
    unfold usable at hroom ⊢
    rw [hnext c' hc' hcc]
    exact hroom

/-- A word in the data of a chunk is no part of the heap's own cells. -/
theorem HeapInv.writeData {first last w : ℕ} (h : HeapInv m first chunks last) (hc : Taken m chunks c)
    (hw : Cell.word w ∈ dataCells m c) (value : ℕ) :
    HeapInv (Function.update m (.word w) value) first chunks last ∧
      (∀ a ∈ chunks, Function.update m (.word w) value (next a) = m (next a)) ∧
      ∀ a ∈ chunks, Function.update m (.word w) value (used a) = m (used a) := by
  have htiled := h.arrangement.tiled
  have hoff : ∀ a ∈ first :: (chunks ++ [last]), ∀ i < headerSize,
      Function.update m (.word w) value (.word (a + i)) = m (.word (a + i)) := by
    intro a ha i hi
    refine Function.update_of_ne (fun he => ?_) ..
    exact htiled.notMem_dataCells (mem_all hc.1) ha (hi.trans (by decide)) (.inr hi) (he ▸ hw)
  have hlink : ∀ x ∈ linkCells (IsFree m chunks), Function.update m (.word w) value x = m x := by
    intro x hx
    refine Function.update_of_ne (fun he => ?_) ..
    have hin : x ∈ Outside m (Taken m chunks) := by
      refine (h.linkCells_subset (fun _ ha => ha) fun a ha => ⟨ha.1, fun ht => ht.2 ha.2⟩) (Set.mem_insert_of_mem _ hx)
    exact hin.2 c hc (he ▸ hw)
  have hnode : ∀ x ∈ nodeCells (first :: (chunks ++ [last])), Function.update m (.word w) value x = m x := by
    rintro x ⟨a, ha, rfl | rfl⟩
    · exact hoff a ha 0 (by decide)
    · exact hoff a ha 4 (by decide)
  have hused : ∀ a ∈ first :: (chunks ++ [last]), Function.update m (.word w) value (used a) = m (used a) :=
    fun a ha => hoff a ha 8 (by decide)
  refine ⟨⟨(h.arrangement.congr hnode hlink).of_iff fun a => ?_, ?_, ?_,
    coalesced_congr h.coalesced fun a ha => hused a (mem_all ha), h.head⟩, fun a ha => hoff a (mem_all ha) 0 (by decide),
    fun a ha => hused a (mem_all ha)⟩
  · exact and_congr_right fun ha => by rw [hused a (mem_all ha)]
  · rw [hused first List.mem_cons_self]
    exact h.usedFirst
  · rw [hused last (by simp)]
    exact h.usedLast

/-- The owner of a block writes into it. -/
theorem InUse.write {w value : ℕ} (h : InUse r s chunks) (hc : Taken s.store chunks c)
    (hw : Cell.word w ∈ dataCells s.store c) (hstore : s'.store = Function.update s.store (.word w) value)
    (hlive : s'.live = s.live) : InUse r s' chunks ∧ freeSum s'.store chunks = freeSum s.store chunks := by
  have hdata := h.inv.writeData hc hw value
  rw [← hstore] at hdata
  obtain ⟨hinv, hnext, hused⟩ := hdata
  refine ⟨⟨hinv, h.fixed.congr fun x hx => ?_, fun ptr => ?_, ?_, fun b hb => ?_⟩,
    freeSum_congr hused fun a ha _ => hnext a ha⟩
  · rw [hstore]
    refine Function.update_of_ne ?_ ..
    rintro rfl
    exact word_notMem_fixedCells w hx
  · rw [hlive, h.live]
    refine exists_congr fun c' => and_congr_left fun _ => and_congr_right fun hc' => ?_
    rw [hused c' hc']
  · rw [hlive]
    exact h.nodup
  · rw [hlive] at hb
    obtain ⟨c', hc', hptr⟩ := (h.live b.1).mp ⟨b.2, hb⟩
    have hroom := h.room b hb
    rw [hptr, Nat.add_sub_cancel] at hroom ⊢
    unfold usable at hroom ⊢
    rw [hnext c' hc'.1]
    exact hroom

/-! ## Calls -/

/-- The slots of the chunks that are large enough whatever their size are empty. -/
def Full (m : Store) (size : ℕ) : Prop :=
  ∀ k, memoryChunkSlot (roundedSize size - 1) + 1 ≤ k → k < numSizes → m (.freeChunk k) = 0

/-- What a call that asks for a block does: nothing, or it takes a chunk. -/
def Outcome (r : HeapRegion) (m : Store) (chunks : List ℕ) (size ptr : ℕ) (m' : Store) : Prop :=
  (ptr = 0 ∧ m' = m ∧ (size = 0 ∨ Full m size)) ∨ ∃ c chunks', ptr = c + headerSize ∧ IsFree m chunks c ∧
    Allocated m m' r.first chunks chunks' r.last (roundedSize size) c ∧ Fixed r m'

variable {calls : HeapCalls} {alloc : Allocator} {act : HeapAct}

theorem allocate_run (hinv : HeapInv m r.first chunks r.last) (hfixed : Fixed r m) (size : ℕ) :
    (((allocate size).run m).1 = 0 ∧ Outcome r m chunks size 0 ((allocate size).run m).2) ∨
      ((allocate size).run m).1 ≠ 0 ∧ Outcome r m chunks size (((allocate size).run m).1 + headerSize) ((allocate size).run m).2 ∧
        ((allocate size).run m).2 (data ((allocate size).run m).1) = ((allocate size).run m).1 + headerSize := by
  obtain ⟨⟨hzero, hsame, hfull⟩ | ⟨hfree, chunks', hallocated⟩, hframe⟩ := (allocate_ensures hinv size).frame.run
  · exact .inl ⟨hzero, .inl ⟨rfl, hsame, .inr hfull⟩⟩
  · refine .inr ⟨?_, .inr ⟨_, chunks', rfl, hfree, hallocated, hfixed.outside hframe⟩, hallocated.data⟩
    have htaken := (hallocated.taken _).mpr (.inr rfl)
    exact hallocated.inv.arrangement.tiled.ne_zero (mem_all htaken.1)

theorem kmalloc_run (hinv : HeapInv m r.first chunks r.last) (hfixed : Fixed r m) (size : ℕ) :
    Outcome r m chunks size ((kmalloc size).run m).1 ((kmalloc size).run m).2 := by
  unfold kmalloc
  rw [run_bind, run_read]
  by_cases hsize : size = 0
  · rw [if_pos (.inr hsize)]
    exact .inl ⟨rfl, rfl, .inl hsize⟩
  · rw [if_neg (not_or.mpr ⟨hfixed.init, hsize⟩), run_bind]
    obtain ⟨hzero, hout⟩ | ⟨hne, hout, hdata⟩ := allocate_run hinv hfixed size
    · rw [if_pos hzero]
      exact hout
    · rw [if_neg hne, run_read, hdata]
      exact hout

theorem lockedMalloc_run (hinv : HeapInv m r.first chunks r.last) (hfixed : Fixed r m)
    (hrun : (lockedMalloc calls size).run m = (some ptr, m')) : Outcome r m chunks size ptr m' := by
  unfold lockedMalloc at hrun
  by_cases hsize : size = 0
  · rw [if_pos hsize] at hrun
    obtain ⟨hptr, rfl⟩ := Prod.mk.inj hrun
    exact .inl ⟨(Option.some.inj hptr).symm, rfl, .inl hsize⟩
  rw [if_neg hsize] at hrun
  by_cases hlock : calls.mutexLock ≠ .osNoErr
  · rw [if_pos hlock] at hrun
    exact nomatch (Prod.mk.inj hrun).1
  rw [if_neg hlock, run_bind] at hrun
  by_cases hunlock : calls.mutexUnlock ≠ .osNoErr
  · rw [if_pos hunlock] at hrun
    exact nomatch (Prod.mk.inj hrun).1
  rw [if_neg hunlock] at hrun
  obtain ⟨hzero, hout⟩ | ⟨hne, hout, hdata⟩ := allocate_run hinv hfixed size
  · rw [if_pos hzero] at hrun
    obtain ⟨hptr, rfl⟩ := Prod.mk.inj hrun
    rw [← Option.some.inj hptr]
    exact hout
  · rw [if_neg hne, run_bind, run_read, hdata] at hrun
    obtain ⟨hptr, rfl⟩ := Prod.mk.inj hrun
    rw [← Option.some.inj hptr]
    exact hout

/-- Once the heap is initialised. -/
theorem Allocator.alloc_run (hinv : HeapInv m r.first chunks r.last) (hfixed : Fixed r m)
    (hrun : (alloc.alloc calls size).run m = (some ptr, m')) : Outcome r m chunks size ptr m' := by
  cases alloc with
  | kernel =>
    have hout := kmalloc_run hinv hfixed size
    unfold Allocator.alloc at hrun
    dsimp only at hrun
    rw [run_bind] at hrun
    obtain ⟨hptr, rfl⟩ := Prod.mk.inj hrun
    rw [← Option.some.inj hptr]
    exact hout
  | process processHeapSize =>
    unfold Allocator.alloc malloc at hrun
    dsimp only at hrun
    rw [run_bind, run_read, if_neg hfixed.init, run_bind] at hrun
    exact lockedMalloc_run hinv hfixed hrun

theorem Allocator.free_run (hfixed : Fixed r m) (hrun : (alloc.free calls (c + headerSize)).run m = (some (), m')) :
    m' = ((Heap.release (c + headerSize)).run m).2 := by
  have hif : ¬(m .init = 0 ∨ c + headerSize = 0) := not_or.mpr ⟨hfixed.init, Nat.succ_ne_zero _⟩
  cases alloc with
  | kernel =>
    unfold Allocator.free kfree at hrun
    dsimp only at hrun
    rw [run_bind, run_bind, run_read, if_neg hif] at hrun
    exact (Prod.mk.inj hrun).2.symm
  | process processHeapSize =>
    unfold Allocator.free Heap.free at hrun
    dsimp only at hrun
    rw [run_bind, run_read, if_neg hif] at hrun
    by_cases hlock : calls.mutexLock ≠ .osNoErr
    · rw [if_pos hlock] at hrun
      exact nomatch (Prod.mk.inj hrun).1
    · rw [if_neg hlock, run_bind] at hrun
      exact (Prod.mk.inj hrun).2.symm

theorem Outcome.inUse (hout : Outcome r s.store chunks size ptr s'.store) (h : InUse r s chunks)
    (hlive : s'.live = if ptr = 0 then s.live else (ptr, size) :: s.live) :
    ∃ chunks', InUse r s' chunks' ∧ ∀ k, Booked s.store chunks k → Booked s'.store chunks' k := by
  obtain ⟨rfl, hsame, -⟩ | ⟨c, chunks', rfl, hfree, hallocated, hfixed⟩ := hout
  · rw [if_pos rfl] at hlive
    have hstate : s' = s := by
      cases s
      cases s'
      exact HeapState.mk.injEq .. ▸ ⟨hsame, hlive⟩
    rw [hstate]
    exact ⟨chunks, h, fun _ hk => hk⟩
  · rw [if_neg (show c + headerSize ≠ 0 from Nat.succ_ne_zero _)] at hlive
    exact ⟨chunks', h.alloc hfree hallocated hfixed hlive, hallocated.books⟩

/-! ## The start -/

/-- The heap after its initialisation. -/
theorem initialised (r : HeapRegion) (hslots : ∀ n, 0 ≤ n → n < numSizes → m (.freeChunk n) = 0)
    (hm' : m' = Function.update ((initChunks r.mem r.size).run m).2 .init 1) :
    HeapInv m' r.first [r.second] r.last ∧ Fixed r m' ∧ Booked m' [r.second] 0 ∧ m' (used r.second) = 0 := by
  obtain ⟨⟨hinv, hbooked, hfree⟩, hfirst, hlast⟩ := (initChunks_ensures r hslots).run
  generalize ((initChunks r.mem r.size).run m).2 = m1 at hm' hinv hbooked hfree hfirst hlast
  have hsame : ∀ x, x ≠ .init → m' x = m1 x := fun x hx => by
    rw [hm', Function.update_of_ne hx]
  have hword : ∀ w, m' (.word w) = m1 (.word w) := fun w => hsame _ (by rintro ⟨⟩)
  refine ⟨hinv.congr hword fun n => hsame _ (by rintro ⟨⟩), ⟨?_, ?_, ?_⟩, ?_, (hword _).trans hfree⟩
  · rw [hm', Function.update_self]
    exact Nat.one_ne_zero
  · exact (hsame _ (by rintro ⟨⟩)).trans hfirst
  · exact (hsame _ (by rintro ⟨⟩)).trans hlast
  · unfold Booked
    rw [hsame _ (by rintro ⟨⟩), freeSum_congr (fun _ _ => hword _) fun _ _ _ => hword _]
    exact hbooked

theorem kheapInit_run (mem size : ℕ) (m : Store) :
    ((kheapInit mem size).run m).2 = Function.update ((initChunks mem size).run m).2 .init 1 := by
  unfold kheapInit
  rw [run_bind, run_write]

/-- A process that has no heap yet. -/
structure Idle (s : HeapState) : Prop where
  init : s.store .init = 0
  slots : ∀ n, 0 ≤ n → n < numSizes → s.store (.freeChunk n) = 0
  live : s.live = []

/-- Without a heap no block is found. -/
theorem allocate_idle (hslots : ∀ n, 0 ≤ n → n < numSizes → m (.freeChunk n) = 0) (size : ℕ) :
    (allocate size).run m = (0, m) := by
  have hpos : 0 < roundedSize size - 1 := Nat.sub_pos_of_lt (lt_of_lt_of_le (by decide) (le_roundedSize size))
  have hslot : 0 ≤ memoryChunkSlot (roundedSize size - 1) + 1 := by
    rw [memoryChunkSlot_eq hpos]
    omega
  have hfuel : numSizes ≤ memoryChunkSlot (roundedSize size - 1) + 1 + (32 : ℕ) := by
    change (32 : ℤ) ≤ _
    omega
  obtain ⟨hsame, hsome, -⟩ := (findSlot_ensures 32 _ hfuel).run
  change ((findSlot 32 (memoryChunkSlot (roundedSize size - 1) + 1)) >>= _).run m = _
  rw [run_bind, hsame]
  cases hfound : ((findSlot 32 (memoryChunkSlot (roundedSize size - 1) + 1)).run m).1 with
  | none => rfl
  | some n =>
    obtain ⟨hle, hlt, hhead⟩ := hsome n hfound
    exact absurd (hslots n (hslot.trans hle) hlt) hhead

theorem lockedMalloc_idle (hslots : ∀ n, 0 ≤ n → n < numSizes → m (.freeChunk n) = 0)
    (hrun : (lockedMalloc calls size).run m = (some ptr, m')) : ptr = 0 ∧ m' = m := by
  unfold lockedMalloc at hrun
  by_cases hsize : size = 0
  · rw [if_pos hsize] at hrun
    obtain ⟨hptr, rfl⟩ := Prod.mk.inj hrun
    exact ⟨(Option.some.inj hptr).symm, rfl⟩
  rw [if_neg hsize] at hrun
  by_cases hlock : calls.mutexLock ≠ .osNoErr
  · rw [if_pos hlock] at hrun
    exact nomatch (Prod.mk.inj hrun).1
  rw [if_neg hlock, run_bind, allocate_idle hslots] at hrun
  by_cases hunlock : calls.mutexUnlock ≠ .osNoErr
  · rw [if_pos hunlock] at hrun
    exact nomatch (Prod.mk.inj hrun).1
  · rw [if_neg hunlock, if_pos rfl] at hrun
    obtain ⟨hptr, rfl⟩ := Prod.mk.inj hrun
    exact ⟨(Option.some.inj hptr).symm, rfl⟩

/-- What the first calls find, once they have tried to initialise the heap. -/
theorem malloc_idle {processHeapSize : ℕ} (hinit : m .init = 0)
    (hslots : ∀ n, 0 ≤ n → n < numSizes → m (.freeChunk n) = 0)
    (hserves : (Allocator.process processHeapSize).Serves r calls)
    (hrun : (malloc processHeapSize calls size).run m = (some ptr, m')) :
    (((userHeapInit processHeapSize calls).run m).2 = m ∧ ptr = 0 ∧ m' = m) ∨
      ((userHeapInit processHeapSize calls).run m).2 = Function.update ((initChunks r.mem r.size).run m).2 .init 1 ∧
        (lockedMalloc calls size).run (Function.update ((initChunks r.mem r.size).run m).2 .init 1) = (some ptr, m') := by
  unfold malloc at hrun
  rw [run_bind, run_read, if_pos hinit, run_bind] at hrun
  unfold userHeapInit at hrun ⊢
  by_cases hpages : calls.pageAlloc ≠ .osNoErr
  · rw [if_pos hpages] at hrun ⊢
    exact .inl ⟨rfl, lockedMalloc_idle hslots hrun⟩
  · obtain ⟨haddr, hheap⟩ := hserves (not_not.mp hpages)
    rw [if_neg hpages, run_bind, haddr, hheap] at hrun ⊢
    by_cases hmutex : calls.mutexInit ≠ .osNoErr
    · rw [if_pos hmutex] at hrun
      exact nomatch (Prod.mk.inj hrun).1
    · rw [if_neg hmutex, run_bind, run_write, run_pure] at hrun ⊢
      exact .inr ⟨rfl, hrun⟩

/-! ## Runs -/

/-- What `mem_free` gains too much in a step. -/
def HeapAct.gain (m : Store) : HeapAct → ℕ
  | .free _ ptr => mergeGain m (ptr - headerSize)
  | _ => 0

/-- An initialised heap, before its first block. -/
theorem InUse.started (hslots : ∀ n, 0 ≤ n → n < numSizes → m (.freeChunk n) = 0)
    (hstore : s.store = Function.update ((initChunks r.mem r.size).run m).2 .init 1) (hlive : s.live = []) :
    InUse r s [r.second] ∧ Booked s.store [r.second] 0 := by
  obtain ⟨hinv, hfixed, hbooked, hfree⟩ := initialised r hslots hstore
  have hnone : ∀ c, ¬Taken s.store [r.second] c := by
    rintro c ⟨hc, hused⟩
    rw [List.mem_singleton.mp hc] at hused
    exact hused hfree
  refine ⟨⟨hinv, hfixed, fun ptr => ?_, ?_, ?_⟩, hbooked⟩
  · rw [hlive]
    exact iff_of_false (fun ⟨_, hmem⟩ => nomatch hmem) fun ⟨c, hc, _⟩ => hnone c hc
  · rw [hlive]
    exact List.nodup_nil
  · rw [hlive]
    exact fun b hb => nomatch hb

theorem InUse.step (h : InUse r s chunks) (hstep : alloc.Step r s act s') :
    ∃ chunks', InUse r s' chunks' ∧ ∀ k, Booked s.store chunks k → Booked s'.store chunks' (k + act.gain s.store) := by
  cases act with
  | alloc calls size =>
    obtain ⟨-, -, ptr, hrun, hlive⟩ := hstep
    exact (Allocator.alloc_run h.inv h.fixed hrun).inUse h hlive
  | free calls ptr =>
    obtain ⟨hblock, hrun, hlive⟩ := hstep
    obtain ⟨c, hc, rfl⟩ := (h.live ptr).mp hblock
    have hstore := Allocator.free_run h.fixed hrun
    obtain ⟨⟨chunks', hinv, htaken, hnext, hbooks⟩, hframe⟩ := (release_ensures h.inv hc).frame.run
    rw [← hstore] at hinv htaken hnext hbooks hframe
    refine ⟨chunks', h.release hinv htaken hnext (h.fixed.outside hframe) hlive, fun k hk => ?_⟩
    have hbooked := hbooks k hk
    have hgain : HeapAct.gain s.store (.free calls (c + headerSize)) = mergeGain s.store c := by
      unfold HeapAct.gain
      dsimp only
      rw [Nat.add_sub_cancel]
    rw [hgain]
    exact hbooked
  | write addr value =>
    obtain ⟨⟨b, hb, hin⟩, hstore, hlive⟩ := hstep
    obtain ⟨c, hc, hptr⟩ := (h.live b.1).mp ⟨b.2, hb⟩
    rw [hptr, Nat.add_sub_cancel] at hin
    obtain ⟨h', hsum⟩ := h.write hc hin hstore hlive
    refine ⟨chunks, h', fun k hk => ?_⟩
    unfold Booked at hk ⊢
    rw [hsum, hstore, Function.update_of_ne (by rintro ⟨⟩)]
    exact hk

/-- The first call that gets pages starts the heap. -/
theorem Idle.step {processHeapSize : ℕ} (h : Idle s) (hstep : (Allocator.process processHeapSize).Step r s act s') :
    Idle s' ∨ ∃ chunks, InUse r s' chunks := by
  cases act with
  | alloc calls size =>
    obtain ⟨-, hserves, ptr, hrun, hlive⟩ := hstep
    obtain ⟨-, rfl, hsame⟩ | ⟨-, hlocked⟩ := malloc_idle h.init h.slots hserves hrun
    · rw [if_pos rfl] at hlive
      exact .inl ⟨hsame ▸ h.init, hsame ▸ h.slots, hlive.trans h.live⟩
    · obtain ⟨hinUse, -⟩ := InUse.started (s := ⟨_, s.live⟩) h.slots rfl h.live
      obtain ⟨chunks', hinUse', -⟩ := (lockedMalloc_run hinUse.inv hinUse.fixed hlocked).inUse hinUse hlive
      exact .inr ⟨chunks', hinUse'⟩
  | free calls ptr =>
    obtain ⟨⟨size, hmem⟩, -⟩ := hstep
    rw [h.live] at hmem
    exact nomatch hmem
  | write addr value =>
    obtain ⟨⟨b, hb, -⟩, -⟩ := hstep
    rw [h.live] at hb
    exact nomatch hb

/-- What is known of a heap that is in use, or not there yet. -/
theorem inUse_of_run (hrun : Reachable (fun s => alloc.Started r s) (alloc.Step r) s) :
    (Idle s ∧ alloc ≠ .kernel) ∨ ∃ chunks, InUse r s chunks := by
  refine hrun.invariant (fun s => (Idle s ∧ alloc ≠ .kernel) ∨ ∃ chunks, InUse r s chunks) ?_ ?_
  · intro s hstart
    cases alloc with
    | kernel =>
      obtain ⟨⟨m, hslots, hstore⟩, hlive⟩ := hstart
      rw [kheapInit_run] at hstore
      exact .inr ⟨_, (InUse.started hslots hstore hlive).1⟩
    | process processHeapSize => exact .inl ⟨⟨hstart.1, hstart.2.1, hstart.2.2⟩, Allocator.noConfusion⟩
  · rintro s act s' (⟨hidle, hne⟩ | ⟨chunks, hinUse⟩) - hstep
    · cases alloc with
      | kernel => exact absurd rfl hne
      | process processHeapSize => exact (hidle.step hstep).imp_left fun h => ⟨h, hne⟩
    · obtain ⟨chunks', hinUse', -⟩ := hinUse.step hstep
      exact .inr ⟨chunks', hinUse'⟩

end UtkKernel.Heap
