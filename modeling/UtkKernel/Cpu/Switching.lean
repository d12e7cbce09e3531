import UtkKernel.Cpu.Context
import UtkKernel.Foundations.Simulations
import Mathlib.Data.Set.Insert

/-! # Threads on one CPU

The kernel runs one thread at a time. Any interrupt saves the context of the thread it interrupts, `schedule_int` ends
in the context of another thread, `sched_create_thread` prepares the context of a new one. What the threads of the
system are meant to see is a CPU and a stack for each of them, which nobody else touches: `VStep`. Every run of the
kernel is such a run. -/

namespace UtkKernel.Cpu
open Foundations
set_option autoImplicit false

/-- Where the threads have their stacks. -/
structure Layout (Tid C : Type) where
  cell : Word → Word → C
  pageDir : Tid → Word
  kstack : Tid → Word
  kstackSize : Tid → Word

namespace Layout

variable {Tid C : Type} (L : Layout Tid C)

/-- The first address after the stack. -/
def top (t : Tid) : Word := L.kstack t + L.kstackSize t / 4#32 * 4#32

/-- How many words the stack has. -/
def depth (t : Tid) : ℕ := (L.kstackSize t).toNat / 4

/-- The word number `i` of a stack, counted from its top. -/
def word (t : Tid) (i : ℕ) : C := L.cell (L.pageDir t) (slot (L.top t) i)

/-- The words that lie above a stack pointer. -/
def Live (t : Tid) (esp : Word) (i : ℕ) : Prop := i < L.depth t ∧ 4 * (i + 1) ≤ (L.top t - esp).toNat

instance (t : Tid) (esp : Word) (i : ℕ) : Decidable (L.Live t esp i) := inferInstanceAs (Decidable (_ ∧ _))

/-- What a thread has on its stack: the words above its stack pointer. -/
def view (t : Tid) (esp : Word) (words : ℕ → Word) (i : ℕ) : Option Word :=
  if L.Live t esp i then some (words i) else none

/-- The stack has this many words on it, and room for one more frame. -/
def Room (t : Tid) (esp : Word) (k : ℕ) : Prop := k + 18 ≤ L.depth t ∧ esp = L.top t - BitVec.ofNat 32 (4 * k)

/-- A stack in memory of its own, with room for the frame it starts with. -/
structure Allocated (t : Tid) : Prop where
  large : 18 ≤ L.depth t
  separate : Separate (L.cell (L.pageDir t)) (L.top t) (L.depth t)

/-- Two stacks do not overlap. -/
def Apart (t u : Tid) : Prop := ∀ i < L.depth t, ∀ j < L.depth u, L.word t i ≠ L.word u j

variable {L} {t : Tid} {esp : Word} {i k : ℕ}

theorem Room.cell_slot (h : L.Room t esp k) (i : ℕ) : L.cell (L.pageDir t) (slot esp i) = L.word t (k + i) := by
  rw [h.2, slot_below, word]

/-- The words of the frame below the stack pointer, from the address of the frame on. -/
theorem Room.cell_frame (h : L.Room t esp k) (hi : i < 18) :
    L.cell (L.pageDir t) (esp - 72#32 + BitVec.ofNat 32 (4 * i)) = L.word t (k + (17 - i)) := by
  have hsize : 72#32 = BitVec.ofNat 32 (4 * 18) := rfl
  rw [hsize, slot_above hi, h.cell_slot]

theorem depth_lt : L.depth t < 2 ^ 30 := by
  have hsize := (L.kstackSize t).isLt
  unfold depth
  omega

theorem Room.live_iff (h : L.Room t esp k) : L.Live t esp i ↔ i < k := by
  have hdepth := L.depth_lt (t := t)
  have hk := h.1
  have hwords : (L.top t - esp).toNat = 4 * k := by
    rw [h.2]
    generalize L.top t = top
    bv_omega
  unfold Live
  omega

theorem Allocated.word_inj (h : L.Allocated t) {i j : ℕ} (hi : i < L.depth t) (hj : j < L.depth t)
    (heq : L.word t i = L.word t j) : i = j :=
  h.separate i hi j hj heq

end Layout

/-- The events of a run. -/
inductive Event (Tid : Type)
  | run
  | interrupt
  | switch (next : Tid)
  | create (thread : Tid) (entryPoint : Word)
  | exit (thread : Tid)

/-- What the threads do of themselves: from the registers and what is on the stack to other registers and words. -/
abbrev Program (Tid : Type) := Tid → Regs → (ℕ → Option Word) → Regs → (ℕ → Word) → Prop

variable {Tid C : Type}

/-! ## The kernel -/

/-- `saved` holds `cpu_context.esp` of each thread. -/
structure System (Tid C : Type) where
  current : Tid
  live : Set Tid
  saved : Tid → Word
  machine : Machine C

/-- The stacks of the other threads are left alone. -/
def KeepsOthers (L : Layout Tid C) (s : System Tid C) (store store' : C → Word) : Prop :=
  ∀ t ∈ s.live, t ≠ s.current → ∀ i < L.depth t, store' (L.word t i) = store (L.word t i)

/-- A handler works below the frame that its interrupt left, on the stack of the thread it interrupted. -/
structure Handles (L : Layout Tid C) (s : System Tid C) (k : ℕ) (store store' : C → Word) : Prop where
  others : KeepsOthers L s store store'
  frame : ∀ i < k + 18, store' (L.word s.current i) = store (L.word s.current i)

section Steps
variable [DecidableEq C] [DecidableEq Tid]

/-- From the interrupt to the call of `kernel_interrupt_handler`, which saves the context of the current thread. -/
def System.enter (L : Layout Tid C) (s : System Tid C) (handler int : Word) (error : Option Word) : System Tid C :=
  let m := genericInterruptHandler L.cell (interruptHandler L.cell handler int error s.machine)
  { s with saved := Function.update s.saved s.current (cpuSaveContext m), machine := m }

/-- A handler has run; where it returns to, the stack pointer is back where it was. -/
def System.handled (s : System Tid C) (regs : Regs) (store : C → Word) : System Tid C :=
  { s with machine := ⟨{ regs with esp := s.machine.regs.esp, cr3 := s.machine.regs.cr3 }, store⟩ }

def System.restored (L : Layout Tid C) (s : System Tid C) (next : Tid) : System Tid C :=
  { s with current := next, machine := cpuRestoreContext L.cell (L.pageDir next) (s.saved next) s.machine }

def System.created (L : Layout Tid C) (s : System Tid C) (thread : Tid) (entryPoint : Word) : System Tid C :=
  let r := cpuInitThreadContext L.cell s.machine.regs.cr3 entryPoint (L.kstack thread) (L.kstackSize thread) s.machine.store
  { s with
    live := insert thread s.live, saved := Function.update s.saved thread r.1
    machine := { s.machine with store := r.2 } }

/-- `sched_init`: the contexts of the idle and the init thread, and the first of them is restored. -/
def System.boot (L : Layout Tid C) (idle init : Tid) (idleEntry initEntry : Word) (m : Machine C) : System Tid C :=
  let s : System Tid C := { current := idle, live := ∅, saved := fun _ => 0, machine := m }
  ((s.created L idle idleEntry).created L init initEntry).restored L idle

inductive Step (L : Layout Tid C) (does : Program Tid) : System Tid C → Event Tid → System Tid C → Prop
  | run {s : System Tid C} {regs : Regs} {words : ℕ → Word} {store : C → Word}
      (hdoes : does s.current s.machine.regs
        (L.view s.current s.machine.regs.esp fun i => s.machine.store (L.word s.current i)) regs words)
      (hcr3 : regs.cr3 = s.machine.regs.cr3)
      (hwords : ∀ i < L.depth s.current, store (L.word s.current i) = words i)
      (hothers : KeepsOthers L s s.machine.store store) :
      Step L does s .run { s with machine := ⟨regs, store⟩ }
  | interrupt {s : System Tid C} {k : ℕ} {handler int : Word} {error : Option Word} {regs : Regs} {store : C → Word}
      (hroom : L.Room s.current s.machine.regs.esp k)
      (hhandles : Handles L s k (s.enter L handler int error).machine.store store) :
      Step L does s .interrupt
        (let s' := (s.enter L handler int error).handled regs store
        { s' with machine := popFrame L.cell s'.machine })
  | switch {s : System Tid C} {k : ℕ} {handler int : Word} {error : Option Word} {regs : Regs} {store : C → Word}
      {next : Tid} (hroom : L.Room s.current s.machine.regs.esp k)
      (hhandles : Handles L s k (s.enter L handler int error).machine.store store) (hnext : next ∈ s.live) :
      Step L does s (.switch next) (((s.enter L handler int error).handled regs store).restored L next)
  -- the stack of the new thread is allocated in the address space of the thread that creates it
  | create {s : System Tid C} {thread : Tid} {entryPoint : Word} (hnew : thread ∉ s.live)
      (hspace : s.machine.regs.cr3 = L.pageDir thread) (hstack : L.Allocated thread)
      (hapart : ∀ t ∈ s.live, L.Apart t thread) :
      Step L does s (.create thread entryPoint) (s.created L thread entryPoint)
  | exit {s : System Tid C} {thread : Tid} (hother : thread ≠ s.current) :
      Step L does s (.exit thread) { s with live := s.live \ {thread} }

/-! ## The threads -/

/-- A CPU and a stack for each thread. -/
structure Threads (Tid : Type) where
  current : Tid
  live : Set Tid
  regs : Tid → Regs
  stack : Tid → ℕ → Word

def Threads.created (L : Layout Tid C) (v : Threads Tid) (thread : Tid) (entryPoint : Word) : Threads Tid :=
  { v with
    live := insert thread v.live
    regs := Function.update v.regs thread
      (initRegs (L.kstack thread) (L.kstackSize thread / 4#32) entryPoint (L.pageDir thread)) }

def Threads.boot (L : Layout Tid C) (idle init : Tid) (idleEntry initEntry : Word) (regs : Regs) : Threads Tid :=
  let v : Threads Tid := { current := idle, live := ∅, regs := fun _ => regs, stack := fun _ _ => 0 }
  (v.created L idle idleEntry).created L init initEntry

/-- Interrupts do nothing, and a switch does nothing but to let another thread run. -/
inductive VStep (L : Layout Tid C) (does : Program Tid) : Threads Tid → Event Tid → Threads Tid → Prop
  | run {v : Threads Tid} {regs : Regs} {words : ℕ → Word}
      (hdoes : does v.current (v.regs v.current) (L.view v.current (v.regs v.current).esp (v.stack v.current)) regs words) :
      VStep L does v .run
        { v with regs := Function.update v.regs v.current regs, stack := Function.update v.stack v.current words }
  | interrupt {v : Threads Tid} : VStep L does v .interrupt v
  | switch {v : Threads Tid} {next : Tid} (hnext : next ∈ v.live) : VStep L does v (.switch next) { v with current := next }
  | create {v : Threads Tid} {thread : Tid} {entryPoint : Word} (hnew : thread ∉ v.live) :
      VStep L does v (.create thread entryPoint) (v.created L thread entryPoint)
  | exit {v : Threads Tid} {thread : Tid} (hother : thread ≠ v.current) :
      VStep L does v (.exit thread) { v with live := v.live \ {thread} }

/-! ## What the kernel keeps for the threads -/

/-- The context of a thread that does not run. -/
structure Suspended (L : Layout Tid C) (s : System Tid C) (v : Threads Tid) (t : Tid) : Prop where
  frame : FrameAt L.cell (L.pageDir t) (s.saved t) s.machine.store (v.regs t)
  room : ∃ k, L.Room t (v.regs t).esp k

/-- What the kernel keeps for the threads that do not run. -/
structure Keeps (L : Layout Tid C) (s : System Tid C) (v : Threads Tid) (running : Set Tid) : Prop where
  live : v.live = s.live
  cr3 : ∀ t ∈ s.live, (v.regs t).cr3 = L.pageDir t
  stack : ∀ t ∈ s.live, ∀ i, L.Live t (v.regs t).esp i → v.stack t i = s.machine.store (L.word t i)
  suspended : ∀ t ∈ s.live, t ∉ running → Suspended L s v t
  allocated : ∀ t ∈ s.live, L.Allocated t
  apart : ∀ t ∈ s.live, ∀ u ∈ s.live, t ≠ u → L.Apart t u

structure Represents (L : Layout Tid C) (s : System Tid C) (v : Threads Tid) : Prop extends
    Keeps L s v {s.current} where
  current : v.current = s.current
  runs : s.current ∈ s.live
  regs : v.regs s.current = s.machine.regs

variable {L : Layout Tid C} {does : Program Tid} {s s' : System Tid C} {v v' : Threads Tid} {t next : Tid}
  {i k : ℕ} {handler int : Word} {error : Option Word} {store : C → Word} {regs : Regs}

/-! ## An interrupt and a switch -/

omit [DecidableEq Tid] in
theorem interrupt_esp (handler int : Word) (error : Option Word) (m : Machine C) (cell : Word → Word → C) :
    (genericInterruptHandler cell (interruptHandler cell handler int error m)).regs.esp = m.regs.esp - 72#32 :=
  (interrupt_pushes cell handler int error m).2.1

omit [DecidableEq Tid] in
theorem interrupt_cr3 (handler int : Word) (error : Option Word) (m : Machine C) (cell : Word → Word → C) :
    (genericInterruptHandler cell (interruptHandler cell handler int error m)).regs.cr3 = m.regs.cr3 :=
  (interrupt_pushes cell handler int error m).2.2

/-- An interrupt writes to no more than the eighteen words of its frame. -/
theorem enter_store {c : C} (hcr3 : s.machine.regs.cr3 = L.pageDir s.current)
    (hroom : L.Room s.current s.machine.regs.esp k) (h : ∀ i < 18, c ≠ L.word s.current (k + i)) :
    (s.enter L handler int error).machine.store c = s.machine.store c := by
  refine interrupt_frame fun i hi => ?_
  rw [hcr3, hroom.cell_slot]
  exact h i hi

variable (handler int error) in
/-- The frame of an interrupt, where the context of the current thread says it is. -/
theorem enter_frame (hcr3 : s.machine.regs.cr3 = L.pageDir s.current) (hroom : L.Room s.current s.machine.regs.esp k)
    (hstack : L.Allocated s.current) :
    FrameAt L.cell (L.pageDir s.current) (s.machine.regs.esp - 72#32) (s.enter L handler int error).machine.store
      s.machine.regs := by
  have hseparate : Separate (L.cell s.machine.regs.cr3) s.machine.regs.esp 18 := by
    intro i hi j hj heq
    rw [hcr3, hroom.cell_slot, hroom.cell_slot] at heq
    have hinj := hstack.word_inj (by have := hroom.1; omega) (by have := hroom.1; omega) heq
    omega
  have hframe := @frameAt_interrupt _ _ _ s.machine handler int error hseparate
  simp only [interrupt_esp, hcr3] at hframe
  exact hframe

omit [DecidableEq C] [DecidableEq Tid] in
/-- A context lasts as long as the words of its frame. -/
theorem Suspended.congr (h : Suspended L s v t) (hregs : v'.regs t = v.regs t) (hsaved : s'.saved t = s.saved t)
    (hsame : ∀ i < L.depth t, s'.machine.store (L.word t i) = s.machine.store (L.word t i)) : Suspended L s' v' t := by
  obtain ⟨hframe, k, hroom⟩ := h
  have hsaved' : s.saved t = (v.regs t).esp - 72#32 := by
    rw [hframe.esp]
    bv_omega
  refine ⟨?_, k, by rw [hregs]; exact hroom⟩
  rw [hregs, hsaved]
  refine hframe.congr fun i hi => ?_
  rw [hsaved', hroom.cell_frame hi]
  exact hsame _ (by have := hroom.1; omega)

omit [DecidableEq C] [DecidableEq Tid] in
theorem Represents.machine_cr3 (h : Represents L s v) : s.machine.regs.cr3 = L.pageDir s.current := by
  rw [← h.regs]
  exact h.cr3 _ h.runs

/-- An interrupt and its handler leave the stacks of the other threads. -/
theorem Represents.others_kept (h : Represents L s v) (hroom : L.Room s.current s.machine.regs.esp k)
    (hhandles : Handles L s k (s.enter L handler int error).machine.store store) (ht : t ∈ s.live) (hne : t ≠ s.current)
    (hi : i < L.depth t) : store (L.word t i) = s.machine.store (L.word t i) := by
  rw [hhandles.others t ht hne i hi]
  refine enter_store h.machine_cr3 hroom fun j hj => ?_
  exact h.apart t ht _ h.runs hne i hi _ (by have := hroom.1; omega)

/-- They leave what the current thread has on its stack. -/
theorem Represents.current_kept (h : Represents L s v) (hroom : L.Room s.current s.machine.regs.esp k)
    (hhandles : Handles L s k (s.enter L handler int error).machine.store store) (hi : i < k) :
    store (L.word s.current i) = s.machine.store (L.word s.current i) := by
  have hdepth := hroom.1
  rw [hhandles.frame i (by omega)]
  refine enter_store h.machine_cr3 hroom fun j hj heq => ?_
  have hinj := (h.allocated _ h.runs).word_inj (by omega) (by omega) heq
  omega

/-- At the end of a handler every thread, the interrupted one as well, has its context on its stack. -/
theorem Represents.parked (h : Represents L s v) (hroom : L.Room s.current s.machine.regs.esp k)
    (hhandles : Handles L s k (s.enter L handler int error).machine.store store) :
    Keeps L ((s.enter L handler int error).handled regs store) v ∅ where
  live := h.live
  cr3 := h.cr3
  stack := by
    intro t ht i hlive
    rw [h.stack t ht i hlive]
    by_cases hcurrent : t = s.current
    · subst hcurrent
      rw [h.regs, hroom.live_iff] at hlive
      exact (h.current_kept hroom hhandles hlive).symm
    · exact (h.others_kept hroom hhandles ht hcurrent hlive.1).symm
  suspended := by
    intro t ht _
    by_cases hcurrent : t = s.current
    · subst hcurrent
      have hsaved : ((s.enter L handler int error).handled regs store).saved s.current = s.machine.regs.esp - 72#32 := by
        simp only [System.handled, System.enter, Function.update_self, cpuSaveContext, interrupt_esp]
      refine ⟨?_, k, by rw [h.regs]; exact hroom⟩
      rw [hsaved, h.regs]
      refine (enter_frame handler int error h.machine_cr3 hroom (h.allocated _ h.runs)).congr fun i hi => ?_
      rw [hroom.cell_frame hi]
      exact hhandles.frame _ (by omega)
    · refine (h.suspended t ht hcurrent).congr rfl ?_ fun i hi => h.others_kept hroom hhandles ht hcurrent hi
      exact Function.update_of_ne hcurrent _ _
  allocated := h.allocated
  apart := h.apart

omit [DecidableEq C] [DecidableEq Tid] in
/-- Whichever context is restored, its thread goes on where it was. -/
theorem Keeps.restored (h : Keeps L s v ∅) (hnext : next ∈ s.live) :
    Represents L (s.restored L next) { v with current := next } := by
  have hsuspended : ∀ t ∈ s.live, Suspended L s v t := fun t ht => h.suspended t ht (Set.notMem_empty t)
  rw [System.restored, cpuRestoreContext_eq (hsuspended next hnext).frame]
  refine ⟨⟨h.live, h.cr3, h.stack, fun t ht _ => ?_, h.allocated, h.apart⟩, rfl, hnext, ?_⟩
  · exact (hsuspended t ht).congr rfl rfl fun _ _ => rfl
  · exact Regs.ext rfl rfl rfl rfl rfl rfl rfl rfl rfl rfl rfl rfl rfl rfl rfl rfl (h.cr3 next hnext)

omit [DecidableEq C] [DecidableEq Tid] in
/-- Where a handler returns to is the context of the current thread. -/
theorem Keeps.returned (h : Keeps L s v ∅) (hcurrent : s.current ∈ s.live) (hv : v.current = s.current)
    (hesp : s.machine.regs.esp = s.saved s.current) (hcr3 : s.machine.regs.cr3 = L.pageDir s.current) :
    Represents L { s with machine := popFrame L.cell s.machine } v := by
  have hsame : popFrame L.cell s.machine =
      cpuRestoreContext L.cell (L.pageDir s.current) (s.saved s.current) s.machine := by
    have hframe := (h.suspended _ hcurrent (Set.notMem_empty _)).frame
    rw [cpuRestoreContext_eq hframe]
    rw [← hesp, ← hcr3] at hframe
    rw [popFrame_eq hframe, hcr3]
  have hresume := h.restored hcurrent
  rw [System.restored, ← hsame, ← hv] at hresume
  rw [← hv]
  exact hresume

/-! ## The other events -/

omit [DecidableEq C] in
theorem Represents.run {words : ℕ → Word} (h : Represents L s v) (hcr3 : regs.cr3 = s.machine.regs.cr3)
    (hwords : ∀ i < L.depth s.current, store (L.word s.current i) = words i)
    (hothers : KeepsOthers L s s.machine.store store) :
    Represents L { s with machine := ⟨regs, store⟩ }
      { v with regs := Function.update v.regs v.current regs, stack := Function.update v.stack v.current words } := by
  obtain ⟨current, live, vregs, stack⟩ := v
  obtain rfl : current = s.current := h.current
  refine ⟨⟨h.live, ?_, ?_, ?_, h.allocated, h.apart⟩, rfl, h.runs, Function.update_self ..⟩
  all_goals dsimp only
  · intro t ht
    by_cases hcurrent : t = s.current
    · subst hcurrent
      rw [Function.update_self, hcr3, h.machine_cr3]
    · rw [Function.update_of_ne hcurrent]
      exact h.cr3 t ht
  · intro t ht i hlive
    by_cases hcurrent : t = s.current
    · subst hcurrent
      rw [Function.update_self]
      exact (hwords i hlive.1).symm
    · rw [Function.update_of_ne hcurrent] at hlive ⊢
      exact (h.stack t ht i hlive).trans (hothers t ht hcurrent i hlive.1).symm
  · intro t ht hcurrent
    refine (h.suspended t ht hcurrent).congr ?_ rfl fun i hi => hothers t ht hcurrent i hi
    exact Function.update_of_ne hcurrent _ _

omit [DecidableEq C] [DecidableEq Tid] in
/-- A new thread has nothing on its stack. -/
theorem Layout.not_live_top : ¬L.Live t (L.top t) i := by
  unfold Layout.Live
  rw [BitVec.sub_self]
  rintro ⟨-, hwords⟩
  exact absurd hwords (by simp)

theorem System.created_saved_of_ne {entryPoint : Word} {u : Tid} (h : u ≠ t) :
    (s.created L t entryPoint).saved u = s.saved u := Function.update_of_ne h _ _

omit [DecidableEq C] in
theorem Threads.created_regs_self (v : Threads Tid) (t : Tid) (entryPoint : Word) :
    (v.created L t entryPoint).regs t = initRegs (L.kstack t) (L.kstackSize t / 4#32) entryPoint (L.pageDir t) :=
  Function.update_self ..

omit [DecidableEq C] in
theorem Threads.created_regs_of_ne {entryPoint : Word} {u : Tid} (h : u ≠ t) :
    (v.created L t entryPoint).regs u = v.regs u := Function.update_of_ne h _ _

/-- The context of a new thread. -/
theorem System.created_frame {entryPoint : Word} (hspace : s.machine.regs.cr3 = L.pageDir t) (hstack : L.Allocated t) :
    let s' := s.created L t entryPoint
    FrameAt L.cell (L.pageDir t) (s'.saved t) s'.machine.store
      (initRegs (L.kstack t) (L.kstackSize t / 4#32) entryPoint (L.pageDir t)) := by
  simp only [System.created, Function.update_self, hspace]
  exact frameAt_init (hstack.separate.mono hstack.large)

/-- A new thread is one more to be kept, and no other is disturbed. -/
theorem Keeps.created {entryPoint : Word} {running : Set Tid} (h : Keeps L s v running) (hnew : t ∉ s.live)
    (hspace : s.machine.regs.cr3 = L.pageDir t) (hstack : L.Allocated t) (hapart : ∀ u ∈ s.live, L.Apart u t) :
    Keeps L (s.created L t entryPoint) (v.created L t entryPoint) running := by
  have hne : ∀ u ∈ s.live, u ≠ t := fun u hu heq => hnew (heq ▸ hu)
  have hkept : ∀ u ∈ s.live, ∀ i < L.depth u,
      (s.created L t entryPoint).machine.store (L.word u i) = s.machine.store (L.word u i) := by
    intro u hu i hi
    simp only [System.created, hspace, cpuInitThreadContext]
    refine pushes_frame fun j hj heq => ?_
    have hlarge := hstack.large
    exact hapart u hu i hi j (lt_of_lt_of_le hj hlarge) heq
  have hlive : insert t v.live = insert t s.live := by rw [h.live]
  refine ⟨hlive, ?_, ?_, ?_, ?_, ?_⟩
  · rintro u (rfl | hu)
    · rw [Threads.created_regs_self]
      rfl
    · rw [Threads.created_regs_of_ne (hne u hu)]
      exact h.cr3 u hu
  · rintro u (rfl | hu) i hlive
    · rw [Threads.created_regs_self] at hlive
      exact absurd hlive Layout.not_live_top
    · rw [Threads.created_regs_of_ne (hne u hu)] at hlive
      exact (h.stack u hu i hlive).trans (hkept u hu i hlive.1).symm
  · rintro u (rfl | hu) hrunning
    · refine ⟨?_, 0, ?_⟩
      · rw [Threads.created_regs_self]
        exact System.created_frame hspace hstack
      · rw [Threads.created_regs_self]
        exact ⟨hstack.large, (BitVec.sub_zero _).symm⟩
    · exact (h.suspended u hu hrunning).congr (Threads.created_regs_of_ne (hne u hu))
        (System.created_saved_of_ne (hne u hu)) fun i hi => hkept u hu i hi
  · rintro u (rfl | hu)
    · exact hstack
    · exact h.allocated u hu
  · rintro u (rfl | hu) w (rfl | hw) hdiff
    · exact absurd rfl hdiff
    · exact fun i hi j hj heq => hapart w hw j hj i hi heq.symm
    · exact hapart u hu
    · exact h.apart u hu w hw hdiff

theorem Represents.created {entryPoint : Word} (h : Represents L s v) (hnew : t ∉ s.live)
    (hspace : s.machine.regs.cr3 = L.pageDir t) (hstack : L.Allocated t) (hapart : ∀ u ∈ s.live, L.Apart u t) :
    Represents L (s.created L t entryPoint) (v.created L t entryPoint) := by
  have hne : s.current ≠ t := fun heq => hnew (heq ▸ h.runs)
  refine ⟨h.toKeeps.created hnew hspace hstack hapart, h.current, Set.mem_insert_of_mem _ h.runs, ?_⟩
  exact (Threads.created_regs_of_ne hne).trans h.regs

omit [DecidableEq C] [DecidableEq Tid] in
theorem Represents.exit (h : Represents L s v) (hother : t ≠ s.current) :
    Represents L { s with live := s.live \ {t} } { v with live := v.live \ {t} } where
  live := by rw [h.live]
  cr3 u hu := h.cr3 u hu.1
  stack u hu := h.stack u hu.1
  suspended u hu hcurrent := (h.suspended u hu.1 hcurrent).congr rfl rfl fun _ _ => rfl
  allocated u hu := h.allocated u hu.1
  apart u hu w hw := h.apart u hu.1 w hw.1
  current := h.current
  runs := ⟨h.runs, fun heq => hother heq.symm⟩
  regs := h.regs

/-! ## Runs -/

omit [DecidableEq C] [DecidableEq Tid] in
theorem Represents.view_eq (h : Represents L s v) :
    (L.view s.current s.machine.regs.esp fun i => s.machine.store (L.word s.current i)) =
      L.view v.current (v.regs v.current).esp (v.stack v.current) := by
  rw [h.current, h.regs]
  funext i
  unfold Layout.view
  split
  · next hlive => rw [h.stack _ h.runs i (h.regs ▸ hlive)]
  · rfl

/-- Whatever the kernel does next, the threads can do next. -/
theorem simulates : Simulates (Step L does) (VStep L does) (Represents L) := by
  intro s v e s' h hstep
  cases hstep with
  | run hdoes hcr3 hwords hothers =>
    refine ⟨_, .run ?_, h.run hcr3 hwords hothers⟩
    rw [← h.view_eq, h.current, h.regs]
    exact hdoes
  | interrupt hroom hhandles =>
    refine ⟨v, .interrupt, (h.parked hroom hhandles).returned h.runs h.current ?_ ?_⟩
    · simp only [System.handled, System.enter, Function.update_self, cpuSaveContext]
    · simp only [System.handled, System.enter, interrupt_cr3]
      exact h.machine_cr3
  | switch hroom hhandles hnext => exact ⟨_, .switch (h.live ▸ hnext), (h.parked hroom hhandles).restored hnext⟩
  | create hnew hspace hstack hapart =>
    exact ⟨_, .create (h.live ▸ hnew), h.created hnew hspace hstack hapart⟩
  | exit hother => exact ⟨_, .exit (h.current ▸ hother), h.exit hother⟩

/-- What runs on the CPU is the current thread, with its own registers and with what it has on its stack. -/
structure Shows (L : Layout Tid C) (s : System Tid C) (v : Threads Tid) : Prop where
  current : s.current = v.current
  live : s.live = v.live
  regs : s.machine.regs = v.regs v.current
  view : (L.view s.current s.machine.regs.esp fun i => s.machine.store (L.word s.current i)) =
    L.view v.current (v.regs v.current).esp (v.stack v.current)

omit [DecidableEq C] [DecidableEq Tid] in
theorem Represents.shows (h : Represents L s v) : Shows L s v :=
  ⟨h.current.symm, h.live.symm, by rw [h.current, h.regs], h.view_eq⟩

/-- The threads that `sched_init` starts with. -/
structure Bootable (L : Layout Tid C) (idle init : Tid) (cr3 : Word) : Prop where
  different : idle ≠ init
  idle_space : cr3 = L.pageDir idle
  init_space : cr3 = L.pageDir init
  idle_stack : L.Allocated idle
  init_stack : L.Allocated init
  apart : L.Apart idle init

theorem represents_boot {idle init : Tid} {idleEntry initEntry : Word} {m : Machine C}
    (h : Bootable L idle init m.regs.cr3) :
    Represents L (System.boot L idle init idleEntry initEntry m)
      (Threads.boot L idle init idleEntry initEntry m.regs) := by
  have hempty : Keeps L ⟨idle, ∅, fun _ => 0, m⟩ ⟨idle, ∅, fun _ => m.regs, fun _ _ => 0⟩ ∅ :=
    ⟨rfl, by simp, by simp, by simp, by simp, by simp⟩
  have hidle : Keeps L (System.created L _ idle idleEntry) (Threads.created L _ idle idleEntry) ∅ :=
    hempty.created (Set.notMem_empty idle) h.idle_space h.idle_stack (by simp)
  have hinit : Keeps L (System.created L _ init initEntry) (Threads.created L _ init initEntry) ∅ :=
    hidle.created (by simpa [System.created] using h.different.symm) h.init_space h.init_stack
      (by simpa [System.created] using h.apart)
  exact hinit.restored (by simp [System.created])

/-- From `sched_init` on, every run of the kernel is a run of the threads, each with a CPU and a stack of its own, in
which the same events happen and the thread that runs is the one seen on the CPU. -/
theorem boot_trace {idle init : Tid} {idleEntry initEntry : Word} {m : Machine C} {l : List (Event Tid × System Tid C)}
    (h : Bootable L idle init m.regs.cr3) (hl : Trace (Step L does) (System.boot L idle init idleEntry initEntry m) l) :
    ∃ l', Trace (VStep L does) (Threads.boot L idle init idleEntry initEntry m.regs) l' ∧
      List.Forall₂ (fun x y => x.1 = y.1 ∧ Shows L x.2 y.2) l l' := by
  obtain ⟨l', hl', hrel⟩ := simulates.trace hl (represents_boot h)
  exact ⟨l', hl', hrel.imp fun _ _ hxy => ⟨hxy.1, hxy.2.shows⟩⟩

end Steps

/-- Two stacks of thirty-two words in one address space. -/
def twoStacks : Layout Bool Word where
  cell _ a := a
  pageDir _ := 0x1000
  kstack t := if t then 0x200000 else 0x100000
  kstackSize _ := 0x80

def bootMachine : Machine Word where
  regs := initRegs 0 0 0 0x1000
  store _ := 0

theorem twoStacks_top (t : Bool) : twoStacks.top t = if t then 0x200080 else 0x100080 := by
  cases t <;> rfl

theorem twoStacks_depth (t : Bool) : twoStacks.depth t = 32 := by
  simp [Layout.depth, twoStacks]

theorem twoStacks_bootable : Bootable twoStacks false true bootMachine.regs.cr3 := by
  have hallocated : ∀ t, twoStacks.Allocated t := by
    intro t
    refine ⟨by rw [twoStacks_depth]; decide, ?_⟩
    rw [twoStacks_depth]
    generalize twoStacks.top t = top
    intro i hi j hj heq
    simp only [twoStacks, slot] at heq
    bv_omega
  refine ⟨Bool.false_ne_true, rfl, rfl, hallocated false, hallocated true, ?_⟩
  intro i hi j hj heq
  rw [twoStacks_depth] at hi hj
  simp only [Layout.word, twoStacks_top, Bool.false_eq_true, if_false, if_true] at heq
  simp only [twoStacks, slot] at heq
  bv_omega

/-- The idle thread is interrupted, and the init thread is elected. -/
theorem boot_trace_switch :
    let s := System.boot twoStacks false true 0x400000 0x500000 bootMachine
    let s' := (s.enter twoStacks 0x600000 0x21 none).handled s.machine.regs
      (s.enter twoStacks 0x600000 0x21 none).machine.store
    ∃ l', Trace (VStep twoStacks fun _ _ _ _ _ => True)
        (Threads.boot twoStacks false true 0x400000 0x500000 bootMachine.regs) l' ∧
      List.Forall₂ (fun x y => x.1 = y.1 ∧ Shows twoStacks x.2 y.2) [(.switch true, s'.restored twoStacks true)] l' := by
  intro s s'
  have hesp : s.machine.regs.esp = twoStacks.top false := by
    rw [(represents_boot twoStacks_bootable).regs.symm]
    rfl
  have hroom : twoStacks.Room s.current s.machine.regs.esp 0 := by
    refine ⟨?_, hesp.trans (BitVec.sub_zero _).symm⟩
    rw [twoStacks_depth]
    decide
  have hstep : Step twoStacks (fun _ _ _ _ _ => True) s (.switch true) (s'.restored twoStacks true) :=
    .switch hroom ⟨fun _ _ _ _ _ => rfl, fun _ _ => rfl⟩ (Set.mem_insert true _)
  exact boot_trace twoStacks_bootable (.cons hstep (.nil _))

end UtkKernel.Cpu
