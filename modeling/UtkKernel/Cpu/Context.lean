import UtkKernel.Foundations.Stacks

/-! # Contexts of threads

The stack frame that an interrupt leaves on the stack of the thread it interrupts: what the CPU pushes, the stub of the
interrupt and `_generic_interrupt_handler`. `cpu_save_context` keeps its address, `cpu_restore_context` loads the page
directory of a thread and takes the frame down, and `cpu_init_thread_context` builds the frame of a new thread. An
address of an address space lies in a cell of the store; `cell` is the translation. -/

namespace UtkKernel.Cpu
open Foundations
set_option autoImplicit false

abbrev Word := BitVec 32

/-- The registers of a CPU, `cr3` with the page directory. -/
@[ext] structure Regs where
  eax : Word
  ebx : Word
  ecx : Word
  edx : Word
  esi : Word
  edi : Word
  ebp : Word
  esp : Word
  eip : Word
  eflags : Word
  cs : BitVec 16
  ds : BitVec 16
  es : BitVec 16
  fs : BitVec 16
  gs : BitVec 16
  ss : BitVec 16
  cr3 : Word

structure Machine (C : Type) where
  regs : Regs
  store : C → Word

variable {C : Type} [DecidableEq C] (cell : Word → Word → C)

def Machine.pushAll (m : Machine C) (words : List Word) : Machine C :=
  let r := pushes (cell m.regs.cr3) words m.regs.esp m.store
  { regs := { m.regs with esp := r.1 }, store := r.2 }

/-! ## Interrupts -/

def kernelCs32 : BitVec 16 := 0x08
def kernelDs32 : BitVec 16 := 0x10
def cpuEflagsIf : Word := 0x200

/-- What an interrupt does before the common handler: the CPU pushes the flags and where it was, and an error code with
some exceptions, and goes through an interrupt gate. The handler of the line pushes a zero where there is no error code,
and its number. -/
def interruptHandler (handler int : Word) (error : Option Word) (m : Machine C) : Machine C :=
  let m1 := m.pushAll cell [m.regs.eflags, m.regs.cs.setWidth 32, m.regs.eip]
  let m2 : Machine C :=
    { m1 with regs := { m1.regs with eflags := m1.regs.eflags &&& ~~~ cpuEflagsIf, cs := kernelCs32, eip := handler } }
  m2.pushAll cell [error.getD 0, int]

/-- `_generic_interrupt_handler` up to the call. The last push stores the stack pointer that it finds. -/
def genericInterruptHandler (m : Machine C) : Machine C :=
  let r := m.regs
  let m := m.pushAll cell [r.ds.setWidth 32, r.es.setWidth 32, r.fs.setWidth 32, r.gs.setWidth 32, r.ss.setWidth 32,
    r.eax, r.ebx, r.ecx, r.edx, r.esi, r.edi, r.ebp]
  m.pushAll cell [m.regs.esp]

/-- The pops, from `pop esp` to `iret`; the words behind the first one are popped from where that one points. -/
def popFrame (m : Machine C) : Machine C :=
  let esp := m.store (cell m.regs.cr3 m.regs.esp)
  let word (i : ℕ) := m.store (cell m.regs.cr3 (esp + BitVec.ofNat 32 (4 * i)))
  { m with
    regs :=
      { ebp := word 0, edi := word 1, esi := word 2, edx := word 3, ecx := word 4, ebx := word 5, eax := word 6
        ss := (word 7).setWidth 16, gs := (word 8).setWidth 16, fs := (word 9).setWidth 16, es := (word 10).setWidth 16
        ds := (word 11).setWidth 16
        -- the interrupt's number and the error code are skipped
        eip := word 14, cs := (word 15).setWidth 16, eflags := word 16
        esp := esp + BitVec.ofNat 32 (4 * 17)
        cr3 := m.regs.cr3 } }

/-- The address of `cpu_state->esp`, which is the word pushed last. -/
def cpuSaveContext (m : Machine C) : Word := m.regs.esp

def cpuRestoreContext (pageDir esp : Word) (m : Machine C) : Machine C :=
  popFrame cell { m with regs := { m.regs with eax := pageDir, edx := esp, cr3 := pageDir, esp := esp } }

/-! ## New threads -/

def kThreadInitEflags : Word := 0x202

/-- The words that `cpu_init_thread_context` stores from the end of the kernel stack downwards. -/
def initWords (kstack stackIndex entryPoint : Word) : List Word :=
  let ds := kernelDs32.setWidth 32
  let ebp := kstack + (stackIndex - 1#32) * 4#32
  [kThreadInitEflags, kernelCs32.setWidth 32, entryPoint, 0, 0, ds, ds, ds, ds, ds, 0, 0, 0, 0, 0, 0, ebp,
    kstack + (stackIndex - 17#32) * 4#32]

/-- `cpu_init_thread_context` in the address space `cr3`: the stack pointer of the context, and the store. -/
def cpuInitThreadContext (cr3 entryPoint kstack kstackSize : Word) (s : C → Word) : Word × (C → Word) :=
  let stackIndex := kstackSize / 4#32
  (kstack + (stackIndex - 18#32) * 4#32,
    (pushes (cell cr3) (initWords kstack stackIndex entryPoint) (kstack + stackIndex * 4#32) s).2)

/-- The registers that a new thread starts with. -/
def initRegs (kstack stackIndex entryPoint pageDir : Word) : Regs where
  eax := 0
  ebx := 0
  ecx := 0
  edx := 0
  esi := 0
  edi := 0
  ebp := kstack + (stackIndex - 1#32) * 4#32
  esp := kstack + stackIndex * 4#32
  eip := entryPoint
  eflags := kThreadInitEflags
  cs := kernelCs32
  ds := kernelDs32
  es := kernelDs32
  fs := kernelDs32
  gs := kernelDs32
  ss := kernelDs32
  cr3 := pageDir

/-! ## Frames -/

/-- The words of a frame from its address on: its own next address, the registers, the interrupt and its error code. -/
def frameWords (r : Regs) (self int error : Word) : List Word :=
  [self, r.ebp, r.edi, r.esi, r.edx, r.ecx, r.ebx, r.eax, r.ss.setWidth 32, r.gs.setWidth 32, r.fs.setWidth 32,
    r.es.setWidth 32, r.ds.setWidth 32, int, error, r.eip, r.cs.setWidth 32, r.eflags]

/-- A frame at an address below the stack pointer of the registers it holds. -/
structure FrameAt (cr3 frame : Word) (s : C → Word) (r : Regs) : Prop where
  words : ∃ int error, peeks (cell cr3) s 18 frame = frameWords r (frame + 4#32) int error
  esp : r.esp = frame + 72#32

variable {cell} {m : Machine C} {handler int cr3 frame pageDir kstack kstackSize entryPoint : Word} {error : Option Word}
  {s s' : C → Word} {r : Regs} {c : C} {vs ws : List Word}

/-- The words an interrupt pushes before the stack pointer, in their order. -/
def savedWords (r : Regs) (int : Word) (error : Option Word) : List Word :=
  [r.eflags, r.cs.setWidth 32, r.eip, error.getD 0, int, r.ds.setWidth 32, r.es.setWidth 32, r.fs.setWidth 32,
    r.gs.setWidth 32, r.ss.setWidth 32, r.eax, r.ebx, r.ecx, r.edx, r.esi, r.edi, r.ebp]

def interruptWords (r : Regs) (int : Word) (error : Option Word) : List Word :=
  savedWords r int error ++ [r.esp - 68#32]

theorem interruptWords_reverse (r : Regs) (int : Word) (error : Option Word) :
    (interruptWords r int error).reverse = frameWords r (r.esp - 68#32) int (error.getD 0) := rfl

theorem length_interruptWords (r : Regs) (int : Word) (error : Option Word) : (interruptWords r int error).length = 18 := rfl

variable (cell) in
/-- An interrupt pushes eighteen words. -/
theorem interrupt_pushes (handler int : Word) (error : Option Word) (m : Machine C) :
    let m' := genericInterruptHandler cell (interruptHandler cell handler int error m)
    m'.store = (pushes (cell m.regs.cr3) (interruptWords m.regs int error) m.regs.esp m.store).2 ∧
      m'.regs.esp = m.regs.esp - 72#32 ∧ m'.regs.cr3 = m.regs.cr3 := by
  have hself : (pushes (cell m.regs.cr3) (savedWords m.regs int error) m.regs.esp m.store).1 = m.regs.esp - 68#32 := by
    rw [pushes_fst]
    simp only [savedWords, List.length_cons, List.length_nil, Nat.reduceAdd, Nat.reduceMul]
  have hesp : (pushes (cell m.regs.cr3) (interruptWords m.regs int error) m.regs.esp m.store).1 = m.regs.esp - 72#32 := by
    rw [pushes_fst, length_interruptWords]
  simp only [interruptWords, savedWords, List.cons_append, List.nil_append] at hself hesp ⊢
  simp only [genericInterruptHandler, interruptHandler, Machine.pushAll, ← pushes_append, List.cons_append, List.nil_append]
  simp only [hself, hesp, and_self]

/-- What an interrupt leaves below the stack pointer is a frame of the interrupted registers. -/
theorem frameAt_interrupt (h : Separate (cell m.regs.cr3) m.regs.esp 18) :
    let m' := genericInterruptHandler cell (interruptHandler cell handler int error m)
    FrameAt cell m.regs.cr3 m'.regs.esp m'.store m.regs := by
  obtain ⟨hstore, hesp, -⟩ := interrupt_pushes cell handler int error m
  have hlength : (interruptWords m.regs int error).length = 18 := rfl
  have hpeeks := @peeks_pushes _ _ (cell m.regs.cr3) (interruptWords m.regs int error) m.regs.esp m.store _ h
  rw [pushes_fst, hlength, interruptWords_reverse] at hpeeks
  refine ⟨⟨int, error.getD 0, ?_⟩, ?_⟩
  · rw [hstore, hesp, show m.regs.esp - 72#32 + 4#32 = m.regs.esp - 68#32 by bv_omega]
    exact hpeeks
  · rw [hesp]
    bv_omega

/-- An interrupt writes to the words of its frame only. -/
theorem interrupt_frame (h : ∀ i < 18, c ≠ cell m.regs.cr3 (slot m.regs.esp i)) :
    (genericInterruptHandler cell (interruptHandler cell handler int error m)).store c = m.store c := by
  rw [(interrupt_pushes cell handler int error m).1]
  exact pushes_frame h

/-- The addresses of the frame of a new thread. -/
theorem init_addresses (kstack index : Word) :
    kstack + (index - 18#32) * 4#32 = kstack + index * 4#32 - BitVec.ofNat 32 (4 * 18) ∧
      kstack + (index - 17#32) * 4#32 = kstack + (index - 18#32) * 4#32 + 4#32 ∧
      kstack + index * 4#32 = kstack + (index - 18#32) * 4#32 + 72#32 := by
  refine ⟨?_, ?_, ?_⟩
  all_goals bv_omega

/-- The frame of a new thread. -/
theorem frameAt_init (h : Separate (cell cr3) (kstack + kstackSize / 4#32 * 4#32) 18) :
    let r := cpuInitThreadContext cell cr3 entryPoint kstack kstackSize s
    FrameAt cell cr3 r.1 r.2 (initRegs kstack (kstackSize / 4#32) entryPoint pageDir) := by
  have hlength : (initWords kstack (kstackSize / 4#32) entryPoint).length = 18 := rfl
  have hpeeks := @peeks_pushes _ _ (cell cr3) (initWords kstack (kstackSize / 4#32) entryPoint) _ s _ h
  rw [pushes_fst, hlength] at hpeeks
  simp only [cpuInitThreadContext]
  generalize kstackSize / 4#32 = index at *
  obtain ⟨hframe, hself, hesp⟩ := init_addresses kstack index
  refine ⟨⟨0, 0, ?_⟩, hesp⟩
  rw [hframe, hpeeks, ← hframe, initWords, hself]
  rfl

omit [DecidableEq C] in
/-- A frame is taken down to the registers it holds, in the address space at hand. -/
theorem popFrame_eq (h : FrameAt cell m.regs.cr3 m.regs.esp m.store r) :
    popFrame cell m = { m with regs := { r with cr3 := m.regs.cr3 } } := by
  obtain ⟨⟨int, error, hwords⟩, hesp⟩ := h
  have hget : ∀ i < 18, ∀ w, (frameWords r (m.regs.esp + 4#32) int error)[i]? = some w →
      m.store (cell m.regs.cr3 (m.regs.esp + BitVec.ofNat 32 (4 * i))) = w := by
    intro i hi w hw
    rw [← hwords, peeks_getElem? hi] at hw
    exact Option.some.inj hw
  have hself : m.store (cell m.regs.cr3 m.regs.esp) = m.regs.esp + 4#32 := by
    have h := hget 0 (by omega) _ rfl
    rwa [Nat.mul_zero, BitVec.add_zero] at h
  have hnext : ∀ i < 17, ∀ w, (frameWords r (m.regs.esp + 4#32) int error)[i + 1]? = some w →
      m.store (cell m.regs.cr3 (m.regs.esp + 4#32 + BitVec.ofNat 32 (4 * i))) = w := by
    intro i hi w hw
    have haddress : m.regs.esp + 4#32 + BitVec.ofNat 32 (4 * i) = m.regs.esp + BitVec.ofNat 32 (4 * (i + 1)) := by bv_omega
    rw [haddress]
    exact hget (i + 1) (by omega) w hw
  have htop : m.regs.esp + 4#32 + BitVec.ofNat 32 (4 * 17) = r.esp := by
    rw [hesp]
    bv_omega
  simp only [popFrame, hself, hnext 0 (by omega) r.ebp rfl, hnext 1 (by omega) r.edi rfl, hnext 2 (by omega) r.esi rfl,
    hnext 3 (by omega) r.edx rfl, hnext 4 (by omega) r.ecx rfl, hnext 5 (by omega) r.ebx rfl, hnext 6 (by omega) r.eax rfl,
    hnext 7 (by omega) _ rfl, hnext 8 (by omega) _ rfl, hnext 9 (by omega) _ rfl, hnext 10 (by omega) _ rfl,
    hnext 11 (by omega) _ rfl, hnext 14 (by omega) r.eip rfl, hnext 15 (by omega) _ rfl, hnext 16 (by omega) r.eflags rfl,
    htop]
  simp

omit [DecidableEq C] in
/-- A context is restored to the registers that its frame holds. -/
theorem cpuRestoreContext_eq (h : FrameAt cell pageDir frame m.store r) :
    cpuRestoreContext cell pageDir frame m = { regs := { r with cr3 := pageDir }, store := m.store } :=
  popFrame_eq h

omit [DecidableEq C] in
/-- The frame lies where its eighteen words lie. -/
theorem FrameAt.congr (h : FrameAt cell cr3 frame s r)
    (hsame : ∀ i < 18, s' (cell cr3 (frame + BitVec.ofNat 32 (4 * i))) = s (cell cr3 (frame + BitVec.ofNat 32 (4 * i)))) :
    FrameAt cell cr3 frame s' r := by
  obtain ⟨⟨int, error, hwords⟩, hesp⟩ := h
  exact ⟨⟨int, error, (peeks_congr hsame).trans hwords⟩, hesp⟩

end UtkKernel.Cpu
