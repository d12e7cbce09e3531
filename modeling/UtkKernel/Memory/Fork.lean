import UtkKernel.Memory.Model

/-! # Copying and cleaning address spaces

`memory_copy_self_mapping`, which a fork calls, with its error paths, and the functions that free the
memory of another process. The loops over the entries of one page table write each entry once, after
they have read it, so a table is written here as a whole; the references are acquired and released in
the order of the entries. -/

namespace UtkKernel.Memory
open Structures
set_option autoImplicit false

/-! ## Entries of the copy -/

namespace Word

/-- May the page be shared copy on write? -/
def shareable (e : Word) : Bool := e.present && e.writable && e.custom == pageFlagRegular

/-- The entry of a page that is shared copy on write from now on. -/
def toCow (e : Word) : Word :=
  { e with flags := (e.flags &&& ~~~pageFlagReadWrite) ||| pageFlagReadOnly ||| pageFlagCopyOnWrite }

/-- What the copy leaves in the page table it copies. -/
def kept (e : Word) : Word := if e.shareable then e.toCow else e

/-- Does the copy have the entry too? -/
def inherited (e : Word) : Bool := e.present && (e.shareable || e.custom != pageFlagPrivate)

/-- What the copy writes in the new page table. -/
def copied (e : Word) : Word := if e.inherited then e.kept else zero

/-! ## Flags of the new entries -/

theorem maskedOr_and (b m v k : BitVec 12) :
    ((b &&& m) ||| v) &&& k = (b &&& (m &&& k)) ||| (v &&& k) := by
  ext i hi
  simp only [BitVec.getElem_and, BitVec.getElem_or]
  cases b[i] <;> cases m[i] <;> cases v[i] <;> cases k[i] <;> rfl

theorem ofCow_flags (e : Word) : e.ofCow.flags = (e.flags &&& 0x1FF#12) ||| 0x002#12 := by
  show (e.flags &&& ~~~pageFlagOsCustomMask &&& ~~~pageFlagReadOnly) ||| pageFlagRegular |||
    pageFlagReadWrite = _
  rw [BitVec.and_assoc, BitVec.or_assoc]
  rfl

@[simp] theorem ofCow_frame (e : Word) : e.ofCow.frame = e.frame := rfl

@[simp] theorem toCow_frame (e : Word) : e.toCow.frame = e.frame := rfl

theorem ofCow_present (e : Word) : e.ofCow.present = e.present := by
  unfold present
  rw [ofCow_flags, maskedOr_and]
  simp [pageFlagPresent]

theorem ofCow_writable (e : Word) : e.ofCow.writable = true := by
  unfold writable
  rw [ofCow_flags, maskedOr_and]
  simp [pageFlagReadWrite]

theorem ofCow_custom (e : Word) : e.ofCow.custom = pageFlagRegular := by
  unfold custom
  rw [ofCow_flags, maskedOr_and]
  simp [pageFlagOsCustomMask, pageFlagRegular]

end Word

/-- `mem_copy_self_data_t` -/
structure CopyData where
  newPgdirFrame : Option ℕ
  newPgdirPage : Option ℕ
  newPgtablePage : Option ℕ
  newDataPage : Option ℕ
  mappedPgdir : Bool
  acquiredRefPgdir : Bool
  deriving DecidableEq, Repr

namespace MemState

/-- Pages that a function may hold go back to the kernel. -/
def freeKernelPage (s : MemState) : Option ℕ → Option MemState
  | none => some s
  | some page => s.freeKernelPagesTo page 1

/-! ## Errors of the copy -/

/-- `memory_copy_self_clean`. It forgets the frame of the page directory before it releases it, so it
releases the frame zero. -/
def memoryCopySelfClean (s : MemState) (data : CopyData) : Option MemState :=
  (s.freeKernelPage data.newDataPage).bind fun s1 =>
    (s1.freeKernelPage data.newPgtablePage).bind fun s2 =>
      (if data.mappedPgdir then s2.unmapPage (data.newPgdirPage.getD 0) else some s2).bind fun s3 =>
        (s3.freeKernelPage data.newPgdirPage).bind fun s4 =>
          match data.newPgdirFrame with
          | none => if data.acquiredRefPgdir then s4.memoryReleaseRef 0 else some s4
          | some frame =>
            (s4.memoryFreeFrames frame 1).bind fun s5 =>
              if data.acquiredRefPgdir then s5.memoryReleaseRef 0 else some s5

/-! ## The new page directory -/

/-- `memory_create_new_pagedir`: its frame and the page it is mapped at, or an error and what is left
to clean. -/
def memoryCreateNewPagedir (s : MemState) : Option (MemState × ℕ × ℕ × OsReturnE) :=
  (s.memoryAllocFrames 1).bind fun r =>
    (r.2.memoryAcquireRef r.1).bind fun s1 =>
      (s1.allocKernelPages 1).bind fun q =>
        (q.2.mapTemp q.1 r.1).bind fun m =>
          if m.2 ≠ .osNoErr then
            (m.1.memoryCopySelfClean ⟨some r.1, some q.1, none, none, false, true⟩).map
              fun s2 => (s2, r.1, q.1, m.2)
          else some (m.1.setFrame r.1 fun _ => Word.zero, r.1, q.1, .osNoErr)

/-- The kernel's entries of the current page directory are copied, and the last entry maps the new one
to itself. -/
def copyKernelEntries (s : MemState) (pgdir : ℕ) : MemState :=
  s.setFrame pgdir fun i =>
    if i = kernelPgdirSize - 1 then Word.pgDir pgdir
    else if kernelFirstPgdirEntry ≤ i ∧ i < kernelPgdirSize then s.mem s.cr3 i
    else s.mem pgdir i

/-! ## The user's page tables -/

/-- The frames of the entries that the copy has too. -/
def inheritedFrames (s : MemState) (table : ℕ) : List ℕ :=
  (List.range kernelPgdirSize).filterMap fun j =>
    if (s.mem table j).inherited then some (s.mem table j).frame else none

/-- The inner loop of `memory_copy_self_pgtable`. -/
def copyTable (s : MemState) (table newTable : ℕ) : Option MemState :=
  (s.inheritedFrames table).foldlM memoryAcquireRef
    ((s.setFrame table fun j => (s.mem table j).kept).setFrame newTable fun j =>
      (s.mem table j).copied)

/-- One turn of the loop over the page directory, for an entry that is present. -/
def copyEntry (s : MemState) (pgdir pgtablePage i : ℕ) : Option (MemState × OsReturnE) :=
  (s.memoryAllocFrames 1).bind fun r =>
    (r.2.mapTemp pgtablePage r.1).bind fun m =>
      if m.2 ≠ .osNoErr then (m.1.memoryFreeFrames r.1 1).map fun s1 => (s1, m.2)
      else
        ((m.1.setWord pgdir i { m.1.mem m.1.cr3 i with frame := r.1 }).memoryAcquireRef r.1).bind
          fun s1 => (s1.copyTable (s1.mem s1.cr3 i).frame r.1).bind fun s2 =>
            (s2.unmapPage pgtablePage).map fun s3 => (s3, .osNoErr)

/-- The loop over the entries of the list. The error code is the one the last turn left, if there was a
turn; with an error comes the entry it stopped at. -/
def copyEntries (pgdir pgtablePage : ℕ) : List ℕ → Option OsReturnE → MemState →
    Option (MemState × Option OsReturnE × Option ℕ)
  | [], err, s => some (s, err, none)
  | i :: is, err, s =>
    if (s.mem s.cr3 i).present then
      (s.copyEntry pgdir pgtablePage i).bind fun m =>
        if m.2 ≠ .osNoErr then some (m.1, some m.2, some i)
        else copyEntries pgdir pgtablePage is (some m.2) m.1
    else copyEntries pgdir pgtablePage is err s

/-- The frames of the entries of the copy whose references are released again. -/
def releasedFrames (s : MemState) (table newTable : ℕ) : List ℕ :=
  (List.range kernelPgdirSize).filterMap fun j =>
    if (s.mem table j).inherited then some (s.mem newTable j).frame else none

/-- The entry of a page that was shared for a copy that failed. -/
def uncowed (e : Word) : Word :=
  if e.shareable then
    { e with flags := (e.flags &&& ~~~pageFlagCopyOnWrite) ||| pageFlagReadWrite }
  else e

/-- What was copied before an error is freed, from the entry before the failing one down. -/
def uncopyEntries (pgdir pgtablePage : ℕ) (s : MemState) (i : ℕ) : Option MemState :=
  if (s.mem s.cr3 i).present then
    let newTable := (s.mem pgdir i).frame
    (s.mapTemp pgtablePage newTable).bind fun m =>
      if m.2 ≠ .osNoErr then none
      else
        let table := (m.1.mem m.1.cr3 i).frame
        ((m.1.releasedFrames table newTable).foldlM memoryReleaseRef
          (m.1.setFrame table fun j => uncowed (m.1.mem table j))).bind fun s1 =>
            (s1.unmapPage pgtablePage).bind fun s2 => s2.memoryFreeFrames newTable 1
  else some s

/-- `memory_copy_self_pgtable`. It returns an error code that nothing has set if the process has no
page table. -/
def memoryCopySelfPgtable (s : MemState) (pgdir pgtablePage : ℕ) :
    Option (MemState × OsReturnE) :=
  (copyEntries pgdir pgtablePage (List.range kernelFirstPgdirEntry) none
    (s.copyKernelEntries pgdir)).bind fun r =>
      r.2.1.bind fun err =>
        match r.2.2 with
        | none => some (r.1, err)
        | some i =>
          ((List.range i).reverse.foldlM (uncopyEntries pgdir pgtablePage) r.1).map
            fun s1 => (s1, err)

/-! ## The kernel stack -/

/-- The frame behind a page of the current process. -/
def frameOf (s : MemState) (page : ℕ) : Option ℕ := (s.entry s.cr3 page).map Word.frame

/-- The page table of the new page directory for a page of the stack, as the source has it: with the
flags of its entry, or none if it is new. A new table is not cleared. -/
def stackTable (s : MemState) (pgdir page : ℕ) : Option (MemState × Word) :=
  if (s.mem pgdir (pgdirEntry page)).present then some (s, s.mem pgdir (pgdirEntry page))
  else
    (s.memoryAllocFrames 1).bind fun r =>
      (r.2.memoryAcquireRef r.1).map fun s1 =>
        (s1.setWord pgdir (pgdirEntry page) (Word.pgDir r.1), ⟨r.1, 0#12⟩)

/-- One turn of the loop of `memory_copy_self_stack`: on an error, the table it stopped at is left. -/
def copyStackPage (s : MemState) (pgdir pgtablePage dataPage page : ℕ) :
    Option (MemState × Option Word) :=
  (s.stackTable pgdir page).bind fun t =>
    (t.1.mapTemp pgtablePage t.2.frame).bind fun m =>
      if m.2 ≠ .osNoErr then (m.1.memoryFreeFramesAt t.2.addr 1).map fun s1 => (s1, some t.2)
      else
        (m.1.memoryAllocFrames 1).bind fun r =>
          (r.2.memoryAcquireRef r.1).bind fun s1 =>
            (s1.mapTemp dataPage r.1).bind fun d =>
              if d.2 ≠ .osNoErr then
                (d.1.unmapPage pgtablePage).bind fun s2 =>
                  (s2.memoryFreeFramesAt t.2.addr 1).bind fun s3 =>
                    (s3.memoryFreeFrames r.1 1).map fun s4 => (s4, some t.2)
              else
                (d.1.frameOf page).bind fun src =>
                  ((d.1.setFrame r.1 (d.1.mem src)).unmapPage dataPage).bind fun s2 =>
                    ((s2.setWord t.2.frame (pgtableEntry page) (Word.page r.1
                      (pageFlagReadWrite ||| pageFlagCacheWb ||| pageFlagPrivate))).unmapPage
                        pgtablePage).map fun s3 => (s3, none)

/-- A page of the stack is taken back after an error; the table it was in is left. -/
def uncopyStackPage (pgdir pgtablePage : ℕ) (r : MemState × Word) (page : ℕ) :
    Option (MemState × Word) :=
  let table := r.1.mem pgdir (pgdirEntry page)
  (r.1.mapTemp pgtablePage table.frame).bind fun m =>
    if m.2 ≠ .osNoErr then none
    else
      (m.1.memoryFreeFrames (m.1.mem table.frame (pgtableEntry page)).frame 1).bind fun s1 =>
        (((s1.setWord table.frame (pgtableEntry page) Word.zero).setWord pgdir (pgdirEntry page)
          Word.zero).unmapPage pgtablePage).map fun s2 => (s2, table)

/-- `memory_copy_self_stack` for a stack that starts at a page. After an error the pages copied before
are taken back, but not the first one, and the table seen last is freed. -/
def copyStackPages (pgdir pgtablePage dataPage kstack : ℕ) : ℕ → ℕ → MemState →
    Option (MemState × OsReturnE)
  | _, 0, s => some (s, .osNoErr)
  | page, count + 1, s =>
    (s.copyStackPage pgdir pgtablePage dataPage page).bind fun m =>
      match m.2 with
      | none => copyStackPages pgdir pgtablePage dataPage kstack (page + 1) count m.1
      | some table =>
        ((List.range' (kstack + 1) (page - kstack - 1)).reverse.foldlM
          (uncopyStackPage pgdir pgtablePage) (m.1, table)).bind fun r =>
            (r.1.memoryFreeFramesAt r.2.addr 1).map fun s2 => (s2, .osErrMemoryNotMapped)

/-! ## The copy -/

/-- `paging_copy_free_page_table`: the ranges are pushed one by one, so their order is reversed. -/
def pagingCopyFreePageTable (list : List Block) : List Block :=
  list.foldl (fun copy node => kqueuePush ⟨node.data, 0⟩ copy) []

/-- `memory_copy_self_mapping`: the error code and, if there is none, the memory of the new process. -/
def memoryCopySelfMapping (s : MemState) (kstack kstackSize : ℕ) :
    Option (MemState × OsReturnE × Option Process) :=
  s.memoryCreateNewPagedir.bind fun c =>
    if c.2.2.2 ≠ .osNoErr then
      (c.1.memoryCopySelfClean ⟨none, none, none, none, false, false⟩).map fun s1 =>
        (s1, c.2.2.2, none)
    else
      (c.1.allocKernelPages 1).bind fun q =>
        (q.2.allocKernelPages 1).bind fun d =>
          let data : CopyData := ⟨some c.2.1, some c.2.2.1, some q.1, some d.1, true, true⟩
          (d.2.memoryCopySelfPgtable c.2.1 q.1).bind fun t =>
            if t.2 ≠ .osNoErr then
              (t.1.memoryCopySelfClean data).map fun s1 => (s1, t.2, none)
            else
              (copyStackPages c.2.1 q.1 d.1 kstack kstack (pageCount kstackSize) t.1).bind fun k =>
                if k.2 ≠ .osNoErr then
                  (k.1.memoryCopySelfClean data).map fun s1 => (s1, k.2, none)
                else
                  (k.1.unmapPage c.2.2.1).bind fun s1 =>
                    (s1.freeKernelPagesTo c.2.2.1 1).bind fun s2 =>
                      (s2.freeKernelPagesTo q.1 1).bind fun s3 =>
                        (s3.freeKernelPagesTo d.1 1).bind fun s4 =>
                          (s4.processes s4.current).map fun p =>
                            (s4, .osNoErr, some ⟨c.2.1, pagingCopyFreePageTable p.freePageTable⟩)

/-! ## Cleaning -/

/-- The frames of the entries of a page table that are present. -/
def presentFrames (s : MemState) (table : ℕ) : List ℕ :=
  (List.range kernelPgdirSize).filterMap fun j =>
    if (s.mem table j).present then some (s.mem table j).frame else none

/-- A temporary mapping that must not fail. -/
def mapTempOrPanic (s : MemState) (page frame : ℕ) : Option MemState :=
  (s.mapTemp page frame).bind fun m => if m.2 ≠ .osNoErr then none else some m.1

/-- One turn of the loop of `memory_clean_process_memory`. -/
def cleanEntry (pgDir pgtablePage : ℕ) (s : MemState) (i : ℕ) : Option MemState :=
  if (s.mem pgDir i).present then
    let table := (s.mem pgDir i).frame
    (s.mapTempOrPanic pgtablePage table).bind fun s1 =>
      ((s1.presentFrames table).foldlM memoryReleaseRef s1).bind fun s2 =>
        (s2.unmapPage pgtablePage).bind fun s3 => s3.memoryReleaseRef table
  else some s

/-- `memory_clean_process_memory` -/
def memoryCleanProcessMemory (s : MemState) (pgDir : ℕ) : Option MemState :=
  (s.allocKernelPages 1).bind fun d =>
    (d.2.allocKernelPages 1).bind fun t =>
      (t.2.mapTempOrPanic d.1 pgDir).bind fun s1 =>
        ((List.range kernelFirstPgdirEntry).foldlM (cleanEntry pgDir t.1) s1).bind fun s2 =>
          (s2.unmapPage d.1).bind fun s3 =>
            (s3.memoryReleaseRef pgDir).bind fun s4 =>
              (s4.freeKernelPagesTo d.1 1).bind fun s5 => s5.freeKernelPagesTo t.1 1

/-- One turn of the loop of `memory_free_process_data`. -/
def freeDataPage (pid pgDir pgtablePage : ℕ) (s : MemState) (page : ℕ) : Option MemState :=
  if (s.mem pgDir (pgdirEntry page)).present then
    let table := (s.mem pgDir (pgdirEntry page)).frame
    (s.mapTempOrPanic pgtablePage table).bind fun s1 =>
      if (s1.mem table (pgtableEntry page)).present then
        (s1.memoryReleaseRef (s1.mem table (pgtableEntry page)).frame).bind fun s2 =>
          ((s2.setWord table (pgtableEntry page) Word.zero).freePagesTo pid
            (page * kernelFrameSize) 1).bind fun s3 => s3.unmapPage pgtablePage
      else none
  else none

/-- The number of turns of the loop: the offset in the page is added to the size, and the sum to the address. -/
def walkedPages (virtAddr size : ℕ) : ℕ :=
  pageCount ((virtAddr + (size + pageOffset virtAddr)) % 2 ^ 32 - (virtAddr - pageOffset virtAddr))

/-- `memory_free_process_data` -/
def memoryFreeProcessData (s : MemState) (virtAddr size pid : ℕ) : Option MemState :=
  if pid = s.current then none
  else
    (s.processes pid).bind fun p =>
      (s.allocKernelPages 1).bind fun d =>
        (d.2.allocKernelPages 1).bind fun t =>
          (t.2.mapTempOrPanic d.1 p.pageDir).bind fun s1 =>
            ((List.range' (virtAddr / kernelFrameSize) (walkedPages virtAddr size)).foldlM
              (freeDataPage pid p.pageDir t.1) s1).bind fun s2 =>
              (s2.unmapPage d.1).bind fun s3 =>
                (s3.freeKernelPagesTo d.1 1).bind fun s4 => s4.freeKernelPagesTo t.1 1

end MemState

end UtkKernel.Memory
