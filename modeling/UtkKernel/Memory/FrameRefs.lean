import Mathlib.Data.Set.Card
import UtkKernel.Memory.System

/-! # Frame reference counts

The reference table that the memory manager starts with counts a reference for the first frame behind
the kernel, which is free. -/

namespace UtkKernel.Memory
open Structures Foundations
set_option autoImplicit false

namespace MemState

variable {s : MemState}

/-! ## Exact counts -/

/-- The frame is the page directory of a live process, or a page table or a page that present entries
of one lead to. -/
def Reaches (s : MemState) (frame : ℕ) : Prop :=
  ∃ pid p, s.processes pid = some p ∧ (frame = p.pageDir ∨
    (∃ i < kernelPgdirSize - 1, (s.mem p.pageDir i).present ∧ (s.mem p.pageDir i).frame = frame) ∨
    ∃ page e, pgdirEntry page < kernelPgdirSize - 1 ∧ s.entry p.pageDir page = some e ∧
      e.frame = frame)

/-- The user's page table entries of all live processes that map the frame, by process and page. -/
def userMappings (s : MemState) (frame : ℕ) : Set (ℕ × ℕ) :=
  {x | x.2 < kernelFirstPgdirEntry * kernelPgdirSize ∧ ∃ p e, s.processes x.1 = some p ∧
    s.entry p.pageDir x.2 = some e ∧ e.frame = frame}

/-- The reference counts of the frames that are not hardware are exact. -/
def FrameRefsExact (s : MemState) : Prop :=
  ∀ frame r, s.frameRef frame = some r → r.isHw = false →
    (s.Reaches frame → r.count ≠ 0) ∧
    ((s.userMappings frame).Nonempty → r.count = (s.userMappings frame).ncard) ∧
    (IsFree s.freeMemoryMap frame ↔ r.count = 0)

end MemState

/-! ## The first state -/

/-- The first frame behind the kernel. -/
def freeMemHeadFrame : ℕ := freeMemHead / kernelFrameSize

theorem freeMemHeadFrame_addr : freeMemHeadFrame * kernelFrameSize = freeMemHead := by
  rw [freeMemHeadFrame, freeMemHead_eq, kernelFrameSize_eq]

/-- The memory map has available memory there. -/
def MemoryBehindKernel (b : Boot) : Prop :=
  ∃ e ∈ b.entries, e.type = multibootMemoryAvailable ∧ kernelMemStart ≤ e.addr ∧
    e.addr ≤ freeMemHead ∧ freeMemHead + kernelFrameSize ≤ (e.addr + e.len) % 2 ^ 32

theorem detectMemory_perm (entries : List MultibootMemoryMap)
    (maps : List (KqueueNode (MemRange × ℕ)) × List Block) :
    (∀ n, n ∈ maps.1 → n ∈ (entries.foldl detectEntry maps).1) ∧
      ∀ n, n ∈ maps.2 → n ∈ (entries.foldl detectEntry maps).2 := by
  induction entries generalizing maps with
  | nil => exact ⟨fun _ h => h, fun _ h => h⟩
  | cons e entries ih =>
    obtain ⟨ih1, ih2⟩ := ih (detectEntry maps e)
    refine ⟨fun n hn => ih1 n ?_, fun n hn => ih2 n ?_⟩
    · unfold detectEntry
      split_ifs
      · exact hn
      · exact (kqueuePushPrio_perm _ _).mem_iff.mpr (List.mem_cons_of_mem _ hn)
      · exact (kqueuePushPrio_perm _ _).mem_iff.mpr (List.mem_cons_of_mem _ hn)
    · unfold detectEntry
      dsimp only
      split_ifs
      · exact hn
      · exact (kqueuePushPrio_perm _ _).mem_iff.mpr (List.mem_cons_of_mem _ hn)
      · exact hn

/-- An available entry above the first megabyte gets in both maps. -/
theorem mem_detectMemory {entries : List MultibootMemoryMap} {e : MultibootMemoryMap}
    (he : e ∈ entries) (htype : e.type = multibootMemoryAvailable) (hstart : kernelMemStart ≤ e.addr)
    (hlow : e.addr ≤ 0xFFFFFFFF) :
    ⟨(⟨e.addr, (e.addr + e.len) % 2 ^ 32⟩, e.type), e.addr⟩ ∈ (detectMemory entries).1 ∧
      ⟨⟨e.addr, (e.addr + e.len) % 2 ^ 32⟩, e.addr⟩ ∈ (detectMemory entries).2 := by
  obtain ⟨before, after, rfl⟩ := List.append_of_mem he
  unfold detectMemory
  rw [List.foldl_append, List.foldl_cons]
  obtain ⟨h1, h2⟩ := detectMemory_perm after (detectEntry (before.foldl detectEntry ([], [])) e)
  refine ⟨h1 _ ?_, h2 _ ?_⟩
  · unfold detectEntry
    rw [if_neg (by omega)]
    exact (kqueuePushPrio_perm _ _).mem_iff.mpr (List.mem_cons_self ..)
  · unfold detectEntry
    rw [if_neg (by omega)]
    dsimp only
    rw [if_pos ⟨htype, hstart⟩]
    exact (kqueuePushPrio_perm _ _).mem_iff.mpr (List.mem_cons_self ..)

/-- The frame behind the kernel is free if a range of the map holds it, be it the head, whose base is
overwritten, or not. -/
theorem isFree_setupMemTable {list list' : List Block} (h : setupMemTable list = some list')
    {node : Block} (hnode : node ∈ list) (hbase : node.data.base ≤ freeMemHead)
    (hlimit : freeMemHead < node.data.limit) : IsFree list' freeMemHeadFrame := by
  unfold setupMemTable at h
  split at h
  · cases h
  · rename_i head rest
    split at h
    · cases h
    · split_ifs at h
      obtain rfl := Option.some.inj h
      rcases List.mem_cons.mp hnode with rfl | hrest
      · exact isFree_cons_of_base freeMemHeadFrame_addr hlimit
      · exact isFree_of_addr freeMemHeadFrame_addr (List.mem_cons_of_mem _ hrest) hbase hlimit

theorem initFrameRange_ref {next : ℕ} {refs refs' : ℕ → Option FrameRef}
    {node : KqueueNode (MemRange × ℕ)} (h : initFrameRange next refs node = some refs') (f : ℕ) :
    refs' f = if node.data.2 = multibootMemoryAvailable ∧
        node.data.1.base / kernelFrameSize ≤ f ∧ f < node.data.1.limit / kernelFrameSize then
      some (initialRef next f) else refs f := by
  unfold initFrameRange at h
  by_cases htype : node.data.2 = multibootMemoryAvailable
  · rw [if_neg (not_not.mpr htype)] at h
    dsimp only at h
    by_cases hany : ((List.range' (node.data.1.base / kernelFrameSize)
        (node.data.1.limit / kernelFrameSize - node.data.1.base / kernelFrameSize)).any
          fun f => (refs f).isSome) = true
    · rw [if_pos hany] at h
      cases h
    · rw [if_neg hany, Option.some.injEq] at h
      subst h
      simp only [htype, true_and]
  · rw [if_pos htype, Option.some.injEq] at h
    subst h
    rw [if_neg fun hc => htype hc.1]

/-- Every frame of the reference table is counted as it is at the start. -/
theorem initFrameRefTable_eq {hw : List (KqueueNode (MemRange × ℕ))} {next : ℕ}
    {refs : ℕ → Option FrameRef} (h : initFrameRefTable hw next = some refs) {f : ℕ} {r : FrameRef}
    (hr : refs f = some r) : r = initialRef (nextFreeMem next) f := by
  have hall := foldlM_invariant
    (fun refs : ℕ → Option FrameRef => ∀ f r, refs f = some r → r = initialRef (nextFreeMem next) f)
    (fun refs node refs' hrefs hstep f r hr => ?_) (fun _ _ hr => by cases hr) h
  · exact hall f r hr
  · rw [initFrameRange_ref hstep] at hr
    split_ifs at hr
    · cases hr
      rfl
    · exact hrefs f r hr

/-- The frames of an available range are in the reference table. -/
theorem initFrameRefTable_isSome {hw : List (KqueueNode (MemRange × ℕ))} {next : ℕ}
    {refs : ℕ → Option FrameRef} (h : initFrameRefTable hw next = some refs)
    {node : KqueueNode (MemRange × ℕ)} (hnode : node ∈ hw)
    (htype : node.data.2 = multibootMemoryAvailable) {f : ℕ}
    (hfirst : node.data.1.base / kernelFrameSize ≤ f)
    (hlast : f < node.data.1.limit / kernelFrameSize) : (refs f).isSome := by
  obtain ⟨before, after, rfl⟩ := List.append_of_mem hnode
  unfold initFrameRefTable at h
  rw [List.foldlM_append] at h
  obtain ⟨refs1, -, h1⟩ := Option.bind_eq_some_iff.mp h
  rw [List.foldlM_cons] at h1
  obtain ⟨refs2, hstep, h2⟩ := Option.bind_eq_some_iff.mp h1
  refine foldlM_invariant (fun refs : ℕ → Option FrameRef => (refs f).isSome)
    (fun refs node refs' hrefs hstep => ?_) ?_ h2
  · rw [initFrameRange_ref hstep]
    split_ifs
    · rfl
    · exact hrefs
  · rw [initFrameRange_ref hstep, if_pos ⟨htype, hfirst, hlast⟩]
    rfl

/-- A machine with memory behind the kernel starts with a free frame that has a reference. -/
theorem first_free_frame {b : Boot} {s : MemState} (hb : MemoryBehindKernel b)
    (h : memoryManagerInit b = some s) :
    IsFree s.freeMemoryMap freeMemHeadFrame ∧ s.frameRef freeMemHeadFrame = some ⟨false, 1⟩ := by
  obtain ⟨e, he, htype, hstart, hbase, hlimit⟩ := hb
  rw [freeMemHead_eq] at hbase
  rw [freeMemHead_eq, kernelFrameSize_eq] at hlimit
  obtain ⟨hhw, hfree⟩ := mem_detectMemory he htype hstart (by omega)
  obtain ⟨free, hsetup, hmap⟩ := Option.bind_eq_some_iff.mp h
  obtain ⟨refs, hrefs, rfl⟩ := Option.map_eq_some_iff.mp hmap
  refine ⟨isFree_setupMemTable hsetup hfree ?_ ?_, ?_⟩
  · rwa [freeMemHead_eq]
  · rw [freeMemHead_eq]
    dsimp only
    omega
  have hsome : (refs freeMemHeadFrame).isSome := by
    refine initFrameRefTable_isSome hrefs hhw htype ?_ ?_
    · show e.addr / kernelFrameSize ≤ freeMemHead / kernelFrameSize
      rw [freeMemHead_eq, kernelFrameSize_eq]
      omega
    · show freeMemHead / kernelFrameSize < (e.addr + e.len) % 2 ^ 32 / kernelFrameSize
      rw [freeMemHead_eq, kernelFrameSize_eq]
      omega
  obtain ⟨r, hr⟩ := Option.isSome_iff_exists.mp hsome
  show refs freeMemHeadFrame = _
  rw [hr, initFrameRefTable_eq hrefs hr]
  decide

namespace MemState

/-- On no machine with memory behind the kernel are the counts exact in every state reached. -/
theorem frame_refs_never_exact {b : Boot} {s0 : MemState} (hb : MemoryBehindKernel b)
    (h : memoryManagerInit b = some s0) :
    ¬ ∀ s, Reachable (fun s => s = s0) Step s → s.FrameRefsExact := by
  intro hexact
  obtain ⟨hfree, href⟩ := first_free_frame hb h
  obtain ⟨-, -, hiff⟩ := hexact s0 (.start rfl) _ _ href rfl
  exact absurd (hiff.mp hfree) (by decide)

theorem frame_refs_never_exact_small : ∃ s0, memoryManagerInit smallBoot = some s0 ∧
    ¬ ∀ s, Reachable (fun s => s = s0) Step s → s.FrameRefsExact := by
  have hinit : (memoryManagerInit smallBoot).isSome := by decide +kernel
  obtain ⟨s0, hs0⟩ := Option.isSome_iff_exists.mp hinit
  refine ⟨s0, hs0, frame_refs_never_exact ⟨⟨0x100000, 0xF00000, 1⟩, ?_, ?_⟩ hs0⟩
  · exact List.mem_cons_of_mem _ (List.mem_singleton_self _)
  · decide

/-- The small machine already starts with a count that is not exact. -/
theorem small_start_inexact : ¬ ∀ s, Reachable Started Step s → s.FrameRefsExact := by
  intro hexact
  have hinit : (memoryManagerInit smallBoot).any (fun s =>
      decide (s.frameRef 0xE38 = some ⟨false, 1⟩) &&
      decide (s.freeMemoryMap = [⟨⟨0xE38000, 0x1000000⟩, 0x100000⟩])) = true := by decide +kernel
  obtain ⟨s, hs, hvals⟩ := (Option.any_eq_true _ _).mp hinit
  simp only [Bool.and_eq_true, decide_eq_true_eq] at hvals
  obtain ⟨-, -, hiff⟩ := hexact s (.start ⟨smallBoot, hs⟩) _ _ hvals.1 rfl
  rw [hvals.2] at hiff
  exact absurd (hiff.mp ⟨_, List.mem_singleton_self _, by decide, by decide⟩) (by decide)

end MemState

end UtkKernel.Memory
