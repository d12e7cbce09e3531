import UtkKernel.Memory.FreedData

/-! # The walk over another process's pages

One turn of the loop of `memory_free_process_data`, with its two temporary pages: what it needs and what it
leaves. A page table that has no reference is freed with its temporary page, and the next page in it cannot be
freed. -/

namespace UtkKernel.Memory
open Structures Foundations
set_option autoImplicit false

namespace MemState

variable {s0 s s' : MemState} {new : ℕ → ℕ} {word : ℕ → Word} {freed dropped D R : Finset ℕ} {pid dir p q f i d t : ℕ}
  {e : Word} {F W : Finset ℕ}

/-! ## Freed frames -/

/-- A frame that was freed in between counts as free from now on. -/
theorem Over.absorb (h : Over s0 new word {f} dropped D R s) (h0 : WholeFrames s0.freeMemoryMap) (hf : s0.Elsewhere f)
    (hr : s0.frameRef f = some ⟨false, 0⟩) :
    ∃ z, Released f s0 z ∧ Over z new word ∅ dropped D R s := by
  obtain ⟨z, -, hrel⟩ := exists_memoryFreeFrames h0 hf.used hf.bound hr
  have hrest := hrel.rest
  have hdir : ∀ i, z.dirEntry i = s0.dirEntry i := fun i => dirEntry_of_mem hrel.mem hrest.cr3
  have hmono : ∀ g, IsFree s0.freeMemoryMap g → IsFree z.freeMemoryMap g := fun g hg => (hrel.free g).mpr (.inl hg)
  have hrefs : z.frameRef = s0.frameRef := by
    funext g
    rw [hrel.frameRef]
    split_ifs with hg
    · rw [hg, hr]
      rfl
    · rfl
  refine ⟨z, hrel, ⟨⟨?_, ?_, ?_, ?_⟩, fun k hk => ?_, fun q hq => ?_, fun g hg hplain => ?_, fun k hk => ?_, h.whole,
    fun g => ?_, fun g => ?_, fun j hj => ?_, h.madeInj, h.mapped, fun g hg => hmono g (h.wasFree g hg), by simp⟩⟩
  · rw [h.rest.processes, hrest.processes]
  · rw [h.rest.kernelPages, hrest.kernelPages]
  · rw [h.rest.current, hrest.current]
  · rw [h.rest.cr3, hrest.cr3]
  · rw [h.dir k hk, hdir]
  · rw [h.entry q hq, entry_of_mem hrel.mem, hrest.cr3]
  · rw [hrel.mem]
    exact h.mem g (fun hc => hg (hmono g hc)) ((plain_congr hrest.cr3 hdir).mp hplain)
  · rw [hrest.cr3, hrel.mem, h.window k hk]
  · rw [h.free, hrel.free, Finset.mem_singleton]
    simp only [Finset.notMem_empty, or_false]
    constructor
    · rintro (⟨hfree, hne⟩ | rfl)
      · exact ⟨.inl hfree, hne⟩
      · exact ⟨.inr rfl, fun j hj hc => hf.used (hc ▸ (h.made j hj).2.2)⟩
    · rintro ⟨hfree | hg, hne⟩
      · exact .inl ⟨hfree, hne⟩
      · exact .inr hg
  · rw [h.refs, hrefs]
  · rw [hdir]
    exact ⟨(h.made j hj).1, (h.made j hj).2.1, hmono _ (h.made j hj).2.2⟩

/-- A page cannot be unmapped if its frame would be freed and is free already. -/
theorem unmapPage_of_freed_frame (hd : Descending s.freeMemoryMap) (hp : p < windowPage)
    (he : s.dirEntry (pgdirEntry p) = some e) {w : Word} (hw : s.mem e.frame (pgtableEntry p) = w)
    (hpresent : w.present = true) (hr : s.frameRef w.frame = some ⟨false, 1⟩) (hfree : IsFree s.freeMemoryMap w.frame) :
    s.unmapPage p = none := by
  obtain ⟨hdir, hword⟩ := dirEntry_eq_some he
  have hrelease : s.memoryReleaseRef w.frame = none := by
    rw [memoryReleaseRef_of_last hr rfl rfl]
    exact memoryFreeFrames_isFree hd hfree
  unfold MemState.unmapPage
  dsimp only
  rw [if_neg (pgdirEntry_lt_of_lt hp).ne, if_pos hdir, hword, hw, if_pos hpresent, hrelease]
  rfl

/-- Nor if its page table is empty and free already. -/
theorem unmapPage_of_freed_table (hd : Descending s.freeMemoryMap) (hp : p < windowPage)
    (he : s.dirEntry (pgdirEntry p) = some e) (hempty : ∀ j < kernelPgdirSize, (s.mem e.frame j).present = false)
    (hfree : IsFree s.freeMemoryMap e.frame) : s.unmapPage p = none := by
  obtain ⟨hdir, hword⟩ := dirEntry_eq_some he
  have habsent := hempty (pgtableEntry p) (Nat.mod_lt _ (by decide))
  have htable : s.tableEmpty e.frame = true := by
    unfold tableEmpty
    rw [List.all_eq_true]
    intro j hj
    rw [hempty j (List.mem_range.mp hj)]
    rfl
  unfold MemState.unmapPage
  dsimp only
  rw [if_neg (pgdirEntry_lt_of_lt hp).ne, if_pos hdir, hword, if_neg (by rw [habsent]; exact Bool.false_ne_true)]
  unfold MemState.dropTable
  rw [hword, if_pos htable, memoryFreeFrames_isFree hd hfree]
  rfl

/-- Page tables lie below the last frame. -/
def Bounded (s : MemState) : Prop := ∀ i e, i < kernelPgdirSize - 1 → s.dirEntry i = some e →
  e.frame * kernelFrameSize + kernelFrameSize < 2 ^ 32

theorem Over.bounded (h : Over s0 new word freed dropped D R s) (h0 : InOrder s0) (hb : Bounded s0) : Bounded s := by
  intro i e hi he
  rw [h.dir i hi] at he
  split_ifs at he with hD
  · cases he
    exact h0.whole.bound (h.made i hD).2.2
  · exact hb i e hi he

theorem Over.descending_unmapPage (h : Over s0 new word freed dropped D R s) (h0 : InOrder s0) (hb : Bounded s0)
    (hpR : p ∈ R) (hbound : (word p).frame * kernelFrameSize + kernelFrameSize < 2 ^ 32)
    (hd : Descending s.freeMemoryMap) (hunmap : s.unmapPage p = some s') : Descending s'.freeMemoryMap := by
  have hp := (h.mapped p hpR).1
  refine MemState.descending_unmapPage hd hp (fun e he => ?_) (fun e he => ?_) hunmap
  · rw [h.entry p hp, if_pos hpR] at he
    rwa [← Option.some.inj he]
  · exact ⟨h.bounded h0 hb _ e (pgdirEntry_lt_of_lt hp) he, (h.apart h0.apart).dir _ e (pgdirEntry_lt_of_lt hp) he⟩

/-! ## Between two turns -/

/-- The page directory that is worked on is mapped at the page `d`, and the page at hand of the walk is `q`. -/
def Walked (s0 : MemState) (pid dir d : ℕ) (W F R freed : Finset ℕ) (s : MemState) : Prop :=
  ∃ z new dropped, FreedBy s0 pid dir W F R z ∧
    Over z new (fun _ => Word.page dir tempFlags) freed dropped (madeBy z {d}) {d} s

/-- What the temporary mapping of a page table leaves free: the page table itself if it had no reference. -/
def loose (s0 : MemState) (T : ℕ) : Finset ℕ := if s0.frameRef T = some ⟨false, 0⟩ then {T} else ∅

theorem freeDataPage_eq {T : ℕ} (hpresent : (s.mem dir (pgdirEntry q)).present = true)
    (hT : (s.mem dir (pgdirEntry q)).frame = T) : freeDataPage pid dir t s q =
      (s.mapTempOrPanic t T).bind fun s1 =>
        if (s1.mem T (pgtableEntry q)).present then
          (s1.memoryReleaseRef (s1.mem T (pgtableEntry q)).frame).bind fun s2 =>
            ((s2.setWord T (pgtableEntry q) Word.zero).freePagesTo pid (q * kernelFrameSize) 1).bind fun s3 =>
              s3.unmapPage t
        else none := by
  unfold freeDataPage
  rw [if_pos hpresent, hT]

theorem FreedBy.bounded (h : FreedBy s0 pid dir W F R s) (hb : Bounded s0) : Bounded s := by
  intro i e hi he
  rw [h.dirEntry_eq] at he
  exact hb i e hi he

/-! ## The temporary mapping of a page table -/

/-- The words of the temporary pages: a page table at `t`, and the page directory at the other one. -/
def tempWord (dir t T : ℕ) : ℕ → Word := Function.update (fun _ => Word.page dir tempFlags) t (Word.page T tempFlags)

theorem tempWord_self (dir t T : ℕ) : tempWord dir t T t = Word.page T tempFlags := Function.update_self ..

theorem tempWord_of_ne {T : ℕ} (h : p ≠ t) : tempWord dir t T p = Word.page dir tempFlags := Function.update_of_ne h ..

theorem tempWord_of_mem {T : ℕ} (hne : t ≠ d) (hp : p ∈ ({d} : Finset ℕ)) :
    tempWord dir t T p = Word.page dir tempFlags := by
  rw [Finset.mem_singleton.mp hp]
  exact tempWord_of_ne hne.symm

/-- The frames of the temporary pages are those two. -/
theorem tempWord_frame_ne {g T : ℕ} (hdir : dir ≠ g) (hT : T ≠ g) (p : ℕ) : (tempWord dir t T p).frame ≠ g := by
  by_cases hp : p = t
  · rw [hp, tempWord_self]
    exact hT
  · rw [tempWord_of_ne hp]
    exact hdir

section Reads

variable {z : MemState} {D P : Finset ℕ}

/-- The page directory and the page tables are read as they were, but for the pages that are freed. -/
theorem FreedBy.mem_dir_over (hz : FreedBy s0 pid dir W F R z) (hover : Over z new word freed dropped D P s) :
    s.mem dir = s0.mem dir := by
  rw [hover.mem dir hz.elsewhere_dir.used hz.elsewhere_dir.plain, hz.mem_dir]

theorem FreedBy.mem_page_over (hz : FreedBy s0 pid dir W F R z) (hover : Over z new word freed dropped D P s) (hq : q ∈ W)
    (hqR : q ∉ R) (hF : s0.tableAt dir q ∉ F) : s.mem (s0.tableAt dir q) (pgtableEntry q) = s0.pageWord dir q := by
  have htable := hz.elsewhere_table hq hF
  rw [hover.mem _ htable.used htable.plain, ← hz.pageWord_eq hq hqR]
  unfold pageWord tableAt
  rw [hz.mem_dir]

/-- So a turn of the loop is about the page table that the page had. -/
theorem FreedBy.freeDataPage_over (hz : FreedBy s0 pid dir W F R z) (hover : Over z new word freed dropped D P s)
    (hq : q ∈ W) : MemState.freeDataPage pid dir t s q = (s.mapTempOrPanic t (s0.tableAt dir q)).bind fun s1 =>
      if (s1.mem (s0.tableAt dir q) (pgtableEntry q)).present then
        (s1.memoryReleaseRef (s1.mem (s0.tableAt dir q) (pgtableEntry q)).frame).bind fun s2 =>
          ((s2.setWord (s0.tableAt dir q) (pgtableEntry q) Word.zero).freePagesTo pid (q * kernelFrameSize) 1).bind
            fun s3 => s3.unmapPage t
      else none := by
  have hdir := hz.mem_dir_over hover
  refine freeDataPage_eq ?_ ?_
  · rw [hdir]
    exact (present_of_entry (hz.holds.mapped q hq)).1
  · rw [hdir]
    rfl

end Reads

/-- The frame can take one more reference. -/
def Referable (s : MemState) (f : ℕ) : Prop := ∃ r, s.frameRef f = some r ∧ r.count + 1 ≠ frameRefCountMask

section Table

variable {z s1 : MemState} (hz : FreedBy s0 pid dir W F R z)
  (hover : Over z new (fun _ => Word.page dir tempFlags) ∅ dropped (madeBy z {d}) {d} s) (ht : Spare s0 t) (hne : t ≠ d)
  (hq : q ∈ W) (hF : s0.tableAt dir q ∉ F)

include hz hover ht hne hq hF

theorem FreedBy.mapTable (h0 : InOrder s0) (hmap : s.mapTempOrPanic t (s0.tableAt dir q) = some s1) :
    (∃ new1, Over z new1 (tempWord dir t (s0.tableAt dir q)) ∅ dropped (madeBy z {t, d}) {t, d} s1 ∧
      ∀ i ∈ madeBy z {d}, new1 i = new i) ∧ Referable s0 (s0.tableAt dir q) := by
  have htable := hz.elsewhere_table hq hF
  have htd : t ∉ ({d} : Finset ℕ) := fun hc => hne (Finset.mem_singleton.mp hc)
  have hother : ∀ p ∈ ({d} : Finset ℕ), (tempWord dir t (s0.tableAt dir q) p).frame ≠ s0.tableAt dir q := by
    intro p hp
    rw [tempWord_of_mem hne hp]
    exact (hz.holds.table hq).2.symm
  obtain ⟨hmapped, hroom⟩ := (hover.congr_word fun p hp => tempWord_of_mem hne hp).mapTempOrPanic (hz.inOrder h0)
    (hz.spare ht) htd htable.used hother (tempWord_self ..) hmap
  rw [hz.frameRef_table hq] at hroom
  exact ⟨hmapped, hroom⟩

theorem FreedBy.exists_mapTable (hroom : Referable s0 (s0.tableAt dir q)) {G : Finset ℕ}
    (hG : ∀ f ∈ G, IsFree s0.freeMemoryMap f) (hcard : (madeBy s0 {t, d}).card ≤ G.card) :
    ∃ s1, s.mapTempOrPanic t (s0.tableAt dir q) = some s1 := by
  have htd : t ∉ ({d} : Finset ℕ) := fun hc => hne (Finset.mem_singleton.mp hc)
  refine hover.exists_mapTempOrPanic (hz.spare ht) htd (hz.elsewhere_table hq hF).used
    (fun _ _ => (hz.holds.table hq).2.symm) (F := G) (fun f hf => (hz.free f).mpr (.inl (hG f hf))) ?_ ?_
  · rwa [madeBy_congr hz.dirEntry_eq]
  · rw [hz.frameRef_table hq]
    exact hroom

end Table

/-! ## One page -/

theorem descending_mapTempOrPanic (hd : Descending s.freeMemoryMap) (hp : p < windowPage)
    (hunmapped : s.entry s.cr3 p = none) (h : s.mapTempOrPanic p f = some s') : Descending s'.freeMemoryMap := by
  rw [mapTempOrPanic_eq hunmapped] at h
  exact descending_mapPage hd hp h

theorem Walked.freeDataPage {s1 : MemState} (h : Walked s0 pid dir d W F R ∅ s) (h0 : InOrder s0) (ht : Spare s0 t)
    (hne : t ≠ d) (hq : q ∈ W) (hqR : q ∉ R) (hF : s0.tableAt dir q ∉ F)
    (hpages : ∀ k, s0.processes pid = some k → ¬ IsFree k.freePageTable q)
    (hmap : s.mapTempOrPanic t (s0.tableAt dir q) = some s1) :
    ∃ s', MemState.freeDataPage pid dir t s q = some s' ∧
      Walked s0 pid dir d W F (insert q R) (s0.loose (s0.tableAt dir q)) s' ∧
      (Bounded s0 → Descending s.freeMemoryMap → Descending s'.freeMemoryMap) := by
  obtain ⟨z, new, dropped, hz, hover⟩ := h
  have htable : z.Elsewhere (s0.tableAt dir q) := hz.elsewhere_table hq hF
  have hTframe : s0.tableAt dir q ≠ (s0.pageWord dir q).frame := hz.holds.frame_ne_table hq hq
  have htd : t ∉ ({d} : Finset ℕ) := fun hc => hne (Finset.mem_singleton.mp hc)
  -- the page table is mapped and its entry is read
  obtain ⟨⟨new1, hover1, hnew1⟩, -⟩ := hz.mapTable hover ht hne hq hF h0 hmap
  have hreadPage := hz.mem_page_over hover1 hq hqR hF
  -- the frame is released
  obtain ⟨hframe, r, hr, hpos⟩ := hz.frame hq hqR
  have hframes : ∀ p ∈ ({t, d} : Finset ℕ), (tempWord dir t (s0.tableAt dir q) p).frame ≠ (s0.pageWord dir q).frame :=
    fun p _ => tempWord_frame_ne (hz.holds.frame q hq).2.1.symm hTframe p
  obtain ⟨z2, s2, -, hs2, hrel, -, hover2⟩ := hover1.memoryReleaseRef hz.whole hframe hframes hr hpos
  have hdirEntry2 : ∀ i, z2.dirEntry i = z.dirEntry i := fun i => dirEntry_of_mem hrel.mem hrel.rest.cr3
  -- its entry is cleared
  have hused2 : ¬ IsFree z2.freeMemoryMap (s0.tableAt dir q) := by
    rw [hrel.free]
    rintro (hc | ⟨hc, -⟩)
    · exact htable.used hc
    · exact hTframe hc
  have hover3 := hover2.setWord hused2 ((plain_congr hrel.rest.cr3 hdirEntry2).mpr htable.plain) (pgtableEntry q) Word.zero
  -- the page goes back to the process
  obtain ⟨z4, hz4⟩ := hz.exists_freePagesTo hq hqR hpages
    (t := z2.setWord (s0.tableAt dir q) (pgtableEntry q) Word.zero) hrel.rest.processes
  obtain ⟨s4, hs4, hover4⟩ := hover3.freePagesTo hz4
  have hfreed := hz.freePage hq hqR hr hrel hz4
  -- the page table is unmapped
  have hmade : ∀ R', madeBy z4 R' = madeBy z R' := fun R' =>
    madeBy_congr fun i => (hfreed.dirEntry_eq i).trans (hz.dirEntry_eq i).symm
  rw [← hmade] at hover4
  have hspare := hfreed.spare ht
  have htable4 : z4.Elsewhere (s0.tableAt dir q) := hfreed.elsewhere_table hq hF
  have hTt : (tempWord dir t (s0.tableAt dir q) t).frame = s0.tableAt dir q := by
    rw [tempWord_self]
    rfl
  have hmem : t ∈ ({t, d} : Finset ℕ) := Finset.mem_insert_self ..
  obtain ⟨s5, hs5, hover5⟩ := hover4.unmapPage (hfreed.inOrder h0) hmem hspare.unmapped hspare.full
    (by rw [hTt]; exact htable4.managed) (by rw [hTt]; exact fun hc => htable4.used (hover4.wasFree _ hc))
    (by rw [hTt]; exact fun _ => ⟨htable4.used, htable4.plain, htable4.bound⟩)
  have hrun : MemState.freeDataPage pid dir t s q = some s5 := by
    rw [hz.freeDataPage_over hover hq, hmap, Option.bind_some, hreadPage,
      if_pos (present_of_entry (hz.holds.mapped q hq)).2, hs2, Option.bind_some, hs4, Option.bind_some, hs5]
  have herase : ({t, d} : Finset ℕ).erase t = {d} := Finset.erase_insert htd
  have hother : ∀ p ∈ ({d} : Finset ℕ), (tempWord dir t (s0.tableAt dir q) p).frame ≠ s0.tableAt dir q := by
    intro p hp
    rw [tempWord_of_mem hne hp]
    exact (hz.holds.table hq).2.symm
  have hloose : freedBy z4 (tempWord dir t (s0.tableAt dir q)) ∅ {t, d} t = s0.loose (s0.tableAt dir q) := by
    unfold freedBy loose
    simp only [hTt, hfreed.frameRef_table hq, herase, and_iff_left hother, insert_empty_eq]
  rw [herase, hloose] at hover5
  have hover6 : Over z4 new _ _ _ _ _ s5 :=
    (hover5.congr_word fun p hp => (tempWord_of_mem hne hp).symm).congr_new fun i hi => by
      rw [hmade] at hi
      exact (hnew1 i hi).symm
  refine ⟨s5, hrun, ⟨z4, new, _, hfreed, hover6⟩, fun hb hdesc => ?_⟩
  have hunmapped : s.entry s.cr3 t = none := by
    rw [hover.entry t ht.lt, if_neg htd, (hz.spare ht).unmapped]
  have hd1 : Descending s1.freeMemoryMap := descending_mapTempOrPanic hdesc ht.lt hunmapped hmap
  have hd2 : Descending s2.freeMemoryMap := descending_memoryReleaseRef hd1 hframe.bound hs2
  have hd4 : Descending s4.freeMemoryMap := by
    unfold MemState.freePagesTo at hs4
    obtain ⟨k, -, hadd⟩ := Option.bind_eq_some_iff.mp hs4
    obtain ⟨list, -, rfl⟩ := Option.map_eq_some_iff.mp hadd
    exact hd2
  refine hover4.descending_unmapPage (hfreed.inOrder h0) (hfreed.bounded hb) hmem ?_ hd4 hs5
  rw [hTt]
  exact htable4.bound

/-! ## A page table that was freed -/

/-- A page that is mapped writes to its page table only. -/
theorem Apart.mem_mapPage {frame : ℕ} {flags : BitVec 12} (h : Apart s) (hwhole : WholeFrames s.freeMemoryMap)
    (hp : p < windowPage) (hmap : s.mapPage p frame flags = some s') (he : s'.dirEntry (pgdirEntry p) = some e)
    (hcr3 : f ≠ s.cr3) (hf : f ≠ e.frame) : s'.mem f = s.mem f := by
  have hi := pgdirEntry_lt_of_lt hp
  rw [mapPage_eq hp] at hmap
  obtain ⟨s1, hcreate, hacquire⟩ := Option.bind_eq_some_iff.mp hmap
  obtain ⟨r, -, rfl⟩ := memoryAcquireRef_eq_some hacquire
  have hmade : ∃ e1, s1.dirEntry (pgdirEntry p) = some e1 ∧ e1.frame ≠ s1.cr3 ∧
      (f ≠ e1.frame → s1.mem f = s.mem f) := by
    cases hdir : s.dirEntry (pgdirEntry p) with
    | some e1 =>
      rw [createTable_of_present hdir] at hcreate
      cases hcreate
      exact ⟨e1, hdir, h.dir _ e1 hi hdir, fun _ => rfl⟩
    | none =>
      obtain ⟨x, hfree, hred, -⟩ := h.createTable hwhole hi hdir hcreate
      refine ⟨Word.pgDir x, by rw [hred.dir _ hi, if_pos rfl], ?_, fun hne => hred.mem f hcr3 ?_⟩
      · rw [hred.rest.cr3]
        exact fun hc => h.dirUsed (hc ▸ hfree)
      · intro e1 he1
        cases he1
        exact hne
  obtain ⟨e1, he1, hne1, hmem⟩ := hmade
  obtain ⟨-, hword⟩ := dirEntry_eq_some he1
  have hsame : e1 = e := by
    rw [hword] at he
    change ((s1.setWord e1.frame (pgtableEntry p) _).mem s1.cr3 (pgdirEntry p)).seen = some e at he
    rw [mem_setWord, if_neg fun hc => hne1 hc.1.symm] at he
    exact Option.some.inj (he1.symm.trans he)
  subst hsame
  funext j
  rw [hword]
  change (s1.setWord e1.frame (pgtableEntry p) _).mem f j = _
  rw [mem_setWord, if_neg fun hc => hf hc.1, hmem hf]

/-- The page table that is mapped is free: it cannot be unmapped again. -/
theorem unmapPage_of_freed {s1 : MemState} {g j addr T : ℕ} {r : FrameRef} (hp : p < windowPage)
    (he : s1.dirEntry (pgdirEntry p) = some e)
    (hword : s1.mem e.frame (pgtableEntry p) = Word.page T tempFlags) (hT : T ≠ e.frame) (hcr3 : T ≠ s1.cr3)
    (hr : s1.frameRef T = some ⟨false, 1⟩) (hfree : IsFree s1.freeMemoryMap T) (hg : g ≠ T)
    (hrel : ReleasedOne g r s1 s) (hd : Descending s.freeMemoryMap) :
    ((s.setWord T j Word.zero).freePagesTo pid addr 1).bind (fun s3 => s3.unmapPage p) = none := by
  cases hfreed : (s.setWord T j Word.zero).freePagesTo pid addr 1 with
  | none => rfl
  | some s3 =>
    unfold MemState.freePagesTo at hfreed
    obtain ⟨k, -, hadd⟩ := Option.bind_eq_some_iff.mp hfreed
    obtain ⟨list, -, rfl⟩ := Option.map_eq_some_iff.mp hadd
    have hmem : ∀ x i, (s.setWord T j Word.zero).mem x i = if x = T ∧ i = j then Word.zero else s1.mem x i := by
      intro x i
      rw [mem_setWord, hrel.mem]
    refine unmapPage_of_freed_frame (e := e) (w := Word.page T tempFlags) hd hp ?_ ?_ (page_present T tempFlags) ?_ ?_
    · show ((s.setWord T j Word.zero).mem s.cr3 (pgdirEntry p)).seen = some e
      rw [hmem, hrel.rest.cr3, if_neg fun hc => hcr3 hc.1.symm]
      exact he
    · refine (hmem _ _).trans ?_
      rw [if_neg fun hc => hT hc.1.symm, hword]
    · show s.frameRef T = some ⟨false, 1⟩
      rw [hrel.frameRef, if_neg hg.symm, hr]
    · exact (hrel.free T).mpr (.inl hfree)

/-- The page table that is mapped has become the page table of the temporary page: it is freed in between. -/
theorem unmapPage_of_taken {addr : ℕ} (hdesc : Descending s.freeMemoryMap) (hp : p < windowPage)
    (he : s.dirEntry (pgdirEntry p) = some e) (hcr3 : e.frame ≠ s.cr3)
    (hbound : e.frame * kernelFrameSize + kernelFrameSize < 2 ^ 32) (hr : s.frameRef e.frame = some ⟨false, 1⟩)
    (hempty : ∀ j < kernelPgdirSize, j ≠ pgtableEntry p → (s.mem e.frame j).present = false) :
    ((s.memoryReleaseRef e.frame).bind fun s2 =>
      ((s2.setWord e.frame (pgtableEntry p) Word.zero).freePagesTo pid addr 1).bind fun s3 => s3.unmapPage p) = none := by
  have hrelease := memoryReleaseRef_of_last hr rfl rfl
  cases hs2 : s.memoryReleaseRef e.frame with
  | none => rfl
  | some s2 =>
    rw [Option.bind_some]
    obtain ⟨hrest, hmem2⟩ := rest_memoryReleaseRef hs2
    rw [hrelease] at hs2
    have hd1 : Descending (s.setRef e.frame ⟨false, 0⟩).freeMemoryMap := hdesc
    obtain ⟨-, hd2, hiff⟩ := descending_memoryFreeFrames hd1 hbound hs2
    have hfree : IsFree s2.freeMemoryMap e.frame := (hiff _).mpr (.inr rfl)
    cases hfreed : (s2.setWord e.frame (pgtableEntry p) Word.zero).freePagesTo pid addr 1 with
    | none => rfl
    | some s3 =>
      unfold MemState.freePagesTo at hfreed
      obtain ⟨k, -, hadd⟩ := Option.bind_eq_some_iff.mp hfreed
      obtain ⟨list, -, rfl⟩ := Option.map_eq_some_iff.mp hadd
      have hmem : ∀ x i, (s2.setWord e.frame (pgtableEntry p) Word.zero).mem x i =
          if x = e.frame ∧ i = pgtableEntry p then Word.zero else s.mem x i := by
        intro x i
        rw [mem_setWord, hmem2]
      refine unmapPage_of_freed_table (e := e) hd2 hp ?_ (fun j hj => ?_) hfree
      · show ((s2.setWord e.frame (pgtableEntry p) Word.zero).mem s2.cr3 (pgdirEntry p)).seen = some e
        rw [hmem, hrest.cr3, if_neg fun hc => hcr3 hc.1.symm]
        exact he
      · refine (congrArg Word.present (hmem e.frame j)).trans ?_
        by_cases hjp : j = pgtableEntry p
        · rw [if_pos ⟨rfl, hjp⟩]
          rfl
        · rw [if_neg fun hc => hjp hc.2]
          exact hempty j hj hjp

theorem mem_loose {T g : ℕ} : g ∈ s0.loose T ↔ s0.frameRef T = some ⟨false, 0⟩ ∧ g = T := by
  unfold loose
  split_ifs with h
  · rw [Finset.mem_singleton, and_iff_right h]
  · exact iff_of_false (Finset.notMem_empty g) fun hc => h hc.1

theorem loose_eq {T : ℕ} (h : s0.frameRef T = some ⟨false, 0⟩) : s0.loose T = {T} := if_pos h

/-- The page table that the last turn left free counts as freed. -/
theorem Walked.absorb (h : Walked s0 pid dir d W F R (s0.loose (s0.tableAt dir p)) s) (hp : p ∈ R)
    (hF : s0.tableAt dir p ∉ F) : Walked s0 pid dir d W (F ∪ s0.loose (s0.tableAt dir p)) R ∅ s := by
  by_cases hr : s0.frameRef (s0.tableAt dir p) = some ⟨false, 0⟩
  · rw [loose_eq hr] at h ⊢
    obtain ⟨z, new, dropped, hz, hover⟩ := h
    have hpW := hz.sub hp
    have helse := hz.elsewhere_table hpW hF
    obtain ⟨z', hrel, hover'⟩ := hover.absorb hz.whole helse ((hz.frameRef_table hpW).trans hr)
    refine ⟨z', new, dropped, ?_, ?_⟩
    · rw [Finset.union_comm]
      exact hz.freeTable hp hr hrel
    · rwa [madeBy_congr fun i => dirEntry_of_mem hrel.mem hrel.rest.cr3]
  · have hnone : s0.loose (s0.tableAt dir p) = ∅ := if_neg hr
    rw [hnone] at h ⊢
    rwa [Finset.union_empty]

theorem Apart.released {z : MemState} (h : Apart s) (hf : s.Elsewhere f) (hrel : Released f s z) : Apart z := by
  have hdir : ∀ i, z.dirEntry i = s.dirEntry i := fun i => dirEntry_of_mem hrel.mem hrel.rest.cr3
  refine ⟨fun i j e e' hi hj he he' => ?_, fun i e hi he => ?_, fun hfree => ?_, fun i e hi he hfree => ?_⟩
  · rw [hdir] at he he'
    exact h.inj i j e e' hi hj he he'
  · rw [hdir] at he
    rw [hrel.rest.cr3]
    exact h.dir i e hi he
  · rw [hrel.rest.cr3, hrel.free] at hfree
    exact hfree.elim h.dirUsed fun hc => hf.plain.1 hc.symm
  · rw [hdir] at he
    rw [hrel.free] at hfree
    exact hfree.elim (h.tableUsed i e hi he) (hf.plain.2 i e hi he)

/-- A page table that is free is mapped: it becomes the page table of the temporary page, or stays free. -/
theorem Over.mapPage_of_freed {s1 : MemState} {T : ℕ}
    (h : Over s0 new (fun _ => Word.page dir tempFlags) {T} dropped (madeBy s0 {d}) {d} s) (h0 : InOrder s0)
    (ht : Spare s0 t) (hne : t ≠ d) (hT : s0.Elsewhere T) (hr : s0.frameRef T = some ⟨false, 0⟩) (hdir : dir ≠ T)
    (hmap : s.mapPage t T tempFlags = some s1) :
    T ≠ s1.cr3 ∧ s1.frameRef T = some ⟨false, 1⟩ ∧ ∃ e, s1.dirEntry (pgdirEntry t) = some e ∧
      s1.mem e.frame (pgtableEntry t) = Word.page T tempFlags ∧
      ((T = e.frame ∧ ∀ j < kernelPgdirSize, j ≠ pgtableEntry t → (s1.mem e.frame j).present = false) ∨
        (T ≠ e.frame ∧ IsFree s1.freeMemoryMap T ∧ s1.mem T = s.mem T ∧
          ∀ g r, s0.Elsewhere g → g ≠ T → dir ≠ g → s0.frameRef g = some r → 0 < r.count →
            ∃ s2, s1.memoryReleaseRef g = some s2 ∧ ReleasedOne g r s1 s2)) := by
  obtain ⟨y, hrel, hover⟩ := h.absorb h0.whole hT hr
  have hdirEntry : ∀ i, y.dirEntry i = s0.dirEntry i := fun i => dirEntry_of_mem hrel.mem hrel.rest.cr3
  rw [← madeBy_congr hdirEntry] at hover
  have htd : t ∉ ({d} : Finset ℕ) := fun hc => hne (Finset.mem_singleton.mp hc)
  have hkept : T ∉ dropped := fun hc => hT.used (h.wasFree _ hc)
  obtain ⟨new1, hover1, hnew1, -⟩ := (hover.congr_word fun p hp => tempWord_of_mem hne hp).mapPage
    (h0.apart.released hT hrel) ht.lt htd (tempWord_self ..) hkept hmap
  have hentry := hover1.entry t ht.lt
  rw [if_pos (Finset.mem_insert_self ..), tempWord_self, entry_eq] at hentry
  obtain ⟨e, he, hseen⟩ := Option.bind_eq_some_iff.mp hentry
  obtain ⟨-, hword⟩ := Word.seen_eq_some hseen
  have hmappers : mappers (tempWord dir t T) {t, d} T = {t} := by
    unfold mappers
    rw [Finset.filter_insert, if_pos (by rw [tempWord_self]; rfl), Finset.filter_singleton,
      if_neg (by rw [tempWord_of_ne hne.symm]; exact hdir)]
    rfl
  have href : s1.frameRef T = some ⟨false, 1⟩ := by
    rw [hover1.refs, hrel.frameRef, if_pos rfl, hr, hmappers]
    simp only [Option.map_some, hkept, if_false, Finset.card_singleton, Nat.zero_add]
  have hcr3 : T ≠ s1.cr3 := by
    rw [hover1.rest.cr3, hrel.rest.cr3]
    exact hT.plain.1
  have hi := pgdirEntry_lt_of_lt ht.lt
  -- the page table of the page directory is another one
  have hnewD : ∀ i ∈ madeBy y {d}, new1 i ≠ T := by
    intro i hi hc
    rw [hnew1 i hi] at hc
    rw [madeBy_congr hdirEntry] at hi
    exact hT.used (hc ▸ (h.made i hi).2.2)
  refine ⟨hcr3, href, e, he, hword, ?_⟩
  by_cases hTe : T = e.frame
  · refine .inl ⟨hTe, fun j hj hjt => ?_⟩
    have hfresh : pgdirEntry t ∈ madeBy y {t, d} := by
      by_contra hnot
      have hold := hover1.dir _ hi
      rw [if_neg hnot, he, hdirEntry] at hold
      exact hT.plain.2 _ e hi hold.symm hTe.symm
    have hnewT : new1 (pgdirEntry t) = T := by
      have hold := hover1.dir _ hi
      rw [if_pos hfresh, he, Option.some.injEq] at hold
      rw [hTe, hold]
      rfl
    have hnone := (mem_madeBy.mp hfresh).2
    obtain ⟨x, hx, hxi, rfl⟩ := exists_page hi hj
    have hnot : x ∉ ({t, d} : Finset ℕ) := by
      rw [Finset.mem_insert, Finset.mem_singleton]
      rintro (rfl | rfl)
      · exact hjt rfl
      · exact hnewD _ (mem_madeBy.mpr ⟨⟨x, Finset.mem_singleton_self x, hxi⟩, hnone⟩) hnewT
    have hxe := hover1.entry x hx
    rw [if_neg hnot, entry_eq, hxi, he, Option.bind_some, entry_eq, hxi, hnone] at hxe
    exact Word.seen_eq_none hxe
  · refine .inr ⟨hTe, ?_, ?_, fun g r hg hgT hgdir hr' hpos => ?_⟩
    · refine (hover1.free _).mpr (.inl ⟨(hrel.free _).mpr (.inr rfl), fun i hi hc => ?_⟩)
      obtain ⟨⟨x, hx, hxi⟩, hnone⟩ := mem_madeBy.mp hi
      obtain rfl | hx := Finset.mem_insert.mp hx
      · rw [hxi, hover1.dir i (hover1.made i hi).1, if_pos hi] at he
        cases he
        exact hTe hc
      · exact hnewD i (mem_madeBy.mpr ⟨⟨x, hx, hxi⟩, hnone⟩) hc.symm
    · exact (h.apart h0.apart).mem_mapPage h.whole ht.lt hmap he (by rw [h.rest.cr3]; exact hT.plain.1) hTe
    · have hgY : y.Elsewhere g := by
        refine ⟨fun hc => ((hrel.free g).mp hc).elim hg.used hgT, (plain_congr hrel.rest.cr3 hdirEntry).mpr hg.plain,
          hg.bound, ?_⟩
        rw [hrel.frameRef, if_neg hgT]
        exact hg.managed
      have hrY : y.frameRef g = some r := by
        rw [hrel.frameRef, if_neg hgT, hr']
      obtain ⟨-, s2, -, hs2, -, hone, -⟩ := hover1.memoryReleaseRef hrel.whole hgY
        (fun p _ => tempWord_frame_ne hgdir (Ne.symm hgT) p) hrY hpos
      exact ⟨s2, hs2, hone⟩

/-- The next page cannot be freed if it is in the page table that the last turn left free. -/
theorem Walked.freeDataPage_eq_none (h : Walked s0 pid dir d W F R (s0.loose (s0.tableAt dir p)) s) (h0 : InOrder s0)
    (ht : Spare s0 t) (hne : t ≠ d) (hq : q ∈ W) (hqR : q ∉ R) (htable : s0.tableAt dir q = s0.tableAt dir p)
    (hF : s0.tableAt dir p ∉ F) (hr : s0.frameRef (s0.tableAt dir p) = some ⟨false, 0⟩)
    (hdesc : Descending s.freeMemoryMap) : MemState.freeDataPage pid dir t s q = none := by
  rw [loose_eq hr, ← htable] at h
  rw [← htable] at hF hr
  obtain ⟨z, new, dropped, hz, hover⟩ := h
  have helse : z.Elsewhere (s0.tableAt dir q) := hz.elsewhere_table hq hF
  have htd : t ∉ ({d} : Finset ℕ) := fun hc => hne (Finset.mem_singleton.mp hc)
  have hentry : s.entry s.cr3 t = none := by
    rw [hover.entry t ht.lt, if_neg htd, (hz.spare ht).unmapped]
  rw [hz.freeDataPage_over hover hq, mapTempOrPanic_eq hentry]
  cases hmap : s.mapPage t (s0.tableAt dir q) tempFlags with
  | none => rfl
  | some s1 =>
    rw [Option.bind_some]
    obtain ⟨hcr3, href, e, he, hword, hcases⟩ := hover.mapPage_of_freed (hz.inOrder h0) (hz.spare ht) hne helse
      ((hz.frameRef_table hq).trans hr) (hz.holds.table hq).2.symm hmap
    have hdesc1 : Descending s1.freeMemoryMap := descending_mapPage hdesc ht.lt hmap
    obtain ⟨hTe, hempty⟩ | ⟨hTe, hfree, hmem, hrelease⟩ := hcases
    · rw [hTe] at hcr3 href ⊢
      have hj : pgtableEntry q < kernelPgdirSize := Nat.mod_lt _ (by decide)
      by_cases hqt : pgtableEntry q = pgtableEntry t
      · rw [hqt, hword, if_pos (page_present ..)]
        change ((s1.memoryReleaseRef (s0.tableAt dir q)).bind _) = none
        rw [hTe]
        exact unmapPage_of_taken hdesc1 ht.lt he hcr3 (hTe ▸ helse.bound) href hempty
      · rw [hempty _ hj hqt, if_neg Bool.false_ne_true]
    · have hTframe : s0.tableAt dir q ≠ (s0.pageWord dir q).frame := hz.holds.frame_ne_table hq hq
      obtain ⟨hframe, r, hr', hpos⟩ := hz.frame hq hqR
      obtain ⟨s2, hs2, hone⟩ := hrelease _ r hframe hTframe.symm (hz.holds.frame q hq).2.1.symm hr' hpos
      rw [hmem, hz.mem_page_over hover hq hqR hF, if_pos (present_of_entry (hz.holds.mapped q hq)).2, hs2, Option.bind_some]
      exact unmapPage_of_freed ht.lt he hword hTe hcr3 href hfree hTframe.symm hone
        (descending_memoryReleaseRef hdesc1 hframe.bound hs2)

/-! ## The walk -/

/-- The page tables that are mapped over a state lie in frames that were free in it. -/
theorem Over.exists_free (h : Over s0 new word freed dropped D R s) :
    ∃ G : Finset ℕ, (∀ f ∈ G, IsFree s0.freeMemoryMap f) ∧ D.card ≤ G.card := by
  refine ⟨D.image new, fun f hf => ?_, ?_⟩
  · obtain ⟨i, hi, rfl⟩ := Finset.mem_image.mp hf
    exact (h.made i hi).2.2
  · rw [Finset.card_image_of_injOn fun i hi j hj hc => h.madeInj i hi j hj hc]

/-- Pages between two pages of one page table are in it too. -/
theorem Holds.table_between (h : s.Holds dir W) {x : ℕ} (hp : p ∈ W) (hx : x ∈ W) (hpq : p ≤ q) (hqx : q ≤ x)
    (htable : s.tableAt dir x = s.tableAt dir p) : s.tableAt dir q = s.tableAt dir p := by
  have heq := h.pgdirEntry_eq hx hp htable
  have hmax := h.user x hx
  have hentry : pgdirEntry q = pgdirEntry p := by
    rw [kernelPage_eq] at hmax
    unfold pgdirEntry at heq ⊢
    rw [show kernelPgdirSize = 1024 from rfl] at heq ⊢
    omega
  unfold tableAt
  rw [hentry]

section Walk

variable (h0 : InOrder s0) (hb : Bounded s0) (ht : Spare s0 t) (hne : t ≠ d)
  (hpages : ∀ q ∈ W, ∀ k, s0.processes pid = some k → ¬ IsFree k.freePageTable q)

include h0 hb ht hne hpages

/-- One turn, and what it needed. -/
theorem Walked.step (h : Walked s0 pid dir d W F R ∅ s) (hdesc : Descending s.freeMemoryMap) (hq : q ∈ W)
    (hqR : q ∉ R) (hF : s0.tableAt dir q ∉ F) (hrun : MemState.freeDataPage pid dir t s q = some s') :
    Walked s0 pid dir d W F (insert q R) (s0.loose (s0.tableAt dir q)) s' ∧ Descending s'.freeMemoryMap ∧
      Referable s0 (s0.tableAt dir q) ∧
      ∃ G : Finset ℕ, (∀ f ∈ G, IsFree s0.freeMemoryMap f ∨ f ∈ F ∨ s0.Spent dir R f) ∧
        (madeBy s0 {t, d}).card ≤ G.card := by
  obtain ⟨z, new, dropped, hz, hover⟩ := h
  have hsteps := hrun
  rw [hz.freeDataPage_over hover hq] at hsteps
  obtain ⟨s1, hmap, -⟩ := Option.bind_eq_some_iff.mp hsteps
  obtain ⟨⟨new1, hover1, -⟩, hroom⟩ := hz.mapTable hover ht hne hq hF h0 hmap
  obtain ⟨G, hfree, hcard⟩ := hover1.exists_free
  rw [madeBy_congr hz.dirEntry_eq] at hcard
  have hwalked : Walked s0 pid dir d W F R ∅ s := ⟨z, new, dropped, hz, hover⟩
  obtain ⟨s2, hrun', hwalked', hd⟩ := hwalked.freeDataPage h0 ht hne hq hqR hF (hpages q hq) hmap
  rw [hrun, Option.some.injEq] at hrun'
  subst hrun'
  exact ⟨hwalked', hd hb hdesc, hroom, G, fun f hf => (hz.free f).mp (hfree f hf), hcard⟩

/-- The rest of the walk after the page `p`. -/
theorem Walked.rest {pages : List ℕ} (h : Walked s0 pid dir d W F R (s0.loose (s0.tableAt dir p)) s)
    (hdesc : Descending s.freeMemoryMap) (hp : p ∈ R) (hF : s0.tableAt dir p ∉ F)
    (hsorted : (p :: pages).Pairwise (· < ·)) (hsub : ∀ q ∈ pages, q ∈ W ∧ q ∉ R ∧ s0.tableAt dir q ∉ F)
    (hbad : ∀ q ∈ R, s0.frameRef (s0.tableAt dir q) = some ⟨false, 0⟩ →
      s0.tableAt dir q ∈ F ∪ s0.loose (s0.tableAt dir p))
    (hrun : pages.foldlM (MemState.freeDataPage pid dir t) s = some s') :
    ∃ F', Walked s0 pid dir d W F' (R ∪ pages.toFinset) ∅ s' ∧ Descending s'.freeMemoryMap ∧
      (∀ q ∈ R ∪ pages.toFinset, s0.frameRef (s0.tableAt dir q) = some ⟨false, 0⟩ → s0.tableAt dir q ∈ F') ∧
      ∀ q ∈ pages, Referable s0 (s0.tableAt dir q) := by
  induction pages generalizing p F R s with
  | nil =>
    cases hrun
    rw [List.toFinset_nil, Finset.union_empty]
    exact ⟨_, h.absorb hp hF, hdesc, hbad, by simp⟩
  | cons q rest ih =>
    obtain ⟨s1, hs1, hrest⟩ := Option.bind_eq_some_iff.mp (List.foldlM_cons.symm.trans hrun)
    obtain ⟨hqW, hqR, hqF⟩ := hsub q (List.mem_cons_self ..)
    obtain ⟨hpq, hsorted'⟩ := List.pairwise_cons.mp hsorted
    have hpW : p ∈ W := by
      obtain ⟨z, new, dropped, hz, -⟩ := h
      exact hz.sub hp
    have hholds : s0.Holds dir W := by
      obtain ⟨z, new, dropped, hz, -⟩ := h
      exact hz.holds
    have hnot : s0.tableAt dir q ∉ F ∪ s0.loose (s0.tableAt dir p) := by
      intro hc
      obtain hc | hc := Finset.mem_union.mp hc
      · exact hqF hc
      · obtain ⟨hr, htable⟩ := mem_loose.mp hc
        rw [h.freeDataPage_eq_none h0 ht hne hqW hqR htable hF hr hdesc] at hs1
        cases hs1
    obtain ⟨h1, hdesc1, hroom, -⟩ := (h.absorb hp hF).step h0 hb ht hne hpages hdesc hqW hqR hnot hs1
    have hlt : ∀ x ∈ rest, q < x := (List.pairwise_cons.mp hsorted').1
    have hsub' : ∀ x ∈ rest, x ∈ W ∧ x ∉ insert q R ∧ s0.tableAt dir x ∉ F ∪ s0.loose (s0.tableAt dir p) := by
      intro x hx
      obtain ⟨hxW, hxR, hxF⟩ := hsub x (List.mem_cons_of_mem q hx)
      refine ⟨hxW, ?_, fun hc => ?_⟩
      · rw [Finset.mem_insert, not_or]
        exact ⟨(hlt x hx).ne', hxR⟩
      · obtain hc | hc := Finset.mem_union.mp hc
        · exact hxF hc
        · obtain ⟨hr, htable⟩ := mem_loose.mp hc
          have hbetween := hholds.table_between hpW hxW (hpq q (List.mem_cons_self ..)).le (hlt x hx).le htable
          exact hnot (Finset.mem_union_right F (mem_loose.mpr ⟨hr, hbetween⟩))
    have hbad1 : ∀ x ∈ insert q R, s0.frameRef (s0.tableAt dir x) = some ⟨false, 0⟩ →
        s0.tableAt dir x ∈ (F ∪ s0.loose (s0.tableAt dir p)) ∪ s0.loose (s0.tableAt dir q) := by
      intro x hx hr
      obtain rfl | hx := Finset.mem_insert.mp hx
      · exact Finset.mem_union_right _ (mem_loose.mpr ⟨hr, rfl⟩)
      · exact Finset.mem_union_left _ (hbad x hx hr)
    obtain ⟨F', hF', hdesc', hbad', hroom'⟩ := ih h1 hdesc1 (Finset.mem_insert_self ..) hnot hsorted' hsub' hbad1 hrest
    have hset : insert q R ∪ rest.toFinset = R ∪ (q :: rest).toFinset := by
      rw [List.toFinset_cons, Finset.insert_union, Finset.union_insert]
    rw [hset] at hF' hbad'
    refine ⟨F', hF', hdesc', hbad', fun x hx => ?_⟩
    obtain rfl | hx := List.mem_cons.mp hx
    · exact hroom
    · exact hroom' x hx

/-- What a whole walk does, and what it needed. -/
theorem Walked.walk {pages : List ℕ} (h : Walked s0 pid dir d W ∅ ∅ ∅ s) (hdesc : Descending s.freeMemoryMap)
    (hsorted : pages.Pairwise (· < ·)) (hsub : ∀ q ∈ pages, q ∈ W)
    (hrun : pages.foldlM (MemState.freeDataPage pid dir t) s = some s') :
    ∃ F', Walked s0 pid dir d W F' pages.toFinset ∅ s' ∧ Descending s'.freeMemoryMap ∧
      (∀ q ∈ pages, s0.frameRef (s0.tableAt dir q) = some ⟨false, 0⟩ → s0.tableAt dir q ∈ F') ∧
      (∀ q ∈ pages, Referable s0 (s0.tableAt dir q)) ∧
      (pages ≠ [] → ∃ G : Finset ℕ, (∀ f ∈ G, IsFree s0.freeMemoryMap f) ∧ (madeBy s0 {t, d}).card ≤ G.card) := by
  cases pages with
  | nil =>
    cases hrun
    exact ⟨∅, h, hdesc, by simp, by simp, fun hc => absurd rfl hc⟩
  | cons q rest =>
    obtain ⟨s1, hs1, hrest⟩ := Option.bind_eq_some_iff.mp (List.foldlM_cons.symm.trans hrun)
    have hq := hsub q (List.mem_cons_self ..)
    have hlt : ∀ x ∈ rest, q < x := (List.pairwise_cons.mp hsorted).1
    have hno : s0.tableAt dir q ∉ (∅ : Finset ℕ) := Finset.notMem_empty _
    obtain ⟨h1, hdesc1, hroom, G, hG, hcard⟩ := h.step h0 hb ht hne hpages hdesc hq (Finset.notMem_empty q) hno hs1
    have hsub' : ∀ x ∈ rest, x ∈ W ∧ x ∉ insert q (∅ : Finset ℕ) ∧ s0.tableAt dir x ∉ (∅ : Finset ℕ) := by
      intro x hx
      refine ⟨hsub x (List.mem_cons_of_mem q hx), ?_, Finset.notMem_empty _⟩
      rw [Finset.mem_insert, not_or]
      exact ⟨(hlt x hx).ne', Finset.notMem_empty x⟩
    have hbad1 : ∀ x ∈ insert q (∅ : Finset ℕ), s0.frameRef (s0.tableAt dir x) = some ⟨false, 0⟩ →
        s0.tableAt dir x ∈ ∅ ∪ s0.loose (s0.tableAt dir q) := by
      intro x hx hr
      obtain rfl | hx := Finset.mem_insert.mp hx
      · exact Finset.mem_union_right _ (mem_loose.mpr ⟨hr, rfl⟩)
      · exact absurd hx (Finset.notMem_empty x)
    obtain ⟨F', hF', hdesc', hbad, hroom'⟩ := h1.rest h0 hb ht hne hpages hdesc1 (Finset.mem_insert_self ..) hno hsorted
      hsub' hbad1 hrest
    have hset : insert q (∅ : Finset ℕ) ∪ rest.toFinset = (q :: rest).toFinset := by
      rw [List.toFinset_cons, Finset.insert_union, Finset.empty_union]
    rw [hset] at hF' hbad
    refine ⟨F', hF', hdesc', fun x hx => hbad x (List.mem_toFinset.mpr hx), fun x hx => ?_,
      fun _ => ⟨G, fun f hf => ?_, hcard⟩⟩
    · obtain rfl | hx := List.mem_cons.mp hx
      · exact hroom
      · exact hroom' x hx
    · obtain hfree | hc | hspent := hG f hf
      · exact hfree
      · exact absurd hc (Finset.notMem_empty f)
      · obtain ⟨x, hx, -⟩ := hspent.exists_page
        exact absurd hx (Finset.notMem_empty x)

omit hb in
/-- A walk over page tables that have a reference can be made. -/
theorem Walked.exists_walk {pages : List ℕ} (h : Walked s0 pid dir d W ∅ R ∅ s) (hnodup : pages.Nodup)
    (hsub : ∀ q ∈ pages, q ∈ W ∧ q ∉ R)
    (hgood : ∀ q ∈ pages, Referable s0 (s0.tableAt dir q) ∧ s0.frameRef (s0.tableAt dir q) ≠ some ⟨false, 0⟩)
    {G : Finset ℕ} (hG : ∀ f ∈ G, IsFree s0.freeMemoryMap f) (hcard : pages ≠ [] → (madeBy s0 {t, d}).card ≤ G.card) :
    ∃ s', pages.foldlM (MemState.freeDataPage pid dir t) s = some s' ∧
      Walked s0 pid dir d W ∅ (R ∪ pages.toFinset) ∅ s' := by
  induction pages generalizing R s with
  | nil =>
    rw [List.toFinset_nil, Finset.union_empty]
    exact ⟨s, rfl, h⟩
  | cons q rest ih =>
    obtain ⟨hq, hqR⟩ := hsub q (List.mem_cons_self ..)
    obtain ⟨hroom, hused⟩ := hgood q (List.mem_cons_self ..)
    obtain ⟨hnot, hnodup'⟩ := List.nodup_cons.mp hnodup
    have hno : s0.tableAt dir q ∉ (∅ : Finset ℕ) := Finset.notMem_empty _
    have hcard' := hcard (List.cons_ne_nil q rest)
    have hstate := h
    obtain ⟨z, new, dropped, hz, hover⟩ := hstate
    obtain ⟨s1, hmap⟩ := hz.exists_mapTable hover ht hne hq hno hroom hG hcard'
    obtain ⟨s2, hrun, h2, -⟩ := h.freeDataPage h0 ht hne hq hqR hno (hpages q hq) hmap
    have hnone : s0.loose (s0.tableAt dir q) = ∅ := if_neg hused
    rw [hnone] at h2
    have hsub' : ∀ x ∈ rest, x ∈ W ∧ x ∉ insert q R := by
      intro x hx
      obtain ⟨hxW, hxR⟩ := hsub x (List.mem_cons_of_mem q hx)
      refine ⟨hxW, ?_⟩
      rw [Finset.mem_insert, not_or]
      exact ⟨fun hc => hnot (hc ▸ hx), hxR⟩
    obtain ⟨s', hs', hwalked⟩ := ih h2 hnodup' hsub' (fun x hx => hgood x (List.mem_cons_of_mem q hx)) fun _ => hcard'
    have hset : insert q R ∪ rest.toFinset = R ∪ (q :: rest).toFinset := by
      rw [List.toFinset_cons, Finset.insert_union, Finset.union_insert]
    rw [hset] at hwalked
    refine ⟨s', ?_, hwalked⟩
    rw [List.foldlM_cons, hrun]
    exact hs'

end Walk

end MemState

end UtkKernel.Memory
