import UtkKernel.Foundations.Links
import UtkKernel.Fs.Edits
import UtkKernel.Fs.Listing

/-! # Where scans end

A header leads to the inode behind its data. A scan goes from header to header and looks at each; it ends if it does
not come back to a header. -/

namespace UtkKernel.Fs
open Foundations Relation
set_option autoImplicit false

/-! ## Listing and opening

A function that accesses memory outside of its arrays gives no value. A run of it says that it has ended all the same:
with `some none`. -/

namespace Partition

/-- What the loop of `ustar_list_directory` does with a header: it ends, or it goes on. -/
def listBody (kmalloc : ℕ → Option (List Byte)) (v : Vnode) (b : UstarBlock) :
    List Byte × ℕ × ℕ → Option Listing ⊕ (List Byte × ℕ × ℕ)
  | (buffer, sizeLeft, itemCount) =>
    let dirLength := v.name.chars.length
    let nameLength := (cstr b.bytes).length
    if strncmp dirLength b.bytes v.name.chars = 0 ∧ nameLength ≠ dirLength then
      match isRoot kmalloc v.name (.ofBuffer b.bytes) with
      | none => .inl none
      | some inRoot =>
        if inRoot then
          if nameLength + 1 < sizeLeft then
            let name := strncpy (nameLength - dirLength) (b.bytes.drop dirLength)
            .inr (overwrite buffer (buffer.length - sizeLeft) (name ++ [0]), sizeLeft - (nameLength - dirLength) - 1,
              itemCount + 1)
          else if sizeLeft < buffer.length then
            .inl (some ⟨.osErrOutOfBound, overwrite buffer sizeLeft [0], itemCount⟩)
          else .inl none
        else .inr (buffer, sizeLeft, itemCount)
    else .inr (buffer, sizeLeft, itemCount)

/-- The loop of `ustar_list_directory` as it runs. -/
def listWalk (kmalloc : ℕ → Option (List Byte)) (d : Partition) (v : Vnode) :
    ℕ → UstarBlock → BitVec 32 → List Byte × ℕ × ℕ → Option (Option Listing)
  | 0, _, _, _ => none
  | fuel + 1, b, inode, kept =>
    if b.unnamed then
      some (some ⟨.osNoErr, if kept.2.1 < kept.1.length then overwrite kept.1 (kept.1.length - kept.2.1 - 1) [0] else
        kept.1, kept.2.2⟩)
    else if ustarCheckBlock b ≠ .osNoErr then some (some ⟨ustarCheckBlock b, kept.1, kept.2.2⟩)
    else
      match listBody kmalloc v b kept with
      | .inl l => some l
      | .inr kept => (d.ustarGetNextFile fuel b inode).bind fun r => listWalk kmalloc d v fuel r.1 r.2 kept

/-- A run of `ustar_list_directory`. -/
def listRun (kmalloc : ℕ → Option (List Byte)) (d : Partition) (fuel : ℕ) (v : Vnode) (buffer : Option (List Byte)) :
    Option (Option Listing) :=
  match buffer with
  | none => some (some ⟨.osErrNullPointer, [], 0⟩)
  | some buffer =>
    match d.firstBlock v.fsInode with
    | .error err => some (some ⟨err, buffer, 0⟩)
    | .ok b =>
      if ustarToVfsType b.type ≠ .dir then some (some ⟨.osErrFileNotFound, buffer, 0⟩)
      else d.listWalk kmalloc v fuel b v.fsInode (buffer, buffer.length, 0)

/-- A run of `ustar_open_file`. -/
def openRun (d : Partition) (fuel : ℕ) (path : CString) : Option (Option (Except OsReturnE Vnode)) :=
  (d.ustarSearchFile fuel path).map fun r =>
    match r with
    | .error err => some (.error err)
    | .ok (b, inode) => (ustarSetVnode b inode path).map .ok

variable {d : Partition} {v : Vnode} {b b' : UstarBlock} {inode : BitVec 32} {path : CString} {fuel : ℕ}
  {kmalloc : ℕ → Option (List Byte)}

theorem listStep_eq_body (kmalloc : ℕ → Option (List Byte)) (v : Vnode) (b : UstarBlock) (buffer : List Byte)
    (sizeLeft itemCount : ℕ) (next : List Byte → ℕ → ℕ → Option Listing) :
    listStep kmalloc v b buffer sizeLeft itemCount next =
      match listBody kmalloc v b (buffer, sizeLeft, itemCount) with
      | .inl l => l
      | .inr kept => next kept.1 kept.2.1 kept.2.2 := by
  unfold listStep listBody
  dsimp only
  by_cases hinside : strncmp v.name.chars.length b.bytes v.name.chars = 0 ∧
      (cstr b.bytes).length ≠ v.name.chars.length
  · rw [if_pos hinside, if_pos hinside]
    cases isRoot kmalloc v.name (.ofBuffer b.bytes) with
    | none => rfl
    | some inRoot =>
      dsimp only [Option.bind_some]
      split_ifs
      · rfl
      · rfl
      · rfl
      · rfl
  · rw [if_neg hinside, if_neg hinside]

theorem listFrom_eq_walk (fuel : ℕ) (b : UstarBlock) (inode : BitVec 32) (buffer : List Byte)
    (sizeLeft itemCount : ℕ) : d.listFrom kmalloc v fuel b inode buffer sizeLeft itemCount =
      (d.listWalk kmalloc v fuel b inode (buffer, sizeLeft, itemCount)).join := by
  induction fuel generalizing b inode buffer sizeLeft itemCount with
  | zero => rfl
  | succ fuel ih =>
    by_cases hunnamed : b.unnamed = true
    · rw [listFrom, listWalk, if_pos hunnamed, if_pos hunnamed]
      rfl
    by_cases hcheck : ustarCheckBlock b = .osNoErr
    · rw [listFrom_succ (Bool.eq_false_iff.mpr hunnamed) hcheck, listStep_eq_body, listWalk, if_neg hunnamed,
        if_neg (not_not_intro hcheck)]
      cases listBody kmalloc v b (buffer, sizeLeft, itemCount) with
      | inl l => rfl
      | inr kept =>
        dsimp only
        cases d.ustarGetNextFile fuel b inode with
        | none => rfl
        | some r => exact ih r.1 r.2 kept.1 kept.2.1 kept.2.2
    · rw [listFrom, listWalk, if_neg hunnamed, if_neg hunnamed, if_pos hcheck, if_pos hcheck]
      rfl

/-- What a run of a listing ends with is what the listing gives. -/
theorem ustarListDirectory_eq_run (fuel : ℕ) (v : Vnode) (buffer : Option (List Byte)) :
    d.ustarListDirectory kmalloc fuel v buffer = (d.listRun kmalloc fuel v buffer).join := by
  cases buffer with
  | none => rfl
  | some buffer =>
    unfold ustarListDirectory listRun
    dsimp only
    cases d.firstBlock v.fsInode with
    | error err => rfl
    | ok b =>
      dsimp only
      split_ifs
      · rfl
      · exact listFrom_eq_walk fuel b v.fsInode buffer buffer.length 0

theorem ustarOpenFile_eq_run (fuel : ℕ) (path : CString) :
    d.ustarOpenFile fuel path = (d.openRun fuel path).join := by
  unfold ustarOpenFile openRun
  cases d.ustarSearchFile fuel path with
  | none => rfl
  | some r => rfl

/-! ## From header to header -/

/-- The header at an inode leads to the inode behind its data. -/
def LeadsTo (d : Partition) (inode inode' : BitVec 32) : Prop :=
  ∃ b, d.firstBlock inode = .ok b ∧ nextInode b inode = inode'

theorem firstBlock_of_readBlock (hread : d.readBlock inode = .ok b) (hcheck : ustarCheckBlock b = .osNoErr) :
    d.firstBlock inode = .ok b := by
  unfold firstBlock
  rw [hread]
  exact if_neg (not_not_intro hcheck)

theorem readBlock_of_firstBlock (hfirst : d.firstBlock inode = .ok b) : d.readBlock inode = .ok b := by
  unfold firstBlock at hfirst
  cases hread : d.readBlock inode with
  | error err =>
    rw [hread] at hfirst
    exact nomatch hfirst
  | ok c =>
    rw [hread] at hfirst
    dsimp only at hfirst
    split_ifs at hfirst
    exact hfirst

theorem leadsTo_nextInode (hread : d.readBlock inode = .ok b) (hcheck : ustarCheckBlock b = .osNoErr) :
    d.LeadsTo inode (nextInode b inode) := ⟨b, firstBlock_of_readBlock hread hcheck, rfl⟩

/-- A block leads to one inode at most. -/
theorem ends_of_nextInode (hread : d.readBlock inode = .ok b)
    (hnext : ustarCheckBlock b = .osNoErr → Ends d.LeadsTo (nextInode b inode)) : Ends d.LeadsTo inode := by
  refine ends_of_next ?_
  rintro _ ⟨c, hfirst, rfl⟩
  obtain rfl : c = b := Except.ok.inj ((readBlock_of_firstBlock hfirst).symm.trans hread)
  refine hnext ?_
  by_contra hcheck
  unfold firstBlock at hfirst
  rw [hread] at hfirst
  dsimp only at hfirst
  rw [if_pos hcheck] at hfirst
  exact nomatch hfirst

/-- What the scan goes on to is a header that this one leads to. -/
theorem ustarGetNextFile_leads {r : UstarBlock × BitVec 32} (hread : d.readBlock inode = .ok b)
    (hget : d.ustarGetNextFile fuel b inode = some r) (hnamed : r.1.unnamed = false) :
    d.readBlock r.2 = .ok r.1 ∧ TransGen d.LeadsTo inode r.2 := by
  induction fuel generalizing b inode with
  | zero => cases hget
  | succ fuel ih =>
    rw [ustarGetNextFile] at hget
    by_cases hcheck : ustarCheckBlock b = .osNoErr
    · rw [if_neg (not_not_intro hcheck)] at hget
      have hleads := leadsTo_nextInode hread hcheck
      cases hnext : d.readBlock (nextInode b inode) with
      | error err =>
        rw [hnext] at hget
        rw [← Option.some.inj hget, unnamed_write_nul] at hnamed
        cases hnamed
      | ok c =>
        rw [hnext] at hget
        dsimp only at hget
        split_ifs at hget
        · obtain ⟨hread', hbehind⟩ := ih hnext hget
          exact ⟨hread', .head hleads hbehind⟩
        · rw [← Option.some.inj hget]
          exact ⟨hnext, .single hleads⟩
    · rw [if_pos hcheck] at hget
      rw [← Option.some.inj hget, unnamed_write_nul] at hnamed
      cases hnamed

theorem exists_ustarGetNextFile (hends : Ends d.LeadsTo inode) :
    ∀ b, d.readBlock inode = .ok b → ∃ fuel r, d.ustarGetNextFile fuel b inode = some r := by
  refine Ends.induction hends ?_
  intro inode hends ih b hread
  by_cases hcheck : ustarCheckBlock b = .osNoErr
  · cases hnext : d.readBlock (nextInode b inode) with
    | error err =>
      refine ⟨1, (b.write 0 [0], nextInode b inode), ?_⟩
      rw [ustarGetNextFile, if_neg (not_not_intro hcheck), hnext]
    | ok c =>
      by_cases hunnamed : c.unnamed = true
      · obtain ⟨fuel, r, hget⟩ := ih _ (.single (leadsTo_nextInode hread hcheck)) c hnext
        refine ⟨fuel + 1, r, ?_⟩
        rw [ustarGetNextFile, if_neg (not_not_intro hcheck), hnext]
        dsimp only
        rw [if_pos hunnamed, hget]
      · refine ⟨1, (c, nextInode b inode), ?_⟩
        rw [ustarGetNextFile, if_neg (not_not_intro hcheck), hnext]
        dsimp only
        rw [if_neg hunnamed]
  · refine ⟨1, (b.write 0 [0], inode), ?_⟩
    rw [ustarGetNextFile, if_pos hcheck]

theorem ends_of_ustarGetNextFile {r : UstarBlock × BitVec 32} (hread : d.readBlock inode = .ok b)
    (hget : d.ustarGetNextFile fuel b inode = some r) (hbehind : r.1.unnamed = false → Ends d.LeadsTo r.2) :
    Ends d.LeadsTo inode := by
  induction fuel generalizing b inode with
  | zero => cases hget
  | succ fuel ih =>
    refine ends_of_nextInode hread fun hcheck => ?_
    rw [ustarGetNextFile, if_neg (not_not_intro hcheck)] at hget
    cases hnext : d.readBlock (nextInode b inode) with
    | error err =>
      refine ends_of_next ?_
      rintro _ ⟨c, hfirst, -⟩
      rw [readBlock_of_firstBlock hfirst] at hnext
      cases hnext
    | ok c =>
      rw [hnext] at hget
      dsimp only at hget
      split_ifs at hget with hunnamed
      · exact ih hnext hget
      · rw [← Option.some.inj hget] at hbehind
        exact hbehind (Bool.eq_false_iff.mpr hunnamed)

/-! ## Loops over the headers -/

variable {α β : Type} {scan : ℕ → UstarBlock → BitVec 32 → β → Option α} {kept : β}

/-- With what it keeps then, a loop goes on to the next file. -/
def GoesOn (d : Partition) (scan : ℕ → UstarBlock → BitVec 32 → β → Option α) (b : UstarBlock) (inode : BitVec 32)
    (kept : β) : Prop :=
  ∃ kept', ∀ fuel, scan (fuel + 1) b inode kept =
    (d.ustarGetNextFile fuel b inode).bind fun r => scan fuel r.1 r.2 kept'

/-- A loop that ends at a header without a name, and that ends at another one or goes on. -/
structure Scan (d : Partition) (scan : ℕ → UstarBlock → BitVec 32 → β → Option α) : Prop where
  zero : ∀ b inode kept, scan 0 b inode kept = none
  unnamed : ∀ b inode kept, b.unnamed = true → ∃ a, ∀ fuel, scan (fuel + 1) b inode kept = some a
  step : ∀ b inode kept, (∃ a, ∀ fuel, scan (fuel + 1) b inode kept = some a) ∨ GoesOn d scan b inode kept

theorem Scan.mono (hscan : Scan d scan) {a : α} {more : ℕ} (h : scan fuel b inode kept = some a) (hle : fuel ≤ more) :
    scan more b inode kept = some a := by
  induction fuel generalizing b inode kept more with
  | zero =>
    rw [hscan.zero] at h
    exact nomatch h
  | succ fuel ih =>
    obtain ⟨more, rfl⟩ := Nat.exists_eq_succ_of_ne_zero (Nat.ne_of_gt (Nat.lt_of_lt_of_le fuel.succ_pos hle))
    obtain ⟨a', hend⟩ | ⟨kept', hon⟩ := hscan.step b inode kept
    · rw [hend] at h ⊢
      exact h
    · rw [hon] at h ⊢
      obtain ⟨r, hget, hrest⟩ := Option.bind_eq_some_iff.mp h
      rw [ustarGetNextFile_mono hget (Nat.le_of_succ_le_succ hle), Option.bind_some]
      exact ih hrest (Nat.le_of_succ_le_succ hle)

/-- A loop ends from a header from which no way comes back. -/
theorem Scan.ends (hscan : Scan d scan) (hends : Ends d.LeadsTo inode) :
    ∀ b, d.readBlock inode = .ok b → ∀ kept, ∃ fuel a, scan fuel b inode kept = some a := by
  refine Ends.induction hends ?_
  intro inode hends ih b hread kept
  obtain ⟨a, hend⟩ | ⟨kept', hon⟩ := hscan.step b inode kept
  · exact ⟨1, a, hend 0⟩
  obtain ⟨fuel, r, hget⟩ := exists_ustarGetNextFile hends b hread
  have hrest : ∃ fuel a, scan fuel r.1 r.2 kept' = some a := by
    by_cases hunnamed : r.1.unnamed = true
    · obtain ⟨a, hend⟩ := hscan.unnamed r.1 r.2 kept' hunnamed
      exact ⟨1, a, hend 0⟩
    · obtain ⟨hread', hbehind⟩ := ustarGetNextFile_leads hread hget (Bool.eq_false_iff.mpr hunnamed)
      exact ih r.2 hbehind r.1 hread' kept'
  obtain ⟨fuel', a, hrest⟩ := hrest
  refine ⟨max fuel fuel' + 1, a, ?_⟩
  rw [hon, ustarGetNextFile_mono hget (le_max_left ..), Option.bind_some]
  exact hscan.mono hrest (le_max_right ..)

/-- If a loop that goes on at each header ends, then no way from its start comes back. -/
theorem ends_of_scan (scan : ℕ → UstarBlock → BitVec 32 → β → Option α) (kept : β)
    (hzero : ∀ b inode kept, scan 0 b inode kept = none)
    (hon : ∀ b inode kept, b.unnamed = false → ustarCheckBlock b = .osNoErr → GoesOn d scan b inode kept) {a : α}
    (hread : d.readBlock inode = .ok b) (hnamed : b.unnamed = false) (h : scan fuel b inode kept = some a) :
    Ends d.LeadsTo inode := by
  induction fuel generalizing b inode kept with
  | zero =>
    rw [hzero] at h
    exact nomatch h
  | succ fuel ih =>
    by_cases hcheck : ustarCheckBlock b = .osNoErr
    · obtain ⟨kept', hon⟩ := hon b inode kept hnamed hcheck
      rw [hon] at h
      obtain ⟨r, hget, hrest⟩ := Option.bind_eq_some_iff.mp h
      exact ends_of_ustarGetNextFile hread hget fun hnamed' =>
        ih kept' (ustarGetNextFile_leads hread hget hnamed').1 hnamed' hrest
    · exact ends_of_nextInode hread fun hgood => absurd hgood hcheck

theorem scan_searchFrom (path : CString) : Scan d fun fuel b inode (_ : Unit) => d.searchFrom path fuel b inode where
  zero _ _ _ := rfl
  unnamed b inode _ hunnamed := ⟨.error .osErrFileNotFound, fun fuel => if_pos hunnamed⟩
  step b inode _ := by
    by_cases hunnamed : b.unnamed = true
    · exact .inl ⟨_, fun fuel => if_pos hunnamed⟩
    by_cases hmatch : strncmp ustarFilenameMaxLength path.chars b.bytes = 0
    · refine .inl ⟨if ustarCheckBlock b ≠ .osNoErr then .error (ustarCheckBlock b) else .ok (b, inode),
        fun fuel => ?_⟩
      rw [searchFrom, if_neg hunnamed, if_pos hmatch]
      split_ifs
      · rfl
      · rfl
    · refine .inr ⟨(), fun fuel => ?_⟩
      dsimp only
      rw [searchFrom, if_neg hunnamed, if_neg hmatch]

theorem scan_countFrom (path : CString) : Scan d (d.countFrom path) where
  zero _ _ _ := rfl
  unnamed b inode itemCount hunnamed := ⟨.ok itemCount, fun fuel => if_pos hunnamed⟩
  step b inode itemCount := by
    by_cases hunnamed : b.unnamed = true
    · exact .inl ⟨_, fun fuel => if_pos hunnamed⟩
    by_cases hcheck : ustarCheckBlock b = .osNoErr
    · let inside := strncmp path.chars.length b.bytes path.chars = 0 ∧ (cstr b.bytes).length ≠ path.chars.length
      refine .inr ⟨if inside then itemCount + 1 else itemCount, fun fuel => ?_⟩
      rw [countFrom, if_neg hunnamed, if_neg (not_not_intro hcheck)]
    · refine .inl ⟨.error (ustarCheckBlock b), fun fuel => ?_⟩
      rw [countFrom, if_neg hunnamed, if_pos hcheck]

theorem listWalk_succ (d : Partition) (kmalloc : ℕ → Option (List Byte)) (v : Vnode) (hnamed : b.unnamed = false)
    (hcheck : ustarCheckBlock b = .osNoErr) (fuel : ℕ) (inode : BitVec 32) (kept : List Byte × ℕ × ℕ) :
    d.listWalk kmalloc v (fuel + 1) b inode kept =
      match listBody kmalloc v b kept with
      | .inl l => some l
      | .inr kept => (d.ustarGetNextFile fuel b inode).bind fun r => d.listWalk kmalloc v fuel r.1 r.2 kept := by
  rw [listWalk, if_neg (Bool.eq_false_iff.mp hnamed), if_neg (not_not_intro hcheck)]

theorem scan_listWalk (kmalloc : ℕ → Option (List Byte)) (v : Vnode) : Scan d (d.listWalk kmalloc v) where
  zero _ _ _ := rfl
  unnamed b inode kept hunnamed := ⟨_, fun fuel => if_pos hunnamed⟩
  step b inode kept := by
    by_cases hunnamed : b.unnamed = true
    · exact .inl ⟨_, fun fuel => if_pos hunnamed⟩
    by_cases hcheck : ustarCheckBlock b = .osNoErr
    · have hsucc := fun fuel => listWalk_succ d kmalloc v (Bool.eq_false_iff.mpr hunnamed) hcheck fuel inode kept
      cases hbody : listBody kmalloc v b kept with
      | inl l =>
        rw [hbody] at hsucc
        exact .inl ⟨l, hsucc⟩
      | inr kept' =>
        rw [hbody] at hsucc
        exact .inr ⟨kept', hsucc⟩
    · refine .inl ⟨some ⟨ustarCheckBlock b, kept.1, kept.2.2⟩, fun fuel => ?_⟩
      rw [listWalk, if_neg hunnamed, if_pos hcheck]

/-- What a search finds is a header that its start leads to. -/
theorem searchFrom_leads {r : UstarBlock × BitVec 32} (hread : d.readBlock inode = .ok b)
    (hsearch : d.searchFrom path fuel b inode = some (.ok r)) :
    d.readBlock r.2 = .ok r.1 ∧ r.1.unnamed = false ∧ ReflTransGen d.LeadsTo inode r.2 := by
  induction fuel generalizing b inode with
  | zero => cases hsearch
  | succ fuel ih =>
    rw [searchFrom] at hsearch
    split_ifs at hsearch with hunnamed
    · cases hsearch
    · cases hsearch
    · obtain rfl : (b, inode) = r := Except.ok.inj (Option.some.inj hsearch)
      exact ⟨hread, Bool.eq_false_iff.mpr hunnamed, .refl⟩
    · obtain ⟨s, hget, hrest⟩ := Option.bind_eq_some_iff.mp hsearch
      have hnamed : s.1.unnamed = false := by
        cases fuel with
        | zero => cases hget
        | succ fuel =>
          by_contra hunnamed
          rw [searchFrom, if_pos (Bool.eq_true_of_not_eq_false hunnamed)] at hrest
          cases hrest
      obtain ⟨hread', hbehind⟩ := ustarGetNextFile_leads hread hget hnamed
      obtain ⟨hfound, hnamed, hleads⟩ := ih hread' hrest
      exact ⟨hfound, hnamed, hbehind.to_reflTransGen.trans hleads⟩

/-! ## The calls -/

/-- The scans for a path and those of a node end, with whatever value. -/
structure ScansEnd (d : Partition) (v : Vnode) : Prop where
  searchFile : ∀ path, ∃ fuel r, d.ustarSearchFile fuel path = some r
  openFile : ∀ path, ∃ fuel r, d.openRun fuel path = some r
  getItemCount : ∀ path, ∃ fuel r, d.ustarGetItemCount fuel path = some r
  listDirectory : ∀ kmalloc buffer, ∃ fuel r, d.listRun kmalloc fuel v buffer = some r

/-- From the header at an inode, the headers lead in a circle. -/
def Circular (d : Partition) (inode : BitVec 32) : Prop :=
  (∃ b, d.firstBlock inode = .ok b ∧ b.unnamed = false) ∧ Circles d.LeadsTo inode

def IsDirectory (d : Partition) (inode : BitVec 32) : Prop :=
  ∃ b, d.firstBlock inode = .ok b ∧ ustarToVfsType b.type = .dir

/-- Where nothing is circular a loop ends; at a header without a name it ends at once. -/
theorem Scan.ends_of_not_circular (hscan : Scan d scan) (hfirst : d.firstBlock inode = .ok b)
    (hnot : ¬d.Circular inode) (kept : β) : ∃ fuel a, scan fuel b inode kept = some a := by
  by_cases hunnamed : b.unnamed = true
  · obtain ⟨a, hend⟩ := hscan.unnamed b inode kept hunnamed
    exact ⟨1, a, hend 0⟩
  · have hends : Ends d.LeadsTo inode :=
      ends_iff.mpr fun hcircles => hnot ⟨⟨b, hfirst, Bool.eq_false_iff.mpr hunnamed⟩, hcircles⟩
    exact hscan.ends hends b (readBlock_of_firstBlock hfirst) kept

theorem exists_search (hnot : ¬d.Circular 0#32) (path : CString) :
    ∃ fuel r, d.ustarSearchFile fuel path = some r := by
  by_cases hlong : ustarFilenameMaxLength < path.chars.length
  · exact ⟨0, _, if_pos hlong⟩
  cases hfirst : d.firstBlock 0#32 with
  | error err =>
    refine ⟨0, .error err, ?_⟩
    rw [ustarSearchFile, if_neg hlong, hfirst]
  | ok b =>
    obtain ⟨fuel, r, hsearch⟩ := (scan_searchFrom path).ends_of_not_circular hfirst hnot ()
    refine ⟨fuel, r, ?_⟩
    rw [ustarSearchFile, if_neg hlong, hfirst]
    exact hsearch

theorem exists_count (hnot : ¬d.Circular 0#32) (path : CString) :
    ∃ fuel r, d.ustarGetItemCount fuel path = some r := by
  obtain ⟨fuel, r, hsearch⟩ := exists_search hnot path
  cases r with
  | error err =>
    refine ⟨fuel, .error err, ?_⟩
    rw [ustarGetItemCount, hsearch, Option.bind_some]
  | ok r =>
    by_cases hdir : ustarToVfsType r.1.type = .dir
    · have hcount : ∃ fuel a, d.countFrom path fuel r.1 r.2 0 = some a := by
        unfold ustarSearchFile at hsearch
        split_ifs at hsearch
        · exact nomatch Option.some.inj hsearch
        cases hfirst : d.firstBlock 0#32 with
        | error err =>
          rw [hfirst] at hsearch
          exact nomatch Option.some.inj hsearch
        | ok b =>
          rw [hfirst] at hsearch
          dsimp only at hsearch
          obtain ⟨hread, hnamed, hleads⟩ := searchFrom_leads (readBlock_of_firstBlock hfirst) hsearch
          have hstart : b.unnamed = false := by
            cases fuel with
            | zero => exact nomatch hsearch
            | succ fuel =>
              by_contra hunnamed
              rw [searchFrom, if_pos (Bool.eq_true_of_not_eq_false hunnamed)] at hsearch
              exact nomatch Option.some.inj hsearch
          have hends : Ends d.LeadsTo 0#32 := ends_iff.mpr fun hcircles => hnot ⟨⟨b, hfirst, hstart⟩, hcircles⟩
          exact (scan_countFrom path).ends (hends.later hleads) r.1 hread 0
      obtain ⟨fuel', a, hcount⟩ := hcount
      refine ⟨max fuel fuel', a, ?_⟩
      rw [ustarGetItemCount, ustarSearchFile_mono hsearch (le_max_left ..), Option.bind_some]
      dsimp only
      rw [if_neg (not_not_intro hdir)]
      exact (scan_countFrom path).mono hcount (le_max_right ..)
    · refine ⟨fuel, .error .osErrFileNotFound, ?_⟩
      rw [ustarGetItemCount, hsearch, Option.bind_some]
      exact if_pos hdir

theorem exists_listing (hnot : d.IsDirectory v.fsInode → ¬d.Circular v.fsInode) (kmalloc : ℕ → Option (List Byte))
    (buffer : Option (List Byte)) : ∃ fuel r, d.listRun kmalloc fuel v buffer = some r := by
  cases buffer with
  | none => exact ⟨0, _, rfl⟩
  | some buffer =>
    cases hfirst : d.firstBlock v.fsInode with
    | error err =>
      refine ⟨0, some ⟨err, buffer, 0⟩, ?_⟩
      unfold listRun
      dsimp only
      rw [hfirst]
    | ok b =>
      by_cases hdir : ustarToVfsType b.type = .dir
      · obtain ⟨fuel, a, hwalk⟩ := (scan_listWalk kmalloc v).ends_of_not_circular hfirst (hnot ⟨b, hfirst, hdir⟩)
          (buffer, buffer.length, 0)
        refine ⟨fuel, a, ?_⟩
        unfold listRun
        dsimp only
        rw [hfirst]
        dsimp only
        rw [if_neg (not_not_intro hdir)]
        exact hwalk
      · refine ⟨0, some ⟨.osErrFileNotFound, buffer, 0⟩, ?_⟩
        unfold listRun
        dsimp only
        rw [hfirst]
        exact if_pos hdir

/-! ## Circles -/

/-- The empty path is the name of no file, so that a search for it goes over all the headers. -/
def emptyPath : CString := ⟨[], List.not_mem_nil⟩

theorem search_goesOn (b : UstarBlock) (inode : BitVec 32) (hnamed : b.unnamed = false) :
    GoesOn d (fun fuel b inode (_ : Unit) => d.searchFrom emptyPath fuel b inode) b inode () := by
  have hdiffers : strncmp ustarFilenameMaxLength emptyPath.chars b.bytes ≠ 0 := by
    intro hmatch
    have hname := (matches_iff (Nat.zero_le _) b).mp hmatch
    rw [(unnamed_iff b).mpr (congrArg CString.chars hname)] at hnamed
    exact nomatch hnamed
  refine ⟨(), fun fuel => ?_⟩
  dsimp only
  rw [searchFrom, if_neg (Bool.eq_false_iff.mp hnamed), if_neg hdiffers]

/-- Without memory a listing takes no header for one of its directory. -/
theorem listBody_noMemory (v : Vnode) (b : UstarBlock) (kept : List Byte × ℕ × ℕ) :
    listBody (fun _ => none) v b kept = .inr kept := ite_self _

theorem list_goesOn (b : UstarBlock) (inode : BitVec 32) (kept : List Byte × ℕ × ℕ) (hnamed : b.unnamed = false)
    (hcheck : ustarCheckBlock b = .osNoErr) : GoesOn d (d.listWalk (fun _ => none) v) b inode kept := by
  refine ⟨kept, fun fuel => ?_⟩
  rw [listWalk_succ d _ v hnamed hcheck, listBody_noMemory]

theorem not_circular_of_search (hsearch : ∃ fuel r, d.ustarSearchFile fuel emptyPath = some r) :
    ¬d.Circular 0#32 := by
  rintro ⟨⟨b, hfirst, hnamed⟩, hcircles⟩
  obtain ⟨fuel, r, hsearch⟩ := hsearch
  unfold ustarSearchFile at hsearch
  rw [if_neg (by decide), hfirst] at hsearch
  refine ends_iff.mp ?_ hcircles
  exact ends_of_scan (fun fuel b inode (_ : Unit) => d.searchFrom emptyPath fuel b inode) () (fun _ _ _ => rfl)
    (fun b inode _ hnamed _ => search_goesOn b inode hnamed) (readBlock_of_firstBlock hfirst) hnamed hsearch

theorem not_circular_of_listing (hdir : d.IsDirectory v.fsInode)
    (hlist : ∃ fuel r, d.listRun (fun _ => none) fuel v (some []) = some r) : ¬d.Circular v.fsInode := by
  rintro ⟨⟨b, hfirst, hnamed⟩, hcircles⟩
  obtain ⟨c, hfirst', hdir⟩ := hdir
  obtain rfl : b = c := Except.ok.inj (hfirst.symm.trans hfirst')
  obtain ⟨fuel, r, hlist⟩ := hlist
  unfold listRun at hlist
  dsimp only at hlist
  rw [hfirst] at hlist
  dsimp only at hlist
  rw [if_neg (not_not_intro hdir)] at hlist
  refine ends_iff.mp ?_ hcircles
  exact ends_of_scan _ _ (fun _ _ _ => rfl) list_goesOn (readBlock_of_firstBlock hfirst) hnamed hlist

/-- All scans end if and only if the headers do not lead in a circle. -/
theorem scansEnd_iff (d : Partition) (v : Vnode) :
    ScansEnd d v ↔ ¬d.Circular 0#32 ∧ (d.IsDirectory v.fsInode → ¬d.Circular v.fsInode) := by
  constructor
  · intro hends
    exact ⟨not_circular_of_search (hends.searchFile emptyPath),
      fun hdir => not_circular_of_listing hdir (hends.listDirectory (fun _ => none) (some []))⟩
  · rintro ⟨hroot, hnode⟩
    have hsearch := exists_search hroot
    refine ⟨hsearch, fun path => ?_, exists_count hroot, exists_listing hnode⟩
    obtain ⟨fuel, r, hr⟩ := hsearch path
    exact ⟨fuel, _, Option.map_eq_some_iff.mpr ⟨r, hr, rfl⟩⟩

/-! ## Sizes that lead nowhere -/

/-- A header leads to itself if its size, rounded up to blocks, is 0 in 32 bits together with the header. -/
theorem nextInode_eq_self_iff (b : UstarBlock) (inode : BitVec 32) :
    nextInode b inode = inode ↔ 2 ^ 32 - 1024 < (oct2uint b.size (ustarFsizeFieldLength - 1)).toNat ∧
      (oct2uint b.size (ustarFsizeFieldLength - 1)).toNat ≤ 2 ^ 32 - 512 := by
  have hs := (oct2uint b.size (ustarFsizeFieldLength - 1)).isLt
  rw [nextInode_add, add_eq_left, ← BitVec.toNat_inj, BitVec.toNat_ofNat]
  show nextStep _ % 2 ^ 32 = 0 ↔ _
  unfold nextStep
  split_ifs with hroom hlast
  · omega
  · omega
  · exact iff_of_false (by decide) (by omega)

/-- A directory whose header says that it has 4 GiB less 512 bytes. -/
def hugeHeader : UstarBlock :=
  (headerBlock [0x61, slash] 0x35).write 124 [0x33, 0x37, 0x37, 0x37, 0x37, 0x37, 0x37, 0x37, 0x30, 0x30, 0x30, 0]

def hugeArchive : Partition := ⟨[hugeHeader], fun _ _ => .osNoErr⟩

theorem not_scansEnd_hugeArchive : ¬∀ d v, ScansEnd d v := by
  intro hall
  have hfirst : hugeArchive.firstBlock 0#32 = .ok hugeHeader := by decide +kernel
  have hself : hugeArchive.LeadsTo 0#32 0#32 :=
    ⟨hugeHeader, hfirst, (nextInode_eq_self_iff hugeHeader 0#32).mpr (by decide +kernel)⟩
  refine not_circular_of_search ((hall hugeArchive ⟨.dir, emptyPath, 0#32, 0#32⟩).searchFile emptyPath) ?_
  exact ⟨⟨hugeHeader, hfirst, by decide +kernel⟩, 0#32, .refl, .single hself⟩

end Partition
end UtkKernel.Fs
