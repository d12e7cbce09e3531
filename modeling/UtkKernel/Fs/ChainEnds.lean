import UtkKernel.Fs.Listing

/-! # Where a chain of headers ends

A block of data may change without a change of the chain. If a header says less than it did, the chain may end behind
it: at a block of zeros it does, and a search that finds a file in the archive that ends there finds it whatever the
block holds. -/

namespace UtkKernel.Fs
open Foundations
set_option autoImplicit false

/-- A block of zeros. -/
def zeroBlock : UstarBlock := ⟨List.replicate ustarBlockSize 0, List.length_replicate ..⟩

/-- A block of data that starts like a name. -/
def letterBlock : UstarBlock := ⟨List.replicate ustarBlockSize 0x61, List.length_replicate ..⟩

theorem unnamed_zeroBlock : zeroBlock.unnamed = true := rfl

theorem check_zeroBlock : ustarCheckBlock zeroBlock ≠ .osNoErr := by decide +kernel

theorem unnamed_letterBlock : letterBlock.unnamed = false := rfl

theorem check_letterBlock : ustarCheckBlock letterBlock = .osErrWrongPartitionType := by decide +kernel

namespace Partition

variable {d d' : Partition} {headers before rest rest' : List Header} {h h' x : Header} {b : UstarBlock} {path : CString}
  {fuel start i j : ℕ} {inode : BitVec 32} {v : Vnode}

/-! ## Data -/

theorem setBlock_comm (hne : i ≠ j) (b b' : UstarBlock) :
    (d.setBlock i b).setBlock j b' = (d.setBlock j b').setBlock i b := by
  unfold setBlock
  rw [List.set_comm _ _ hne]

/-- The chain does not see a block of data. -/
theorem Chain.setData (hchain : Chain d start headers) (hh : h ∈ headers) (hle : h.inode < j) (hlt : j < h.next)
    (b : UstarBlock) : Chain (d.setBlock j b) start headers := by
  induction hchain with
  | done => exact nomatch hh
  | @header x rest hblock hcheck hrest ih =>
    have hnext : x.next = x.inode + 1 + x.block.dataBlocks := rfl
    rcases List.mem_cons.mp hh with rfl | hh
    · refine .header ((setBlock_of_ne (Nat.ne_of_lt hle) b).trans hblock) hcheck ?_
      refine hrest.congr (length_setBlock ..) fun k hk => setBlock_of_ne ?_ b
      omega
    · have hstart := hrest.start_le h hh
      exact .header ((setBlock_of_ne (by omega) b).trans hblock) hcheck (ih hh)

/-- The chain ends behind a header that has less data, at a block of zeros. -/
theorem Chain.cut (hchain : Chain d start (before ++ h :: rest)) (hcheck : ustarCheckBlock b = .osNoErr)
    (hstop : j = h.inode + 1 + b.dataBlocks) (hlt : j < h.next) :
    Chain ((d.setBlock h.inode b).setBlock j zeroBlock) start (before ++ [⟨h.inode, b⟩]) := by
  have hj : h.inode < j := by omega
  induction before generalizing start with
  | nil =>
    obtain ⟨rfl, hblock, -, hrest⟩ := hchain.uncons
    have hlength := hrest.le
    have hi : h.inode < d.blocks.length := hj.trans (hlt.trans_le hlength)
    refine .header (h := ⟨h.inode, b⟩) ((setBlock_of_ne (Nat.ne_of_lt hj) _).trans (setBlock_self hi b)) hcheck ?_
    have hjlt : j < (d.setBlock h.inode b).blocks.length := by
      rw [length_setBlock]
      exact hlt.trans_le hlength
    change Chain _ (h.inode + 1 + b.dataBlocks) []
    rw [← hstop]
    refine .done (by rw [length_setBlock]; exact hjlt.le) fun c hc => ?_
    rw [setBlock_self hjlt] at hc
    rw [← Option.some.inj hc]
    exact ⟨unnamed_zeroBlock, check_zeroBlock⟩
  | cons x before ih =>
    obtain ⟨rfl, hblock, hcheck', hrest⟩ := hchain.uncons
    have hstart := hrest.start_le h (List.mem_append_right _ (List.mem_cons_self ..))
    have hnext : x.next = x.inode + 1 + x.block.dataBlocks := rfl
    exact .header (((setBlock_of_ne (by omega) _).trans (setBlock_of_ne (by omega) b)).trans hblock) hcheck' (ih hrest)

theorem WellFormed.cut (hwell : WellFormed d (before ++ h :: rest)) (hcheck : ustarCheckBlock b = .osNoErr)
    (hstop : j = h.inode + 1 + b.dataBlocks) (hlt : j < h.next) :
    WellFormed ((d.setBlock h.inode b).setBlock j zeroBlock) (before ++ [⟨h.inode, b⟩]) := by
  refine ⟨hwell.chain.cut hcheck hstop hlt, ?_⟩
  rw [length_setBlock, length_setBlock]
  exact hwell.bound

/-! ## Which headers a scan visits -/

theorem Chain.notMem (hchain : Chain d start (before ++ h :: rest)) : h ∉ before := by
  intro hmem
  have hlt := (List.pairwise_append.mp hchain.apart).2.2 h hmem h (List.mem_cons_self ..)
  have hnext : h.next = h.inode + 1 + h.block.dataBlocks := rfl
  omega

theorem readable_congr (hfault : ∀ op, d'.fault op x.id = d.fault op x.id) : d'.readable x = d.readable x := by
  unfold readable
  rw [hfault]

/-- The scan gets to a header or not whatever stands behind it. -/
theorem mem_scanned_of (hfault : ∀ x ∈ before, d'.readable x = d.readable x) (hread : d'.readable h' = d.readable h)
    (hlive : h'.live = h.live) (hnot : h ∉ before) (hmem : h ∈ d.scanned (before ++ h :: rest)) :
    h' ∈ d'.scanned (before ++ h' :: rest') := by
  induction before with
  | nil =>
    have hh := (List.mem_filter.mp hmem).2
    rw [List.nil_append, scanned_cons] at hmem ⊢
    rw [hread, hlive]
    split_ifs at hmem ⊢
    · exact List.mem_cons_self ..
    · exact nomatch hmem
  | cons x before ih =>
    obtain ⟨hne, hnot⟩ := List.ne_and_not_mem_of_not_mem_cons hnot
    have ih := ih (fun y hy => hfault y (List.mem_cons_of_mem _ hy)) hnot
    rw [List.cons_append, scanned_cons] at hmem ⊢
    rw [hfault x (List.mem_cons_self ..)]
    split_ifs at hmem ⊢
    · exact List.mem_cons_of_mem _ (ih ((List.mem_cons.mp hmem).resolve_left hne))
    · exact ih hmem
    · exact nomatch hmem

theorem mem_visible_of (hfault : ∀ x ∈ before, d'.readable x = d.readable x) (hread : d'.readable h' = d.readable h)
    (hlive : h'.live = h.live) (hnot : h ∉ before) (hmem : h ∈ d.visible (before ++ h :: rest)) :
    h' ∈ d'.visible (before ++ h' :: rest') := by
  cases before with
  | nil =>
    rw [List.nil_append, visible_cons] at hmem ⊢
    rw [hread, hlive]
    split_ifs at hmem ⊢
    · exact List.mem_cons_self ..
    · exact nomatch hmem
  | cons x before =>
    obtain ⟨hne, hnot⟩ := List.ne_and_not_mem_of_not_mem_cons hnot
    rw [List.cons_append, visible_cons] at hmem ⊢
    rw [hfault x (List.mem_cons_self ..)]
    split_ifs at hmem ⊢
    · exact List.mem_cons_of_mem _ (mem_scanned_of (fun y hy => hfault y (List.mem_cons_of_mem _ hy)) hread hlive hnot
        ((List.mem_cons.mp hmem).resolve_left hne))
    · exact nomatch hmem

theorem visible_congr (hfault : ∀ x ∈ headers, d'.readable x = d.readable x) : d'.visible headers = d.visible headers := by
  have hscan : ∀ l : List Header, (∀ x ∈ l, x ∈ headers) → d'.scanned l = d.scanned l := by
    intro l
    induction l with
    | nil => exact fun _ => rfl
    | cons x l ih =>
      intro hl
      rw [scanned_cons, scanned_cons, hfault x (hl x (List.mem_cons_self ..)),
        ih fun y hy => hl y (List.mem_cons_of_mem _ hy)]
  cases headers with
  | nil => rfl
  | cons x rest =>
    rw [visible_cons, visible_cons, hfault x (List.mem_cons_self ..), hscan rest fun y hy => List.mem_cons_of_mem _ hy]

/-! ## Zeros or other data -/

theorem readBlock_setBlock (hne : blockIndex inode ≠ j) (b : UstarBlock) :
    (d.setBlock j b).readBlock inode = d.readBlock inode := by
  unfold readBlock
  rw [setBlock_of_ne hne]
  rfl

/-- Where a scan does not end at the zeros, it does not read them. -/
theorem ustarGetNextFile_of_zeroBlock (hj : j < d.blocks.length) {r : UstarBlock × BitVec 32}
    (hget : (d.setBlock j zeroBlock).ustarGetNextFile fuel b inode = some r) (hnamed : r.1.unnamed = false) :
    d.ustarGetNextFile fuel b inode = some r := by
  induction fuel generalizing b inode with
  | zero => cases hget
  | succ fuel ih =>
    rw [ustarGetNextFile] at hget ⊢
    by_cases hcheck : ustarCheckBlock b = .osNoErr
    · rw [if_neg (not_not_intro hcheck)] at hget ⊢
      by_cases hindex : blockIndex (nextInode b inode) = j
      · exfalso
        by_cases hread : (d.setBlock j zeroBlock).fault .read (nextInode b inode) = .osNoErr
        · have hzero : (d.setBlock j zeroBlock).readBlock (nextInode b inode) = .ok zeroBlock := by
            unfold readBlock
            rw [if_neg (not_not_intro hread), hindex, setBlock_self hj]
          rw [hzero] at hget
          dsimp only at hget
          rw [if_pos unnamed_zeroBlock] at hget
          cases fuel with
          | zero => cases hget
          | succ fuel =>
            rw [ustarGetNextFile, if_pos check_zeroBlock] at hget
            rw [← Option.some.inj hget, unnamed_write_nul] at hnamed
            cases hnamed
        · rw [readBlock_faulty hread] at hget
          rw [← Option.some.inj hget, unnamed_write_nul] at hnamed
          cases hnamed
      · rw [readBlock_setBlock hindex] at hget
        cases hread : d.readBlock (nextInode b inode) with
        | error err =>
          rw [hread] at hget
          exact hget
        | ok c =>
          rw [hread] at hget
          dsimp only at hget ⊢
          split_ifs at hget ⊢
          · exact ih hget
          · exact hget
    · rw [if_pos hcheck] at hget
      rw [← Option.some.inj hget, unnamed_write_nul] at hnamed
      cases hnamed

theorem searchFrom_of_zeroBlock (hj : j < d.blocks.length) {r : UstarBlock × BitVec 32}
    (hsearch : (d.setBlock j zeroBlock).searchFrom path fuel b inode = some (.ok r)) :
    d.searchFrom path fuel b inode = some (.ok r) := by
  induction fuel generalizing b inode with
  | zero => cases hsearch
  | succ fuel ih =>
    rw [searchFrom] at hsearch ⊢
    split_ifs at hsearch ⊢
    · cases hsearch
    · cases hsearch
    · exact hsearch
    · obtain ⟨s, hget, hfrom⟩ := Option.bind_eq_some_iff.mp hsearch
      have hnamed : s.1.unnamed = false := by
        cases fuel with
        | zero => cases hget
        | succ fuel =>
          by_contra hunnamed
          rw [searchFrom, if_pos (Bool.eq_true_of_not_eq_false hunnamed)] at hfrom
          cases hfrom
      rw [ustarGetNextFile_of_zeroBlock hj hget hnamed]
      exact ih hfrom

/-- A search that finds a file in the archive that ends at the zeros finds it with other data there. -/
theorem ustarSearchFile_of_zeroBlock (hj : j < d.blocks.length) (hpos : 0 < j) {r : UstarBlock × BitVec 32}
    (hsearch : (d.setBlock j zeroBlock).ustarSearchFile fuel path = some (.ok r)) :
    d.ustarSearchFile fuel path = some (.ok r) := by
  have hfirst : (d.setBlock j zeroBlock).firstBlock 0#32 = d.firstBlock 0#32 := by
    unfold firstBlock
    rw [readBlock_setBlock (Nat.ne_of_lt (show blockIndex 0#32 < j from hpos))]
  unfold ustarSearchFile at hsearch ⊢
  rw [hfirst] at hsearch
  split_ifs at hsearch ⊢
  · exact nomatch Option.some.inj hsearch
  · cases hblock : d.firstBlock 0#32 with
    | error err =>
      rw [hblock] at hsearch
      exact nomatch Option.some.inj hsearch
    | ok b =>
      rw [hblock] at hsearch
      exact searchFrom_of_zeroBlock hj hsearch

/-- A listing that comes to data that starts like a name ends with an error. -/
theorem listFrom_letterBlock (hbound : d.blocks.length < 2 ^ 23) (hj : j < d.blocks.length)
    (hchain : Chain (d.setBlock j zeroBlock) x.inode (x :: rest)) (hlive : x.live = true) (hstop : h.next = j)
    (hlast : h ∈ x :: (d.setBlock j zeroBlock).scanned rest)
    (hread : d.readBlock (BitVec.ofNat 32 j) = .ok letterBlock) (hfuel : rest.length + 2 < fuel) (buffer : List Byte)
    (sizeLeft itemCount : ℕ) : d.listFrom (fun _ => none) v fuel x.block x.id buffer sizeLeft itemCount =
      some ⟨.osErrWrongPartitionType, buffer, itemCount⟩ := by
  induction hlength : rest.length using Nat.strong_induction_on generalizing x rest fuel with
  | _ n ih =>
    obtain ⟨fuel, rfl⟩ := Nat.exists_eq_succ_of_ne_zero (Nat.ne_of_gt (Nat.zero_lt_of_lt hfuel))
    obtain ⟨-, hblock, hcheck, hrest⟩ := hchain.uncons
    have hbound' : (d.setBlock j zeroBlock).blocks.length < 2 ^ 23 := by
      rw [length_setBlock]
      exact hbound
    have hzero : (d.setBlock j zeroBlock).blocks[j]? = some zeroBlock := setBlock_self hj _
    rw [listFrom_succ (Header.unnamed_of_live hlive) hcheck, listStep_noMemory]
    by_cases hx : h = x
    · subst hx
      have hget : d.ustarGetNextFile fuel h.block h.id = some (letterBlock, BitVec.ofNat 32 j) := by
        obtain ⟨fuel, rfl⟩ := Nat.exists_eq_succ_of_ne_zero (show fuel ≠ 0 by omega)
        rw [ustarGetNextFile_succ (hstop ▸ hj.trans hbound) hcheck, hstop, hread]
        rfl
      rw [hget, Option.bind_some]
      obtain ⟨fuel, rfl⟩ := Nat.exists_eq_succ_of_ne_zero (show fuel ≠ 0 by omega)
      rw [listFrom, if_neg (Bool.eq_false_iff.mp unnamed_letterBlock),
        if_pos (by rw [check_letterBlock]; exact OsReturnE.noConfusion), check_letterBlock]
    · have hlast := (List.mem_cons.mp hlast).resolve_left hx
      obtain ⟨hscan, -⟩ | ⟨h', rest', hscan, hget, hlive', hchain', hlt⟩ :=
        ustarGetNextFile_cases hbound' hcheck hrest (show rest.length + 1 < fuel by omega)
      · rw [hscan] at hlast
        cases hlast
      · rw [ustarGetNextFile_of_zeroBlock hj hget (Header.unnamed_of_live hlive'), Option.bind_some]
        exact ih rest'.length (hlength ▸ hlt) hchain' hlive' (hscan ▸ hlast) (by omega) rfl

end Partition
end UtkKernel.Fs
