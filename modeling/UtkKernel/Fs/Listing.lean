import UtkKernel.Fs.RemoveFile

/-! # Listing a directory

The listing goes over the headers that a scan visits from the directory on. What it does with one of them depends on
the string that its name starts. -/

namespace UtkKernel.Fs
open Foundations
set_option autoImplicit false

namespace Partition

variable {d : Partition} {headers before rest : List Header} {h : Header} {fuel : ℕ} {v : Vnode} {b b' : UstarBlock}
  {kmalloc : ℕ → Option (List Byte)} {buffer : List Byte} {sizeLeft itemCount : ℕ}
  {next : List Byte → ℕ → ℕ → Option Listing}

/-! ## One header -/

/-- What the loop does with a header, before it goes on to the next one. -/
def listStep (kmalloc : ℕ → Option (List Byte)) (v : Vnode) (b : UstarBlock) (buffer : List Byte) (sizeLeft itemCount : ℕ)
    (next : List Byte → ℕ → ℕ → Option Listing) : Option Listing :=
  let dirLength := v.name.chars.length
  let nameLength := (cstr b.bytes).length
  if strncmp dirLength b.bytes v.name.chars = 0 ∧ nameLength ≠ dirLength then
    (isRoot kmalloc v.name (.ofBuffer b.bytes)).bind fun inRoot =>
      if inRoot then
        if nameLength + 1 < sizeLeft then
          let name := strncpy (nameLength - dirLength) (b.bytes.drop dirLength)
          next (overwrite buffer (buffer.length - sizeLeft) (name ++ [0])) (sizeLeft - (nameLength - dirLength) - 1)
            (itemCount + 1)
        else if sizeLeft < buffer.length then some ⟨.osErrOutOfBound, overwrite buffer sizeLeft [0], itemCount⟩
        else none
      else next buffer sizeLeft itemCount
  else next buffer sizeLeft itemCount

theorem listFrom_succ (hnamed : b.unnamed = false) (hcheck : ustarCheckBlock b = .osNoErr) (fuel : ℕ) (inode : BitVec 32) :
    d.listFrom kmalloc v (fuel + 1) b inode buffer sizeLeft itemCount =
      listStep kmalloc v b buffer sizeLeft itemCount fun buffer sizeLeft itemCount =>
        (d.ustarGetNextFile fuel b inode).bind fun r =>
          d.listFrom kmalloc v fuel r.1 r.2 buffer sizeLeft itemCount := by
  rw [listFrom, if_neg (Bool.eq_false_iff.mp hnamed), if_neg (not_not_intro hcheck)]
  rfl

/-- Without memory no header is taken for one of the directory. -/
theorem listStep_noMemory (v : Vnode) (b : UstarBlock) (buffer : List Byte) (sizeLeft itemCount : ℕ)
    (next : List Byte → ℕ → ℕ → Option Listing) :
    listStep (fun _ => none) v b buffer sizeLeft itemCount next = next buffer sizeLeft itemCount := by
  have hroot : isRoot (fun _ => none) v.name (.ofBuffer b.bytes) = some false := rfl
  unfold listStep
  rw [hroot]
  exact ite_self _

theorem listStep_congr (hbytes : cstr b'.bytes = cstr b.bytes) :
    listStep kmalloc v b' buffer sizeLeft itemCount next = listStep kmalloc v b buffer sizeLeft itemCount next := by
  have hstart : ∀ b : UstarBlock, strncmp v.name.chars.length b.bytes v.name.chars = 0 ↔
      (cstr b.bytes).take v.name.chars.length = v.name.chars := by
    intro b
    rw [strncmp_eq_zero_iff, cstr_take, List.take_length, cstr_of_notMem v.name.noNul]
  have hbuffer : CString.ofBuffer b'.bytes = .ofBuffer b.bytes := CString.ext hbytes
  unfold listStep
  simp only [hstart, hbytes, hbuffer]
  by_cases hinside : (cstr b.bytes).take v.name.chars.length = v.name.chars
  · have hlength : v.name.chars.length ≤ (cstr b.bytes).length := by
      rw [← hinside, List.length_take]
      exact Nat.min_le_right _ _
    have hcopied : ∀ n, strncpy n (b'.bytes.drop v.name.chars.length) = strncpy n (b.bytes.drop v.name.chars.length) := by
      intro n
      unfold strncpy
      rw [cstr_drop (hbytes ▸ hlength), cstr_drop hlength, hbytes]
    simp only [hcopied]
  · rw [if_neg fun hc => hinside hc.1, if_neg fun hc => hinside hc.1]

/-! ## The loop -/

/-- What the loop does with the headers that it visits. -/
def listing (kmalloc : ℕ → Option (List Byte)) (v : Vnode) : List Header → List Byte → ℕ → ℕ → Option Listing
  | [], buffer, sizeLeft, itemCount =>
    some ⟨.osNoErr, if sizeLeft < buffer.length then overwrite buffer (buffer.length - sizeLeft - 1) [0] else buffer,
      itemCount⟩
  | h :: rest, buffer, sizeLeft, itemCount =>
    listStep kmalloc v h.block buffer sizeLeft itemCount (listing kmalloc v rest)

theorem listing_noMemory (v : Vnode) (headers : List Header) (buffer : List Byte) (sizeLeft itemCount : ℕ) :
    listing (fun _ => none) v headers buffer sizeLeft itemCount =
      listing (fun _ => none) v [] buffer sizeLeft itemCount := by
  induction headers with
  | nil => rfl
  | cons h headers ih => exact (listStep_noMemory v h.block buffer sizeLeft itemCount _).trans ih

theorem listing_map {f : Header → Header} (hbytes : ∀ h ∈ headers, cstr (f h).block.bytes = cstr h.block.bytes)
    (buffer : List Byte) (sizeLeft itemCount : ℕ) : listing kmalloc v (headers.map f) buffer sizeLeft itemCount =
      listing kmalloc v headers buffer sizeLeft itemCount := by
  induction headers generalizing buffer sizeLeft itemCount with
  | nil => rfl
  | cons h headers ih =>
    have hrest : listing kmalloc v (headers.map f) = listing kmalloc v headers := by
      funext buffer sizeLeft itemCount
      exact ih (fun x hx => hbytes x (List.mem_cons_of_mem _ hx)) buffer sizeLeft itemCount
    rw [List.map_cons, listing, listing, hrest]
    exact listStep_congr (hbytes h (List.mem_cons_self ..))

theorem listFrom_eq (hbound : d.blocks.length < 2 ^ 23) (hchain : Chain d h.inode (h :: rest)) (hlive : h.live = true)
    (hfuel : rest.length + 2 < fuel) (buffer : List Byte) (sizeLeft itemCount : ℕ) :
    d.listFrom kmalloc v fuel h.block h.id buffer sizeLeft itemCount =
      listing kmalloc v (h :: d.scanned rest) buffer sizeLeft itemCount := by
  induction hlength : rest.length using Nat.strong_induction_on generalizing h rest fuel buffer sizeLeft itemCount with
  | _ n ih =>
    obtain ⟨fuel, rfl⟩ := Nat.exists_eq_succ_of_ne_zero (Nat.ne_of_gt (Nat.zero_lt_of_lt hfuel))
    obtain ⟨-, hblock, hcheck, hrest⟩ := hchain.uncons
    rw [listing, listFrom_succ (Header.unnamed_of_live hlive) hcheck]
    congr 1
    funext buffer sizeLeft itemCount
    obtain ⟨hscan, b, inode, hget, hunnamed⟩ | ⟨h', rest', hscan, hget, hlive', hchain', hlt⟩ :=
      ustarGetNextFile_cases hbound hcheck hrest (Nat.lt_of_succ_lt_succ hfuel)
    · obtain ⟨fuel, rfl⟩ := Nat.exists_eq_succ_of_ne_zero
        (Nat.ne_of_gt (Nat.zero_lt_of_lt (Nat.lt_of_succ_lt_succ hfuel)))
      rw [hscan, hget, Option.bind_some, listFrom, if_pos hunnamed]
      rfl
    · rw [hscan, hget, Option.bind_some]
      exact ih rest'.length (hlength ▸ hlt) hchain' hlive' (by omega) buffer sizeLeft itemCount rfl

theorem readable_of_visible (hh : h ∈ d.visible headers) : d.readable h = true := by
  cases headers with
  | nil => exact nomatch hh
  | cons x rest =>
    rw [visible_cons] at hh
    split_ifs at hh with hx
    · rcases List.mem_cons.mp hh with rfl | hh
      · exact hx.1
      · exact List.mem_takeWhile_imp (List.mem_filter.mp hh).1
    · exact nomatch hh

theorem firstBlock_eq (hlt : h.inode < 2 ^ 23) (hread : d.readable h = true) (hb : d.blocks[h.inode]? = some b)
    (hcheck : ustarCheckBlock b = .osNoErr) : d.firstBlock h.id = .ok b := by
  unfold firstBlock
  rw [show d.readBlock h.id = .ok b from readBlock_eq hlt (of_decide_eq_true hread) hb]
  exact if_neg (not_not_intro hcheck)

/-- A directory is listed from its own header on. -/
theorem ustarListDirectory_eq (hwell : WellFormed d (before ++ h :: rest)) (hh : h ∈ d.visible (before ++ h :: rest))
    (hdir : ustarToVfsType h.block.type = .dir) (hv : v.fsInode = h.id) (hfuel : rest.length + 2 < fuel)
    (buffer : List Byte) : d.ustarListDirectory kmalloc fuel v (some buffer) =
      listing kmalloc v (h :: d.scanned rest) buffer buffer.length 0 := by
  have hmem := (mem_of_visible hh).1
  have hlt : h.inode < 2 ^ 23 := (hwell.chain.inode_lt hmem).trans hwell.bound
  unfold ustarListDirectory
  rw [hv, firstBlock_eq hlt (readable_of_visible hh) (hwell.chain.block_eq h hmem) (hwell.chain.check h hmem)]
  dsimp only
  rw [if_neg (not_not_intro hdir)]
  exact listFrom_eq hwell.bound hwell.chain.suffix (mem_of_visible hh).2 hfuel buffer buffer.length 0

end Partition
end UtkKernel.Fs
