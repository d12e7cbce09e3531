import Mathlib.Data.List.DropRight
import Mathlib.Data.List.GetD
import UtkKernel.Fs.Listing
import UtkKernel.Fs.RemoveDirectory

/-! # The items of a directory

A listing takes the headers behind that of its directory whose path is, as the source computes it, the name of the
node. What it writes is compared with the items that the directory has, wherever their headers stand. -/

namespace UtkKernel.Fs
open Foundations
set_option autoImplicit false

/-! ## Paths -/

/-- What stands before the last part of a path, with its slash. -/
def parentPath (path : List Byte) : List Byte := path.dropLast.rdropWhile fun c => decide (c ≠ slash)

theorem parentPath_starts (path : List Byte) : parentPath path <+: path.dropLast := List.rdropWhile_prefix _ _

theorem length_parentPath_lt {path : List Byte} (hpath : path ≠ []) : (parentPath path).length < path.length := by
  have hle := (parentPath_starts path).length_le
  have hpos := List.length_pos_iff.mpr hpath
  rw [List.length_dropLast] at hle
  omega

theorem getLast_parentPath {path : List Byte} (hparent : parentPath path ≠ []) :
    (parentPath path).getLast hparent = slash := by
  have hlast := List.rdropWhile_last_not (fun c : Byte => decide (c ≠ slash)) path.dropLast hparent
  rw [decide_eq_true_iff] at hlast
  exact not_not.mp hlast

theorem lastSlash_cases {path : List Byte} {n : ℕ} (hn : n < path.length) : lastSlash path n = 0 ∨
    path.take (lastSlash path n + 1) = (path.take (n + 1)).rdropWhile fun c => decide (c ≠ slash) := by
  induction n with
  | zero => exact .inl rfl
  | succ n ih =>
    have hget : path.getD (n + 1) 0 = path[n + 1] := List.getD_eq_getElem _ _ hn
    have htake : path.take (n + 1 + 1) = path.take (n + 1) ++ [path[n + 1]] :=
      (List.take_concat_get' path (n + 1) hn).symm
    unfold lastSlash
    rw [hget]
    by_cases hslash : path[n + 1] = slash
    · rw [if_neg (not_not_intro hslash), htake, List.rdropWhile_concat_neg]
      · exact .inr rfl
      · rw [decide_eq_true_iff]
        exact not_not_intro hslash
    · rw [if_pos hslash, htake, List.rdropWhile_concat_pos (fun c => decide (c ≠ slash)) _ _ (decide_eq_true hslash)]
      exact ih (Nat.lt_of_succ_lt hn)

/-- A path that the source finds a file in, if it finds one, is the one before the last part of its name. -/
theorem ustarGetPath_eq {file path : CString} (hget : ustarGetPath file = some path) (hpath : path.chars ≠ []) :
    path.chars = parentPath file.chars := by
  unfold ustarGetPath at hget
  split_ifs at hget with hlength
  have hchars := congrArg CString.chars (Option.some.inj hget)
  change cstr (file.chars.take _) = path.chars at hchars
  rw [cstr_of_notMem fun hmem => file.noNul (List.mem_of_mem_take hmem)] at hchars
  have hn : file.chars.length - 2 < file.chars.length := by omega
  split_ifs at hchars with hzero
  · have hlast := (lastSlash_cases hn).resolve_left hzero
    rw [← hchars, hlast, show file.chars.length - 2 + 1 = file.chars.length - 1 by omega, ← List.dropLast_eq_take]
    rfl
  · exact absurd (hchars.symm.trans List.take_zero) hpath

/-! ## What the listing takes -/

namespace Partition

variable {d : Partition} {headers l before rest : List Header} {h : Header} {path : CString} {v : Vnode}
  {kmalloc : ℕ → Option (List Byte)} {fuel fuel' : ℕ}

/-- Does the listing take a header for one of an item of the node? There is memory for its path, and the path is the
name of the node. -/
def Takes (kmalloc : ℕ → Option (List Byte)) (v : Vnode) (h : Header) : Prop :=
  (kmalloc (4 * h.block.name.chars.length)).isSome = true ∧ ustarGetPath h.block.name = some v.name

instance (kmalloc : ℕ → Option (List Byte)) (v : Vnode) : DecidablePred (Takes kmalloc v) := fun _ =>
  inferInstanceAs (Decidable (_ ∧ _))

theorem cstr_bytes (hnul : h.block.name.chars.length < ustarFilenameMaxLength) :
    cstr h.block.bytes = h.block.name.chars := by
  refine cstr_of_mem_take ?_
  by_contra hmem
  have hlength : h.block.name.chars.length = (h.block.bytes.take ustarFilenameMaxLength).length :=
    congrArg List.length (cstr_of_notMem hmem)
  rw [List.length_take, h.block.length_eq] at hlength
  unfold ustarFilenameMaxLength ustarBlockSize at *
  omega

theorem isRoot_eq {path file : CString} (hlong : ¬file.chars.length < 2) : isRoot kmalloc path file =
    some (decide ((kmalloc (4 * file.chars.length)).isSome = true ∧ ustarGetPath file = some path)) := by
  obtain ⟨parent, hparent⟩ := Option.ne_none_iff_exists'.mp (mt ustarGetPath_eq_none_iff.mp hlong)
  have hsame : path.chars.length = parent.chars.length ∧ strncmp path.chars.length path.chars parent.chars = 0 ↔
      parent = path := by
    rw [strncmp_eq_zero_iff, List.take_length, cstr_of_notMem path.noNul]
    constructor
    · rintro ⟨hlength, hchars⟩
      rw [hlength, List.take_length, cstr_of_notMem parent.noNul] at hchars
      exact CString.ext hchars.symm
    · rintro rfl
      rw [List.take_length, cstr_of_notMem parent.noNul]
      exact ⟨rfl, rfl⟩
  unfold isRoot
  cases kmalloc (4 * file.chars.length) with
  | none => rfl
  | some buffer =>
    rw [hparent, Option.map_some, Option.some_inj, decide_eq_decide, hsame, Option.some_inj]
    exact ⟨fun heq => ⟨rfl, heq⟩, And.right⟩

/-- The header of an item has a longer name than the node, which it starts with. -/
theorem Takes.longer (htakes : Takes kmalloc v h) (hv : v.name.chars ≠ []) :
    v.name.chars <+: h.block.name.chars ∧ v.name.chars.length < h.block.name.chars.length := by
  have hparent := ustarGetPath_eq htakes.2 hv
  have hne : h.block.name.chars ≠ [] := by
    intro hnil
    rw [hnil] at hparent
    exact hv hparent
  rw [hparent]
  exact ⟨(parentPath_starts _).trans ( List.dropLast_prefix _), length_parentPath_lt hne⟩

/-- The bytes of the buffer that names take, each with a terminator. -/
def contents (dirLength : ℕ) (l : List Header) : List Byte :=
  l.flatMap fun h => h.block.name.chars.drop dirLength ++ [0]

/-- Does a name pass, in a buffer of so many bytes, behind those of other headers? -/
def Passes (dirLength size : ℕ) (l : List Header) (h : Header) : Prop :=
  (contents dirLength l).length + h.block.name.chars.length + 1 < size

instance (dirLength size : ℕ) (l : List Header) : DecidablePred (Passes dirLength size l) := fun _ =>
  inferInstanceAs (Decidable (_ < _))

variable {dirLength size : ℕ}

theorem contents_concat (dirLength : ℕ) (l : List Header) (h : Header) :
    contents dirLength (l ++ [h]) = contents dirLength l ++ (h.block.name.chars.drop dirLength ++ [0]) := by
  unfold contents
  rw [List.flatMap_append, List.flatMap_singleton]

/-- The buffer that holds the names of some headers. -/
def holding (buffer : List Byte) (dirLength : ℕ) (l : List Header) : List Byte :=
  contents dirLength l ++ buffer.drop (contents dirLength l).length

theorem length_holding {buffer : List Byte} (hfits : (contents dirLength l).length ≤ buffer.length) :
    (holding buffer dirLength l).length = buffer.length := by
  unfold holding
  rw [List.length_append, List.length_drop, Nat.add_sub_cancel' hfits]

theorem overwrite_holding (buffer : List Byte) (dirLength : ℕ) (l : List Header) (h : Header) :
    overwrite (holding buffer dirLength l) (contents dirLength l).length (h.block.name.chars.drop dirLength ++ [0]) =
      holding buffer dirLength (l ++ [h]) := by
  unfold overwrite holding
  rw [contents_concat, List.take_left, List.drop_length_add_append, List.drop_drop]
  simp only [List.length_append]

/-- One header of a listing, in the terms of its name. -/
theorem listStep_eq (hnul : h.block.name.chars.length < ustarFilenameMaxLength) (hv : v.name.chars ≠ [])
    (buffer : List Byte) (sizeLeft itemCount : ℕ) (next : List Byte → ℕ → ℕ → Option Listing) :
    listStep kmalloc v h.block buffer sizeLeft itemCount next =
      if Takes kmalloc v h then
        if h.block.name.chars.length + 1 < sizeLeft then
          next (overwrite buffer (buffer.length - sizeLeft) (h.block.name.chars.drop v.name.chars.length ++ [0]))
            (sizeLeft - (h.block.name.chars.length - v.name.chars.length) - 1) (itemCount + 1)
        else if sizeLeft < buffer.length then some ⟨.osErrOutOfBound, overwrite buffer sizeLeft [0], itemCount⟩
        else none
      else next buffer sizeLeft itemCount := by
  have hbytes := cstr_bytes hnul
  have hstart : strncmp v.name.chars.length h.block.bytes v.name.chars = 0 ↔
      v.name.chars <+: h.block.name.chars := by
    rw [strncmp_eq_zero_iff, cstr_take, List.take_length, cstr_of_notMem v.name.noNul, hbytes, eq_comm,
      List.prefix_iff_eq_take]
  have hfile : CString.ofBuffer h.block.bytes = h.block.name := CString.ext hbytes
  have hcond : strncmp v.name.chars.length h.block.bytes v.name.chars = 0 ∧
      (cstr h.block.bytes).length ≠ v.name.chars.length ↔
      v.name.chars <+: h.block.name.chars ∧ h.block.name.chars.length ≠ v.name.chars.length := by
    rw [hstart, hbytes]
  unfold listStep
  dsimp only
  by_cases hinside : v.name.chars <+: h.block.name.chars ∧ h.block.name.chars.length ≠ v.name.chars.length
  · rw [if_pos (hcond.mpr hinside), hbytes, hfile, isRoot_eq ?_, Option.bind_some]
    · have hname : cstr (h.block.bytes.drop v.name.chars.length) = h.block.name.chars.drop v.name.chars.length := by
        rw [cstr_drop (hbytes ▸ hinside.1.length_le), hbytes]
      have hcopied : strncpy (h.block.name.chars.length - v.name.chars.length)
          (h.block.bytes.drop v.name.chars.length) = h.block.name.chars.drop v.name.chars.length := by
        unfold strncpy
        rw [hname, ← List.length_drop, List.take_length, Nat.sub_self, List.replicate_zero, List.append_nil]
      rw [hcopied]
      simp only [decide_eq_true_eq]
      rfl
    · have hle := hinside.1.length_le
      have hpos := List.length_pos_iff.mpr hv
      omega
  · rw [if_neg (mt hcond.mp hinside), if_neg fun htakes => ?_]
    obtain ⟨hstarts, hlt⟩ := Takes.longer htakes hv
    exact hinside ⟨hstarts, Nat.ne_of_gt hlt⟩

/-- Headers that the listing does not take do not count. -/
theorem listing_filter (hnul : ∀ h ∈ l, h.block.name.chars.length < ustarFilenameMaxLength) (hv : v.name.chars ≠ [])
    (buffer : List Byte) (sizeLeft itemCount : ℕ) : listing kmalloc v l buffer sizeLeft itemCount =
      listing kmalloc v (l.filter fun h => Takes kmalloc v h) buffer sizeLeft itemCount := by
  induction l generalizing buffer sizeLeft itemCount with
  | nil => rfl
  | cons h l ih =>
    have hrest : listing kmalloc v l = listing kmalloc v (l.filter fun h => Takes kmalloc v h) := by
      funext buffer sizeLeft itemCount
      exact ih (fun x hx => hnul x (List.mem_cons_of_mem _ hx)) buffer sizeLeft itemCount
    by_cases htakes : Takes kmalloc v h
    · rw [List.filter_cons, if_pos (decide_eq_true htakes), listing, listing, hrest]
    · rw [List.filter_cons, if_neg (mt of_decide_eq_true htakes), listing,
        listStep_eq (hnul h (List.mem_cons_self ..)) hv, if_neg htakes, hrest]

/-- The last byte of what has been written is a terminator. -/
theorem contents_eq_concat (dirLength : ℕ) (hl : l ≠ []) : ∃ c, contents dirLength l = c ++ [0] := by
  obtain ⟨l, h, rfl⟩ := (List.eq_nil_or_concat' l).resolve_left hl
  exact ⟨_, (contents_concat dirLength l h).trans (List.append_assoc ..).symm⟩

/-- At its end the listing writes a terminator over the one that is there. -/
theorem listing_end (buffer : List Byte) (hbefore : l = [] ∨ (contents dirLength l).length < buffer.length) (n : ℕ) :
    listing kmalloc v [] (holding buffer dirLength l) (buffer.length - (contents dirLength l).length) n =
      some ⟨.osNoErr, holding buffer dirLength l, n⟩ := by
  have hlength : (holding buffer dirLength l).length = buffer.length := by
    refine length_holding ?_
    rcases hbefore with rfl | hlt
    · exact Nat.zero_le _
    · exact hlt.le
  rw [listing, hlength]
  congr 2
  by_cases hl : l = []
  · subst hl
    exact if_neg (Nat.lt_irrefl _)
  · have hlt := hbefore.resolve_left hl
    obtain ⟨c, hc⟩ := contents_eq_concat dirLength hl
    have hpos : (contents dirLength l).length = c.length + 1 := by
      rw [hc, List.length_append]
      rfl
    have hlast : buffer.length - (buffer.length - (contents dirLength l).length) - 1 = c.length := by omega
    rw [if_pos (by omega), hlast]
    unfold holding overwrite
    rw [hc, List.append_assoc c, List.take_left, List.drop_length_add_append, List.append_assoc]
    rfl

/-- One header that the listing takes, behind some that it has taken. -/
theorem listing_take (before rest : List Header) (buffer : List Byte)
    (hnul : h.block.name.chars.length < ustarFilenameMaxLength)
    (hv : v.name.chars ≠ []) (htakes : Takes kmalloc v h)
    (hbefore : before = [] ∨ (contents v.name.chars.length before).length < buffer.length) :
    let dirLength := v.name.chars.length
    listing kmalloc v (h :: rest) (holding buffer dirLength before)
        (buffer.length - (contents dirLength before).length) before.length =
      if Passes dirLength buffer.length before h then
        listing kmalloc v rest (holding buffer dirLength (before ++ [h]))
          (buffer.length - (contents dirLength (before ++ [h])).length) (before ++ [h]).length
      else if before = [] then none
      else some ⟨.osErrOutOfBound, overwrite (holding buffer dirLength before)
        (buffer.length - (contents dirLength before).length) [0], before.length⟩ := by
  dsimp only
  have hfits : (contents v.name.chars.length before).length ≤ buffer.length := by
    rcases hbefore with rfl | hlt
    · exact Nat.zero_le _
    · exact hlt.le
  have hused : buffer.length - (buffer.length - (contents v.name.chars.length before).length) =
      (contents v.name.chars.length before).length := by omega
  rw [listing, listStep_eq hnul hv, if_pos htakes, length_holding hfits, hused, overwrite_holding]
  have hpasses : h.block.name.chars.length + 1 < buffer.length - (contents v.name.chars.length before).length ↔
      Passes v.name.chars.length buffer.length before h := by
    unfold Passes
    omega
  by_cases hpass : Passes v.name.chars.length buffer.length before h
  · rw [if_pos (hpasses.mpr hpass), if_pos hpass]
    have hleft : buffer.length - (contents v.name.chars.length before).length -
        (h.block.name.chars.length - v.name.chars.length) - 1 =
        buffer.length - (contents v.name.chars.length (before ++ [h])).length := by
      rw [contents_concat, List.length_append, List.length_append, List.length_drop, List.length_singleton]
      omega
    rw [hleft, List.length_append]
    rfl
  · rw [if_neg (mt hpasses.mp hpass), if_neg hpass]
    by_cases hnone : before = []
    · subst hnone
      rw [if_pos rfl]
      exact if_neg (Nat.lt_irrefl _)
    · obtain ⟨c, hc⟩ := contents_eq_concat v.name.chars.length hnone
      have hpos : (contents v.name.chars.length before).length = c.length + 1 := by
        rw [hc, List.length_append]
        rfl
      rw [if_neg hnone, if_pos (by omega)]

/-- Does each of the headers pass behind those before it? -/
def AllPass (dirLength size : ℕ) (before rest : List Header) : Prop :=
  ∀ l h l', rest = l ++ h :: l' → Passes dirLength size (before ++ l) h

theorem allPass_nil (dirLength size : ℕ) (before : List Header) : AllPass dirLength size before [] :=
  fun _ _ _ hsplit => absurd hsplit.symm (List.append_ne_nil_of_right_ne_nil _ (List.cons_ne_nil _ _))

theorem allPass_cons : AllPass dirLength size before (h :: rest) ↔
    Passes dirLength size before h ∧ AllPass dirLength size (before ++ [h]) rest := by
  constructor
  · intro hall
    refine ⟨?_, ?_⟩
    · have hfirst := hall [] h rest rfl
      rwa [List.append_nil] at hfirst
    · rintro l x l' rfl
      have hlater := hall (h :: l) x l' rfl
      rwa [← List.singleton_append, ← List.append_assoc] at hlater
  · rintro ⟨hfirst, hlater⟩ l x l' hsplit
    cases l with
    | nil =>
      obtain ⟨rfl, -⟩ := List.cons.inj hsplit
      rwa [List.append_nil]
    | cons y l =>
      obtain ⟨rfl, hrest⟩ := List.cons.inj hsplit
      rw [← List.singleton_append, ← List.append_assoc]
      exact hlater l x l' hrest

/-- A name that passes fits. -/
theorem Passes.fits (hpass : Passes dirLength size l h) : (contents dirLength (l ++ [h])).length < size := by
  unfold Passes at hpass
  rw [contents_concat, List.length_append, List.length_append, List.length_drop, List.length_singleton]
  omega

/-- What the listing does with the headers that it takes, if it has taken one already. -/
theorem listing_taken (before : List Header) (buffer : List Byte)
    (hnul : ∀ h ∈ rest, h.block.name.chars.length < ustarFilenameMaxLength)
    (hv : v.name.chars ≠ []) (htakes : ∀ h ∈ rest, Takes kmalloc v h) (hne : before ≠ [])
    (hfits : (contents v.name.chars.length before).length < buffer.length) :
    let dirLength := v.name.chars.length
    let result := listing kmalloc v rest (holding buffer dirLength before)
      (buffer.length - (contents dirLength before).length) before.length
    AllPass dirLength buffer.length before rest ∧
        result = some ⟨.osNoErr, holding buffer dirLength (before ++ rest), (before ++ rest).length⟩ ∨
      ¬AllPass dirLength buffer.length before rest ∧
        ∃ b n, b.length = buffer.length ∧ result = some ⟨.osErrOutOfBound, b, n⟩ := by
  dsimp only
  induction rest generalizing before with
  | nil =>
    rw [List.append_nil]
    exact .inl ⟨allPass_nil _ _ _, listing_end buffer (.inr hfits) _⟩
  | cons h rest ih =>
    rw [listing_take before rest buffer (hnul h (List.mem_cons_self ..)) hv (htakes h (List.mem_cons_self ..))
      (.inr hfits), allPass_cons]
    by_cases hpass : Passes v.name.chars.length buffer.length before h
    · rw [if_pos hpass, List.append_cons before h rest]
      obtain ⟨hall, hresult⟩ | ⟨hnot, hresult⟩ := ih (before ++ [h])
        (fun x hx => hnul x (List.mem_cons_of_mem _ hx)) (fun x hx => htakes x (List.mem_cons_of_mem _ hx))
        (List.append_ne_nil_of_right_ne_nil _ (List.cons_ne_nil _ _)) hpass.fits
      · exact .inl ⟨⟨hpass, hall⟩, hresult⟩
      · exact .inr ⟨fun hall => hnot hall.2, hresult⟩
    · rw [if_neg hpass, if_neg hne]
      refine .inr ⟨fun hall => hpass hall.1, _, _, ?_, rfl⟩
      obtain ⟨c, hc⟩ := contents_eq_concat v.name.chars.length hne
      have hpos : (contents v.name.chars.length before).length = c.length + 1 := by
        rw [hc, List.length_append]
        rfl
      have hlength := length_holding hfits.le
      refine (length_overwrite ?_).trans hlength
      rw [hlength, List.length_singleton]
      omega

/-- What the listing does with the headers that it takes. -/
theorem listing_cases (buffer : List Byte) (hnul : ∀ h ∈ l, h.block.name.chars.length < ustarFilenameMaxLength)
    (hv : v.name.chars ≠ []) (htakes : ∀ h ∈ l, Takes kmalloc v h) :
    let dirLength := v.name.chars.length
    let result := listing kmalloc v l buffer buffer.length 0
    AllPass dirLength buffer.length [] l ∧ result = some ⟨.osNoErr, holding buffer dirLength l, l.length⟩ ∨
      ¬AllPass dirLength buffer.length [] l ∧ ((∀ h ∈ l.head?, Passes dirLength buffer.length [] h) ∧
        (∃ b n, b.length = buffer.length ∧ result = some ⟨.osErrOutOfBound, b, n⟩) ∨
        ¬(∀ h ∈ l.head?, Passes dirLength buffer.length [] h) ∧ result = none) := by
  dsimp only
  cases l with
  | nil => exact .inl ⟨allPass_nil _ _ _, listing_end buffer (.inl rfl) 0⟩
  | cons h l =>
    have hfirst : (∀ x ∈ (h :: l).head?, Passes v.name.chars.length buffer.length [] x) ↔
        Passes v.name.chars.length buffer.length [] h :=
      ⟨fun hall => hall h rfl, fun hpass x hx => Option.some.inj hx ▸ hpass⟩
    have htake := listing_take [] l buffer (hnul h (List.mem_cons_self ..)) hv
      (htakes h (List.mem_cons_self ..)) (.inl rfl)
    change listing kmalloc v (h :: l) buffer buffer.length 0 = _ at htake
    rw [htake, hfirst, allPass_cons]
    by_cases hpass : Passes v.name.chars.length buffer.length [] h
    · rw [if_pos hpass]
      obtain ⟨hall, hresult⟩ | ⟨hnot, hresult⟩ := listing_taken [h] buffer
        (fun x hx => hnul x (List.mem_cons_of_mem _ hx)) hv (fun x hx => htakes x (List.mem_cons_of_mem _ hx))
        (List.cons_ne_nil _ _) hpass.fits
      · exact .inl ⟨⟨hpass, hall⟩, hresult⟩
      · exact .inr ⟨fun hall => hnot hall.2, .inl ⟨hpass, hresult⟩⟩
    · rw [if_neg hpass, if_pos rfl]
      exact .inr ⟨fun hall => hpass hall.1, .inr ⟨hpass, rfl⟩⟩

/-! ## A directory that has been opened -/

/-- The path of a directory, with a slash at its end. -/
def dirPath (path : CString) : List Byte :=
  if path.chars.getLast? = some slash then path.chars else path.chars ++ [slash]

theorem lastSlash_le (path : List Byte) (n : ℕ) : lastSlash path n ≤ n := by
  induction n with
  | zero => exact le_rfl
  | succ n ih =>
    unfold lastSlash
    split_ifs
    · exact ih.trans (Nat.le_succ n)
    · exact le_rfl

theorem getD_lastSlash {path : List Byte} {n : ℕ} (hne : lastSlash path n ≠ 0) :
    path.getD (lastSlash path n) 0 = slash := by
  induction n with
  | zero => exact absurd rfl hne
  | succ n ih =>
    unfold lastSlash at hne ⊢
    split_ifs at hne ⊢ with hslash
    · exact ih hne
    · exact not_not.mp hslash

/-- The name of a node that ends with a slash is its path. -/
theorem ustarGetFilename_eq {name : CString} (hget : ustarGetFilename path = some name) :
    name.chars ≠ [] ∧ (name.chars.getLast? = some slash → name = path) := by
  unfold ustarGetFilename at hget
  split_ifs at hget with hlength hslash
  · rw [← Option.some.inj hget]
    exact ⟨fun hnil => hlength (.inl (by rw [hnil]; rfl)), fun _ => rfl⟩
  · have hchars := congrArg CString.chars (Option.some.inj hget)
    change cstr (path.chars.drop _) = name.chars at hchars
    rw [cstr_of_notMem fun hmem => path.noNul (List.mem_of_mem_drop hmem)] at hchars
    generalize hk : (if lastSlash path.chars (path.chars.length - 1) ≠ 0 then
      lastSlash path.chars (path.chars.length - 1) + 1 else 0) = k at hchars
    have hlt : k < path.chars.length := by
      split_ifs at hk with hzero
      · have hle := lastSlash_le path.chars (path.chars.length - 1)
        have hne : lastSlash path.chars (path.chars.length - 1) ≠ path.chars.length - 1 :=
          fun heq => hslash (heq ▸ getD_lastSlash hzero)
        omega
      · omega
    have hlast : name.chars.getLast? = path.chars.getLast? := by
      rw [← hchars, List.getLast?_drop, if_neg (Nat.not_le.mpr hlt)]
    refine ⟨fun hnil => ?_, fun hname => ?_⟩
    · rw [← hchars, List.drop_eq_nil_iff] at hnil
      exact Nat.not_le.mpr hlt hnil
    · rw [hlast, List.getLast?_eq_getElem?] at hname
      exact absurd (by rw [List.getD_eq_getElem?_getD, hname]; rfl) hslash

theorem ustarOpenFile_found (hwell : WellFormed d headers) (hopen : d.ustarOpenFile fuel path = some (.ok v)) :
    ∃ h ∈ d.visible headers, h.block.name = path ∧ v.type = ustarToVfsType h.block.type ∧ v.fsInode = h.id ∧
      ustarGetFilename path = some v.name := by
  obtain ⟨r, hsearch, hnode⟩ := Option.bind_eq_some_iff.mp hopen
  have hmore := ustarSearchFile_mono hsearch (le_max_left fuel (headers.length + 3))
  rw [ustarSearchFile_eq hwell path (by omega), Option.some_inj] at hmore
  cases hfind : (d.visible headers).find? (Header.has path) with
  | none =>
    rw [hfind] at hmore
    rw [← hmore] at hnode
    exact nomatch Option.some.inj hnode
  | some h =>
    rw [hfind] at hmore
    rw [← hmore] at hnode
    obtain ⟨v', hset, hv⟩ := Option.map_eq_some_iff.mp hnode
    obtain ⟨name, hname, hvnode⟩ := Option.map_eq_some_iff.mp hset
    obtain rfl : v' = v := Except.ok.inj hv
    subst hvnode
    exact ⟨h, List.mem_of_find?_eq_some hfind, Header.has_iff.mp (List.find?_some hfind), rfl, rfl, hname⟩

/-- Is a header one of an item of the directory? -/
def IsItem (path : CString) (h : Header) : Prop :=
  h.live = true ∧ parentPath h.block.name.chars = dirPath path

instance (path : CString) : DecidablePred (IsItem path) := fun _ => inferInstanceAs (Decidable (_ ∧ _))

/-- The items of a directory, wherever their headers stand. -/
def items (headers : List Header) (path : CString) : List Header := headers.filter fun h => IsItem path h

/-- The headers that the listing takes: they stand behind that of the node, before one that cannot be read. -/
def taken (kmalloc : ℕ → Option (List Byte)) (d : Partition) (headers : List Header) (v : Vnode) : List Header :=
  (d.scanned (headers.filter fun h => decide (v.fsInode.toNat < h.inode))).filter fun h => Takes kmalloc v h

/-- What is taken for an item is one, and then the name of the node is its path. -/
theorem Takes.isItem (htakes : Takes kmalloc v h) (hlive : h.live = true)
    (hname : ustarGetFilename path = some v.name) : IsItem path h ∧ v.name.chars = dirPath path := by
  obtain ⟨hne, hpath⟩ := ustarGetFilename_eq hname
  have hparent := ustarGetPath_eq htakes.2 hne
  have hlast : v.name.chars.getLast? = some slash := by
    rw [hparent] at hne ⊢
    rw [List.getLast?_eq_some_getLast hne, getLast_parentPath hne]
  have hdir : v.name.chars = dirPath path := by
    have hname := hpath hlast
    rw [hname] at hlast ⊢
    exact (if_pos hlast).symm
  exact ⟨⟨hlive, hparent.symm.trans hdir⟩, hdir⟩

theorem scanned_sublist (d : Partition) (headers : List Header) : (d.scanned headers).Sublist headers :=
  List.filter_sublist.trans (List.takeWhile_sublist _)

theorem live_of_scanned (hh : h ∈ d.scanned headers) : h.live = true := (List.mem_filter.mp hh).2

theorem taken_sublist (kmalloc : ℕ → Option (List Byte)) (d : Partition) (headers : List Header)
    (hname : ustarGetFilename path = some v.name) : (d.taken kmalloc headers v).Sublist (items headers path) := by
  have hsub : (d.taken kmalloc headers v).Sublist headers :=
    List.filter_sublist.trans ((scanned_sublist d _).trans List.filter_sublist)
  have hitems : (d.taken kmalloc headers v).filter (fun h => IsItem path h) = d.taken kmalloc headers v := by
    refine List.filter_eq_self.mpr fun h hh => ?_
    obtain ⟨hscan, htakes⟩ := List.mem_filter.mp hh
    exact decide_eq_true (Takes.isItem (of_decide_eq_true htakes) (live_of_scanned hscan) hname).1
  rw [← hitems]
  exact hsub.filter _

theorem Chain.nodup {start : ℕ} (hchain : Chain d start headers) : headers.Nodup := by
  refine hchain.apart.imp fun {x y} hle heq => ?_
  have hnext : x.next = x.inode + 1 + x.block.dataBlocks := rfl
  rw [← heq] at hle
  omega

/-- The headers behind one are those with greater inodes. -/
theorem Chain.behind {start : ℕ} (hchain : Chain d start (before ++ h :: rest)) :
    (before ++ h :: rest).filter (fun x => decide (h.inode < x.inode)) = rest := by
  have hnext : ∀ x : Header, x.next = x.inode + 1 + x.block.dataBlocks := fun _ => rfl
  obtain ⟨-, hsuffix, hbefore⟩ := List.pairwise_append.mp hchain.apart
  have hbehind := (List.pairwise_cons.mp hsuffix).1
  have hnone : before.filter (fun x => decide (h.inode < x.inode)) = [] := by
    refine List.filter_eq_nil_iff.mpr fun x hx => ?_
    have hle := hbefore x hx h (List.mem_cons_self ..)
    have hx := hnext x
    rw [decide_eq_true_iff]
    omega
  have hall : rest.filter (fun x => decide (h.inode < x.inode)) = rest := by
    refine List.filter_eq_self.mpr fun x hx => decide_eq_true ?_
    have hle := hbehind x hx
    have hh := hnext h
    omega
  rw [List.filter_append, List.filter_cons_of_neg (by rw [decide_eq_true_iff]; exact Nat.lt_irrefl _), hnone, hall]
  rfl

/-- The listing of a directory in terms of the headers that it takes. -/
theorem ustarListDirectory_taken (kmalloc : ℕ → Option (List Byte)) (hwell : WellFormed d headers)
    (hnul : ∀ h ∈ headers, h.block.name.chars.length < ustarFilenameMaxLength)
    (hopen : d.ustarOpenFile fuel path = some (.ok v)) (hdir : v.type = .dir) (hfuel : headers.length + 2 < fuel')
    (buffer : List Byte) : d.ustarListDirectory kmalloc fuel' v (some buffer) =
      listing kmalloc v (d.taken kmalloc headers v) buffer buffer.length 0 := by
  obtain ⟨h, hvisible, rfl, htype, hinode, hname⟩ := ustarOpenFile_found hwell hopen
  obtain ⟨hmem, hlive⟩ := mem_of_visible hvisible
  obtain ⟨before, rest, rfl⟩ := List.append_of_mem hmem
  have hlt : h.inode < 2 ^ 23 := (hwell.chain.inode_lt hmem).trans hwell.bound
  have hid : v.fsInode.toNat = h.inode := by
    rw [hinode, Header.id, BitVec.toNat_ofNat]
    omega
  have hbehind : (before ++ h :: rest).filter (fun x => decide (v.fsInode.toNat < x.inode)) = rest := by
    rw [hid]
    exact hwell.chain.behind
  have hself : ¬Takes kmalloc v h := by
    -- the path of a header is shorter than its name
    intro htakes
    obtain ⟨hitem, hpath⟩ := Takes.isItem htakes hlive hname
    have hlt := (Takes.longer htakes (ustarGetFilename_eq hname).1).2
    have hle : h.block.name.chars.length ≤ (dirPath h.block.name).length := by
      unfold dirPath
      split_ifs
      · exact le_rfl
      · rw [List.length_append]
        exact Nat.le_add_right _ _
    rw [hpath] at hlt
    exact Nat.not_le.mpr hlt hle
  have hrest : rest.length + 2 < fuel' := by
    rw [List.length_append, List.length_cons] at hfuel
    omega
  rw [ustarListDirectory_eq hwell hvisible (htype.symm.trans hdir) hinode hrest,
    listing_filter ?_ (ustarGetFilename_eq hname).1, List.filter_cons, if_neg (mt of_decide_eq_true hself), taken,
    hbehind]
  intro x hx
  rcases List.mem_cons.mp hx with rfl | hx
  · exact hnul x hmem
  · exact hnul x (List.mem_append_right _ (List.mem_cons_of_mem _ ((scanned_sublist d rest).mem hx)))

/-! ## What the buffer holds -/

/-- A listing ends, writes nothing outside of the buffer, and leaves exactly the names of the items in it, unless they
do not fit. -/
def ListsExactly (kmalloc : ℕ → Option (List Byte)) (d : Partition) (headers : List Header) (path : CString)
    (v : Vnode) (buffer : List Byte) : Prop :=
  let names := contents (dirPath path).length (items headers path)
  ∃ n l, (∀ fuel, n < fuel → d.ustarListDirectory kmalloc fuel v (some buffer) = some l) ∧
    l.buffer.length = buffer.length ∧
    (l.err = .osNoErr → names <+: l.buffer ∧ l.itemCount = (items headers path).length) ∧
    (l.err = .osErrOutOfBound → buffer.length < names.length)

/-- All the items are taken, and each name passes; or the first one passes, not all do, and the names do not fit. -/
def ListingSuits (kmalloc : ℕ → Option (List Byte)) (d : Partition) (headers : List Header) (path : CString)
    (v : Vnode) (size : ℕ) : Prop :=
  let dirLength := (dirPath path).length
  let taken := d.taken kmalloc headers v
  AllPass dirLength size [] taken ∧ (∀ h ∈ items headers path, h ∈ taken) ∨
    ¬AllPass dirLength size [] taken ∧ (∀ h ∈ taken.head?, Passes dirLength size [] h) ∧
      size < (contents dirLength (items headers path)).length

/-- Names that all pass fit. -/
theorem contents_le (hall : AllPass dirLength size before rest)
    (hbefore : (contents dirLength before).length ≤ size) : (contents dirLength (before ++ rest)).length ≤ size := by
  induction rest generalizing before with
  | nil => rwa [List.append_nil]
  | cons h rest ih =>
    obtain ⟨hpass, hall⟩ := allPass_cons.mp hall
    rw [List.append_cons]
    exact ih hall hpass.fits.le

/-- Of headers without repetitions, some in their order are all if none is missing. -/
theorem eq_iff_of_sublist {part whole : List Header} (hsub : part.Sublist whole) (hnodup : whole.Nodup) :
    part = whole ↔ ∀ h ∈ whole, h ∈ part := by
  refine ⟨fun heq h hh => heq ▸ hh, fun hall => ?_⟩
  exact hsub.eq_of_length_le (List.subperm_of_subset hnodup hall).length_le

/-- The listing of a directory, in terms of the names relative to its path. -/
theorem listing_taken_cases (kmalloc : ℕ → Option (List Byte)) (d : Partition)
    (hname : ustarGetFilename path = some v.name)
    (hnul : ∀ h ∈ headers, h.block.name.chars.length < ustarFilenameMaxLength) (buffer : List Byte) :
    let dirLength := (dirPath path).length
    let taken := d.taken kmalloc headers v
    let result := listing kmalloc v taken buffer buffer.length 0
    AllPass dirLength buffer.length [] taken ∧
        result = some ⟨.osNoErr, holding buffer dirLength taken, taken.length⟩ ∨
      ¬AllPass dirLength buffer.length [] taken ∧ ((∀ h ∈ taken.head?, Passes dirLength buffer.length [] h) ∧
        (∃ b n, b.length = buffer.length ∧ result = some ⟨.osErrOutOfBound, b, n⟩) ∨
        ¬(∀ h ∈ taken.head?, Passes dirLength buffer.length [] h) ∧ result = none) := by
  have hv := (ustarGetFilename_eq hname).1
  have hsub := taken_sublist kmalloc d headers hname
  have htakes : ∀ h ∈ d.taken kmalloc headers v, Takes kmalloc v h := fun h hh =>
    of_decide_eq_true (List.mem_filter.mp hh).2
  have hcases := listing_cases buffer
    (fun h hh => hnul h (List.mem_filter.mp (hsub.mem hh)).1) hv htakes
  by_cases htaken : d.taken kmalloc headers v = []
  · rw [htaken]
    exact .inl ⟨allPass_nil _ _ _, listing_end buffer (.inl rfl) 0⟩
  · obtain ⟨h, hh⟩ := List.exists_mem_of_ne_nil _ htaken
    have hlive : h.live = true := live_of_scanned (List.mem_filter.mp hh).1
    rw [(Takes.isItem (htakes h hh) hlive hname).2] at hcases
    exact hcases

theorem listsExactly_iff (hwell : WellFormed d headers)
    (hnul : ∀ h ∈ headers, h.block.name.chars.length < ustarFilenameMaxLength)
    (hopen : d.ustarOpenFile fuel path = some (.ok v)) (hdir : v.type = .dir) (kmalloc : ℕ → Option (List Byte))
    (buffer : List Byte) :
    ListsExactly kmalloc d headers path v buffer ↔ ListingSuits kmalloc d headers path v buffer.length := by
  obtain ⟨dir, -, -, -, -, hname⟩ := ustarOpenFile_found hwell hopen
  have hrun := fun n (hfuel : headers.length + 2 < n) =>
    ustarListDirectory_taken kmalloc hwell hnul hopen hdir hfuel buffer
  have hresult : ListsExactly kmalloc d headers path v buffer ↔
      ∃ l, listing kmalloc v (d.taken kmalloc headers v) buffer buffer.length 0 = some l ∧
        l.buffer.length = buffer.length ∧
        (l.err = .osNoErr → contents (dirPath path).length (items headers path) <+: l.buffer ∧
          l.itemCount = (items headers path).length) ∧
        (l.err = .osErrOutOfBound →
          buffer.length < (contents (dirPath path).length (items headers path)).length) := by
    constructor
    · rintro ⟨n, l, hlist, hrest⟩
      exact ⟨l, (hrun (max n (headers.length + 2) + 1) (by omega)).symm.trans (hlist _ (by omega)), hrest⟩
    · rintro ⟨l, hlist, hrest⟩
      exact ⟨headers.length + 2, l, fun fuel hfuel => (hrun fuel hfuel).trans hlist, hrest⟩
  rw [hresult]
  unfold ListingSuits
  dsimp only
  obtain ⟨hall, hlist⟩ | ⟨hnot, ⟨hfirst, b, n, hlength, hlist⟩ | ⟨hfirst, hlist⟩⟩ :=
    listing_taken_cases kmalloc d hname hnul buffer
  · -- the listing ends: its items are those of the directory if none is missing
    have hitems := eq_iff_of_sublist (taken_sublist kmalloc d headers hname) (hwell.chain.nodup.filter _)
    rw [hlist, ← hitems]
    constructor
    · rintro ⟨l, hl, -, hexact, -⟩
      obtain rfl := Option.some.inj hl
      exact .inl ⟨hall, (taken_sublist kmalloc d headers hname).eq_of_length (hexact rfl).2⟩
    · rintro (⟨-, heq⟩ | ⟨hnot, -⟩)
      · have hfits := contents_le hall (Nat.zero_le _)
        refine ⟨_, rfl, length_holding hfits, fun _ => ?_, nofun⟩
        rw [← heq]
        exact ⟨List.prefix_append .., rfl⟩
      · exact absurd hall hnot
  · rw [hlist]
    constructor
    · rintro ⟨l, hl, -, -, hmany⟩
      obtain rfl := Option.some.inj hl
      exact .inr ⟨hnot, hfirst, hmany rfl⟩
    · rintro (⟨hall, -⟩ | ⟨-, -, hmany⟩)
      · exact absurd hall hnot
      · exact ⟨_, rfl, hlength, nofun, fun _ => hmany⟩
  · rw [hlist]
    constructor
    · rintro ⟨_, hnone, -⟩
      exact nomatch hnone
    · rintro (⟨hall, -⟩ | ⟨-, hpass, -⟩)
      · exact absurd hall hnot
      · exact absurd hpass hfirst

/-! ## A directory with one item -/

def dirNode : Vnode := ⟨.dir, pathDir, 0#32, 0#32⟩

/-- The node of the directory behind its item. -/
def lateNode : Vnode := ⟨.dir, pathDir, 0#32, 1#32⟩

/-- A heap that always has memory. -/
def zeros (n : ℕ) : Option (List Byte) := some (List.replicate n 0)

theorem listsExactly_iff_dirFirst :
    ListsExactly zeros dirFirst [⟨0, dirBlock⟩, ⟨1, itemBlock⟩] pathDir dirNode (List.replicate 8 0) := by
  have hopen : dirFirst.ustarOpenFile 5 pathDir = some (.ok dirNode) := by decide +kernel
  refine (listsExactly_iff dirFirst_wellFormed (by decide +kernel) hopen rfl zeros _).mpr
    (.inl ⟨?_, by decide +kernel⟩)
  have htaken : dirFirst.taken zeros [⟨0, dirBlock⟩, ⟨1, itemBlock⟩] dirNode = [⟨1, itemBlock⟩] := by decide +kernel
  rw [htaken, allPass_cons]
  exact ⟨by decide +kernel, allPass_nil _ _ _⟩

/-- The header of the item stands before that of its directory, which is listed without it. -/
theorem itemFirst_not_listed : WellFormed itemFirst [⟨0, itemBlock⟩, ⟨1, dirBlock⟩] ∧
    itemFirst.ustarOpenFile 5 pathDir = some (.ok lateNode) ∧
    ¬ListsExactly zeros itemFirst [⟨0, itemBlock⟩, ⟨1, dirBlock⟩] pathDir lateNode (List.replicate 8 0) := by
  refine ⟨itemFirst_wellFormed, by decide +kernel, ?_⟩
  rintro ⟨n, l, hlist, -, hexact, -⟩
  have hempty := ustarListDirectory_taken zeros itemFirst_wellFormed (by decide +kernel)
    (show itemFirst.ustarOpenFile 5 pathDir = some (.ok lateNode) by decide +kernel) rfl
    (show 4 < max n 4 + 1 by omega) (List.replicate 8 0)
  have htaken : itemFirst.taken zeros [⟨0, itemBlock⟩, ⟨1, dirBlock⟩] lateNode = [] := by decide +kernel
  rw [hlist _ (by omega), htaken] at hempty
  obtain rfl := Option.some.inj hempty
  have hcount : (0 : ℕ) = 1 := (hexact rfl).2.trans (by decide +kernel)
  exact nomatch hcount

end Partition
end UtkKernel.Fs
