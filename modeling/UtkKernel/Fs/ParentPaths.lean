import UtkKernel.Fs.Children

/-! # The path before the last part

`ustar_get_path` looks for the last slash before the last character, from the end on. It stops at the first character
without looking at it: a path whose only such slash is there has no parent for it. A path of one character has none to
look at, and the scan starts before it. -/

namespace UtkKernel.Fs
open Foundations Partition
set_option autoImplicit false

variable {kmalloc : ℕ → Option (List Byte)} {path parent : CString} {c : Byte} {rest : List Byte} {n : ℕ}

/-- The path up to the last slash that is not its last character is found without leaving the path, and `is_root` says
for which directory it is the name. -/
structure ParentRight (kmalloc : ℕ → Option (List Byte)) (path : CString) : Prop where
  parent : ∃ parent, ustarGetPath path = some parent ∧ parent.chars = parentPath path.chars
  root : ∀ dir : CString, isRoot kmalloc dir path = some (decide (dir.chars = parentPath path.chars))

/-- A slash in front is the only one before the last character. -/
def OnlyInFront (path : CString) : Prop := ∃ rest, path.chars = slash :: rest ∧ slash ∉ rest.dropLast

theorem parentPath_eq_nil_iff (path : List Byte) : parentPath path = [] ↔ slash ∉ path.dropLast := by
  unfold parentPath
  rw [List.rdropWhile_eq_nil_iff]
  simp only [decide_eq_true_eq]
  exact ⟨fun h hmem => h slash hmem rfl, fun h c hc heq => h (heq ▸ hc)⟩

/-- The scan stops at the first character if there is no slash behind it. -/
theorem lastSlash_cons_eq_zero_iff : lastSlash (c :: rest) n = 0 ↔ slash ∉ rest.take n := by
  induction n with
  | zero => simp [lastSlash]
  | succ n ih =>
    unfold lastSlash
    rw [List.getD_cons_succ, List.take_add_one, List.getD_eq_getElem?_getD]
    cases hget : rest[n]? with
    | none => simp [slash, ih]
    | some d =>
      by_cases hslash : d = slash
      · simp [hslash]
      · simp [hslash, Ne.symm hslash, ih]

/-- What is written for a path of more than one character. -/
theorem ustarGetPath_cons (hpath : path.chars = c :: rest) (hrest : rest ≠ []) : ∃ parent,
    ustarGetPath path = some parent ∧ parent.chars = if slash ∈ rest.dropLast then parentPath path.chars else [] := by
  have hpos := List.length_pos_iff.mpr hrest
  have hlength : path.chars.length = rest.length + 1 := by rw [hpath, List.length_cons]
  obtain ⟨parent, hget⟩ : ∃ parent, ustarGetPath path = some parent :=
    Option.ne_none_iff_exists'.mp (mt ustarGetPath_eq_none_iff.mp (by omega))
  refine ⟨parent, hget, ?_⟩
  have hnone : lastSlash path.chars (path.chars.length - 2) = 0 ↔ slash ∉ rest.dropLast := by
    rw [hlength, hpath, lastSlash_cons_eq_zero_iff, List.dropLast_eq_take,
      show rest.length + 1 - 2 = rest.length - 1 by omega]
  have hchars : parent.chars = cstr (path.chars.take (if lastSlash path.chars (path.chars.length - 2) ≠ 0 then
      lastSlash path.chars (path.chars.length - 2) + 1 else 0)) := by
    unfold ustarGetPath at hget
    rw [if_neg (by omega)] at hget
    exact congrArg CString.chars (Option.some.inj hget).symm
  split_ifs with hslash
  · refine ustarGetPath_eq hget fun hnil => ?_
    rw [if_pos (fun hzero => hnone.mp hzero hslash), cstr_of_notMem fun h => path.noNul (List.mem_of_mem_take h)] at hchars
    rw [hpath, List.take_succ_cons, hnil] at hchars
    exact absurd hchars (List.cons_ne_nil _ _).symm
  · rw [hchars, if_neg (not_not_intro (hnone.mpr hslash)), List.take_zero]
    rfl

theorem not_short_of_ustarGetPath (hget : ustarGetPath path = some parent) : ¬ path.chars.length < 2 := by
  intro hshort
  rw [ustarGetPath_eq_none_iff.mpr hshort] at hget
  exact nomatch hget

theorem isRoot_eq_decide (hget : ustarGetPath path = some parent)
    (hmem : (kmalloc (4 * path.chars.length)).isSome = true) (dir : CString) :
    isRoot kmalloc dir path = some (decide (dir.chars = parent.chars)) := by
  rw [isRoot_eq (not_short_of_ustarGetPath hget), hget]
  refine congrArg some (decide_eq_decide.mpr ?_)
  rw [Option.some_inj]
  exact ⟨fun h => congrArg CString.chars h.2.symm, fun h => ⟨hmem, CString.ext h.symm⟩⟩

/-- The parent is right for a path of more than one character that has no slash in front or another one before its
last character, if there is memory for it. -/
theorem parentRight_iff (kmalloc : ℕ → Option (List Byte)) (path : CString) : ParentRight kmalloc path ↔
    2 ≤ path.chars.length ∧ ¬ OnlyInFront path ∧ (kmalloc (4 * path.chars.length)).isSome = true := by
  constructor
  · rintro ⟨⟨parent, hget, hparent⟩, hroot⟩
    have hlong := not_short_of_ustarGetPath hget
    refine ⟨Nat.le_of_not_lt hlong, ?_, ?_⟩
    · rintro ⟨rest, hpath, hslash⟩
      have hrest : rest ≠ [] := by
        rintro rfl
        rw [hpath] at hlong
        exact hlong (by decide)
      obtain ⟨parent', hget', hparent'⟩ := ustarGetPath_cons hpath hrest
      obtain rfl := Option.some.inj (hget.symm.trans hget')
      rw [if_neg hslash] at hparent'
      have hnone := (parentPath_eq_nil_iff _).mp (hparent.symm.trans hparent')
      rw [hpath, List.dropLast_cons_of_ne_nil hrest] at hnone
      exact hnone (List.mem_cons_self ..)
    · have hself := hroot parent
      rw [decide_eq_true hparent, isRoot_eq hlong, Option.some_inj, decide_eq_true_iff] at hself
      exact hself.1
  · rintro ⟨hlength, hfront, hmem⟩
    obtain ⟨c, rest, hpath⟩ := List.exists_cons_of_ne_nil (List.ne_nil_of_length_pos (Nat.zero_lt_of_lt hlength))
    have hrest : rest ≠ [] := by
      rintro rfl
      rw [hpath] at hlength
      exact absurd hlength (Nat.lt_irrefl 1)
    obtain ⟨parent, hget, hparent⟩ := ustarGetPath_cons hpath hrest
    have hright : parent.chars = parentPath path.chars := by
      by_cases hslash : slash ∈ rest.dropLast
      · rwa [if_pos hslash] at hparent
      · rw [if_neg hslash] at hparent
        rw [hparent, eq_comm, parentPath_eq_nil_iff, hpath, List.dropLast_cons_of_ne_nil hrest, List.mem_cons, not_or]
        refine ⟨?_, hslash⟩
        rintro rfl
        exact hfront ⟨rest, hpath, hslash⟩
    refine ⟨⟨parent, hget, hright⟩, fun dir => ?_⟩
    rw [isRoot_eq_decide hget hmem, hright]

/-- The file `/x` is not found in the directory `/`. -/
def rootFile : CString := ⟨[slash, 0x78], by decide⟩

theorem rootFile_not_parentRight : ¬ ∀ (kmalloc : ℕ → Option (List Byte)) (path : CString),
    path.chars ≠ [] → path.chars.length ≤ 100 → (∀ size, (kmalloc size).isSome = true) → ParentRight kmalloc path := by
  intro h
  obtain ⟨parent, hget, hparent⟩ :=
    (h (fun size => some (List.replicate size 0)) rootFile (by decide) (by decide) fun _ => rfl).parent
  have hnone : ustarGetPath rootFile = some ⟨[], by decide⟩ := by decide
  obtain rfl := Option.some.inj (hget.symm.trans hnone)
  revert hparent
  decide

end UtkKernel.Fs
