import UtkKernel.Console.VgaText
import UtkKernel.Foundations.Runs

/-! # The console stays on the screen

The bounds of the cursor are checked with the sizes of the screen themselves, so that the line behind the last one
passes: a call may ask for it, a scroll by no line goes there, and so does the wrap behind the last column of the last
line, which then notes a column of that line. -/

namespace UtkKernel.Console
open Foundations
set_option autoImplicit false

namespace VgaText

/-- The cursor is on the screen, or behind the end of a line. -/
def Inside (s : VgaText) : Prop := s.screenCursor.y < lineSize ∧ s.screenCursor.x ≤ colSize

/-- The driver as it is loaded; white on black. -/
def initial (framebuffer : Fin (lineSize * colSize) → BitVec 16) : VgaText where
  screenScheme := ⟨0x0F#32, 0x00#32⟩
  screenCursor := ⟨0, 0⟩
  lastPrintedCursor := ⟨0, 0⟩
  lastColumns := fun _ => 0
  framebuffer := framebuffer

/-- In a run no call accesses anything outside of an array, and the cursor is on the screen after each. -/
def StaysInside (s : VgaText) (calls : List VgaCall) : Prop :=
  ∀ front, front <+: calls → ∃ s', runActs exec s front = some s' ∧ s'.Inside

/-! ## The condition -/

/-- Not a character to display behind the end of the last line. -/
def CharFits (s : VgaText) (character : Byte) : Prop :=
  ¬(IsPrintable character ∧ s.screenCursor.y = lineSize - 1 ∧ s.screenCursor.x = colSize)

/-- Each character of a string fits where the ones before it lead to. -/
def StringFits (put : VgaText → Byte → Option VgaText) : VgaText → List Byte → Prop
  | _, [] => True
  | s, character :: string => s.CharFits character ∧ ∀ s', put s character = some s' → StringFits put s' string

/-- The cursor is not put in the line behind the last one, and a scroll is of one line at least. -/
def CallFits (s : VgaText) : VgaCall → Prop
  | .putCursorAt line column => ¬(line = lineSize ∧ column ≤ colSize)
  | .scroll _ linesCount => 0 < linesCount
  | .putString string => StringFits vgaPutChar s string
  | .putChar character => s.CharFits character
  | .consoleWriteKeyboard string => StringFits vgaProcessChar s string
  | _ => True

/-- Each call fits where the ones before it lead to. -/
def CallsFit : VgaText → List VgaCall → Prop
  | _, [] => True
  | s, call :: calls => s.CallFits call ∧ ∀ s', s.exec call = some s' → CallsFit s' calls

variable {s s' : VgaText} {line column cell : ℕ} {character : Byte}

/-! ## Accesses -/

/-- The call stays in its arrays and leaves the cursor where it is. -/
def KeepsCursor (s : VgaText) (r : Option VgaText) : Prop := ∃ s', r = some s' ∧ s'.screenCursor = s.screenCursor

/-- The call stays in its arrays and leaves the cursor on the screen. -/
def EndsInside (r : Option VgaText) : Prop := ∃ s', r = some s' ∧ s'.Inside

theorem KeepsCursor.bind {r : Option VgaText} {f : VgaText → Option VgaText} (hr : s.KeepsCursor r)
    (hf : ∀ s' : VgaText, s'.screenCursor = s.screenCursor → s'.KeepsCursor (f s')) : s.KeepsCursor (r.bind f) := by
  obtain ⟨s1, rfl, h1⟩ := hr
  obtain ⟨s2, h2, hsame⟩ := hf s1 h1
  exact ⟨s2, h2, hsame.trans h1⟩

theorem keepsCursor_foldlM {A : Type} {f : VgaText → A → Option VgaText} {l : List A}
    (hstep : ∀ a ∈ l, ∀ s : VgaText, s.KeepsCursor (f s a)) (s : VgaText) : s.KeepsCursor (l.foldlM f s) :=
  foldlM_total (fun s' : VgaText => s'.screenCursor = s.screenCursor) (fun a ha s1 h1 =>
    let ⟨s2, h2, hsame⟩ := hstep a ha s1
    ⟨s2, h2, hsame.trans h1⟩) rfl

theorem setLastColumn_keeps (s : VgaText) (hline : line < lineSize) (column : ℕ) :
    s.KeepsCursor (s.setLastColumn line column) := ⟨_, dif_pos hline, rfl⟩

theorem lastColumn_eq (s : VgaText) (hline : line < lineSize) : ∃ column, s.lastColumn line = some column :=
  ⟨_, dif_pos hline⟩

theorem vgaGetFramebuffer_lt (line column : ℕ) : vgaGetFramebuffer line column < lineSize * colSize := by
  unfold vgaGetFramebuffer lineSize colSize
  split_ifs <;> omega

theorem storeCell_keeps (s : VgaText) (line column : ℕ) (value : BitVec 16) :
    s.KeepsCursor (s.storeCell (vgaGetFramebuffer line column) value) :=
  ⟨_, dif_pos (vgaGetFramebuffer_lt line column), rfl⟩

theorem vgaPrintChar_keeps (s : VgaText) (line column : ℕ) (character : Byte) :
    s.KeepsCursor (s.vgaPrintChar line column character) := by
  unfold vgaPrintChar
  split_ifs
  · exact ⟨s, rfl, rfl⟩
  · exact storeCell_keeps ..

theorem vgaClearScreen_keeps (s : VgaText) : s.KeepsCursor s.vgaClearScreen := by
  refine keepsCursor_foldlM (fun i hi s => ?_) s
  refine KeepsCursor.bind (keepsCursor_foldlM (fun j _ s => storeCell_keeps ..) s) fun s _ => ?_
  exact s.setLastColumn_keeps (List.mem_range.mp hi) 0

theorem moveCells_keeps (s : VgaText) {i : ℕ} (hi : i < lineSize - 1) :
    s.KeepsCursor (s.moveCells (vgaGetFramebuffer i 0) (vgaGetFramebuffer (i + 1) 0) colSize) := by
  refine ⟨_, dif_pos ?_, rfl⟩
  unfold vgaGetFramebuffer
  unfold lineSize colSize at *
  rw [if_neg (by omega), if_neg (by omega)]
  omega

theorem scrollLine_keeps (s : VgaText) : s.KeepsCursor s.scrollLine := by
  refine KeepsCursor.bind (keepsCursor_foldlM (fun i hi s => ?_) s) fun s _ => ?_
  · have hline := List.mem_range.mp hi
    refine KeepsCursor.bind (s.moveCells_keeps hline) fun s _ => ?_
    obtain ⟨column, hcolumn⟩ := s.lastColumn_eq (show i + 1 < lineSize by omega)
    rw [hcolumn]
    exact s.setLastColumn_keeps (by omega) column
  · exact s.setLastColumn_keeps (by decide) 0

/-! ## Calls that fit -/

theorem vgaPutCursorAt_eq (s : VgaText) (hline : line ≤ lineSize) (hcolumn : column ≤ colSize) :
    (s.vgaPutCursorAt line column).screenCursor = ⟨column, line⟩ := by
  unfold vgaPutCursorAt
  rw [if_neg (by omega)]

/-- Where a scroll leaves the cursor. -/
theorem vgaScroll_eq (s : VgaText) (direction : ScrollDirection) (linesCount : ℕ) :
    ∃ s', s.vgaScroll direction linesCount = some s' ∧ s'.screenCursor = ⟨0, lineSize - min linesCount lineSize⟩ := by
  have hscrolled : ∀ n, s.KeepsCursor (if direction = .down then
      ((List.range n).foldlM (fun (s : VgaText) _ => s.scrollLine) s).bind fun s =>
        (List.range colSize).foldlM (fun s i => s.vgaPrintChar (lineSize - 1) i 0x20) s
    else some s) := by
    intro n
    split_ifs
    · refine KeepsCursor.bind (keepsCursor_foldlM (fun _ _ s => s.scrollLine_keeps) s) fun s _ => ?_
      exact keepsCursor_foldlM (fun i _ s => vgaPrintChar_keeps ..) s
    · exact ⟨s, rfl, rfl⟩
  have hmin : (if lineSize < linesCount then lineSize else linesCount) = min linesCount lineSize := by
    split_ifs <;> omega
  obtain ⟨s1, h1, -⟩ := hscrolled (min linesCount lineSize)
  unfold vgaScroll
  dsimp only
  rw [hmin, h1]
  exact ⟨_, rfl, s1.vgaPutCursorAt_eq (Nat.sub_le ..) (Nat.zero_le _)⟩

theorem vgaScroll_ends (s : VgaText) (direction : ScrollDirection) {linesCount : ℕ} (hpos : 0 < linesCount) :
    EndsInside (s.vgaScroll direction linesCount) := by
  obtain ⟨s', hcall, hcursor⟩ := s.vgaScroll_eq direction linesCount
  refine ⟨s', hcall, ?_⟩
  unfold Inside
  rw [hcursor]
  dsimp only
  unfold lineSize
  omega

theorem KeepsCursor.ends {r : Option VgaText} (hr : s.KeepsCursor r) (hs : s.Inside) : EndsInside r := by
  obtain ⟨s', h, hsame⟩ := hr
  refine ⟨s', h, ?_⟩
  unfold Inside at hs ⊢
  rw [hsame]
  exact hs

/-- The cursor is put on the screen, and its column is noted. -/
theorem noteColumn_eq (s : VgaText) (hline : line < lineSize) (hcolumn : column ≤ colSize) :
    ∃ s', (s.vgaPutCursorAt line column).noteColumn = some s' ∧ s'.screenCursor = ⟨column, line⟩ := by
  have hcursor := s.vgaPutCursorAt_eq hline.le hcolumn
  obtain ⟨s', hs', hsame⟩ := (s.vgaPutCursorAt line column).setLastColumn_keeps hline column
  refine ⟨s', ?_, hsame.trans hcursor⟩
  unfold noteColumn
  rw [hcursor]
  exact hs'

theorem noteColumn_ends (s : VgaText) (hline : line < lineSize) (hcolumn : column ≤ colSize) :
    EndsInside (s.vgaPutCursorAt line column).noteColumn := by
  obtain ⟨s', hs', hcursor⟩ := s.noteColumn_eq hline hcolumn
  refine ⟨s', hs', ?_⟩
  unfold Inside
  rw [hcursor]
  exact ⟨hline, hcolumn⟩

/-- The last part of `processPrintable`. -/
theorem printed_ends (hline : s.screenCursor.y < lineSize) (hcolumn : s.screenCursor.x < colSize) :
    EndsInside ((s.vgaPrintChar s.screenCursor.y s.screenCursor.x character).map fun s =>
      { s with screenCursor := { s.screenCursor with x := s.screenCursor.x + 1 } }) := by
  obtain ⟨s1, h1, hsame⟩ := s.vgaPrintChar_keeps s.screenCursor.y s.screenCursor.x character
  rw [h1]
  refine ⟨_, rfl, ?_⟩
  unfold Inside
  dsimp only
  rw [hsame]
  exact ⟨hline, hcolumn⟩

theorem processPrintable_ends (hs : s.Inside)
    (hfits : ¬(s.screenCursor.y = lineSize - 1 ∧ s.screenCursor.x = colSize)) : EndsInside (s.processPrintable character) := by
  obtain ⟨hline, hcolumn⟩ := hs
  have hlines : lineSize = 25 := rfl
  have hcols : colSize = 80 := rfl
  unfold processPrintable
  dsimp only
  by_cases hwrap : colSize - 1 < s.screenCursor.x
  · have hbelow : s.screenCursor.y + 1 < lineSize := by omega
    obtain ⟨s1, h1, hcursor1⟩ := s.noteColumn_eq hbelow (Nat.zero_le colSize)
    obtain ⟨s2, h2, hcursor2⟩ := s1.noteColumn_eq hbelow (Nat.zero_le colSize)
    rw [if_pos hwrap, h1, Option.bind_some, hcursor1]
    dsimp only
    rw [if_neg (by omega), h2, Option.bind_some]
    refine printed_ends ?_ ?_ <;> rw [hcursor2]
    · change s.screenCursor.y + 1 < lineSize
      omega
    · change 0 < colSize
      omega
  · obtain ⟨s1, h1, hcursor1⟩ := s.noteColumn_eq hline hcolumn
    rw [if_neg hwrap, Option.bind_some, if_neg (by omega), h1, Option.bind_some]
    refine printed_ends ?_ ?_ <;> rw [hcursor1]
    · exact hline
    · change s.screenCursor.x < colSize
      omega

theorem stepBack_ends (hs : s.Inside) : EndsInside s.stepBack := by
  obtain ⟨hline, hcolumn⟩ := hs
  obtain ⟨s1, h1, hinside⟩ := s.noteColumn_ends hline ((Nat.sub_le s.screenCursor.x 1).trans hcolumn)
  unfold stepBack
  rw [h1, Option.bind_some]
  exact (s1.vgaPrintChar_keeps ..).ends hinside

theorem lineBack_ends (hs : s.Inside) : EndsInside s.lineBack := by
  obtain ⟨hline, hcolumn⟩ := hs
  have habove : s.screenCursor.y - 1 < lineSize := by omega
  obtain ⟨column, hcol⟩ := s.lastColumn_eq habove
  unfold lineBack
  rw [hcol, Option.bind_some]
  dsimp only
  -- the column that is noted then is on the screen
  obtain ⟨s1, column1, h1, hcol1, hle, hcursor⟩ : ∃ s1 column1,
      (if colSize ≤ column then s.setLastColumn (s.screenCursor.y - 1) (colSize - 1) else some s) = some s1 ∧
        s1.lastColumn (s.screenCursor.y - 1) = some column1 ∧ column1 ≤ colSize ∧ s1.screenCursor = s.screenCursor := by
    by_cases hlarge : colSize ≤ column
    · rw [if_pos hlarge]
      refine ⟨_, _, dif_pos habove, dif_pos habove, ?_, rfl⟩
      change Function.update s.lastColumns ⟨s.screenCursor.y - 1, habove⟩ ((colSize - 1) % 2 ^ 8) _ ≤ colSize
      rw [Function.update_self]
      decide
    · rw [if_neg hlarge]
      exact ⟨s, column, rfl, hcol, by omega, rfl⟩
  rw [h1, Option.bind_some, hcursor, hcol1, Option.bind_some]
  refine (vgaPrintChar_keeps ..).ends ?_
  unfold Inside
  rw [s1.vgaPutCursorAt_eq habove.le hle]
  exact ⟨habove, hle⟩

theorem processBackspace_ends (hs : s.Inside) : EndsInside s.processBackspace := by
  unfold processBackspace
  split_ifs
  · exact stepBack_ends hs
  · exact ⟨s, rfl, hs⟩
  · exact stepBack_ends hs
  · exact lineBack_ends hs
  · exact ⟨s, rfl, hs⟩

theorem processTab_ends (hs : s.Inside) : EndsInside s.processTab := by
  unfold processTab
  split_ifs with htab
  · refine s.noteColumn_ends hs.1 ?_
    unfold colSize at *
    omega
  · exact s.noteColumn_ends hs.1 (Nat.sub_le ..)

theorem processLineFeed_ends (s : VgaText) : EndsInside s.processLineFeed := by
  unfold processLineFeed
  split_ifs with hline
  · exact s.noteColumn_ends (by omega) (Nat.zero_le _)
  · exact s.vgaScroll_ends .down Nat.one_pos

/-- A character that fits leaves the cursor on the screen. -/
theorem vgaProcessChar_ends (hs : s.Inside) (hfits : s.CharFits character) : EndsInside (s.vgaProcessChar character) := by
  unfold vgaProcessChar
  split_ifs with hprintable
  · exact processPrintable_ends hs fun hlast => hfits ⟨hprintable, hlast⟩
  · exact processBackspace_ends hs
  · exact processTab_ends hs
  · exact s.processLineFeed_ends
  · exact s.vgaClearScreen_keeps.ends hs
  · exact s.noteColumn_ends hs.1 (Nat.zero_le _)
  · exact ⟨s, rfl, hs⟩

/-- The wrap behind the last line notes a column outside of the array. -/
theorem vgaProcessChar_none (hnot : ¬s.CharFits character) : s.vgaProcessChar character = none := by
  obtain ⟨hprintable, hline, hcolumn⟩ := not_not.mp hnot
  have hcursor := s.vgaPutCursorAt_eq (show s.screenCursor.y + 1 ≤ lineSize by rw [hline]; decide) (Nat.zero_le colSize)
  have hnote : (s.vgaPutCursorAt (s.screenCursor.y + 1) 0).noteColumn = none := by
    unfold noteColumn
    rw [hcursor]
    refine dif_neg ?_
    rw [hline]
    decide
  unfold vgaProcessChar processPrintable
  rw [if_pos hprintable]
  dsimp only
  rw [if_pos (by rw [hcolumn]; decide), hnote]
  rfl

theorem vgaPutChar_ends (hs : s.Inside) (hfits : s.CharFits character) : EndsInside (s.vgaPutChar character) := by
  obtain ⟨s', h, hinside⟩ := vgaProcessChar_ends hs hfits
  unfold vgaPutChar
  rw [h]
  exact ⟨_, rfl, hinside⟩

theorem vgaPutChar_none (hnot : ¬s.CharFits character) : s.vgaPutChar character = none := by
  unfold vgaPutChar
  rw [vgaProcessChar_none hnot]
  rfl

/-! ## Strings -/

section
variable {put : VgaText → Byte → Option VgaText} {string : List Byte}

theorem string_ends (hput : ∀ s character, s.Inside → s.CharFits character → EndsInside (put s character))
    (hs : s.Inside) (hfits : StringFits put s string) : EndsInside (string.foldlM put s) := by
  induction string generalizing s with
  | nil => exact ⟨s, rfl, hs⟩
  | cons character string ih =>
    obtain ⟨hchar, hrest⟩ := hfits
    obtain ⟨s1, h1, hs1⟩ := hput s character hs hchar
    rw [List.foldlM_cons, h1]
    exact ih hs1 (hrest s1 h1)

theorem string_none (hput : ∀ s character, s.Inside → s.CharFits character → EndsInside (put s character))
    (hputs : ∀ s character, ¬s.CharFits character → put s character = none) (hs : s.Inside)
    (hnot : ¬StringFits put s string) : string.foldlM put s = none := by
  induction string generalizing s with
  | nil => exact absurd trivial hnot
  | cons character string ih =>
    rw [List.foldlM_cons]
    by_cases hchar : s.CharFits character
    · obtain ⟨s1, h1, hs1⟩ := hput s character hs hchar
      rw [h1]
      refine ih hs1 fun hrest => hnot ⟨hchar, fun s2 h2 => ?_⟩
      obtain rfl := Option.some.inj (h1.symm.trans h2)
      exact hrest
    · rw [hputs s character hchar]
      rfl

end

/-! ## Calls -/

/-- A call that fits leaves the cursor on the screen. -/
theorem exec_ends (hs : s.Inside) {call : VgaCall} (hfits : s.CallFits call) : EndsInside (s.exec call) := by
  cases call with
  | clearScreen => exact s.vgaClearScreen_keeps.ends hs
  | putCursorAt line column =>
    refine ⟨_, rfl, ?_⟩
    unfold Inside vgaPutCursorAt
    split_ifs with hbad
    · exact hs
    · have hne : ¬(line = lineSize ∧ column ≤ colSize) := hfits
      exact ⟨by dsimp only; omega, by dsimp only; omega⟩
  | saveCursor => exact ⟨s, rfl, hs⟩
  | restoreCursor buffer =>
    refine ⟨_, rfl, ?_⟩
    unfold vgaRestoreCursor
    split_ifs with hbad
    · exact hs
    · unfold Inside
      rw [s.vgaPutCursorAt_eq (by omega) (by omega)]
      exact ⟨by dsimp only; omega, by dsimp only; omega⟩
  | scroll direction linesCount => exact s.vgaScroll_ends direction hfits
  | setColorScheme colorScheme => exact ⟨_, rfl, hs⟩
  | saveColorScheme => exact ⟨s, rfl, hs⟩
  | putString string => exact string_ends (fun s c hs hc => vgaPutChar_ends hs hc) hs hfits
  | putChar character => exact vgaPutChar_ends hs hfits
  | consoleWriteKeyboard string => exact string_ends (fun s c hs hc => vgaProcessChar_ends hs hc) hs hfits

/-- A call that does not fit accesses something outside of an array or leaves the cursor off the screen. -/
theorem exec_leaves (hs : s.Inside) {call : VgaCall} (hnot : ¬s.CallFits call) : ¬EndsInside (s.exec call) := by
  rintro ⟨s', hcall, hinside⟩
  cases call with
  | clearScreen => exact hnot trivial
  | putCursorAt line column =>
    obtain ⟨rfl, hcolumn⟩ := not_not.mp hnot
    obtain rfl := Option.some.inj hcall
    unfold Inside at hinside
    rw [s.vgaPutCursorAt_eq le_rfl hcolumn] at hinside
    exact absurd hinside.1 (lt_irrefl _)
  | saveCursor => exact hnot trivial
  | restoreCursor buffer => exact hnot trivial
  | scroll direction linesCount =>
    obtain rfl := Nat.eq_zero_of_not_pos hnot
    obtain ⟨s1, h1, hcursor⟩ := s.vgaScroll_eq direction 0
    obtain rfl := Option.some.inj (h1.symm.trans hcall)
    unfold Inside at hinside
    rw [hcursor] at hinside
    exact absurd hinside.1 (by decide)
  | setColorScheme colorScheme => exact hnot trivial
  | saveColorScheme => exact hnot trivial
  | putString string =>
    have hnone := string_none (fun s c hs hc => vgaPutChar_ends hs hc) (fun s c hc => vgaPutChar_none hc) hs hnot
    exact nomatch hnone.symm.trans hcall
  | putChar character => exact nomatch (vgaPutChar_none hnot).symm.trans hcall
  | consoleWriteKeyboard string =>
    have hnone := string_none (fun s c hs hc => vgaProcessChar_ends hs hc) (fun s c hc => vgaProcessChar_none hc) hs hnot
    exact nomatch hnone.symm.trans hcall

/-! ## Runs -/

theorem staysInside_cons {call : VgaCall} {calls : List VgaCall} (hs : s.Inside) : s.StaysInside (call :: calls) ↔
    ∃ s', s.exec call = some s' ∧ s'.Inside ∧ s'.StaysInside calls := by
  constructor
  · intro hstays
    obtain ⟨s1, h1, hs1⟩ := hstays [call] (List.prefix_iff_eq_take.mpr rfl)
    have hexec : s.exec call = some s1 := by
      rw [runActs] at h1
      obtain ⟨s2, h2, h3⟩ := Option.bind_eq_some_iff.mp h1
      obtain rfl := Option.some.inj h3
      exact h2
    refine ⟨s1, hexec, hs1, fun front hfront => ?_⟩
    obtain ⟨s2, h2, hs2⟩ := hstays (call :: front) (List.cons_prefix_cons.mpr ⟨rfl, hfront⟩)
    rw [runActs, hexec] at h2
    exact ⟨s2, h2, hs2⟩
  · rintro ⟨s1, hexec, hs1, hstays⟩ front hfront
    cases front with
    | nil => exact ⟨s, rfl, hs⟩
    | cons call' front =>
      obtain ⟨rfl, hrest⟩ := List.cons_prefix_cons.mp hfront
      obtain ⟨s2, h2, hs2⟩ := hstays front hrest
      refine ⟨s2, ?_, hs2⟩
      rw [runActs, hexec]
      exact h2

theorem staysInside_of_inside (hs : s.Inside) (calls : List VgaCall) : s.StaysInside calls ↔ s.CallsFit calls := by
  induction calls generalizing s with
  | nil =>
    refine iff_of_true (fun front hfront => ⟨s, ?_, hs⟩) trivial
    rw [List.prefix_nil.mp hfront]
    rfl
  | cons call calls ih =>
    rw [staysInside_cons hs]
    constructor
    · rintro ⟨s1, hexec, hs1, hstays⟩
      refine ⟨?_, fun s2 h2 => ?_⟩
      · by_contra hnot
        exact exec_leaves hs hnot ⟨s1, hexec, hs1⟩
      · obtain rfl := Option.some.inj (hexec.symm.trans h2)
        exact (ih hs1).mp hstays
    · rintro ⟨hfits, hrest⟩
      obtain ⟨s1, hexec, hs1⟩ := exec_ends hs hfits
      exact ⟨s1, hexec, hs1, (ih hs1).mpr (hrest s1 hexec)⟩

theorem initial_inside (framebuffer : Fin (lineSize * colSize) → BitVec 16) : (initial framebuffer).Inside :=
  ⟨Nat.zero_lt_succ 24, Nat.zero_le _⟩

/-- From its start on, the console stays on the screen exactly as long as each call fits. -/
theorem staysInside_iff (framebuffer : Fin (lineSize * colSize) → BitVec 16) (calls : List VgaCall) :
    (initial framebuffer).StaysInside calls ↔ (initial framebuffer).CallsFit calls :=
  staysInside_of_inside (initial_inside framebuffer) calls

/-- The cursor is put in the line behind the last one. -/
theorem staysInside_behind : ¬(initial fun _ => 0).StaysInside [.putCursorAt 25 0] := by
  intro hstays
  obtain ⟨s', hrun, hinside⟩ := hstays _ List.prefix_rfl
  obtain rfl := Option.some.inj hrun
  exact absurd hinside.1 (by decide)

end VgaText
end UtkKernel.Console
