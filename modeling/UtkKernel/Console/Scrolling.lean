import UtkKernel.Console.Bounds
import UtkKernel.Foundations.Shifts

/-! # What a scroll shows

A scroll copies every line over the one above, as often as there are lines to scroll, and clears the last line once,
when it is done. The last line is dragged up with the others until then, so that it stands in more places than one; a
scroll by no line clears it too. The columns that are noted for the lines do move as they should: the last one is set to
zero in every turn. -/

namespace UtkKernel.Console
open Foundations
set_option autoImplicit false

namespace VgaText

/-- The characters of the screen by lines and columns. -/
def rows (s : VgaText) : Fin lineSize → Fin colSize → BitVec 16 := fun line column =>
  s.framebuffer ⟨column + line * colSize, by
    have hline := line.isLt
    have hcolumn := column.isLt
    unfold lineSize colSize at *
    omega⟩

/-- A line of `blank` of `vga_clear_screen` -/
def blankRow (s : VgaText) : Fin colSize → BitVec 16 := fun _ => s.colored 0x20

def lastLine : Fin lineSize := ⟨lineSize - 1, by decide⟩

/-- The lines went up by so many lines with the columns noted for them, and blank ones follow. -/
structure ScrolledBy (n : ℕ) (s s' : VgaText) : Prop where
  rows : s'.rows = shifted s.rows n s.blankRow
  columns : s'.lastColumns = shifted s.lastColumns n 0

/-- A scroll downwards shifts the screen. -/
def ScrollsDown (s : VgaText) (linesCount : ℕ) : Prop :=
  ∃ s', s.vgaScroll .down linesCount = some s' ∧ ScrolledBy linesCount s s'

/-- The columns that are noted are bytes. -/
def HoldsBytes (s : VgaText) : Prop := ∀ line, s.lastColumns line < 2 ^ 8

/-! ## Single writes -/

/-- The state has these lines and columns, and the colors of `s0`. -/
structure Shows (s0 : VgaText) (r : Fin lineSize → Fin colSize → BitVec 16) (columns : Fin lineSize → ℕ)
    (s : VgaText) : Prop where
  scheme : s.screenScheme = s0.screenScheme
  rows : s.rows = r
  columns : s.lastColumns = columns

variable {s0 s : VgaText} {r : Fin lineSize → Fin colSize → BitVec 16} {columns : Fin lineSize → ℕ} {i n column : ℕ}

theorem Shows.refl (s : VgaText) : Shows s s.rows s.lastColumns s := ⟨rfl, rfl, rfl⟩

theorem Shows.colored (h : Shows s0 r columns s) (character : Byte) : s.colored character = s0.colored character := by
  simp only [VgaText.colored, h.scheme]

theorem vgaGetFramebuffer_eq (hline : i < lineSize) (hcolumn : column < colSize) :
    vgaGetFramebuffer i column = column + i * colSize := by
  unfold vgaGetFramebuffer
  rw [if_neg (by omega)]

theorem Shows.setLastColumn (h : Shows s0 r columns s) (hi : i < lineSize) (hbyte : column < 2 ^ 8) :
    ∃ s', s.setLastColumn i column = some s' ∧ Shows s0 r (Function.update columns ⟨i, hi⟩ column) s' := by
  refine ⟨_, dif_pos hi, h.scheme, h.rows, ?_⟩
  simp only [h.columns, Nat.mod_eq_of_lt hbyte]

/-- A line is copied to the one above. -/
theorem Shows.moveCells (h : Shows s0 r columns s) (hi : i + 1 < lineSize) :
    ∃ s', s.moveCells (vgaGetFramebuffer i 0) (vgaGetFramebuffer (i + 1) 0) colSize = some s' ∧
      Shows s0 (Function.update r ⟨i, by omega⟩ (r ⟨i + 1, hi⟩)) columns s' := by
  have hzero : 0 < colSize := by decide
  rw [vgaGetFramebuffer_eq (by omega) hzero, vgaGetFramebuffer_eq hi hzero]
  unfold VgaText.moveCells
  rw [dif_pos (by unfold lineSize colSize at *; omega)]
  refine ⟨_, rfl, h.scheme, ?_, h.columns⟩
  obtain rfl := h.rows
  funext line column
  have hcolumn : column.val < 80 := column.isLt
  obtain rfl | hne := eq_or_ne line ⟨i, by omega⟩
  · rw [Function.update_self]
    simp only [VgaText.rows]
    rw [dif_pos (by unfold colSize; omega)]
    congr 2
    unfold colSize
    omega
  · have hval : line.val ≠ i := fun hc => hne (Fin.ext hc)
    rw [Function.update_of_ne hne]
    simp only [VgaText.rows]
    rw [dif_neg (by unfold colSize; omega)]

/-- A character is printed in a cell of the screen. -/
theorem Shows.printChar (h : Shows s0 r columns s) (line : Fin lineSize) (column : Fin colSize) (character : Byte) :
    ∃ s', s.vgaPrintChar line column character = some s' ∧
      Shows s0 (Function.update r line (Function.update (r line) column (s0.colored character))) columns s' := by
  have hline : line.val < 25 := line.isLt
  have hcolumn : column.val < 80 := column.isLt
  unfold vgaPrintChar
  rw [if_neg (by unfold lineSize colSize; omega), vgaGetFramebuffer_eq line.isLt column.isLt]
  unfold storeCell
  rw [dif_pos (by unfold lineSize colSize; omega)]
  refine ⟨_, rfl, h.scheme, ?_, h.columns⟩
  rw [h.colored]
  obtain rfl := h.rows
  funext line' column'
  have hline' : line'.val < 25 := line'.isLt
  have hcolumn' : column'.val < 80 := column'.isLt
  simp only [VgaText.rows, Function.update_apply, Fin.mk.injEq]
  by_cases hcell : line' = line
  · subst hcell
    by_cases hsame : column' = column
    · simp [hsame]
    · have hval : column'.val ≠ column.val := fun hc => hsame (Fin.ext hc)
      simp [hsame, hval, VgaText.rows]
  · have hval : line'.val ≠ line.val := fun hc => hcell (Fin.ext hc)
    have hne : column'.val + line'.val * colSize ≠ column.val + line.val * colSize := by
      unfold colSize
      omega
    simp [hcell, hne, VgaText.rows]

/-! ## Loops -/

/-- One line of a scroll. -/
theorem Shows.scrollLine (h : Shows s0 r columns s) (hbytes : ∀ line, columns line < 2 ^ 8) :
    ∃ s', s.scrollLine = some s' ∧ Shows s0 (dragged r 1) (shifted columns 1 0) s' := by
  have hlines : 0 < lineSize := by decide
  obtain ⟨s1, h1, hs1⟩ := foldlM_range (fun j => Shows s0 (pulled r j) (pulled columns j)) (n := lineSize - 1)
    (f := fun (s : VgaText) i => (s.moveCells (vgaGetFramebuffer i 0) (vgaGetFramebuffer (i + 1) 0) colSize).bind
      fun s => (s.lastColumn (i + 1)).bind fun column => s.setLastColumn i column)
    (fun j hj s hs => by
      have hnext : j + 1 < lineSize := by omega
      obtain ⟨s1, h1, hs1⟩ := hs.moveCells hnext
      have hlast : s1.lastColumn (j + 1) = some (pulled columns j ⟨j + 1, hnext⟩) := by
        unfold lastColumn
        rw [dif_pos hnext, hs1.columns]
      have hbyte : pulled columns j ⟨j + 1, hnext⟩ < 2 ^ 8 := by
        unfold pulled
        split_ifs <;> exact hbytes _
      obtain ⟨s2, h2, hs2⟩ := hs1.setLastColumn (i := j) (by omega) hbyte
      refine ⟨s2, by simp [h1, hlast, h2], ?_⟩
      rwa [update_pulled r j hnext, update_pulled columns j hnext] at hs2)
    (s := s) (by simpa using h)
  rw [pulled_all, pulled_all] at hs1
  obtain ⟨s2, h2, hs2⟩ := hs1.setLastColumn (i := lineSize - 1) (by omega) (show 0 < 2 ^ 8 by decide)
  rw [update_dragged_one columns 0 hlines] at hs2
  refine ⟨s2, ?_, hs2⟩
  unfold VgaText.scrollLine
  rw [h1]
  exact h2

/-- The lines of a scroll, one after the other. -/
theorem Shows.scrollLines (hs : Shows s0 r columns s) (hbytes : ∀ line, columns line < 2 ^ 8) (n : ℕ) :
    ∃ s', (List.range n).foldlM (fun (s : VgaText) _ => s.scrollLine) s = some s' ∧
      Shows s0 (dragged r n) (shifted columns n 0) s' :=
  foldlM_range (fun j => Shows s0 (dragged r j) (shifted columns j 0))
    (fun j _ s1 hs1 => by
      have hmoved : ∀ line, shifted columns j 0 line < 2 ^ 8 := fun line => by
        unfold shifted
        split_ifs
        · exact hbytes _
        · decide
      obtain ⟨s2, h2, hs2⟩ := hs1.scrollLine hmoved
      refine ⟨s2, h2, ?_⟩
      rwa [dragged_dragged, shifted_shifted] at hs2)
    (by simpa using hs)

/-- The last line is cleared. -/
theorem Shows.clearLast (hs : Shows s0 r columns s) :
    ∃ s', (List.range colSize).foldlM (fun s i => s.vgaPrintChar (lineSize - 1) i 0x20) s = some s' ∧
      Shows s0 (Function.update r lastLine s0.blankRow) columns s' := by
  have hclear : ∀ j, (fun column : Fin colSize => if column.val < j + 1 then s0.colored 0x20 else r lastLine column) =
      fun column => if column.val = j then s0.colored 0x20 else
        if column.val < j then s0.colored 0x20 else r lastLine column := by
    intro j
    funext column
    split_ifs <;> first | rfl | omega
  obtain ⟨s1, h1, hs1⟩ := foldlM_range (n := colSize) (f := fun s i => vgaPrintChar s (lineSize - 1) i 0x20)
    (fun j => Shows s0 (Function.update r lastLine fun column =>
      if column.val < j then s0.colored 0x20 else r lastLine column) columns)
    (fun j hj s1 hs1 => by
      obtain ⟨s2, h2, hs2⟩ := hs1.printChar lastLine ⟨j, hj⟩ 0x20
      refine ⟨s2, h2, ?_⟩
      rw [Function.update_self, Function.update_idem] at hs2
      convert hs2 using 2
      rw [hclear]
      funext column
      simp [Function.update_apply, Fin.ext_iff])
    (s := s) (by simpa using hs)
  refine ⟨s1, h1, ?_⟩
  convert hs1 using 2
  funext column
  simp [blankRow]

/-! ## The scroll -/

/-- What a scroll downwards shows. -/
theorem vgaScroll_shows (hbytes : s.HoldsBytes) (linesCount : ℕ) : ∃ s', s.vgaScroll .down linesCount = some s' ∧
    s'.rows = Function.update (dragged s.rows linesCount) lastLine s.blankRow ∧
    s'.lastColumns = shifted s.lastColumns linesCount 0 := by
  obtain ⟨s1, h1, hs1⟩ := (Shows.refl s).scrollLines hbytes (min linesCount lineSize)
  obtain ⟨s2, h2, hs2⟩ := hs1.clearLast
  have hmin : (if lineSize < linesCount then lineSize else linesCount) = min linesCount lineSize := by
    split_ifs <;> omega
  have hput : ∀ line, (s2.vgaPutCursorAt line 0).rows = s2.rows ∧
      (s2.vgaPutCursorAt line 0).lastColumns = s2.lastColumns := fun line => by
    unfold vgaPutCursorAt
    split_ifs <;> exact ⟨rfl, rfl⟩
  unfold vgaScroll
  dsimp only
  rw [hmin, if_pos rfl, h1, Option.bind_some, h2]
  refine ⟨_, rfl, ?_, ?_⟩
  · rw [← dragged_min, ← hs2.rows]
    exact (hput _).1
  · rw [← shifted_min, ← hs2.columns]
    exact (hput _).2

end VgaText

end UtkKernel.Console
