import Mathlib.Logic.Function.Basic
import UtkKernel.Foundations.CStrings

/-! # The VGA text console (`arch/board/x86/src/vga_text.c`)

The arrays of the driver are functions on their indices; a call gives `none` where it accesses one of them outside of
its bounds. Of the frame buffer only the cells of the screen are here. What is sent to the ports of the display is left
out. -/

namespace UtkKernel.Console
open Foundations
set_option autoImplicit false

/-- `VGA_TEXT_SCREEN_COL_SIZE` -/
def colSize : ℕ := 80

/-- `VGA_TEXT_SCREEN_LINE_SIZE` -/
def lineSize : ℕ := 25

/-- `SCROLL_DIRECTION_E` -/
inductive ScrollDirection where
  | down
  | up
  deriving DecidableEq, Repr

/-- `cursor_t` -/
structure Cursor where
  x : ℕ
  y : ℕ
  deriving DecidableEq, Repr

/-- `colorscheme_t` -/
structure Colorscheme where
  foreground : BitVec 32
  background : BitVec 32

/-- The static variables of the driver. -/
structure VgaText where
  screenScheme : Colorscheme
  screenCursor : Cursor
  lastPrintedCursor : Cursor
  lastColumns : Fin lineSize → ℕ
  framebuffer : Fin (lineSize * colSize) → BitVec 16

namespace VgaText

/-! ## Arrays -/

def lastColumn (s : VgaText) (line : ℕ) : Option ℕ :=
  if h : line < lineSize then some (s.lastColumns ⟨line, h⟩) else none

/-- A column is stored in a byte. -/
def setLastColumn (s : VgaText) (line column : ℕ) : Option VgaText :=
  if h : line < lineSize then
    some { s with lastColumns := Function.update s.lastColumns ⟨line, h⟩ (column % 2 ^ 8) }
  else none

def storeCell (s : VgaText) (cell : ℕ) (value : BitVec 16) : Option VgaText :=
  if h : cell < lineSize * colSize then
    some { s with framebuffer := Function.update s.framebuffer ⟨cell, h⟩ value }
  else none

/-- `memmove` of cells of the frame buffer -/
def moveCells (s : VgaText) (dst src n : ℕ) : Option VgaText :=
  if h : dst + n ≤ lineSize * colSize ∧ src + n ≤ lineSize * colSize then
    some { s with framebuffer := fun cell =>
      if hc : dst ≤ cell.val ∧ cell.val < dst + n then s.framebuffer ⟨src + (cell.val - dst), by omega⟩
      else s.framebuffer cell }
  else none

/-! ## Functions -/

/-- `vga_get_framebuffer`: the number of the cell. -/
def vgaGetFramebuffer (line column : ℕ) : ℕ :=
  if lineSize - 1 < line ∨ colSize - 1 < column then 0 else column + line * colSize

/-- A character in the colors of the screen. -/
def colored (s : VgaText) (character : Byte) : BitVec 16 :=
  character.setWidth 16 ||| ((s.screenScheme.background <<< 8) &&& 0xF000#32).setWidth 16 |||
    ((s.screenScheme.foreground <<< 8) &&& 0x0F00#32).setWidth 16

/-- `vga_print_char` -/
def vgaPrintChar (s : VgaText) (line column : ℕ) (character : Byte) : Option VgaText :=
  if lineSize - 1 < line ∨ colSize - 1 < column then some s
  else s.storeCell (vgaGetFramebuffer line column) (s.colored character)

/-- `vga_put_cursor_at` -/
def vgaPutCursorAt (s : VgaText) (line column : ℕ) : VgaText :=
  if colSize < column ∨ lineSize < line then s else { s with screenCursor := ⟨column, line⟩ }

/-- `vga_clear_screen` -/
def vgaClearScreen (s : VgaText) : Option VgaText :=
  (List.range lineSize).foldlM (fun s i =>
    ((List.range colSize).foldlM (fun (s : VgaText) j => s.storeCell (vgaGetFramebuffer i j) (s.colored 0x20)) s).bind
      fun s => s.setLastColumn i 0) s

/-- One line of a scroll: every line is copied to the one above. -/
def scrollLine (s : VgaText) : Option VgaText :=
  ((List.range (lineSize - 1)).foldlM (fun (s : VgaText) i =>
    (s.moveCells (vgaGetFramebuffer i 0) (vgaGetFramebuffer (i + 1) 0) colSize).bind fun s =>
      (s.lastColumn (i + 1)).bind fun column => s.setLastColumn i column) s).bind
    fun s => s.setLastColumn (lineSize - 1) 0

/-- `vga_scroll` -/
def vgaScroll (s : VgaText) (direction : ScrollDirection) (linesCount : ℕ) : Option VgaText :=
  let toScroll := if lineSize < linesCount then lineSize else linesCount
  let scrolled :=
    if direction = .down then
      ((List.range toScroll).foldlM (fun (s : VgaText) _ => s.scrollLine) s).bind fun s =>
        (List.range colSize).foldlM (fun s i => s.vgaPrintChar (lineSize - 1) i 0x20) s
    else some s
  scrolled.map fun s =>
    let s := s.vgaPutCursorAt (lineSize - toScroll) 0
    { s with lastPrintedCursor :=
      if toScroll ≤ s.lastPrintedCursor.y then { s.lastPrintedCursor with y := s.lastPrintedCursor.y - toScroll }
      else ⟨0, 0⟩ }

/-- The column of the cursor is the last one of its line. -/
def noteColumn (s : VgaText) : Option VgaText := s.setLastColumn s.screenCursor.y s.screenCursor.x

/-- A character that can be displayed, in `vga_process_char`. -/
def processPrintable (s : VgaText) (character : Byte) : Option VgaText :=
  let wrapped :=
    if colSize - 1 < s.screenCursor.x then (s.vgaPutCursorAt (s.screenCursor.y + 1) 0).noteColumn else some s
  wrapped.bind fun s =>
    let placed :=
      if lineSize ≤ s.screenCursor.y then s.vgaScroll .down 1
      else (s.vgaPutCursorAt s.screenCursor.y s.screenCursor.x).noteColumn
    placed.bind fun s =>
      (s.vgaPrintChar s.screenCursor.y s.screenCursor.x character).map fun s =>
        { s with screenCursor := { s.screenCursor with x := s.screenCursor.x + 1 } }

/-- The cursor goes back by one column. -/
def stepBack (s : VgaText) : Option VgaText :=
  (s.vgaPutCursorAt s.screenCursor.y (s.screenCursor.x - 1)).noteColumn.bind fun s =>
    s.vgaPrintChar s.screenCursor.y s.screenCursor.x 0x20

/-- The cursor goes back to the end of the line above. -/
def lineBack (s : VgaText) : Option VgaText :=
  (s.lastColumn (s.screenCursor.y - 1)).bind fun column =>
    let cut := if colSize ≤ column then s.setLastColumn (s.screenCursor.y - 1) (colSize - 1) else some s
    cut.bind fun s =>
      (s.lastColumn (s.screenCursor.y - 1)).bind fun column =>
        let s := s.vgaPutCursorAt (s.screenCursor.y - 1) column
        s.vgaPrintChar s.screenCursor.y s.screenCursor.x 0x20

/-- `'\b'`; nothing goes back behind what was printed last. -/
def processBackspace (s : VgaText) : Option VgaText :=
  if s.lastPrintedCursor.y = s.screenCursor.y then
    if s.lastPrintedCursor.x < s.screenCursor.x then s.stepBack else some s
  else if s.lastPrintedCursor.y < s.screenCursor.y then
    if 0 < s.screenCursor.x then s.stepBack else s.lineBack
  else some s

/-- `'\t'` -/
def processTab (s : VgaText) : Option VgaText :=
  if s.screenCursor.x + 8 < colSize - 1 then
    (s.vgaPutCursorAt s.screenCursor.y (s.screenCursor.x + (8 - s.screenCursor.x % 8))).noteColumn
  else (s.vgaPutCursorAt s.screenCursor.y (colSize - 1)).noteColumn

/-- `'\n'` -/
def processLineFeed (s : VgaText) : Option VgaText :=
  if s.screenCursor.y < lineSize - 1 then (s.vgaPutCursorAt (s.screenCursor.y + 1) 0).noteColumn
  else s.vgaScroll .down 1

/-- Can the character be displayed? A `char` is signed. -/
def IsPrintable (character : Byte) : Prop := 31 < character.toNat ∧ character.toNat < 127

instance (character : Byte) : Decidable (IsPrintable character) := inferInstanceAs (Decidable (_ ∧ _))

/-- `vga_process_char` -/
def vgaProcessChar (s : VgaText) (character : Byte) : Option VgaText :=
  if IsPrintable character then s.processPrintable character
  else if character = 0x08 then s.processBackspace
  else if character = 0x09 then s.processTab
  else if character = 0x0A then s.processLineFeed
  else if character = 0x0C then s.vgaClearScreen
  else if character = 0x0D then (s.vgaPutCursorAt s.screenCursor.y 0).noteColumn
  else some s

/-- `vga_put_char` -/
def vgaPutChar (s : VgaText) (character : Byte) : Option VgaText :=
  (s.vgaProcessChar character).map fun s => { s with lastPrintedCursor := s.screenCursor }

/-- `vga_put_string` -/
def vgaPutString (s : VgaText) (string : List Byte) : Option VgaText := string.foldlM vgaPutChar s

/-- `vga_console_write_keyboard` -/
def vgaConsoleWriteKeyboard (s : VgaText) (string : List Byte) : Option VgaText := string.foldlM vgaProcessChar s

/-- `vga_restore_cursor` -/
def vgaRestoreCursor (s : VgaText) (buffer : Cursor) : VgaText :=
  if colSize ≤ buffer.x ∨ lineSize ≤ buffer.y then s else s.vgaPutCursorAt buffer.y buffer.x

end VgaText

/-! ## The console -/

/-- The calls of the driver. `vga_save_cursor` and `vga_save_color_scheme` only copy what they save. -/
inductive VgaCall where
  | clearScreen
  | putCursorAt (line column : ℕ)
  | saveCursor
  | restoreCursor (buffer : Cursor)
  | scroll (direction : ScrollDirection) (linesCount : ℕ)
  | setColorScheme (colorScheme : Colorscheme)
  | saveColorScheme
  | putString (string : List Byte)
  | putChar (character : Byte)
  | consoleWriteKeyboard (string : List Byte)

/-- A call of the driver. -/
def VgaText.exec (s : VgaText) : VgaCall → Option VgaText
  | .clearScreen => s.vgaClearScreen
  | .putCursorAt line column => some (s.vgaPutCursorAt line column)
  | .saveCursor => some s
  | .restoreCursor buffer => some (s.vgaRestoreCursor buffer)
  | .scroll direction linesCount => s.vgaScroll direction linesCount
  | .setColorScheme colorScheme => some { s with screenScheme := colorScheme }
  | .saveColorScheme => some s
  | .putString string => s.vgaPutString string
  | .putChar character => s.vgaPutChar character
  | .consoleWriteKeyboard string => s.vgaConsoleWriteKeyboard string

end UtkKernel.Console
