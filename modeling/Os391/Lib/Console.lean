/-
The text screen of `lib.c`: video memory, the cursor `screen_x`/`screen_y` and the character
output on them, with `set_cursor`, the scrolling and `write_helper` of `terminal.c`.
-/
import Os391.Lib.Str

namespace Os391

open Bytes

/-- `NUM_COLS`, `WIDTH`. -/
def numCols : Int := 80
/-- `NUM_ROWS`, `HEIGHT`. -/
def numRows : Int := 25
/-- `ATTRIB`. -/
def attrib : UInt8 := 0x7

/-- Video memory from `VIDEO` on, by byte offset, and the cursor. -/
structure Console where
  video : Mem
  screenX : Int
  screenY : Int

namespace Console

/-- The byte offset of a cell. -/
def cell (x y : Int) : Int := (numCols * y + x) * 2

/-- `get_char`. -/
def getChar (c : Console) (x y : Int) : UInt8 := c.video (cell x y)

/-- `set_cursor`; the writes to the VGA ports only move the blinking cursor. -/
def setCursor (c : Console) (x y : Int) : Console := { c with screenX := x, screenY := y }

/-- `setx`. -/
def setx (c : Console) (x : Int) : Console := { c with screenX := x }

/-- `clear`: every cell of the screen a space. -/
def clear (c : Console) : Console :=
  { c with video := fun a =>
      if 0 ≤ a ∧ a < numRows * numCols * 2 then (if a % 2 = 0 then 32 else attrib) else c.video a }

/-- `putc`. C's `%` and `/` truncate. -/
def putc (c : Console) (ch : UInt8) : Console :=
  if ch = 10 ∨ ch = 13 then { c with screenY := c.screenY + 1, screenX := 0 }
  else
    let p := cell c.screenX c.screenY
    let x := (c.screenX + 1).tmod numCols
    { video := fun a => if a = p then ch else if a = p + 1 then attrib else c.video a
      screenX := x
      screenY := (c.screenY + x.tdiv numCols).tmod numRows }

/-- `printf` and `puts` of a text without conversions. -/
def puts (c : Console) (text : List UInt8) : Console := text.foldl putc c

/-- The inner loops that put saved rows back one line higher: rows `1..24` of `hist`, each from
the start of the row above it. -/
def putRows (c : Console) (hist : Int → Int → UInt8) : Console :=
  (List.range 24).foldl (fun c (i : Nat) =>
    (List.range 80).foldl (fun c (j : Nat) => c.putc (hist j (i + 1))) (c.setCursor 0 i)) c

/-- The scroll of `keyboard_read`: the display saved, cleared and put back one row up. -/
def scrollUp (c : Console) : Console := c.clear.putRows fun x y => c.getChar x y

/-- The scroll of `write_helper`: the last row is saved as blanks and nothing is cleared. -/
def scrollText (c : Console) : Console :=
  (c.putRows fun x y => if y ≥ numRows - 1 then 32 else c.getChar x y).setCursor 0 (numRows - 2)

/-- One turn of the loop of `write_helper` at character `k` of the text; whether it scrolled. -/
def writeChar (text : Buf) (k : Nat) (c : Console) : Console × Bool :=
  let scrolls := c.screenY ≥ numRows - 1
  let x := c.screenX
  let c := if scrolls then c.scrollText else c
  let c :=
    if text k = 0 then c
    else if text k = 10 then c.setCursor 0 (c.screenY + 1)
    else c.putc (text k)
  (if x = numCols ∧ text (k + 1) ≠ 10 then c.putc 10 else c, scrolls)

/-- The loop of `write_helper` over `n` characters from `k` on; whether any turn scrolled. -/
def writeLoop (text : Buf) : Nat → Nat → Console × Bool → Console × Bool
  | _, 0, r => r
  | k, n + 1, (c, scrolled) =>
    let r := writeChar text k c
    writeLoop text (k + 1) n (r.1, scrolled || r.2)

/-- `write_helper` with a non-NULL text and `length ≥ 0`. It returns `i + 1`, where `i` is only
assigned by the scrolling loops: `none` when the text never scrolled. -/
def writeHelper (c : Console) (text : Buf) (length : Nat) : Option Int × Console :=
  let r := writeLoop text 0 length (c, false)
  (if r.2 then some (numRows + 1) else none, r.1.setCursor r.1.screenX r.1.screenY)

end Console

end Os391
