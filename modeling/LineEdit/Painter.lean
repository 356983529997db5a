import LineEdit.Console

/-!
# Painting a line

The painter shows a line from an anchor cell on, over as many rows as it takes, and keeps a cell for
the cursor behind the last character. It scrolls the console when the rows do not fit, and knows how
far down it has ever painted, so that a shorter line leaves nothing of a longer one behind.

Columns and counts that do not fit the console's numbers are cut down to the largest one. The length
of a line that is left may be any number, and rows beyond the signed 64-bit numbers wrap around.
-/
namespace LineEdit

/-- Where the line is shown: from column `startX` of row `startY` on. The row is above the console,
and its number negative, once the console scrolled that far. Rows were painted down to
`lastPainted`. -/
structure Painter where
  startX : Nat
  startY : Int
  lastPainted : Int
deriving DecidableEq, Repr

def saturate (n : Nat) : UInt16 := UInt16.ofNat (min n 65535)

/-- The row as a console counts it. One above the console becomes the first row; nothing is painted
there for it, but the cursor may be put there. -/
def rowNumber (row : Int) : UInt16 := UInt16.ofNat row.toNat

namespace Painter

def origin : Painter := ⟨0, 0, 0⟩

def anchored (x y : UInt16) : Painter := ⟨x.toNat, y.toNat, y.toNat⟩

def fold (p : Painter) (width : Nat) : Painter :=
  if p.startX < width then p
  else ⟨p.startX % width, p.startY + (p.startX / width : Nat), p.lastPainted⟩

def shift (p : Painter) (rows : UInt16) : Painter :=
  ⟨p.startX, p.startY - rows.toNat, p.lastPainted - rows.toNat⟩

def rowCount (p : Painter) (width n : Nat) : Nat := (p.startX + n) / width + 1

/-- The last row of a line of `n` characters and the cell behind it. The cell counts too, since the
cursor stands there at the end of the line. -/
def lastRow (p : Painter) (width n : Nat) : Int := p.startY + ((p.startX + n) / width : Nat)

/-- The row below a line of `n` characters, whose rows are counted by a signed 64-bit number. -/
def rowBelow (p : Painter) (width n : Nat) : Int :=
  p.startY + Int.bmod ((p.startX + n) / width : Nat) 0x10000000000000000 + 1

/-- As long as the rows can be counted, the row below a line comes after its last row. -/
theorem rowBelow_eq (p : Painter) (width n : Nat)
    (h : (p.startX + n) / width < 0x8000000000000000) :
    p.rowBelow width n = p.lastRow width n + 1 := by
  unfold rowBelow lastRow
  generalize (p.startX + n) / width = rows at h ⊢
  rw [Int.bmod_eq_of_le (by omega) (by omega)]

def column (p : Painter) (r : Nat) : Nat := if r = 0 then p.startX else 0

def segment (p : Painter) (width : Nat) (text : List Char) (r : Nat) : List Char :=
  (text.drop (r * width + p.column r - p.startX)).take (width - p.column r)

def cellOf (p : Painter) (width i : Nat) : UInt16 × UInt16 :=
  (saturate ((p.startX + i) % width), rowNumber (p.startY + ((p.startX + i) / width : Nat)))

variable {C : Type} [Console C]

/-- Characters put into a row. The console is not asked when there are none, nor is it by `erase`
for no blanks. -/
def draw (text : List Char) (x : Nat) (row : Int) : Attempt C Unit :=
  if text.isEmpty then pure ()
  else Console.drawText (String.ofList text) (saturate x) (rowNumber row)

def erase (count x : Nat) (row : Int) : Attempt C Unit :=
  if count = 0 then pure ()
  else Console.fillChar ' ' (saturate count) (saturate x) (rowNumber row)

/-- Row number `r` of the line put on the console, with blanks up to its right edge. A row above the
console is left out. -/
def paintRow (p : Painter) (width : Nat) (text : List Char) (r : Nat) : Attempt C Unit := do
  let row := p.startY + (r : Int)
  if 0 ≤ row then
    let piece := p.segment width text r
    let stop := p.column r + piece.length
    draw piece (p.column r) row
    erase (width - stop) stop row

def eraseRow (width : Nat) (row : Int) : Attempt C Unit :=
  if 0 ≤ row then erase width 0 row else pure ()

/-- The rows of the line, and blanks below them as far down as was painted before, so that nothing
of a longer line stays. -/
def paintRows (p : Painter) (width : Nat) (text : List Char) : Attempt C Unit := do
  let last := p.lastRow width text.length
  (List.range (p.rowCount width text.length)).forM (p.paintRow width text)
  (List.range (p.lastPainted - last).toNat).forM fun k => eraseRow width (last + 1 + (k : Int))

abbrev Paint (C : Type) := Attempt (Painter × C)

def onConsole {A : Type} (act : Attempt C A) : Paint C A :=
  Attempt.on (·.2) (fun c s => (s.1, c)) act

def moveCursor (x y : UInt16) : Paint C Unit := do
  let rows ← onConsole (Console.setCursorPosition x y)
  modify fun s => (s.1.shift rows, s.2)

def begin : Paint C Unit := do
  let (x, y) ← onConsole Console.cursorPosition
  modify fun s => (anchored x y, s.2)

/-- The width of the console, which is taken for one column when it has none, so that columns can be
divided by it. -/
def consoleWidth : Paint C Nat := do
  return max (← onConsole Console.width).toNat 1

def makeRoom (width height n : Nat) : Paint C Unit := do
  let last := (← get).1.lastRow width n
  if height ≤ last then
    moveCursor 0 (saturate last.toNat)

/-- Puts a line on the console where there is room for it, and the cursor before its character
number `cursor`. The last row is remembered only after all rows are painted, and the cursor moves
without an account of what the console scrolled. -/
def place (width : Nat) (text : List Char) (cursor : Nat) : Paint C Unit := do
  let p := (← get).1
  onConsole (p.paintRows width text)
  modify fun s => ({ p with lastPainted := p.lastRow width text.length }, s.2)
  let (x, y) := p.cellOf width (min cursor text.length)
  let _ ← onConsole (Console.setCursorPosition x y)

/-- Shows a line with the cursor before character number `cursor`: the anchor is folded into the
width of the console, the console scrolls until there is room, and the line is put there. -/
def redraw (line : String) (cursor : Nat) : Paint C Unit := do
  let text := line.toList
  let width ← consoleWidth
  let height ← onConsole Console.height
  modify fun s => (s.1.fold width, s.2)
  makeRoom width height.toNat text.length
  place width text cursor

/-- Leaves a line of `n` characters: the cursor goes to the first column of the row below it, and
the anchor moves with what the console scrolls for that. -/
def finish (n : Nat) : Paint C Unit := do
  let width ← consoleWidth
  let next := (← get).1.rowBelow width n
  moveCursor 0 (saturate next.toNat)

end Painter

end LineEdit
