import LineEdit.Console
import LineEdit.Text.Whitespace

/-!
# A screen in memory

A console of fixed size. What is drawn outside of it is lost, a cursor below it makes it scroll, and
a cursor to the right of it is refused.
-/
namespace LineEdit

/-- A grid of cells with a cursor in one of them. The grid is a rectangle in every state, whatever
is drawn, and `scrolled` counts the rows that have left it at the top. -/
structure Screen where
  width : UInt16
  height : UInt16
  rows : List (List Char)
  cursor : UInt16 × UInt16
  scrolled : Nat
  clipboard : Option String
  clipboardFails : Bool
  rows_length : rows.length = height.toNat
  row_length : ∀ row ∈ rows, row.length = width.toNat

/-- The row with `text` written over it from column `x` on. What does not fit is lost, so that the
row keeps its length. -/
def overlay (x : Nat) (text row : List Char) : List Char :=
  row.mapIdx fun i c => if x ≤ i then (text[i - x]?).getD c else c

@[simp] theorem length_overlay (x : Nat) (text row : List Char) :
    (overlay x text row).length = row.length := by
  simp [overlay]

namespace Screen

def blank (width height : UInt16) : Screen where
  width := width
  height := height
  rows := List.replicate height.toNat (List.replicate width.toNat ' ')
  cursor := (0, 0)
  scrolled := 0
  clipboard := none
  clipboardFails := false
  rows_length := by simp
  row_length := by simp +contextual

def cell? (s : Screen) (x y : Nat) : Option Char := (s.rows[y]?).bind (·[x]?)

def write (s : Screen) (text : List Char) (x y : Nat) : Screen :=
  { s with
    rows := s.rows.modify y (overlay x text)
    rows_length := by simp [s.rows_length]
    row_length := by
      intro row h
      obtain ⟨i, hi, rfl⟩ := List.mem_iff_getElem.mp h
      rw [List.getElem_modify]
      have inside : i < s.rows.length := by simpa using hi
      split
      · rw [length_overlay]
        exact s.row_length _ (List.getElem_mem inside)
      · exact s.row_length _ (List.getElem_mem inside) }

/-- The screen with its rows moved up by `n`, and blank rows below them. When `n` is more than the
rows there are, all of them are blank. -/
def scroll (s : Screen) (n : Nat) : Screen :=
  { s with
    rows := s.rows.drop n ++
      List.replicate (min n s.rows.length) (List.replicate s.width.toNat ' ')
    scrolled := s.scrolled + n
    rows_length := by
      rw [← s.rows_length]
      simp
      omega
    row_length := by
      intro row h
      rcases List.mem_append.mp h with h | h
      · exact s.row_length row (List.mem_of_mem_drop h)
      · rw [(List.mem_replicate.mp h).2, List.length_replicate] }

/-- The screen with its cursor in the given cell, after it scrolled as far as the cell is below its
last row; refused when the cell is to its right. -/
def moveCursor (s : Screen) (x y : UInt16) : Except ConsoleError (UInt16 × Screen) :=
  if s.width ≤ x then .error (.outOfBounds x y)
  else if y < s.height then .ok (0, { s with cursor := (x, y) })
  else
    let below := y - s.height + 1
    .ok (below, { s.scroll below.toNat with cursor := (x, s.height - 1) })

/-- What a program prints before a line is edited: `text` at the cursor, which goes behind it but
stays in its row. -/
def printPrompt (s : Screen) (text : String) : Screen :=
  let (x, y) := s.cursor
  let stop := min (x.toNat + text.length) (s.width.toNat - 1)
  { s.write text.toList x.toNat y.toNat with cursor := (UInt16.ofNat stop, y) }

def rowText (s : Screen) (y : Nat) : String :=
  String.ofList (Text.trimEnd ((s.rows[y]?).getD []))

def text (s : Screen) : String :=
  let rows := (List.range s.rows.length).map s.rowText
  "\n".intercalate (rows.reverse.dropWhile (·.isEmpty)).reverse

def readClipboard (s : Screen) : Except ConsoleError (Option String) :=
  if s.clipboardFails then .error (.io "clipboard unavailable") else .ok s.clipboard

def reading {A : Type} (f : Screen → Except ConsoleError A) : Attempt Screen A :=
  ExceptT.mk fun s => (f s, s)

def changing (f : Screen → Screen) : Attempt Screen Unit := ExceptT.mk fun s => (.ok (), f s)

/-- An operation that changes the screen unless it is refused, and then leaves it as it was. -/
def trying {A : Type} (f : Screen → Except ConsoleError (A × Screen)) : Attempt Screen A :=
  ExceptT.mk fun s =>
    match f s with
    | .ok (a, t) => (.ok a, t)
    | .error e => (.error e, s)

instance : Console Screen where
  cursorPosition := reading fun s => .ok s.cursor
  setCursorPosition x y := trying (·.moveCursor x y)
  width := reading fun s => .ok s.width
  height := reading fun s => .ok s.height
  drawText text x y := changing (·.write text.toList x.toNat y.toNat)
  fillChar c count x y := changing (·.write (List.replicate count.toNat c) x.toNat y.toNat)
  clipboardText := reading readClipboard

end Screen

end LineEdit
