import LineEdit.Text.Offset

/-!
# The line being edited

A text with a cursor, which stands before one of its characters or at its end. Offsets and counts
that reach outside the text are clamped to it. Every deletion returns the text that it removed.
-/
namespace LineEdit

open Text

@[ext] structure Buffer where
  text : String
  cursor : Nat
  cursor_le : cursor ≤ text.length
deriving DecidableEq, Repr

namespace Buffer

def empty : Buffer := ⟨"", 0, Nat.zero_le _⟩

def ofText (text : String) : Buffer := ⟨text, text.length, Nat.le_refl _⟩

def length (b : Buffer) : Nat := b.text.length

def isEmpty (b : Buffer) : Bool := b.text.isEmpty

def textBeforeCursor (b : Buffer) : String := slice b.text 0 b.cursor

/-- The cursor put at offset `n`, or at the end when the text is shorter. -/
def moveTo (b : Buffer) (n : Nat) : Buffer := ⟨b.text, min n b.text.length, Nat.min_le_right _ _⟩

theorem moveTo_moveTo (b : Buffer) (m n : Nat) : (b.moveTo m).moveTo n = b.moveTo n := rfl

theorem cursor_moveTo {b : Buffer} {n : Nat} (inside : n ≤ b.length) : (b.moveTo n).cursor = n :=
  Nat.min_eq_left inside

theorem moveTo_cursor (b : Buffer) : b.moveTo b.cursor = b :=
  Buffer.ext rfl (Nat.min_eq_left b.cursor_le)

def moveLeft (b : Buffer) (n : Nat) : Buffer := b.moveTo (b.cursor - n)

def moveRight (b : Buffer) (n : Nat) : Buffer := b.moveTo (b.cursor + n)

/-- `new` inserted at the cursor, which ends up behind it. -/
def insert (b : Buffer) (new : String) : Buffer :=
  ⟨splice b.text b.cursor b.cursor new, b.cursor + new.length, by
    have := b.cursor_le
    rw [length_splice]
    omega⟩

theorem text_insert_atEnd (b : Buffer) (new : String) :
    ((b.moveTo b.length).insert new).text = b.text ++ new := by
  change splice b.text (min b.text.length b.text.length) (min b.text.length b.text.length) new = _
  rw [Nat.min_self, splice_length]

theorem insert_insert (b : Buffer) (first second : String) :
    (b.insert first).insert second = b.insert (first ++ second) := by
  have text : ((b.insert first).insert second).text = (b.insert (first ++ second)).text :=
    splice_splice b.text b.cursor_le first second
  have cursor : ((b.insert first).insert second).cursor = (b.insert (first ++ second)).cursor := by
    change b.cursor + first.length + second.length = b.cursor + (first ++ second).length
    rw [String.length_append, Nat.add_assoc]
  exact Buffer.ext text cursor

theorem length_insert (b : Buffer) (new : String) : (b.insert new).length = b.length + new.length := by
  have := b.cursor_le
  change (splice b.text b.cursor b.cursor new).length = b.text.length + new.length
  rw [length_splice]
  omega

/-- The characters from `start` up to `stop` replaced by `new`, with the cursor behind it. A range
that is empty or upside down replaces nothing, and `new` is inserted where it begins. -/
def replace (b : Buffer) (start stop : Nat) (new : String) : Buffer :=
  let i := min start b.text.length
  let j := max i (min stop b.text.length)
  ⟨splice b.text i j new, i + new.length, by
    rw [length_splice]
    omega⟩

/-- What stands between two texts is replaced, and the texts stay. -/
theorem replace_between {b : Buffer} {before old after : String}
    (text : b.text = before ++ old ++ after) (new : String) :
    (b.replace before.length (before ++ old).length new).text = before ++ new ++ after ∧
      (b.replace before.length (before ++ old).length new).cursor = (before ++ new).length := by
  have whole : b.text.length = (before ++ old).length + after.length := by
    rw [text, String.length_append]
  have first : min before.length b.text.length = before.length := by
    rw [String.length_append] at whole
    omega
  have last : max before.length (min (before ++ old).length b.text.length) =
      (before ++ old).length := by
    rw [String.length_append] at whole ⊢
    omega
  constructor
  · apply String.toList_injective
    dsimp only [replace]
    rw [toList_splice, first, last, Nat.max_eq_right (by rw [String.length_append]; omega), text]
    simp only [String.toList_append, ← String.length_toList]
    rw [List.drop_left, List.append_assoc before.toList old.toList, List.take_left]
  · dsimp only [replace]
    rw [first, String.length_append]

/-- The characters from `start` up to `stop`, and the buffer without them and with the cursor at
`start`. When there are none nothing happens to the buffer, not even to the cursor. -/
def cut (b : Buffer) (start stop : Nat) : String × Buffer :=
  if start < stop then
    let i := min start b.text.length
    (slice b.text i stop,
      ⟨splice b.text i stop "", i, by
        rw [length_splice]
        omega⟩)
  else ("", b)

/-- What every deletion is held to: the characters from `start` up to `stop` are returned, all
others stay, and the cursor is where the deleted ones were. -/
structure Removed (b : Buffer) (start stop : Nat) (outcome : String × Buffer) : Prop where
  returned : outcome.1.toList = (b.text.toList.take stop).drop start
  text : outcome.2.text.toList = b.text.toList.take start ++ b.text.toList.drop stop
  cursor : outcome.2.cursor = start

/-- A cut that begins or ends at the cursor takes out what lies between its ends. -/
theorem removed_cut {b : Buffer} {start stop : Nat} (le : start ≤ stop)
    (next : b.cursor = start ∨ b.cursor = stop) : b.Removed start stop (b.cut start stop) := by
  have inside := b.cursor_le
  unfold cut
  split
  next lt =>
    have place : min start b.text.length = start := Nat.min_eq_left (by omega)
    constructor
    · dsimp only
      rw [place, toList_slice]
    · dsimp only
      rw [place, toList_splice, Nat.max_eq_right le, String.toList_empty, List.append_nil]
    · exact place
  next all =>
    obtain rfl : start = stop := Nat.le_antisymm le (Nat.le_of_not_lt all)
    constructor
    · rw [List.drop_eq_nil_of_le (List.length_take_le _ _)]
      rfl
    · exact (List.take_append_drop _ _).symm
    · exact next.elim id id

def deleteBefore (b : Buffer) (n : Nat) : String × Buffer := b.cut (b.cursor - n) b.cursor

def delete (b : Buffer) (n : Nat) : String × Buffer :=
  b.cut b.cursor (min (b.cursor + n) b.length)

def killToStart (b : Buffer) : String × Buffer := b.cut 0 b.cursor

def killToEnd (b : Buffer) : String × Buffer := b.cut b.cursor b.length

/-- Where the word that begins before the cursor begins: delimiters next to the cursor are skipped
first, then the characters that are none. Moving by words and killing words share this boundary. -/
def previousBoundary (b : Buffer) (delimiters : String) : Nat :=
  let delimits := delimiters.toList.contains
  let before := (b.text.toList.take b.cursor).reverse
  ((before.dropWhile delimits).dropWhile (!delimits ·)).length

/-- Where the next word after the cursor begins: characters that are no delimiters are skipped
first, then the delimiters. -/
def nextBoundary (b : Buffer) (delimiters : String) : Nat :=
  let delimits := delimiters.toList.contains
  let after := b.text.toList.drop b.cursor
  b.length - ((after.dropWhile (!delimits ·)).dropWhile delimits).length

def killWordBackward (b : Buffer) (delimiters : String) : String × Buffer :=
  b.cut (b.previousBoundary delimiters) b.cursor

def killWordForward (b : Buffer) (delimiters : String) : String × Buffer :=
  b.cut b.cursor (b.nextBoundary delimiters)

def wordLeft (b : Buffer) (delimiters : String) : Buffer :=
  b.moveTo (b.previousBoundary delimiters)

def wordRight (b : Buffer) (delimiters : String) : Buffer :=
  b.moveTo (b.nextBoundary delimiters)

end Buffer

end LineEdit
