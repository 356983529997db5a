import LineEdit.Proofs.Buffer.Motion

/-!
# The buffer as a list of characters

A buffer keeps its text as UTF-8 and cuts it between bytes. What is done to it can be said without
bytes: every change gives the text, the cursor and the returned text that it gives on the list of
the characters, with offsets outside of the line clamped to it. So it is for a whole sequence of
changes, and every cut on the way lies where characters begin, its end not before its start.
-/
namespace LineEdit

namespace Text

/-- The bytes between which a text is cut from offset `i` to offset `j`, or cut for `new` to be put
there. -/
structure CutsBytes (s : String) (i j : Nat) (new : String) : Prop where
  byteOffset_eq :
    byteOffset s i = (String.ofList (s.toList.take (min i s.length))).utf8ByteSize
  isValid : String.Pos.Raw.IsValid s ⟨byteOffset s i⟩
  ordered : byteOffset s i ≤ byteOffset s (max i j)
  inside : byteOffset s (max i j) ≤ s.utf8ByteSize
  slice_eq : (slice s i j).toByteArray = s.toByteArray.extract (byteOffset s i) (byteOffset s j)
  splice_eq : (splice s i j new).toByteArray =
    s.toByteArray.extract 0 (byteOffset s i) ++ new.toByteArray ++
      s.toByteArray.extract (byteOffset s (max i j)) s.utf8ByteSize

theorem byteOffset_mono (s : String) {i j : Nat} (le : i ≤ j) :
    byteOffset s i ≤ byteOffset s j := by
  rw [byteOffset_eq, byteOffset_eq, ← Nat.add_sub_cancel' le, List.take_add, String.ofList_append,
    String.utf8ByteSize_append]
  exact Nat.le_add_right _ _

theorem toByteArray_slice (s : String) (i j : Nat) :
    (slice s i j).toByteArray = s.toByteArray.extract (byteOffset s i) (byteOffset s j) := by
  unfold slice
  split
  next => exact String.toByteArray_extract
  next all =>
    symm
    rw [String.toByteArray_empty, ByteArray.extract_eq_empty_iff]
    exact (Nat.min_le_left _ _).trans (byteOffset_mono s (Nat.le_of_not_lt all))

theorem toByteArray_splice (s : String) (i j : Nat) (new : String) :
    (splice s i j new).toByteArray =
      s.toByteArray.extract 0 (byteOffset s i) ++ new.toByteArray ++
        s.toByteArray.extract (byteOffset s (max i j)) s.utf8ByteSize := by
  rw [splice, String.toByteArray_append, String.toByteArray_append, String.Slice.toByteArray_copy,
    String.Slice.toByteArray_copy, String.startInclusive_sliceTo, String.endExclusive_sliceTo,
    String.startInclusive_sliceFrom, String.endExclusive_sliceFrom, String.offset_startPos,
    String.offset_endPos]
  rfl

theorem cutsBytes (s : String) (i j : Nat) (new : String) : CutsBytes s i j new where
  byteOffset_eq := by
    rw [Text.byteOffset_eq, ← String.length_toList, List.take_eq_take_min]
  isValid := (position s i).isValid
  ordered := byteOffset_mono s (Nat.le_max_left i j)
  inside := String.Pos.offset_le_rawEndPos
  slice_eq := toByteArray_slice s i j
  splice_eq := toByteArray_splice s i j new

end Text

/-- What can be done to a buffer. The motions count as changes too, since the place where the next
change happens depends on them. -/
inductive Buffer.Change where
  | setText (text : String)
  | moveTo (n : Nat)
  | clear
  | take
  | insert (new : String)
  | replace (start stop : Nat) (new : String)
  | deleteBefore (n : Nat)
  | delete (n : Nat)
  | killToStart
  | killToEnd
  | killWordBackward (delimiters : String)
  | killWordForward (delimiters : String)
  | moveLeft (n : Nat)
  | moveRight (n : Nat)
  | wordLeft (delimiters : String)
  | wordRight (delimiters : String)
deriving DecidableEq, Repr

open Buffer (Change StartsWord startsAfter)

def Buffer.Change.outcomes {State Result : Type} (perform : State → Change → Result × State)
    (s : State) : List Change → List (Result × State)
  | [] => []
  | change :: changes => perform s change :: outcomes perform (perform s change).2 changes

/-- A line as the list of its characters, with the offset of the cursor. Nothing keeps the cursor in
the line; that it stays there is a result about what is performed. -/
@[ext] structure Line where
  chars : List Char
  cursor : Nat
deriving DecidableEq, Repr

namespace Line

def empty : Line := ⟨[], 0⟩

def put (l : Line) (start stop : Nat) (new : List Char) : Line :=
  ⟨l.chars.take start ++ new ++ l.chars.drop stop, start + new.length⟩

def takeOut (l : Line) (start stop : Nat) : Option (List Char) × Line :=
  (some ((l.chars.take stop).drop start), l.put start stop [])

/-- The last offset before the cursor where a word starts, 0 when there is none. Unlike the scan of
the buffer, it is found among all offsets. -/
def wordBefore (l : Line) (delimiters : String) : Nat :=
  Nat.findGreatest (StartsWord l.chars delimiters) (l.cursor - 1)

def wordAfter (l : Line) (delimiters : String) : Nat :=
  (startsAfter l.chars delimiters l.cursor).head?.getD l.chars.length

/-- What a change returns, if it returns a text, and the line that it leaves. This is the meaning of
the changes without bytes; the same on buffers calls the functions of the editor. -/
def perform (l : Line) : Change → Option (List Char) × Line
  | .setText text => (none, ⟨text.toList, text.toList.length⟩)
  | .moveTo n => (none, { l with cursor := min n l.chars.length })
  | .clear => (none, empty)
  | .take => (some l.chars, empty)
  | .insert new => (none, l.put l.cursor l.cursor new.toList)
  | .replace start stop new =>
    let i := min start l.chars.length
    (none, l.put i (max i (min stop l.chars.length)) new.toList)
  | .deleteBefore n => l.takeOut (l.cursor - n) l.cursor
  | .delete n => l.takeOut l.cursor (min (l.cursor + n) l.chars.length)
  | .killToStart => l.takeOut 0 l.cursor
  | .killToEnd => l.takeOut l.cursor l.chars.length
  | .killWordBackward delimiters => l.takeOut (l.wordBefore delimiters) l.cursor
  | .killWordForward delimiters => l.takeOut l.cursor (l.wordAfter delimiters)
  | .moveLeft n => (none, { l with cursor := l.cursor - n })
  | .moveRight n => (none, { l with cursor := min (l.cursor + n) l.chars.length })
  | .wordLeft delimiters => (none, { l with cursor := l.wordBefore delimiters })
  | .wordRight delimiters => (none, { l with cursor := l.wordAfter delimiters })

end Line

namespace Buffer

def perform (b : Buffer) : Change → Option String × Buffer
  | .setText text => (none, ofText text)
  | .moveTo n => (none, b.moveTo n)
  | .clear => (none, empty)
  | .take => (some b.text, empty)
  | .insert new => (none, b.insert new)
  | .replace start stop new => (none, b.replace start stop new)
  | .deleteBefore n => Prod.map some id (b.deleteBefore n)
  | .delete n => Prod.map some id (b.delete n)
  | .killToStart => Prod.map some id b.killToStart
  | .killToEnd => Prod.map some id b.killToEnd
  | .killWordBackward delimiters => Prod.map some id (b.killWordBackward delimiters)
  | .killWordForward delimiters => Prod.map some id (b.killWordForward delimiters)
  | .moveLeft n => (none, b.moveLeft n)
  | .moveRight n => (none, b.moveRight n)
  | .wordLeft delimiters => (none, b.wordLeft delimiters)
  | .wordRight delimiters => (none, b.wordRight delimiters)

/-- The buffer without its bytes. -/
def line (b : Buffer) : Line := ⟨b.text.toList, b.cursor⟩

def plain (outcome : Option String × Buffer) : Option (List Char) × Line :=
  (outcome.1.map String.toList, outcome.2.line)

@[simp] theorem chars_line (b : Buffer) : b.line.chars = b.text.toList := rfl

theorem length_chars_line (b : Buffer) : b.line.chars.length = b.length := String.length_toList

theorem cursor_line_le (b : Buffer) : b.line.cursor ≤ b.line.chars.length :=
  b.length_chars_line.symm ▸ b.cursor_le

theorem wordBefore_line (b : Buffer) (delimiters : String) :
    b.line.wordBefore delimiters = b.previousBoundary delimiters :=
  (b.previousBoundary_eq delimiters).symm

theorem wordAfter_line (b : Buffer) (delimiters : String) :
    b.line.wordAfter delimiters = b.nextBoundary delimiters := by
  rw [nextBoundary_eq, ← length_chars_line]
  rfl

theorem line_moveTo {b : Buffer} {n : Nat} (inside : n ≤ b.length) :
    (b.moveTo n).line = { b.line with cursor := n } :=
  Line.ext rfl (cursor_moveTo inside)

theorem line_insert (b : Buffer) (new : String) :
    (b.insert new).line = b.line.put b.cursor b.cursor new.toList := by
  have text : (b.insert new).text = Text.splice b.text b.cursor b.cursor new := rfl
  apply Line.ext
  · rw [chars_line, text, Text.toList_splice, Nat.max_self]
    rfl
  · exact congrArg (b.cursor + ·) String.length_toList.symm

theorem line_replace (b : Buffer) (start stop : Nat) (new : String) :
    (b.replace start stop new).line =
      b.line.put (min start b.length) (max (min start b.length) (min stop b.length))
        new.toList := by
  have text : (b.replace start stop new).text = Text.splice b.text (min start b.length)
      (max (min start b.length) (min stop b.length)) new := rfl
  apply Line.ext
  · rw [chars_line, text, Text.toList_splice, ← Nat.max_assoc, Nat.max_self]
    rfl
  · exact congrArg (min start b.length + ·) String.length_toList.symm

theorem Removed.plain_eq {b : Buffer} {start stop : Nat} {outcome : String × Buffer}
    (removed : b.Removed start stop outcome) :
    plain (Prod.map some id outcome) = b.line.takeOut start stop := by
  obtain ⟨returned, text, cursor⟩ := removed
  apply Prod.ext
  · exact congrArg some returned
  · apply Line.ext
    · exact text.trans (by rw [Line.takeOut, Line.put, List.append_nil]; rfl)
    · exact cursor

/-- A change is the same with and without bytes. There is one case for each change, and each comes
down to what a cut or an insertion is on the list of the characters. -/
theorem plain_perform (b : Buffer) (change : Change) :
    plain (b.perform change) = b.line.perform change := by
  have inside : b.cursor ≤ b.length := b.cursor_le
  have size := b.length_chars_line
  have unreturned {t : Buffer} {l : Line} (same : t.line = l) :
      plain ((none : Option String), t) = (none, l) := congrArg (Prod.mk none) same
  cases change with
  | setText text => exact unreturned (Line.ext rfl String.length_toList.symm)
  | moveTo n => exact unreturned (Line.ext rfl (by rw [size]; rfl))
  | clear => rfl
  | take => rfl
  | insert new => exact unreturned (b.line_insert new)
  | replace start stop new =>
    apply unreturned
    rw [line_replace, size]
  | deleteBefore n => exact (removed_cut (Nat.sub_le _ _) (.inr rfl)).plain_eq
  | delete n =>
    rw [Line.perform, size]
    exact (removed_cut (by omega) (.inl rfl)).plain_eq
  | killToStart => exact (removed_cut (Nat.zero_le _) (.inr rfl)).plain_eq
  | killToEnd =>
    rw [Line.perform, size]
    exact (removed_cut inside (.inl rfl)).plain_eq
  | killWordBackward delimiters =>
    rw [Line.perform, wordBefore_line]
    exact (removed_cut (b.previousBoundary_le delimiters) (.inr rfl)).plain_eq
  | killWordForward delimiters =>
    rw [Line.perform, wordAfter_line]
    exact (removed_cut (b.le_nextBoundary delimiters) (.inl rfl)).plain_eq
  | moveLeft n => exact unreturned (line_moveTo ((Nat.sub_le _ _).trans inside))
  | moveRight n => exact unreturned (Line.ext rfl (by rw [size]; rfl))
  | wordLeft delimiters =>
    rw [Line.perform, wordBefore_line]
    exact unreturned (line_moveTo ((b.previousBoundary_le delimiters).trans inside))
  | wordRight delimiters =>
    rw [Line.perform, wordAfter_line]
    exact unreturned (line_moveTo (b.nextBoundary_le delimiters))

/-- A sum that stops at a greatest number, which no line reaches, leads to the same place. The
natural numbers of the buffer therefore stand for numbers of any width. -/
theorem moveRight_of_le (b : Buffer) (n : Nat) {top : Nat} (room : b.length ≤ top) :
    b.moveRight n = b.moveTo (min (b.cursor + n) top) := by
  have room : b.text.length ≤ top := room
  apply Buffer.ext
  · rfl
  · change min (b.cursor + n) b.text.length = min (min (b.cursor + n) top) b.text.length
    omega

theorem delete_of_le (b : Buffer) (n : Nat) {top : Nat} (room : b.length ≤ top) :
    b.delete n = b.cut b.cursor (min (min (b.cursor + n) top) b.length) := by
  rw [delete, Nat.min_assoc, Nat.min_eq_right room]

theorem map_plain_outcomes (b : Buffer) (changes : List Change) :
    (Change.outcomes perform b changes).map plain =
      Change.outcomes Line.perform b.line changes := by
  induction changes generalizing b with
  | nil => rfl
  | cons change changes ih =>
    have first := b.plain_perform change
    have left : (b.perform change).2.line = (b.line.perform change).2 := congrArg Prod.snd first
    rw [Change.outcomes, Change.outcomes, List.map_cons, first, ih, left]

/-- Every change of a sequence gives the returned text, the text and the cursor that it gives on the
list of the characters, and the cursor stays within the line. Texts are cut where characters begin,
and a sum that stops at a greatest number, which no line exceeds, leads to the same place. -/
theorem changes_refine (changes : List Change) :
    (Change.outcomes perform empty changes).map plain =
        Change.outcomes Line.perform Line.empty changes ∧
      (∀ outcome ∈ Change.outcomes Line.perform Line.empty changes,
        outcome.2.cursor ≤ outcome.2.chars.length) ∧
      (∀ s i j new, Text.CutsBytes s i j new) ∧
      ∀ (b : Buffer) (n top : Nat), b.length ≤ top →
        b.moveRight n = b.moveTo (min (b.cursor + n) top) ∧
          b.delete n = b.cut b.cursor (min (min (b.cursor + n) top) b.length) := by
  have same : (Change.outcomes perform empty changes).map plain =
      Change.outcomes Line.perform Line.empty changes := map_plain_outcomes empty changes
  refine ⟨same, ?_, Text.cutsBytes, ?_⟩
  · intro outcome mem
    rw [← same] at mem
    obtain ⟨reached, -, rfl⟩ := List.mem_map.mp mem
    exact reached.2.cursor_line_le
  · intro b n top room
    exact ⟨b.moveRight_of_le n room, b.delete_of_le n room⟩

/-- Characters of one to four bytes, and counts that reach far outside the line. -/
theorem changes_refine_wide :
    let changes := [.setText "aö𝄞 b", .moveLeft 1, .deleteBefore (UInt64.size - 1), .insert "€é",
      .replace 1 (UInt64.size - 1) "𝄞", .killWordBackward " ", .moveRight (UInt64.size - 1)]
    (Change.outcomes perform empty changes).map plain =
        [(none, ⟨['a', 'ö', '𝄞', ' ', 'b'], 5⟩), (none, ⟨['a', 'ö', '𝄞', ' ', 'b'], 4⟩),
          (some ['a', 'ö', '𝄞', ' '], ⟨['b'], 0⟩), (none, ⟨['€', 'é', 'b'], 2⟩),
          (none, ⟨['€', '𝄞'], 2⟩), (some ['€', '𝄞'], ⟨[], 0⟩), (none, ⟨[], 0⟩)] ∧
      (none, ⟨['€', 'é', 'b'], 2⟩) ∈ Change.outcomes Line.perform Line.empty changes ∧
      2 ≤ ['€', 'é', 'b'].length ∧
      Text.byteOffset "€éb" 2 = 5 ∧ (ofText "€éb").length ≤ UInt64.size - 1 ∧
      (ofText "€éb").moveRight (UInt64.size - 1) = (ofText "€éb").moveTo
        (min ((ofText "€éb").cursor + (UInt64.size - 1)) (UInt64.size - 1)) := by
  intro changes
  obtain ⟨same, within, cuts, sums⟩ := changes_refine changes
  have steps : Change.outcomes Line.perform Line.empty changes =
      [(none, ⟨['a', 'ö', '𝄞', ' ', 'b'], 5⟩), (none, ⟨['a', 'ö', '𝄞', ' ', 'b'], 4⟩),
        (some ['a', 'ö', '𝄞', ' '], ⟨['b'], 0⟩), (none, ⟨['€', 'é', 'b'], 2⟩),
        (none, ⟨['€', '𝄞'], 2⟩), (some ['€', '𝄞'], ⟨[], 0⟩), (none, ⟨[], 0⟩)] := by
    decide +kernel
  have reached :
      (none, ⟨['€', 'é', 'b'], 2⟩) ∈ Change.outcomes Line.perform Line.empty changes := by
    rw [steps]
    decide
  have room : (ofText "€éb").length ≤ UInt64.size - 1 := by decide
  have offset : Text.byteOffset "€éb" 2 = 5 := (cuts "€éb" 2 2 "").byteOffset_eq.trans (by decide)
  exact ⟨same.trans steps, reached, within _ reached, offset, room, (sums _ _ _ room).1⟩

end Buffer

end LineEdit
