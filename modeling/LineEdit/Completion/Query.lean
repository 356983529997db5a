import LineEdit.Buffer
import LineEdit.Word.Split
import LineEdit.Word.Command

/-!
# What completion asks

A query shows a completer the command that the cursor is in, which word of it is to be completed,
and how far into that word the cursor is.
-/
namespace LineEdit

/-- A command with the cursor in one of its words: in word number `index`, behind `offset` of its
characters. -/
structure Query where
  words : List Word
  index : Nat
  offset : Nat
deriving DecidableEq, Repr

namespace Query

def word? (q : Query) (i : Nat) : Option String := (q.words[i]?).map (·.resolved)

def command (q : Query) : String := (q.word? 0).getD ""

def current (q : Query) : Word := (q.words[q.index]?).getD (Word.emptyAt 0)

def stem (q : Query) : String := q.current.resolved

/-- The words of a line, with an empty one at the cursor when it stands between two words, and the
number of the word that the cursor is in. -/
def locate (text : String) (cursor : Nat) : List Word × Nat :=
  let words := Word.split text
  let index := (Word.indexAt cursor words).getD 0
  match words[index]? with
  | some w =>
    if w.stop < cursor then
      (words.take (index + 1) ++ Word.emptyAt cursor :: words.drop (index + 1), index + 1)
    else (words, index)
  | none => (words, index)

/-- The query about the word under the cursor, none when that is a command separator. Words are
counted within the command that the cursor is in, so that a completer sees no other command. -/
def ofBuffer? (b : Buffer) : Option Query :=
  let (words, index) := locate b.text b.cursor
  match Word.commandAt words index with
  | some (command, i) =>
    let w := (command[i]?).getD (Word.emptyAt 0)
    some ⟨command, i, b.cursor - w.start⟩
  | none => none

end Query

end LineEdit
