/-!
# Words of a command line

A word remembers where it starts in its line, the text it was written as, and the text that the
running program receives once quotes and escapes are resolved.
-/
namespace LineEdit

/-- A word of a command line: the offset of its first character, the word as written, quotes and
escapes included, and the word with quotes and escapes resolved. -/
structure Word where
  start : Nat
  written : String
  resolved : String
deriving DecidableEq, Repr, Inhabited

namespace Word

def emptyAt (start : Nat) : Word := ⟨start, "", ""⟩

def ofChars (start : Nat) (written resolved : List Char) : Word :=
  ⟨start, String.ofList written, String.ofList resolved⟩

def stop (w : Word) : Nat := w.start + w.written.length

def isEmpty (w : Word) : Bool := w.written.isEmpty

/-- The word that starts like `a` and goes on with the texts of `b`. Whether `b` stands directly
behind `a` is for the caller to know. -/
def join (a b : Word) : Word :=
  ⟨a.start, a.written ++ b.written, a.resolved ++ b.resolved⟩

/-- The index of the last word that starts at or before `offset`. An offset in the blanks behind a
word therefore belongs to the word before them. -/
def indexAt (offset : Nat) : List Word → Option Nat
  | [] => none
  | w :: ws =>
    match indexAt offset ws with
    | some i => some (i + 1)
    | none => if w.start ≤ offset then some 0 else none

@[simp] theorem stop_emptyAt (start : Nat) : (emptyAt start).stop = start := by
  simp [emptyAt, stop]

@[simp] theorem stop_ofChars (start : Nat) (written resolved : List Char) :
    (ofChars start written resolved).stop = start + written.length := by
  simp [ofChars, stop]

end Word

end LineEdit
