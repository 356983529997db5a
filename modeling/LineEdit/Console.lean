/-!
# Consoles

A console shows characters in cells, which are addressed by column and row from the upper left. The
editor needs nothing of it but the operations here. Any of them may fail, and whatever the console
is after a failure is part of the outcome.
-/
namespace LineEdit

inductive ConsoleError where
  | io (text : String)
  | unsupported (feature : String)
  | outOfBounds (x y : UInt16)
deriving DecidableEq, Repr

def ConsoleError.message : ConsoleError → String
  | io text => "I/O error: " ++ text
  | unsupported feature => "Feature '" ++ feature ++ "' not supported by this console"
  | outOfBounds x y => "Position (" ++ toString x.toNat ++ ", " ++ toString y.toNat
      ++ ") is outside the console"

/-- Something done to a state that may fail and leaves a state behind in any case. A failure does
not take back what was done before it. -/
abbrev Attempt (S : Type) := ExceptT ConsoleError (StateM S)

namespace Attempt

def on {S T A : Type} (part : S → T) (put : T → S → S) (act : Attempt T A) : Attempt S A :=
  ExceptT.mk fun s => let (result, t) := act.run.run (part s); (result, put t s)

end Attempt

class Console (C : Type) where
  cursorPosition : Attempt C (UInt16 × UInt16)
  /-- Puts the cursor into a cell, and tells by how many rows the console scrolled for it. -/
  setCursorPosition (x y : UInt16) : Attempt C UInt16
  width : Attempt C UInt16
  height : Attempt C UInt16
  drawText (text : String) (x y : UInt16) : Attempt C Unit
  fillChar (c : Char) (count x y : UInt16) : Attempt C Unit
  clipboardText : Attempt C (Option String)

end LineEdit
