import LineEdit.Text.Control

/-!
# Keys

The keys of a keyboard, the chords that are pressed with them, and the events that a console
reports. A key that types a letter or a digit is known by the capital letter or the digit.
-/
namespace LineEdit

inductive Key where
  | backspace
  | tab
  | enter
  | escape
  | pageUp
  | pageDown
  | «end»
  | home
  | left
  | up
  | right
  | down
  | delete
  | shift
  | control
  | alt
  | char (c : Char)
  | other (code : UInt16)
deriving DecidableEq, Repr

namespace Key

def named : List (String × Key) :=
  [("Backspace", backspace), ("Tab", tab), ("Enter", enter), ("Escape", escape),
    ("PageUp", pageUp), ("PageDown", pageDown), ("End", «end»), ("Home", home), ("Left", left),
    ("Up", up), ("Right", right), ("Down", down), ("Delete", delete), ("Shift", shift),
    ("Control", control), ("Alt", alt)]

def ofName? (name : String) : Option Key := named.lookup name

/-- The key that a console means by a virtual key code. A code outside the table is kept as it is,
so that every code has a key. -/
def ofVirtualCode (code : UInt16) : Key :=
  match code.toNat with
  | 0x08 => backspace
  | 0x09 => tab
  | 0x0d => enter
  | 0x10 => shift
  | 0x11 => control
  | 0x12 => alt
  | 0x1b => escape
  | 0x21 => pageUp
  | 0x22 => pageDown
  | 0x23 => «end»
  | 0x24 => home
  | 0x25 => left
  | 0x26 => up
  | 0x27 => right
  | 0x28 => down
  | 0x2e => delete
  | n =>
    if (0x30 ≤ n ∧ n ≤ 0x39) ∨ (0x41 ≤ n ∧ n ≤ 0x5a) then char (Char.ofNat n) else other code

def isModifier (key : Key) : Bool := key = shift || key = control || key = alt

end Key

structure Chord where
  key : Key
  ctrl : Bool
  alt : Bool
  shift : Bool
deriving DecidableEq, Repr

namespace Chord

def plain (key : Key) : Chord := ⟨key, false, false, false⟩

def withCtrl (key : Key) : Chord := ⟨key, true, false, false⟩

def withAlt (key : Key) : Chord := ⟨key, false, true, false⟩

def withShift (key : Key) : Chord := ⟨key, false, false, true⟩

def withoutShift (chord : Chord) : Chord := { chord with shift := false }

end Chord

/-- What a console reports about a key: whether it went down or up, the chord, and the character
that it typed, if it typed one. -/
structure KeyEvent where
  pressed : Bool
  chord : Chord
  char : Option Char
deriving DecidableEq, Repr

namespace KeyEvent

/-- The event of a character that is typed without modifiers. The key of a letter is that of its
capital, and what is no letter or digit has no key of its own. -/
def ofChar (c : Char) : KeyEvent :=
  let key := if c.isAlphanum then Key.char c.toUpper else Key.other 0
  ⟨true, Chord.plain key, some c⟩

/-- The event that a console's record of a key stands for. A record holds the null character when
the key typed none. -/
def ofRecord (pressed ctrl alt shift : Bool) (char : Option Char) (code : UInt16) : KeyEvent :=
  ⟨pressed, ⟨Key.ofVirtualCode code, ctrl, alt, shift⟩, char.filter (· ≠ Char.ofNat 0)⟩

/-- The character that the event puts into a line when no action is bound to it. A chord with
control or alt puts none there, nor does a control character. -/
def printable (event : KeyEvent) : Option Char :=
  if event.chord.ctrl || event.chord.alt then none
  else event.char.filter (!Text.isControl ·)

end KeyEvent

end LineEdit
