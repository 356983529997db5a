import LineEdit.Buffer
import LineEdit.Settings

/-!
# Keymaps

A keymap tells what a chord does. The chords of the user come before the built-in ones, and a chord
with shift that does nothing itself does what it does without shift.
-/
namespace LineEdit

structure Keymap where
  custom : List (Chord × Action)
deriving DecidableEq, Repr

namespace Keymap

open Chord

/-- What chords do that the user left alone: a binding of the user hides the one built in. -/
def builtIn : List (Chord × Action) :=
  [(plain .left, .cursorLeft), (plain .right, .cursorRight), (plain .home, .cursorHome),
    (plain .end, .cursorEnd), (withCtrl (.char 'A'), .cursorHome),
    (withCtrl (.char 'E'), .cursorEnd), (withCtrl .left, .wordLeft), (withCtrl .right, .wordRight),
    (plain .backspace, .deleteBackward), (plain .delete, .deleteForward),
    (withCtrl (.char 'W'), .killWordBackward), (withCtrl .backspace, .killPathSegmentBackward),
    (withCtrl .delete, .killWordForward), (withCtrl .home, .killToStart),
    (withCtrl (.char 'U'), .killToStart), (withCtrl .end, .killToEnd),
    (withCtrl (.char 'K'), .killToEnd), (plain .enter, .commit), (plain .escape, .clearLine),
    (withCtrl (.char 'C'), .clearLine), (withCtrl (.char 'V'), .paste),
    (withCtrl (.char 'D'), .exitOrDeleteForward), (plain .up, .historyPrevious),
    (plain .down, .historyNext), (plain .pageUp, .historySearchBackward),
    (plain .pageDown, .historySearchForward), (withAlt .left, .directoryBack),
    (withAlt .right, .directoryForward), (withAlt .up, .parentDirectory),
    (plain .tab, .completeNext), (withShift .tab, .completePrevious)]

def bind (map : Keymap) (chord : Chord) (action : Action) : Keymap :=
  ⟨map.custom.filter (·.1 ≠ chord) ++ [(chord, action)]⟩

/-- The keymap without a binding of `chord`, and whether the user had bound it. What the chord does
without the user comes back. -/
def unbind (map : Keymap) (chord : Chord) : Bool × Keymap :=
  (map.custom.any (·.1 = chord), ⟨map.custom.filter (·.1 ≠ chord)⟩)

/-- The keymap of the given bindings. Each takes away an earlier one of its chord, so that the last
one counts. -/
def ofBindings (bindings : List Binding) : Keymap :=
  bindings.foldl (fun map binding => map.bind binding.chord binding.action) ⟨[]⟩

def get? (map : Keymap) (chord : Chord) : Option Action :=
  (map.custom.lookup chord).or (builtIn.lookup chord)

def resolve (map : Keymap) (event : KeyEvent) : Option Action :=
  (map.get? event.chord).or
    (if event.chord.shift then map.get? event.chord.withoutShift else none)

end Keymap

namespace Action

/-- The buffer after an action that only edits it, none for the actions that need more: the
histories, the completers, the clipboard or the host. -/
def edit? (action : Action) (settings : Settings) (b : Buffer) : Option Buffer :=
  match action with
  | cursorLeft => some (b.moveLeft 1)
  | cursorRight => some (b.moveRight 1)
  | cursorHome => some (b.moveTo 0)
  | cursorEnd => some (b.moveTo b.length)
  | wordLeft => some (b.wordLeft settings.wordDelimiters)
  | wordRight => some (b.wordRight settings.wordDelimiters)
  | deleteBackward => some (b.deleteBefore 1).2
  | deleteForward => some (b.delete 1).2
  | killWordBackward => some (b.killWordBackward settings.wordDelimiters).2
  | killPathSegmentBackward => some (b.killWordBackward settings.pathDelimiters).2
  | killWordForward => some (b.killWordForward settings.wordDelimiters).2
  | killToStart => some b.killToStart.2
  | killToEnd => some b.killToEnd.2
  | clearLine => some Buffer.empty
  | _ => none

end Action

end LineEdit
