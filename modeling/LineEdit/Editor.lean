import LineEdit.Completion
import LineEdit.Keymap
import LineEdit.Painter
import LineEdit.Text.Lines

/-!
# The state of the editor

What the editor keeps between two events, apart from what it shares with its host.
-/
namespace LineEdit

inductive Mode where
  | idle
  | editing
deriving DecidableEq, Repr

/-- A paste of several lines that waits to be confirmed, with the line as it was before the question
took its place. -/
structure HeldPaste where
  line : Buffer
  text : String
deriving DecidableEq, Repr

/-- The editor between two events. A synthesized command is one for the host that the user did not
type, and the stem is what the history is searched for as long as one search goes on. -/
structure Editor where
  settings : Settings
  keymap : Keymap
  completion : Completion
  buffer : Buffer
  painter : Painter
  mode : Mode
  synthesized : Option String
  heldPaste : Option HeldPaste
  stem : Option String

namespace Editor

def new (settings : Settings) : Editor where
  settings := settings
  keymap := Keymap.ofBindings settings.bindings
  completion := Completion.empty
  buffer := Buffer.empty
  painter := Painter.origin
  mode := .idle
  synthesized := none
  heldPaste := none
  stem := none

/-- What the host is to run, taken from the editor: a command that was not typed comes first, and
leaves the line alone. -/
def takeCommand (e : Editor) : String × Editor :=
  match e.synthesized with
  | some command => (command, { e with synthesized := none })
  | none => (e.buffer.text, { e with buffer := Buffer.empty })

theorem takeCommand_of_none {e : Editor} (h : e.synthesized = none) :
    e.takeCommand = (e.buffer.text, { e with buffer := Buffer.empty }) := by
  rw [takeCommand, h]

theorem takeCommand_of_some {e : Editor} {command : String} (h : e.synthesized = some command) :
    e.takeCommand = (command, { e with synthesized := none }) := by
  rw [takeCommand, h]

/-- The editor as a line begins, or goes on: an idle one starts with an empty line, and nothing that
was under way stays so. A paste that was held back is given up with the line it would bring back. -/
def resume (e : Editor) : Editor :=
  { e with
    buffer := if e.mode = .idle then Buffer.empty else e.buffer
    mode := .editing
    completion := e.completion.reset
    stem := none
    heldPaste := none }

def ignores (e : Editor) (event : KeyEvent) : Bool :=
  !event.pressed || event.chord.key.isModifier || e.mode = .idle

/-- The editor before an action: whatever the action does not carry on has ended. -/
def settle (e : Editor) (action : Option Action) : Editor :=
  { e with
    completion := if action.any Action.completes then e.completion else e.completion.reset
    stem := if action.any Action.searches then e.stem else none }

def type (e : Editor) (c : Option Char) : Editor :=
  match c with
  | some c => { e with buffer := e.buffer.insert (String.singleton c) }
  | none => e

/-- The text on the clipboard, if there is any, inserted at the cursor. Several lines are held back,
and the line becomes the question whether they are wanted. -/
def pasted (e : Editor) (clipboard : Option String) : Editor :=
  match clipboard with
  | none => e
  | some text =>
    if Text.isSingleLine text then { e with buffer := e.buffer.insert text }
    else
      { e with
        heldPaste := some ⟨e.buffer, text⟩
        buffer := Buffer.ofText (e.settings.pastePrompt (Text.lines text).length) }

def complete (e : Editor) (direction : Direction) : Editor :=
  let (_, completion, buffer) := e.completion.request direction e.buffer
  { e with completion, buffer }

end Editor

end LineEdit
