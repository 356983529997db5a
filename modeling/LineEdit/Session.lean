import LineEdit.DirectoryHistory
import LineEdit.Editor
import LineEdit.History

/-!
# Sessions

A session runs an editor on a console, together with what it shares with its host: the history of
commands, the history of directories and the working directory. The host begins a line, hands over
events until one returns to it, takes the command from the editor, and begins again.

An event changes the editor first and the console last, and what has happened before a failure of
the console stays.
-/
namespace LineEdit

/-- What an event means for the host. It is not concerned while the line goes on; else it takes a
command, and either the line is finished or it goes on once the command has run. -/
inductive Outcome where
  | incomplete
  | returnToHost
  | returnToHostThenResume
deriving DecidableEq, Repr

/-- An editor at work, on a console `C` and with a holder `W` of the working directory. The two
histories outlive the line. -/
structure Session (C W : Type) where
  editor : Editor
  console : C
  history : History
  directories : DirectoryHistory
  host : W

namespace Session

def failureMessage (e : ConsoleError) : String := "Console error: " ++ e.message

variable {C W : Type}

abbrev Edit (C W : Type) := Attempt (Session C W)

def edited (s : Session C W) (f : Editor → Editor) : Session C W := { s with editor := f s.editor }

def update (f : Editor → Editor) : Edit C W Unit := modify (·.edited f)

def setBuffer (b : Buffer) : Edit C W Unit := update ({ · with buffer := b })

def paint {A : Type} (act : Painter.Paint C A) : Edit C W A :=
  Attempt.on (fun s => (s.editor.painter, s.console))
    (fun t s => { s with editor := { s.editor with painter := t.1 }, console := t.2 }) act

def recalled (s : Session C W) (direction : Direction) (stem : String) : Session C W :=
  let (entry, history) := s.history.move direction stem
  let buffer := (entry.map Buffer.ofText).getD s.editor.buffer
  { s with history, editor := { s.editor with buffer } }

/-- The session after the history was searched for what stood before the cursor when the search
began. The stem is kept, so that what is recalled in between does not change it. -/
def searched (s : Session C W) (direction : Direction) : Session C W :=
  let stem := s.editor.stem.getD s.editor.buffer.textBeforeCursor
  { s with editor := { s.editor with stem := some stem } }.recalled direction stem

def atEnd (s : Session C W) : Session C W :=
  s.edited fun e => { e with buffer := e.buffer.moveTo e.buffer.length }

def asking (s : Session C W) (command : String) : Session C W :=
  s.edited fun e => { e with synthesized := some (e.settings.terminated command) }

/-- The session with the line in the history, unless it is empty, and the terminator at the cursor.
This happens before the line is left on the console, which may still fail. -/
def recorded (s : Session C W) : Session C W :=
  let line := s.editor.buffer
  { s with
    history := if line.isEmpty then s.history else s.history.add line.text
    editor := { s.editor with buffer := line.insert s.editor.settings.lineTerminator } }

variable [Console C]

def redraw : Edit C W Unit := do
  let b := (← get).editor.buffer
  paint (Painter.redraw b.text b.cursor)

/-- Ends the line: it is shown whole, joins the history unless it is empty, and waits for the host
with the terminator behind it. -/
def commit : Edit C W Outcome := do
  let length := (← get).editor.buffer.length
  modify atEnd
  redraw
  modify recorded
  paint (Painter.finish length)
  update ({ · with mode := .idle })
  return .returnToHost

/-- Has the host run a command, after which the line goes on. The command waits already when the
line is shown and left, and stays there when the console fails at that. -/
def runThenResume (command : String) : Edit C W Outcome := do
  let length := (← get).editor.buffer.length
  modify (·.asking command)
  redraw
  paint (Painter.finish length)
  return .returnToHostThenResume

/-- Inserts the text on the clipboard, or asks about it. -/
def paste : Edit C W Unit := do
  let clipboard ← Attempt.on (fun s => s.console) (fun c s => { s with console := c })
    Console.clipboardText
  update (·.pasted clipboard)

variable [WorkingDirectory W]

/-- Walks the history of directories; the host learns of it when the directory has changed. It is
handed an empty command, for it to begin the line again where it works now. -/
def navigate (direction : Direction) : Edit C W Outcome := do
  let s ← get
  let (moved, directories, host) := s.directories.navigate direction s.host
  set { s with directories, host }
  if moved then runThenResume "" else return .incomplete

def perform (action : Action) : Edit C W Outcome := do
  let e := (← get).editor
  match action.edit? e.settings e.buffer with
  | some b =>
    setBuffer b
    return .incomplete
  | none =>
    match action with
    | .commit => commit
    | .historyPrevious => modify (·.recalled .backward "") *> pure .incomplete
    | .historyNext => modify (·.recalled .forward "") *> pure .incomplete
    | .historySearchBackward => modify (·.searched .backward) *> pure .incomplete
    | .historySearchForward => modify (·.searched .forward) *> pure .incomplete
    | .directoryBack => navigate .backward
    | .directoryForward => navigate .forward
    | .parentDirectory => runThenResume e.settings.parentDirectoryCommand
    | .completeNext => update (·.complete .forward) *> pure .incomplete
    | .completePrevious => update (·.complete .backward) *> pure .incomplete
    | .paste => paste *> pure .incomplete
    | .exitOrDeleteForward =>
      if e.buffer.isEmpty then runThenResume e.settings.exitCommand
      else
        setBuffer (e.buffer.delete 1).2
        return .incomplete
    | _ => return .incomplete

/-- Does what an event means, a character that it types if it means nothing else, and shows the line
unless the host takes over. -/
def respond (action : Option Action) (event : KeyEvent) : Edit C W Outcome := do
  update (·.settle action)
  let outcome ← match action with
    | some action => perform action
    | none => update (·.type event.printable) *> pure .incomplete
  if outcome = .incomplete then redraw
  return outcome

/-- Handles an event. While a paste is held back, the event first brings the line back, and a second
paste then inserts what was held. -/
def handleKey (event : KeyEvent) : Edit C W Outcome := do
  let e := (← get).editor
  if e.ignores event then return .incomplete
  let action := e.keymap.resolve event
  match e.heldPaste with
  | none => respond action event
  | some held =>
    update ({ · with heldPaste := none, buffer := held.line })
    if action = some .paste then
      setBuffer (held.line.insert held.text)
      redraw
      return .incomplete
    else respond action event

def start : Edit C W Unit := do
  update Editor.resume
  paint Painter.begin
  modify fun s => { s with directories := s.directories.resume (WorkingDirectory.current s.host) }
  redraw

end Session

end LineEdit
