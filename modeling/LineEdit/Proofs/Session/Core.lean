import LineEdit.Proofs.Attempt
import LineEdit.Session

/-!
# What an event does apart from the console

The core of a session is what it holds apart from the console and the painter's account of it.
Painting leaves the core alone, whether it succeeds or not. What an event makes of the core, and
what it means for the host, therefore is a function of the core, the event and the text on the
clipboard. A console that fails can keep the host from learning of it, but it stops no event
half-way except one that commits the line.

What events do is first defined without a console. The lemmas on painting, on actions and on events
then say in turn that an attempt on a console ends with the core so defined, and the last ones what
this means for an event that is handled without a failure.
-/
namespace LineEdit

open Attempt

namespace Editor

/-- What an event means to an editor; nothing if it is ignored or no action is bound to it. -/
def meaning (e : Editor) (event : KeyEvent) : Option Action :=
  if e.ignores event then none else e.keymap.resolve event

/-- The line that is edited, which a question about a paste may hide. As long as no paste waits it
is the buffer. -/
def line (e : Editor) : Buffer := (e.heldPaste.map (·.line)).getD e.buffer

theorem takeCommand_fst (e : Editor) : e.takeCommand.1 = e.synthesized.getD e.buffer.text := by
  unfold takeCommand
  cases e.synthesized <;> rfl

theorem synthesized_takeCommand (e : Editor) : e.takeCommand.2.synthesized = none := by
  cases waiting : e.synthesized with
  | none => rw [takeCommand_of_none waiting, waiting]
  | some command => rw [takeCommand_of_some waiting]

theorem settings_takeCommand (e : Editor) : e.takeCommand.2.settings = e.settings := by
  unfold takeCommand
  cases e.synthesized <;> rfl

end Editor

namespace Session

variable {C W A B : Type}

/-- What a session holds apart from the console. Editing is defined on the core alone, and sessions
on consoles of any kind are compared by it. -/
abbrev Core (W : Type) := Session Unit W

def core (s : Session C W) : Core W :=
  ⟨{ s.editor with painter := .origin }, (), s.history, s.directories, s.host⟩

/-- The session after something was painted. -/
def repainted (s : Session C W) (p : Painter) (c : C) : Session C W :=
  { s with editor := { s.editor with painter := p }, console := c }

/-- The text on the clipboard, if it can be read and there is any. -/
def clipboard [Console C] (s : Session C W) : Option String :=
  match ((Console.clipboardText : Attempt C (Option String)).exec s.console).1 with
  | .ok text => text
  | .error _ => none

/-- The line comes back if a paste is held back. -/
def unheld (s : Session C W) : Session C W :=
  s.edited fun e => { e with heldPaste := none, buffer := e.line }

theorem unheld_of_none {s : Session C W} (h : s.editor.heldPaste = none) : s.unheld = s := by
  obtain ⟨⟨_, _, _, _, _, _, _, held, _⟩, _, _, _, _⟩ := s
  obtain rfl : held = none := h
  rfl

theorem unheld_of_some {s : Session C W} {held : HeldPaste} (h : s.editor.heldPaste = some held) :
    s.unheld = s.edited ({ · with heldPaste := none, buffer := held.line }) := by
  simp only [unheld, edited, Editor.line, h, Option.map_some, Option.getD_some]

/-- The session as its line is about to be committed: it has come back if a paste was held back, and
whatever a commit does not carry on has ended. -/
def committing (s : Session C W) : Session C W := s.unheld.edited (·.settle (some .commit))

def committed (s : Session C W) : Session C W :=
  s.atEnd.recorded.edited ({ · with mode := .idle })

theorem settings_committed (s : Session C W) :
    s.committed.editor.settings = s.editor.settings := by
  simp only [committed, recorded, atEnd, edited]

theorem synthesized_committed (s : Session C W) :
    s.committed.editor.synthesized = s.editor.synthesized := by
  simp only [committed, recorded, atEnd, edited]

section

variable [WorkingDirectory W]

def started (s : Session C W) : Session C W :=
  { s with
    editor := s.editor.resume
    directories := s.directories.resume (WorkingDirectory.current s.host) }

def navigated (s : Session C W) (direction : Direction) : Outcome × Session C W :=
  let (moved, directories, host) := s.directories.navigate direction s.host
  if moved then (.returnToHostThenResume, asking { s with directories, host } "")
  else (.incomplete, { s with directories, host })

def acted (s : Session C W) (action : Action) (clipboard : Option String) :
    Outcome × Session C W :=
  match action.edit? s.editor.settings s.editor.buffer with
  | some b => (.incomplete, s.edited ({ · with buffer := b }))
  | none =>
    match action with
    | .commit => (.returnToHost, s.committed)
    | .historyPrevious => (.incomplete, s.recalled .backward "")
    | .historyNext => (.incomplete, s.recalled .forward "")
    | .historySearchBackward => (.incomplete, s.searched .backward)
    | .historySearchForward => (.incomplete, s.searched .forward)
    | .directoryBack => s.navigated .backward
    | .directoryForward => s.navigated .forward
    | .parentDirectory =>
      (.returnToHostThenResume, s.asking s.editor.settings.parentDirectoryCommand)
    | .completeNext => (.incomplete, s.edited (·.complete .forward))
    | .completePrevious => (.incomplete, s.edited (·.complete .backward))
    | .paste => (.incomplete, s.edited (·.pasted clipboard))
    | .exitOrDeleteForward =>
      if s.editor.buffer.isEmpty then
        (.returnToHostThenResume, s.asking s.editor.settings.exitCommand)
      else (.incomplete, s.edited fun e => { e with buffer := (e.buffer.delete 1).2 })
    | _ => (.incomplete, s)

/-- An event is answered that means `action`. -/
def responded (s : Session C W) (action : Option Action) (event : KeyEvent)
    (clipboard : Option String) : Outcome × Session C W :=
  match action with
  | some a => (s.edited (·.settle action)).acted a clipboard
  | none => (.incomplete, (s.edited (·.settle action)).edited (·.type event.printable))

def handled (s : Session C W) (event : KeyEvent) (clipboard : Option String) :
    Outcome × Session C W :=
  if s.editor.ignores event then (.incomplete, s)
  else
    match s.editor.heldPaste with
    | none => s.responded (s.editor.keymap.resolve event) event clipboard
    | some held =>
      if s.editor.keymap.resolve event = some .paste then
        (.incomplete, s.unheld.edited ({ · with buffer := held.line.insert held.text }))
      else s.unheld.responded (s.editor.keymap.resolve event) event clipboard

theorem acted_clipboard {action : Action} (other : action ≠ .paste) (s : Session C W)
    (first second : Option String) : s.acted action first = s.acted action second := by
  cases action with
  | paste => exact absurd rfl other
  | _ => rfl

theorem responded_clipboard {action : Option Action} (other : action ≠ some .paste)
    (s : Session C W) (event : KeyEvent) (first second : Option String) :
    s.responded action event first = s.responded action event second := by
  cases action with
  | none => rfl
  | some action => exact acted_clipboard (fun same => other (congrArg some same)) _ first second

theorem handled_confirmed {s : Session C W} {event : KeyEvent} {held : HeldPaste}
    (ignored : ¬s.editor.ignores event = true) (waits : s.editor.heldPaste = some held)
    (confirmed : s.editor.keymap.resolve event = some .paste) (clipboard : Option String) :
    s.handled event clipboard =
      (.incomplete, s.unheld.edited ({ · with buffer := held.line.insert held.text })) := by
  unfold handled
  rw [if_neg ignored, waits]
  exact if_pos confirmed

/-- Any other event is answered once the line has come back. -/
theorem handled_of_other {s : Session C W} {event : KeyEvent}
    (ignored : ¬s.editor.ignores event = true)
    (other : s.editor.heldPaste = none ∨ s.editor.keymap.resolve event ≠ some .paste)
    (clipboard : Option String) :
    s.handled event clipboard =
      s.unheld.responded (s.editor.keymap.resolve event) event clipboard := by
  unfold handled
  rw [if_neg ignored]
  cases waits : s.editor.heldPaste with
  | none => rw [unheld_of_none waits]
  | some held => exact if_neg (other.resolve_left (by rw [waits]; nofun))

theorem resolve_of_meaning {e : Editor} {event : KeyEvent} {action : Action}
    (h : e.meaning event = some action) :
    ¬e.ignores event = true ∧ e.keymap.resolve event = some action := by
  unfold Editor.meaning at h
  by_cases ignored : e.ignores event = true
  · rw [if_pos ignored] at h
    exact absurd h nofun
  · rw [if_neg ignored] at h
    exact ⟨ignored, h⟩

theorem handled_of_commit {s : Session C W} {event : KeyEvent}
    (commits : s.editor.meaning event = some .commit) (clipboard : Option String) :
    s.handled event clipboard = (.returnToHost, s.committing.committed) := by
  obtain ⟨ignored, bound⟩ := resolve_of_meaning commits
  rw [handled_of_other ignored (.inr (by rw [bound]; nofun)), bound]
  rfl

end

/-- What an attempt ends with: the core is `k`, and the result is `a` if there is one. Which of the
operations failed, if one did, does not show in the core. -/
def Answers (x : Except ConsoleError A × Session C W) (a : A) (k : Core W) : Prop :=
  x.2.core = k ∧ ∀ b, x.1 = .ok b → b = a

theorem answers_ok {s : Session C W} (a : A) {k : Core W} (h : s.core = k) :
    Answers (.ok a, s) a k :=
  ⟨h, fun _ same => (Except.ok.inj same).symm⟩

/-- An attempt may go on with one that leaves the core alone. -/
theorem Answers.bind {act : Edit C W A} {next : A → Edit C W B} {s : Session C W} {a : A} {b : B}
    {k : Core W} (first : Answers (act.exec s) a k)
    (second : ∀ t : Session C W, t.core = k → Answers ((next a).exec t) b k) :
    Answers ((act >>= next).exec s) b k := by
  obtain ⟨same, result⟩ := first
  rw [exec_bind]
  cases run : act.exec s with
  | mk r t =>
    rw [run] at same result
    cases r with
    | error e => exact ⟨same, nofun⟩
    | ok x =>
      obtain rfl := result x rfl
      exact second t same

theorem exec_update (f : Editor → Editor) (s : Session C W) :
    (update f : Edit C W Unit).exec s = (.ok (), s.edited f) := rfl

theorem exec_setBuffer (b : Buffer) (s : Session C W) :
    (setBuffer b : Edit C W Unit).exec s = (.ok (), s.edited ({ · with buffer := b })) := rfl

theorem exec_paint (act : Painter.Paint C A) (s : Session C W) :
    ∃ r p c, (paint act : Edit C W A).exec s = (r, s.repainted p c) :=
  ⟨_, _, _, rfl⟩

theorem answers_paint (act : Painter.Paint C Unit) {s : Session C W} {k : Core W}
    (h : s.core = k) : Answers ((paint act : Edit C W Unit).exec s) () k :=
  ⟨h, fun _ _ => rfl⟩

theorem core_edited_type (s : Session C W) (c : Option Char) :
    (s.edited (·.type c)).core = s.core.edited (·.type c) := by
  cases c <;> rfl

theorem core_edited_pasted (s : Session C W) (text : Option String) :
    (s.edited (·.pasted text)).core = s.core.edited (·.pasted text) := by
  cases text with
  | none => rfl
  | some text =>
    simp only [edited, core, Editor.pasted]
    split <;> rfl

variable [Console C]

theorem exec_redraw (s : Session C W) :
    ∃ r p c, (redraw : Edit C W Unit).exec s = (r, s.repainted p c) :=
  ⟨_, _, _, rfl⟩

theorem answers_redraw {s : Session C W} {k : Core W} (h : s.core = k) :
    Answers ((redraw : Edit C W Unit).exec s) () k :=
  ⟨h, fun _ _ => rfl⟩

theorem answers_runThenResume (command : String) (s : Session C W) :
    Answers ((runThenResume command : Edit C W Outcome).exec s) .returnToHostThenResume
      (s.core.asking command) := by
  unfold runThenResume
  rw [exec_bind_of_ok (exec_get s)]
  dsimp only
  rw [exec_bind_of_ok (exec_modify _ s)]
  refine (answers_redraw rfl).bind fun t painted => ?_
  refine (answers_paint _ painted).bind fun t finished => ?_
  exact answers_ok _ finished

/-- What is on the clipboard is read before anything is painted. A clipboard that cannot be read is
taken for an empty one, which leaves the core as it is too. -/
theorem answers_paste (s : Session C W) :
    Answers ((paste : Edit C W Unit).exec s) () (s.core.edited (·.pasted s.clipboard)) := by
  unfold paste clipboard
  rw [exec_bind, exec_on]
  cases (Console.clipboardText : Attempt C (Option String)).exec s.console with
  | mk r c =>
    cases r with
    | error e => exact ⟨rfl, nofun⟩
    | ok text => exact answers_ok _ (core_edited_pasted _ text)

theorem answers_navigate [WorkingDirectory W] (direction : Direction) (s : Session C W) :
    Answers ((navigate direction : Edit C W Outcome).exec s) (s.core.navigated direction).1
      (s.core.navigated direction).2 := by
  have same : s.core.navigated direction =
      if (s.directories.navigate direction s.host).1 then
        (.returnToHostThenResume, asking { s.core with
          directories := (s.directories.navigate direction s.host).2.1
          host := (s.directories.navigate direction s.host).2.2 } "")
      else (.incomplete, { s.core with
        directories := (s.directories.navigate direction s.host).2.1
        host := (s.directories.navigate direction s.host).2.2 }) := rfl
  rw [same]
  unfold navigate
  rw [exec_bind_of_ok (exec_get s)]
  dsimp only
  generalize s.directories.navigate direction s.host = walk
  obtain ⟨moved, directories, host⟩ := walk
  rw [exec_bind_of_ok (exec_set s _)]
  cases moved with
  | true => exact answers_runThenResume "" _
  | false => exact answers_ok _ rfl

/-- What an attempt to commit a line ends with, by whether the line could be shown. One that fails
leaves the cursor at the end of the line, and a line that was shown in the history too. -/
inductive Commits (k : Core W) : Bool → Except ConsoleError Outcome × Session C W → Prop
  | unshown {e : ConsoleError} {t : Session C W} : t.core = k.atEnd → Commits k false (.error e, t)
  | unfinished {e : ConsoleError} {t : Session C W} :
      t.core = k.atEnd.recorded → Commits k true (.error e, t)
  | finished {t : Session C W} : t.core = k.committed → Commits k true (.ok .returnToHost, t)

/-- Whether the line can be shown with the cursor at its end. -/
def shows (s : Session C W) : Bool := ((redraw : Edit C W Unit).exec s.atEnd).1.isOk

theorem commits_commit (s : Session C W) :
    Commits s.core s.shows ((commit : Edit C W Outcome).exec s) := by
  unfold commit shows
  rw [exec_bind_of_ok (exec_get s)]
  dsimp only
  rw [exec_bind_of_ok (exec_modify _ s)]
  obtain ⟨r, p, c, shown⟩ := exec_redraw s.atEnd
  cases r with
  | error e =>
    rw [exec_bind_of_error shown, shown]
    exact .unshown rfl
  | ok u =>
    rw [exec_bind_of_ok shown, shown, exec_bind_of_ok (exec_modify _ _)]
    obtain ⟨r, p', c', finished⟩ := exec_paint (Painter.finish s.editor.buffer.length)
      (s.atEnd.repainted p c).recorded
    cases r with
    | error e =>
      rw [exec_bind_of_error finished]
      exact .unfinished rfl
    | ok u =>
      have ended : (update ({ · with mode := .idle }) : Edit C W Unit).exec _ = _ :=
        exec_update _ ((s.atEnd.repainted p c).recorded.repainted p' c')
      rw [exec_bind_of_ok finished, exec_bind_of_ok ended]
      exact .finished rfl

theorem answers_show (outcome : Outcome) {s : Session C W} {k : Core W} (h : s.core = k) :
    Answers ((if outcome = .incomplete then do redraw; pure outcome
      else pure outcome : Edit C W Outcome).exec s) outcome k := by
  split
  · exact (answers_redraw h).bind fun t shown => answers_ok _ shown
  · exact answers_ok _ h

variable [WorkingDirectory W]

/-- What an action other than a commit does to the core. There is one case for each kind of action,
and in each the core is changed before the console is. -/
theorem answers_perform {action : Action} (other : action ≠ .commit) (s : Session C W) :
    Answers ((perform action : Edit C W Outcome).exec s) (s.core.acted action s.clipboard).1
      (s.core.acted action s.clipboard).2 := by
  unfold perform acted
  rw [exec_bind_of_ok (exec_get s)]
  dsimp only
  -- The core shares the editor of the session, so that both sides branch on the same edit.
  change Answers _ (match action.edit? s.editor.settings s.editor.buffer with
    | some b => _
    | none => _ : Outcome × Core W).1 (match action.edit? s.editor.settings s.editor.buffer with
    | some b => _
    | none => _ : Outcome × Core W).2
  cases action.edit? s.editor.settings s.editor.buffer with
  | some b => exact answers_ok _ rfl
  | none =>
    cases action with
    | commit => exact absurd rfl other
    | directoryBack => exact answers_navigate .backward s
    | directoryForward => exact answers_navigate .forward s
    | parentDirectory => exact answers_runThenResume _ s
    | paste =>
      dsimp only
      rw [seqRight_eq_bind]
      exact (answers_paste s).bind fun t pasted => answers_ok _ pasted
    | exitOrDeleteForward =>
      dsimp only
      change Answers _ (if s.editor.buffer.isEmpty then _ else _ : Outcome × Core W).1
        (if s.editor.buffer.isEmpty then _ else _ : Outcome × Core W).2
      cases s.editor.buffer.isEmpty with
      | true => exact answers_runThenResume _ s
      | false => exact answers_ok _ rfl
    | _ => exact answers_ok _ rfl

theorem exec_perform_commit (s : Session C W) :
    (perform .commit : Edit C W Outcome).exec s = (commit : Edit C W Outcome).exec s := by
  unfold perform
  rw [exec_bind_of_ok (exec_get s)]
  rfl

theorem answers_respond {action : Option Action} (other : action ≠ some .commit)
    (event : KeyEvent) (s : Session C W) :
    Answers ((respond action event : Edit C W Outcome).exec s)
      (s.core.responded action event s.clipboard).1
      (s.core.responded action event s.clipboard).2 := by
  unfold respond
  rw [exec_bind_of_ok (exec_update _ s)]
  cases action with
  | none =>
    have typed : Answers ((update (·.type event.printable) *> pure .incomplete :
        Edit C W Outcome).exec (s.edited (·.settle none))) .incomplete
        (s.core.responded none event s.clipboard).2 := answers_ok _ (core_edited_type _ _)
    exact typed.bind fun t same => answers_show .incomplete same
  | some action =>
    have acts := answers_perform (fun h => other (congrArg some h)) (s.edited (·.settle (some action)))
    exact acts.bind fun t same => answers_show _ same

theorem exec_respond_commit (event : KeyEvent) (s : Session C W) :
    (respond (some .commit) event : Edit C W Outcome).exec s =
      (commit : Edit C W Outcome).exec (s.edited (·.settle (some .commit))) := by
  unfold respond
  rw [exec_bind_of_ok (exec_update _ s)]
  dsimp only
  rw [exec_bind, exec_perform_commit]
  have commits := commits_commit (s.edited (·.settle (some .commit)))
  generalize (s.edited (·.settle (some .commit))).shows = shown at commits
  generalize (commit : Edit C W Outcome).exec (s.edited (·.settle (some .commit))) = x at commits ⊢
  cases commits with
  | unshown same => rfl
  | unfinished same => rfl
  | finished same => rfl

theorem exec_handleKey_of_ignored {s : Session C W} {event : KeyEvent}
    (ignored : s.editor.ignores event = true) :
    (handleKey event : Edit C W Outcome).exec s = (.ok .incomplete, s) := by
  unfold handleKey
  rw [exec_bind_of_ok (exec_get s)]
  dsimp only
  rw [if_pos ignored]
  rfl

/-- What an event that does not mean a commit does to the core, whatever becomes of the painting. A
commit is told apart because it paints in between. -/
theorem answers_handleKey (s : Session C W) {event : KeyEvent}
    (other : s.editor.meaning event ≠ some .commit) :
    Answers ((handleKey event : Edit C W Outcome).exec s) (s.core.handled event s.clipboard).1
      (s.core.handled event s.clipboard).2 := by
  unfold handleKey
  rw [exec_bind_of_ok (exec_get s)]
  dsimp only
  unfold Editor.meaning at other
  by_cases ignored : s.editor.ignores event = true
  · have nothing : s.core.handled event s.clipboard = (.incomplete, s.core) := if_pos ignored
    rw [if_pos ignored, nothing]
    exact answers_ok _ rfl
  · rw [if_neg ignored] at other ⊢
    cases waits : s.editor.heldPaste with
    | none =>
      rw [handled_of_other (s := s.core) ignored (.inl waits), unheld_of_none (s := s.core) waits]
      exact answers_respond other event s
    | some held =>
      have back : s.edited ({ · with heldPaste := none, buffer := held.line }) = s.unheld :=
        (unheld_of_some waits).symm
      dsimp only
      rw [exec_bind_of_ok (exec_update _ s), back]
      by_cases confirmed : s.editor.keymap.resolve event = some .paste
      · rw [handled_confirmed (s := s.core) ignored waits confirmed, if_pos confirmed,
          exec_bind_of_ok (exec_setBuffer _ _)]
        exact (answers_redraw rfl).bind fun t shown => answers_ok _ shown
      · rw [handled_of_other (s := s.core) ignored (.inr confirmed), if_neg confirmed]
        exact answers_respond other event s.unheld

theorem exec_handleKey_of_commit (s : Session C W) {event : KeyEvent}
    (commits : s.editor.meaning event = some .commit) :
    (handleKey event : Edit C W Outcome).exec s = (commit : Edit C W Outcome).exec s.committing := by
  obtain ⟨ignored, bound⟩ := resolve_of_meaning commits
  unfold handleKey
  rw [exec_bind_of_ok (exec_get s)]
  dsimp only
  rw [if_neg ignored, bound]
  cases waits : s.editor.heldPaste with
  | none =>
    rw [committing, unheld_of_none waits]
    exact exec_respond_commit event s
  | some held =>
    dsimp only
    rw [exec_bind_of_ok (exec_update _ s), if_neg nofun, committing, unheld_of_some waits]
    exact exec_respond_commit event (s.edited ({ · with heldPaste := none, buffer := held.line }))

theorem commits_handleKey (s : Session C W) {event : KeyEvent}
    (commits : s.editor.meaning event = some .commit) :
    Commits s.core.committing s.committing.shows ((handleKey event : Edit C W Outcome).exec s) := by
  rw [exec_handleKey_of_commit s commits]
  exact commits_commit s.committing

/-- An event that is handled without a failure does to the core what it does without a console. -/
theorem handled_of_ok {s t : Session C W} {event : KeyEvent} {outcome : Outcome}
    (run : (handleKey event : Edit C W Outcome).exec s = (.ok outcome, t)) :
    s.core.handled event s.clipboard = (outcome, t.core) := by
  by_cases commits : s.editor.meaning event = some .commit
  · have ends := commits_handleKey s commits
    rw [run] at ends
    generalize s.committing.shows = shown at ends
    cases ends with
    | finished same =>
      rw [handled_of_commit (s := s.core) commits, same]
  · obtain ⟨same, result⟩ := answers_handleKey s commits
    rw [run] at same result
    exact Prod.ext (result outcome rfl).symm same.symm

/-- A line that begins, whether or not this succeeds, changes nothing that `Editor.resume` and the
history of directories do not. -/
theorem core_start (s : Session C W) : ∃ directories,
    ((start : Edit C W Unit).exec s).2.core = { s.core.edited Editor.resume with directories } := by
  unfold start
  rw [exec_bind_of_ok (exec_update _ s), exec_bind]
  obtain ⟨r, p, c, begun⟩ := exec_paint (Painter.begin : Painter.Paint C Unit) (s.edited Editor.resume)
  rw [begun]
  cases r with
  | error e => exact ⟨s.directories, rfl⟩
  | ok u => exact ⟨s.directories.resume (WorkingDirectory.current s.host), rfl⟩

/-- A line that begins without a failure begins as it does without a console. -/
theorem started_of_ok {s t : Session C W}
    (run : (start : Edit C W Unit).exec s = (.ok (), t)) : t.core = s.core.started := by
  unfold start at run
  rw [exec_bind_of_ok (exec_update _ s)] at run
  obtain ⟨_, u, begun, run⟩ := exec_bind_eq_ok run
  obtain ⟨r, p, c, painted⟩ := exec_paint (Painter.begin : Painter.Paint C Unit) (s.edited Editor.resume)
  obtain rfl : (s.edited Editor.resume).repainted p c = u :=
    congrArg Prod.snd (painted.symm.trans begun)
  rw [exec_bind_of_ok (exec_modify _ _)] at run
  obtain ⟨r, p', c', shown⟩ := exec_redraw { (s.edited Editor.resume).repainted p c with
    directories := s.directories.resume (WorkingDirectory.current s.host) }
  exact congrArg (fun x => x.2.core) (run.symm.trans shown)

end Session

end LineEdit
