import LineEdit.Proofs.Session.Consoles

/-!
# What an event paints

An event that is heard changes the session as it does without a console, and the line is then shown.
If the host takes over for a command, the cursor leaves the line for the row below. Painting comes
last, so that what is painted depends on nothing but the line and the painter. A commit alone paints
before it is through.
-/
namespace LineEdit.Session

open Attempt

variable {C W : Type}

theorem display_committed (s : Session C W) :
    s.committed.editor.painter = s.editor.painter ∧ s.committed.console = s.console := by
  simp only [committed, recorded, atEnd, edited, and_self]

theorem display_recalled (s : Session C W) (direction : Direction) (stem : String) :
    (s.recalled direction stem).editor.painter = s.editor.painter ∧
      (s.recalled direction stem).console = s.console := by
  unfold recalled
  generalize s.history.move direction stem = found
  exact ⟨rfl, rfl⟩

theorem painter_complete (e : Editor) (direction : Direction) :
    (e.complete direction).painter = e.painter := by
  unfold Editor.complete
  generalize e.completion.request direction e.buffer = answer
  rfl

theorem painter_pasted (e : Editor) (clipboard : Option String) :
    (e.pasted clipboard).painter = e.painter := by
  cases clipboard with
  | none => rfl
  | some text =>
    simp only [Editor.pasted]
    split <;> rfl

section

variable [WorkingDirectory W]

theorem display_navigated (s : Session C W) (direction : Direction) :
    (s.navigated direction).2.editor.painter = s.editor.painter ∧
      (s.navigated direction).2.console = s.console := by
  unfold navigated
  generalize s.directories.navigate direction s.host = walk
  obtain ⟨moved, directories, host⟩ := walk
  cases moved <;> exact ⟨rfl, rfl⟩

theorem display_acted (s : Session C W) (action : Action) (clipboard : Option String) :
    (s.acted action clipboard).2.editor.painter = s.editor.painter ∧
      (s.acted action clipboard).2.console = s.console := by
  unfold acted
  cases action.edit? s.editor.settings s.editor.buffer with
  | some b => exact ⟨rfl, rfl⟩
  | none =>
    cases action with
    | commit => exact s.display_committed
    | directoryBack => exact s.display_navigated .backward
    | directoryForward => exact s.display_navigated .forward
    | historyPrevious => exact s.display_recalled .backward ""
    | historyNext => exact s.display_recalled .forward ""
    | historySearchBackward => exact display_recalled _ .backward _
    | historySearchForward => exact display_recalled _ .forward _
    | completeNext => exact ⟨painter_complete s.editor .forward, rfl⟩
    | completePrevious => exact ⟨painter_complete s.editor .backward, rfl⟩
    | paste => exact ⟨painter_pasted s.editor clipboard, rfl⟩
    | exitOrDeleteForward =>
      dsimp only
      split <;> exact ⟨rfl, rfl⟩
    | _ => exact ⟨rfl, rfl⟩

/-- Nothing is painted by what an event does without a console, so that the painter and the console
are still as they were when the painting begins. -/
theorem display_handled (s : Session C W) (event : KeyEvent) (clipboard : Option String) :
    (s.handled event clipboard).2.editor.painter = s.editor.painter ∧
      (s.handled event clipboard).2.console = s.console := by
  have answers (t : Session C W) (action : Option Action) :
      (t.responded action event clipboard).2.editor.painter = t.editor.painter ∧
        (t.responded action event clipboard).2.console = t.console := by
    cases action with
    | none =>
      refine ⟨?_, rfl⟩
      change ((t.editor.settle none).type event.printable).painter = t.editor.painter
      cases event.printable <;> rfl
    | some action => exact (t.edited (·.settle (some action))).display_acted action clipboard
  unfold handled
  split
  · exact ⟨rfl, rfl⟩
  · split
    · exact answers s _
    · split
      · exact ⟨rfl, rfl⟩
      · exact answers s.unheld _

end

variable [Console C]

/-- Shows the line after an event that means `outcome`, and leaves it if the host runs a command. -/
def conclude (outcome : Outcome) : Edit C W Outcome := do
  let length := (← get).editor.buffer.length
  redraw
  if outcome = .returnToHostThenResume then paint (Painter.finish length)
  return outcome

/-- What is shown changes nothing but the console and the painter, even if it cannot be shown. -/
theorem exec_conclude (outcome : Outcome) (s : Session C W) :
    ∃ r p c, (conclude outcome : Edit C W Outcome).exec s = (r, s.repainted p c) := by
  unfold conclude
  rw [exec_bind_of_ok (exec_get s)]
  dsimp only
  obtain ⟨r, p, c, shown⟩ := exec_redraw s
  cases r with
  | error e =>
    rw [exec_bind_of_error shown]
    exact ⟨_, p, c, rfl⟩
  | ok u =>
    rw [exec_bind_of_ok shown]
    by_cases leaves : outcome = .returnToHostThenResume
    · obtain ⟨r, p', c', left⟩ := exec_paint (Painter.finish s.editor.buffer.length)
        (s.repainted p c)
      rw [if_pos leaves]
      cases r with
      | error e =>
        rw [exec_bind_of_error left]
        exact ⟨_, p', c', rfl⟩
      | ok u =>
        rw [exec_bind_of_ok left]
        exact ⟨_, p', c', rfl⟩
    · rw [if_neg leaves]
      exact ⟨_, p, c, rfl⟩

/-- What an editor does after an action: it shows the line unless the host takes over. -/
def showing (outcome : Outcome) : Edit C W Outcome :=
  if outcome = .incomplete then do
    redraw
    pure outcome
  else pure outcome

theorem exec_showing {act : Edit C W Outcome} {s t : Session C W}
    (edits : act.exec s = (.ok .incomplete, t)) :
    (act >>= showing).exec s = (conclude .incomplete).exec t := by
  rw [exec_bind_of_ok edits]
  rfl

theorem exec_runThenResume (s : Session C W) (command : String) :
    (runThenResume command >>= showing : Edit C W Outcome).exec s =
      (conclude .returnToHostThenResume).exec (s.asking command) := by
  unfold runThenResume conclude
  rw [exec_bind, exec_bind_of_ok (exec_get s), exec_bind_of_ok (exec_modify _ s),
    exec_bind_of_ok (exec_get _)]
  obtain ⟨r, p, c, shown⟩ := exec_redraw (s.asking command)
  cases r with
  | error e =>
    rw [exec_bind_of_error shown, exec_bind_of_error shown]
  | ok u =>
    rw [exec_bind_of_ok shown, exec_bind_of_ok shown]
    dsimp only
    rw [if_pos rfl]
    obtain ⟨r, p', c', finished⟩ := exec_paint (Painter.finish s.editor.buffer.length)
      ((s.asking command).repainted p c)
    cases r with
    | error e =>
      rw [exec_bind_of_error finished, exec_bind_of_error]
      exact finished
    | ok u =>
      have finished' : (paint (Painter.finish (s.asking command).editor.buffer.length) :
          Edit C W Unit).exec _ = _ := finished
      rw [exec_bind_of_ok finished, exec_bind_of_ok finished']
      rfl

variable [WorkingDirectory W]

theorem exec_navigate (s : Session C W) (direction : Direction) :
    (navigate direction >>= showing : Edit C W Outcome).exec s =
      (conclude (s.navigated direction).1).exec (s.navigated direction).2 := by
  unfold navigate navigated
  rw [exec_bind, exec_bind_of_ok (exec_get s)]
  dsimp only
  generalize s.directories.navigate direction s.host = walk
  obtain ⟨moved, directories, host⟩ := walk
  rw [exec_bind_of_ok (exec_set s _), ← exec_bind]
  cases moved with
  | true =>
    dsimp only
    rw [if_pos rfl, if_pos rfl]
    exact exec_runThenResume { s with directories, host } ""
  | false => exact exec_showing rfl

/-- An action other than a commit edits, and the line is shown afterwards. A paste is such an action
as long as the clipboard can be read. -/
theorem exec_perform {action : Action} (s : Session C W) (other : action ≠ .commit)
    (sound : action = .paste → (Console.clipboardText : Attempt C (Option String)).exec s.console =
      (.ok s.clipboard, s.console)) :
    (perform action >>= showing : Edit C W Outcome).exec s =
      (conclude (s.acted action s.clipboard).1).exec (s.acted action s.clipboard).2 := by
  unfold perform acted
  rw [exec_bind, exec_bind_of_ok (exec_get s), ← exec_bind]
  dsimp only
  cases action.edit? s.editor.settings s.editor.buffer with
  | some b => exact exec_showing rfl
  | none =>
    cases action with
    | commit => exact absurd rfl other
    | directoryBack => exact exec_navigate s .backward
    | directoryForward => exact exec_navigate s .forward
    | parentDirectory => exact exec_runThenResume s _
    | paste =>
      have read : (paste : Edit C W Unit).exec s = (.ok (), s.edited (·.pasted s.clipboard)) := by
        unfold paste
        rw [exec_bind, exec_on, sound rfl]
        rfl
      dsimp only
      rw [seqRight_eq_bind]
      exact exec_showing (exec_bind_of_ok read)
    | exitOrDeleteForward =>
      dsimp only
      cases s.editor.buffer.isEmpty with
      | true => exact exec_runThenResume s _
      | false => exact exec_showing rfl
    | _ => exact exec_showing rfl

theorem exec_respond {action : Option Action} (event : KeyEvent) (s : Session C W)
    (other : action ≠ some .commit)
    (sound : action = some .paste →
      (Console.clipboardText : Attempt C (Option String)).exec s.console =
        (.ok s.clipboard, s.console)) :
    (respond action event : Edit C W Outcome).exec s =
      (conclude (s.responded action event s.clipboard).1).exec
        (s.responded action event s.clipboard).2 := by
  cases action with
  | none => exact exec_showing rfl
  | some action =>
    exact exec_perform (s.edited (·.settle (some action))) (fun same => other (congrArg some same))
      fun same => sound (congrArg some same)

/-- An event that is heard and does not commit the line edits first and paints last. -/
theorem exec_handleKey {s : Session C W} {event : KeyEvent} (heard : ¬s.editor.ignores event = true)
    (other : s.editor.meaning event ≠ some .commit)
    (sound : s.reads event → (Console.clipboardText : Attempt C (Option String)).exec s.console =
      (.ok s.clipboard, s.console)) :
    (handleKey event : Edit C W Outcome).exec s =
      (conclude (s.handled event s.clipboard).1).exec (s.handled event s.clipboard).2 := by
  have meant : s.editor.meaning event = s.editor.keymap.resolve event := if_neg heard
  rw [meant] at other
  unfold handleKey
  rw [exec_bind_of_ok (exec_get s)]
  dsimp only
  rw [if_neg heard]
  cases waits : s.editor.heldPaste with
  | none =>
    rw [handled_of_other heard (.inl waits), unheld_of_none waits]
    exact exec_respond event s other fun pastes => sound ⟨meant.trans pastes, waits⟩
  | some held =>
    have back : s.edited ({ · with heldPaste := none, buffer := held.line }) = s.unheld :=
      (unheld_of_some waits).symm
    dsimp only
    rw [exec_bind_of_ok (exec_update _ s), back]
    by_cases confirmed : s.editor.keymap.resolve event = some .paste
    · rw [handled_confirmed heard waits confirmed, if_pos confirmed,
        exec_bind_of_ok (exec_setBuffer _ _)]
      rfl
    · rw [handled_of_other heard (.inr confirmed), if_neg confirmed]
      exact exec_respond event s.unheld other fun pastes => absurd pastes confirmed

end LineEdit.Session
