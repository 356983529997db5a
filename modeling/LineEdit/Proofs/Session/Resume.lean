import LineEdit.Proofs.Session.Transient

/-!
# A line that goes on

To begin while a line is edited is to go on with what stands in the place of the line. While a paste
waits that is the question about it, and the line is kept together with the paste. To begin ends
what is under way: the paste goes, and the line goes with it, so that the question is the line from
then on. An event that ends the question brings the line back first.
-/
namespace LineEdit

open Attempt Text

namespace Editor

/-- The question whether the lines of a text are wanted, which takes the place of the line. -/
def question (e : Editor) (text : String) : Buffer :=
  Buffer.ofText (e.settings.pastePrompt (lines text).length)

/-- What waits to be confirmed has several lines, and the question about it is in sight. Every call
of the host keeps this. -/
def Asks (e : Editor) : Prop :=
  ∀ held, e.heldPaste = some held →
    isSingleLine held.text = false ∧ e.buffer = e.question held.text

variable {e : Editor}

theorem asks_of_unheld (unheld : e.heldPaste = none) : e.Asks := by
  intro held waits
  exact absurd (unheld.symm.trans waits) nofun

theorem asks_pasted (unheld : e.heldPaste = none) (clipboard : Option String) :
    (e.pasted clipboard).Asks := by
  cases clipboard with
  | none => exact asks_of_unheld unheld
  | some text =>
    unfold pasted
    dsimp only
    split
    next => exact asks_of_unheld unheld
    next several =>
      rintro held ⟨rfl⟩
      exact ⟨eq_false_of_ne_true several, rfl⟩

theorem heldPaste_complete (e : Editor) (direction : Direction) :
    (e.complete direction).heldPaste = e.heldPaste := by
  simp only [complete]

theorem line_of_unheld (unheld : e.heldPaste = none) : e.line = e.buffer := by
  unfold line
  rw [unheld]
  rfl

theorem line_of_held {held : HeldPaste} (waits : e.heldPaste = some held) : e.line = held.line := by
  unfold line
  rw [waits]
  rfl

end Editor

namespace Session

variable {C W : Type} {s t u : Session C W}

theorem heldPaste_searched (s : Session C W) (direction : Direction) :
    (s.searched direction).editor.heldPaste = s.editor.heldPaste := by
  simp only [searched, recalled]

section

variable [WorkingDirectory W]

/-- Only a paste puts anything aside. -/
theorem heldPaste_acted {action : Action} (other : action ≠ .paste) (s : Session C W)
    (clipboard : Option String) :
    (s.acted action clipboard).2.editor.heldPaste = s.editor.heldPaste := by
  unfold acted
  cases action.edit? s.editor.settings s.editor.buffer with
  | some b => rfl
  | none =>
    cases action with
    | paste => exact absurd rfl other
    | directoryBack => exact congrArg (·.heldPaste) (underway_navigated s .backward)
    | directoryForward => exact congrArg (·.heldPaste) (underway_navigated s .forward)
    | commit => exact congrArg (·.heldPaste) (underway_committed s)
    | historyPrevious => exact congrArg (·.heldPaste) (underway_recalled s .backward "")
    | historyNext => exact congrArg (·.heldPaste) (underway_recalled s .forward "")
    | historySearchBackward => exact heldPaste_searched s .backward
    | historySearchForward => exact heldPaste_searched s .forward
    | completeNext => exact Editor.heldPaste_complete s.editor .forward
    | completePrevious => exact Editor.heldPaste_complete s.editor .backward
    | exitOrDeleteForward =>
      dsimp only
      split
      · rfl
      · rfl
    | _ => rfl

theorem asks_acted (unheld : s.editor.heldPaste = none) (action : Action)
    (clipboard : Option String) : (s.acted action clipboard).2.editor.Asks := by
  by_cases pastes : action = .paste
  · subst pastes
    exact Editor.asks_pasted unheld clipboard
  · exact Editor.asks_of_unheld ((heldPaste_acted pastes s clipboard).trans unheld)

theorem asks_handled (asks : s.editor.Asks) (event : KeyEvent) (clipboard : Option String) :
    (s.handled event clipboard).2.editor.Asks := by
  by_cases ignored : s.editor.ignores event = true
  · have same : s.handled event clipboard = (.incomplete, s) := if_pos ignored
    rw [same]
    exact asks
  · by_cases other : s.editor.heldPaste = none ∨ s.editor.keymap.resolve event ≠ some .paste
    · rw [handled_of_other ignored other]
      unfold responded
      cases s.editor.keymap.resolve event with
      | some action => exact asks_acted rfl action clipboard
      | none => exact Editor.asks_of_unheld (congrArg (·.heldPaste) (Editor.underway_type _ _))
    · obtain ⟨waits, confirmed⟩ := not_or.mp other
      obtain ⟨held, waits⟩ := Option.ne_none_iff_exists'.mp waits
      rw [handled_confirmed ignored waits (Decidable.not_not.mp confirmed)]
      exact Editor.asks_of_unheld rfl

end

variable [Console C] [WorkingDirectory W]

theorem asks_handleKey {event : KeyEvent} {r : Except ConsoleError Outcome} (asks : t.editor.Asks)
    (run : (handleKey event : Edit C W Outcome).exec t = (r, u)) : u.editor.Asks := by
  by_cases commits : t.editor.meaning event = some .commit
  · have ends := commits_handleKey t commits
    rw [run] at ends
    exact Editor.asks_of_unheld (congrArg (·.heldPaste) ends.ends)
  · obtain ⟨same, -⟩ := answers_handleKey t commits
    rw [run] at same
    have handled : u.core.editor.Asks := by
      rw [show u.core = _ from same]
      exact asks_handled (s := t.core) asks event t.clipboard
    exact handled

/-- Whatever has happened, a paste that waits has the question about it in sight. The induction is
on how the session was reached. -/
theorem Reachable.asks {ready : Bool} (reachable : Reachable ready s) : s.editor.Asks := by
  induction reachable with
  | new settings => exact Editor.asks_of_unheld rfl
  | start _ begun =>
    exact Editor.asks_of_unheld (congrArg (·.heldPaste) (nothing_of_start begun))
  | press _ handled ih => exact asks_handleKey ih handled
  | @take t earlier _ =>
    obtain ⟨-, quiet⟩ := earlier.fits
    have nothing := (Editor.underway_takeCommand t.editor).trans (quiet rfl)
    exact Editor.asks_of_unheld (congrArg (·.heldPaste) nothing)
  | meanwhile _ _ _ _ _ _ _ ih => exact ih

/-- To begin while a line is edited leaves what stands in its place, with the cursor where it is,
and nothing waits any more. That is the line unless a paste waited. If one did, it is the question
about it, with the cursor behind it, and the line that was kept is gone unless it was that same
question. -/
theorem buffer_of_start {ready : Bool} (reachable : Reachable ready t)
    (editing : t.editor.mode = .editing) (run : (start : Edit C W Unit).exec t = (.ok (), u)) :
    u.editor.mode = .editing ∧ u.editor.heldPaste = none ∧ u.editor.line = u.editor.buffer ∧
    u.editor.buffer = t.editor.buffer ∧
    (t.editor.heldPaste = none → u.editor.buffer = t.editor.line) ∧
    ∀ held, t.editor.heldPaste = some held →
      u.editor.buffer = t.editor.question held.text ∧
      (u.editor.buffer = t.editor.line ↔ held.line = t.editor.question held.text) := by
  have started := started_of_ok run
  have kept : u.editor.buffer = t.editor.buffer := by
    have resumed : u.editor.buffer =
        if t.editor.mode = .idle then Buffer.empty else t.editor.buffer :=
      congrArg (·.editor.buffer) started
    rw [resumed, editing]
    rfl
  have unheld : u.editor.heldPaste = none := congrArg (·.editor.heldPaste) started
  refine ⟨congrArg (·.editor.mode) started, unheld, Editor.line_of_unheld unheld, kept, ?_, ?_⟩
  · intro quiet
    rw [kept, Editor.line_of_unheld quiet]
  · intro held waits
    obtain ⟨-, asked⟩ := reachable.asks held waits
    rw [kept, asked, Editor.line_of_held waits]
    exact ⟨rfl, eq_comm⟩

def curt : Session Screen ShellDirectory :=
  { small with
    editor := Editor.new { Settings.default with pasteConfirmation := "?" }
    console := { Screen.blank 8 3 with clipboard := some "a\nb" } }

namespace curt

open small

def paste : KeyEvent := ⟨true, .withCtrl (.char 'V'), none⟩

def waiting : Session Screen ShellDirectory :=
  pressed (pressed (small.started curt) (.ofChar 'x')) paste

theorem reachable_waiting : Reachable false waiting := by
  have begun := (Reachable.new { Settings.default with pasteConfirmation := "?" } curt.console
    curt.history curt.directories curt.host).start (small.exec_start curt (by decide +kernel))
  have typing := begun.press
    (small.exec_handleKey (small.started curt) (.ofChar 'x') .incomplete (by decide +kernel))
  exact typing.press
    (small.exec_handleKey (pressed (small.started curt) (.ofChar 'x')) paste .incomplete
      (by decide +kernel))

theorem begun_again :
    (start : Edit Screen ShellDirectory Unit).exec waiting = (.ok (), small.started waiting) :=
  small.exec_start waiting (by decide +kernel)

end curt

open small curt in
/-- The question is the line from then on. -/
theorem buffer_of_start_curt :
    Reachable false waiting ∧ waiting.editor.mode = .editing ∧
      waiting.editor.heldPaste = some ⟨Buffer.ofText "x", "a\nb"⟩ ∧
      (small.started waiting).editor.buffer = Buffer.ofText "?" ∧
      (small.started waiting).editor.line ≠ waiting.editor.line := by
  have editing : waiting.editor.mode = .editing := by decide +kernel
  have waits : waiting.editor.heldPaste = some ⟨Buffer.ofText "x", "a\nb"⟩ := by decide +kernel
  have question : waiting.editor.question "a\nb" = Buffer.ofText "?" := by decide +kernel
  obtain ⟨-, -, line, -, -, lost⟩ := buffer_of_start reachable_waiting editing begun_again
  obtain ⟨asked, same⟩ := lost _ waits
  refine ⟨reachable_waiting, editing, waits, asked.trans question, ?_⟩
  rw [line, ne_eq, same, question]
  decide +kernel

open small curt in
/-- To begin while a line is edited does not always leave the line. What waited is dropped without
the line that it kept, and the question about it stays. -/
theorem not_always_goes_on :
    ¬∀ (t u : Session Screen ShellDirectory), Reachable false t → t.editor.mode = .editing →
      (start : Edit Screen ShellDirectory Unit).exec t = (.ok (), u) →
      u.editor.buffer = t.editor.line := by
  intro goes_on
  have same := goes_on waiting _ reachable_waiting (by decide +kernel) begun_again
  exact absurd same (by decide +kernel)

end Session

end LineEdit
