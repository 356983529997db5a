import LineEdit.Console.Faulty
import LineEdit.Proofs.Session.Protocol
import Mathlib.Logic.Function.Iterate

/-!
# Commits that fail

A commit shows the line, then puts it into the history and the terminator behind it, and then moves
the console to a new row. It can fail before the line is shown, and then nothing has happened but to
the cursor. It can fail afterwards too, and then the line is in the history, carries the terminator,
and is still edited: the next attempt takes it for a line of its own.

Along any number of attempts that fail, each of those that showed the line therefore adds an entry,
and each entry is a terminator longer than the one before.
-/
namespace LineEdit

open Attempt

namespace History

theorem entries_foldl_add (lines : List String) (h : History) :
    (lines.foldl add h).entries = h.entries ++ lines := by
  induction lines generalizing h with
  | nil => exact (List.append_nil _).symm
  | cons line lines ih =>
    rw [List.foldl_cons, ih]
    exact List.append_assoc h.entries [line] lines

theorem foldl_add_eq_self_iff (lines : List String) (h : History) :
    lines.foldl add h = h ↔ lines = [] := by
  constructor
  · intro same
    have entries := entries_foldl_add lines h
    rw [same] at entries
    exact List.self_eq_append_right.mp entries
  · rintro rfl
    rfl

end History

namespace Session

variable {C W : Type}

/-- The line with a terminator for each of `n` attempts behind it. An attempt that showed the line
has put one there, whatever failed afterwards. -/
def lineAfter (s : Session C W) (n : Nat) : String :=
  s.editor.settings.terminated^[n] s.editor.line.text

/-- The history with the lines of `n` attempts, each of which takes what the one before has left. -/
def historyAfter (s : Session C W) (n : Nat) : History :=
  ((List.range n).map s.lineAfter).foldl History.add s.history

theorem lineAfter_succ (s : Session C W) (n : Nat) :
    s.lineAfter (n + 1) = s.editor.settings.terminated (s.lineAfter n) :=
  Function.iterate_succ_apply' _ n _

theorem lineAfter_ne_empty {s : Session C W} (full : s.editor.line.isEmpty = false) (n : Nat) :
    s.lineAfter n ≠ "" := by
  induction n with
  | zero => exact String.isEmpty_eq_false_iff.mp full
  | succ n ih =>
    rw [lineAfter_succ]
    intro empty
    exact ih (String.append_eq_empty_iff.mp empty).1

theorem historyAfter_succ (s : Session C W) (n : Nat) :
    s.historyAfter (n + 1) = (s.historyAfter n).add (s.lineAfter n) := by
  unfold historyAfter
  rw [List.range_succ, List.map_append, List.foldl_append]
  rfl

theorem historyAfter_eq_iff (s : Session C W) (n : Nat) : s.historyAfter n = s.history ↔ n = 0 := by
  unfold historyAfter
  rw [History.foldl_add_eq_self_iff, List.map_eq_nil_iff, List.range_eq_nil]

/-- What a core is after attempts to commit a line, `n` of which have recorded it. Where among them
the others came makes no difference. -/
structure Attempted (s : Session C W) (n : Nat) (k : Core W) : Prop where
  settings : k.editor.settings = s.editor.settings
  synthesized : k.editor.synthesized = s.editor.synthesized
  text : k.editor.line.text = s.lineAfter n
  history : k.history = s.historyAfter n

variable {s t u : Session C W} {n : Nat} {k : Core W}

theorem Attempted.atEnd (attempted : Attempted s n k) : Attempted s n k.committing.atEnd :=
  ⟨attempted.settings, attempted.synthesized, attempted.text, attempted.history⟩

theorem Attempted.committed (attempted : Attempted s n k) (full : s.editor.line.isEmpty = false) :
    Attempted s (n + 1) k.committing.committed where
  settings := attempted.settings
  synthesized := attempted.synthesized
  text := by
    rw [lineAfter_succ, ← attempted.settings, ← attempted.text]
    exact text_committed k.committing
  history := by
    have filled : k.editor.line.isEmpty = false := by
      apply String.isEmpty_eq_false_iff.mpr
      rw [attempted.text]
      exact lineAfter_ne_empty full n
    rw [historyAfter_succ, ← attempted.history, ← attempted.text]
    change (if k.editor.line.isEmpty then _ else _) = _
    rw [filled]
    rfl

/-- A core that has recorded the line is a committed one that is still in the mode it was in. -/
theorem Attempted.recorded (attempted : Attempted s n k) (full : s.editor.line.isEmpty = false) :
    Attempted s (n + 1) k.committing.atEnd.recorded := by
  obtain ⟨settings, synthesized, text, history⟩ := attempted.committed full
  exact ⟨settings, synthesized, text, history⟩

variable [Console C] [WorkingDirectory W]

/-- An attempt that fails leaves no question about a paste, and has recorded the line if it showed
it. -/
theorem Attempted.fail {event : KeyEvent} {e : ConsoleError} (attempted : Attempted s n t.core)
    (full : s.editor.line.isEmpty = false) (commits : t.editor.meaning event = some .commit)
    (run : (handleKey event : Edit C W Outcome).exec t = (.error e, u)) :
    Attempted s (n + t.committing.shows.toNat) u.core ∧ u.core.editor.mode = t.core.editor.mode ∧
      u.core.editor.heldPaste = none := by
  have ends := commits_handleKey t commits
  rw [run] at ends
  generalize t.committing.shows = shown at ends ⊢
  cases ends with
  | unshown same =>
    rw [same]
    exact ⟨attempted.atEnd, rfl, rfl⟩
  | unfinished same =>
    rw [same]
    exact ⟨attempted.recorded full, rfl, rfl⟩

theorem Attempted.finish {event : KeyEvent} {outcome : Outcome} (attempted : Attempted s n t.core)
    (full : s.editor.line.isEmpty = false) (commits : t.editor.meaning event = some .commit)
    (run : (handleKey event : Edit C W Outcome).exec t = (.ok outcome, u)) :
    outcome = .returnToHost ∧ u.core.editor.mode = .idle ∧ Attempted s (n + 1) u.core ∧
      u.core.editor.heldPaste = none := by
  have ends := commits_handleKey t commits
  rw [run] at ends
  generalize t.committing.shows = shown at ends
  cases ends with
  | finished same =>
    rw [same]
    exact ⟨rfl, rfl, attempted.committed full, rfl⟩

/-- The session after others did what they like to the console, the working directory, the keys and
the completers. -/
def meanwhile (s : Session C W) (console : C) (host : W) (keymap : Keymap)
    (completers : List Completer) : Session C W :=
  { s with
    console, host
    editor := { s.editor with keymap, completion := { s.editor.completion with completers } } }

/-- Attempts to commit a line that fail, one after another, and for each of them whether the line
was shown. -/
inductive Failing (s : Session C W) : List Bool → Session C W → Prop
  | untried : Failing s [] s
  | again {shown : List Bool} {t u : Session C W} {event : KeyEvent} {e : ConsoleError} :
      Failing s shown t → t.editor.meaning event = some .commit →
      (handleKey event : Edit C W Outcome).exec t = (.error e, u) →
      Failing s (shown ++ [t.committing.shows]) u
  | meanwhile {shown : List Bool} {t : Session C W} (console : C) (host : W) (keymap : Keymap)
      (completers : List Completer) : Failing s shown t →
      Failing s shown (t.meanwhile console host keymap completers)

theorem Failing.attempted {shown : List Bool} (run : Failing s shown t)
    (full : s.editor.line.isEmpty = false) :
    Attempted s (shown.count true) t.core ∧ t.editor.mode = s.editor.mode ∧
      (shown = [] ∨ t.editor.heldPaste = none) := by
  induction run with
  | untried => exact ⟨⟨rfl, rfl, rfl, rfl⟩, rfl, .inl rfl⟩
  | @again shown t u _ _ _ commits failed ih =>
    obtain ⟨attempted, mode, -⟩ := ih
    obtain ⟨attempted, kept, answered⟩ := attempted.fail full commits failed
    have count : (shown ++ [t.committing.shows]).count true =
        shown.count true + t.committing.shows.toNat := by
      rw [List.count_append]
      cases t.committing.shows <;> rfl
    rw [count]
    exact ⟨attempted, kept.trans mode, .inr answered⟩
  | meanwhile console host keymap completers _ ih =>
    obtain ⟨⟨settings, synthesized, text, history⟩, mode, held⟩ := ih
    exact ⟨⟨settings, synthesized, text, history⟩, mode, held⟩

/-- However many attempts to commit a line fail, the line is still edited, and it has been recorded
once for each attempt that showed it; with no such attempt, the history and the text of the line are
what they were. An attempt that then succeeds records the line it finds, and hands it over with one
more terminator. -/
theorem history_of_failing {shown : List Bool} (run : Failing s shown t)
    (full : s.editor.line.isEmpty = false) :
    t.editor.mode = s.editor.mode ∧ (shown = [] ∨ t.editor.heldPaste = none) ∧
    t.editor.line.text = s.lineAfter (shown.count true) ∧
    t.history = s.historyAfter (shown.count true) ∧
    (t.history = s.history ↔ true ∉ shown) ∧
    ∀ event outcome u, t.editor.meaning event = some .commit →
      (handleKey event : Edit C W Outcome).exec t = (.ok outcome, u) →
      outcome = .returnToHost ∧ u.editor.mode = .idle ∧
      u.history = s.historyAfter (shown.count true + 1) ∧
      u.editor.takeCommand.1 =
        s.editor.synthesized.getD (s.lineAfter (shown.count true + 1)) := by
  obtain ⟨attempted, mode, held⟩ := run.attempted full
  refine ⟨mode, held, attempted.text, attempted.history, ?_, ?_⟩
  · have same : t.history = s.historyAfter (shown.count true) := attempted.history
    rw [same, historyAfter_eq_iff]
    exact List.count_eq_zero
  · intro event outcome u commits finished
    obtain ⟨returned, idle, attempted, answered⟩ := attempted.finish full commits finished
    refine ⟨returned, idle, attempted.history, ?_⟩
    have line : u.editor.line = u.editor.buffer := by
      unfold Editor.line
      rw [show u.editor.heldPaste = none from answered]
      rfl
    have text : u.editor.line.text = s.lineAfter (shown.count true + 1) := attempted.text
    have synthesized : u.editor.synthesized = s.editor.synthesized := attempted.synthesized
    rw [Editor.takeCommand_fst, synthesized, ← line, text]

def brittle : Session (Faulty Screen) ShellDirectory where
  editor := Editor.new Settings.default
  console := Faulty.sound (Screen.blank 8 3)
  history := History.empty
  directories := DirectoryHistory.startingAt ⟨"/"⟩
  host := ShellDirectory.standingIn ⟨"/"⟩

namespace brittle

def failing (s : Session (Faulty Screen) ShellDirectory) (fault : Option Fault) :
    Session (Faulty Screen) ShellDirectory :=
  { s with console := { s.console with fault } }

def noWidth (skip : Nat) : Option Fault := some ⟨.width, skip, .io "device not ready"⟩

def started (s : Session (Faulty Screen) ShellDirectory) : Session (Faulty Screen) ShellDirectory :=
  ((start : Edit (Faulty Screen) ShellDirectory Unit).exec s).2

def pressed (s : Session (Faulty Screen) ShellDirectory) (event : KeyEvent) :
    Session (Faulty Screen) ShellDirectory :=
  ((handleKey event : Edit (Faulty Screen) ShellDirectory Outcome).exec s).2

theorem exec_pressed {s : Session (Faulty Screen) ShellDirectory} {event : KeyEvent}
    {r : Except ConsoleError Outcome}
    (ends : ((handleKey event : Edit (Faulty Screen) ShellDirectory Outcome).exec s).1 = r) :
    (handleKey event : Edit (Faulty Screen) ShellDirectory Outcome).exec s = (r, pressed s event) :=
  Prod.ext ends rfl

def enter : KeyEvent := ⟨true, .plain .enter, none⟩

def typed : Session (Faulty Screen) ShellDirectory := pressed (started brittle) (.ofChar 'x')

def unshown : Session (Faulty Screen) ShellDirectory := pressed (failing typed (noWidth 0)) enter

def unfinished : Session (Faulty Screen) ShellDirectory :=
  pressed (failing unshown (noWidth 1)) enter

end brittle

open brittle in
/-- An attempt fails before the line is shown and a second one afterwards; a third one succeeds. -/
theorem history_of_failing_brittle :
    ∃ t u, Failing typed [false, true] t ∧ t.history.entries = ["x"] ∧
      t.editor.line.text = "x\r\n" ∧
      (handleKey enter : Edit (Faulty Screen) ShellDirectory Outcome).exec t =
        (.ok .returnToHost, u) ∧
      u.history.entries = ["x", "x\r\n"] ∧ u.editor.takeCommand.1 = "x\r\n\r\n" := by
  have broken {shown : List Bool} {s : Session (Faulty Screen) ShellDirectory} (fault : Option Fault)
      (run : Failing typed shown s) : Failing typed shown (failing s fault) :=
    run.meanwhile (failing s fault).console s.host s.editor.keymap s.editor.completion.completers
  have first : Failing typed [false] unshown :=
    (broken (noWidth 0) .untried).again (by decide +kernel)
      (exec_pressed (r := .error (.io "device not ready")) (by decide +kernel))
  have second : Failing typed [false, true] unfinished :=
    (broken (noWidth 1) first).again (by decide +kernel)
      (exec_pressed (r := .error (.io "device not ready")) (by decide +kernel))
  have succeeds : (handleKey enter : Edit (Faulty Screen) ShellDirectory Outcome).exec
      (failing unfinished none) = (.ok .returnToHost, pressed (failing unfinished none) enter) :=
    exec_pressed (by decide +kernel)
  obtain ⟨-, -, text, history, -, finishes⟩ :=
    history_of_failing (broken none second) (by decide +kernel)
  obtain ⟨-, -, recorded, taken⟩ := finishes enter _ _ (by decide +kernel) succeeds
  refine ⟨_, _, broken none second, ?_, text, succeeds, ?_, taken⟩
  · rw [history]
    decide +kernel
  · rw [recorded]
    decide +kernel

open brittle in
/-- A commit that fails does not always keep the history and the line. It may have recorded the line
before it failed to leave it. -/
theorem not_kept_by_failed_commit :
    ¬∀ (s t : Session (Faulty Screen) ShellDirectory) (event : KeyEvent) (e : ConsoleError),
      s.editor.line.isEmpty = false → s.editor.meaning event = some .commit →
      (handleKey event : Edit (Faulty Screen) ShellDirectory Outcome).exec s = (.error e, t) →
      t.history = s.history ∧ t.editor.line.text = s.editor.line.text := by
  intro kept
  have failed : (handleKey enter : Edit (Faulty Screen) ShellDirectory Outcome).exec
      (failing typed (noWidth 1)) =
        (.error (.io "device not ready"), pressed (failing typed (noWidth 1)) enter) :=
    exec_pressed (by decide +kernel)
  obtain ⟨history, -⟩ := kept _ _ enter _ (by decide +kernel) (by decide +kernel) failed
  exact absurd history (by decide +kernel)

end Session

end LineEdit
