import LineEdit.Proofs.Painter.Within
import LineEdit.Proofs.Session.Display
import LineEdit.Proofs.Session.Protocol
import LineEdit.Proofs.Session.Retry

/-!
# Sessions on one screen

A host gives an editor a screen, and another one of the same size at any time. Whatever it does
then, the painter stays within the screen, as long as the rows of the lines that are shown can be
counted. An event has one of three effects on the screen: it leaves it alone, it shows the line, or
it shows the line and leaves it for the host.
-/
namespace LineEdit.Session

open Attempt Painter

variable {W : Type} {s t u : Session Screen W} {event : KeyEvent} {r : Except ConsoleError Outcome}
  {width height : UInt16}

/-- What becomes of the screen by an event with the given result. Nothing does if the event was
ignored or the clipboard could not be read; else the line is shown, and the cursor leaves it if the
host takes over. -/
inductive Paints (s t : Session Screen W) : Except ConsoleError Outcome → Prop
  | nothing {r : Except ConsoleError Outcome} :
      (∀ outcome, r = .ok outcome → outcome = .incomplete) →
      t.editor.painter = s.editor.painter → t.console = s.console → Paints s t r
  | shows :
      (Painter.redraw t.editor.buffer.text t.editor.buffer.cursor : Paint Screen Unit).exec
        (s.editor.painter, s.console) = (.ok (), t.editor.painter, t.console) →
      Shows s.console t.editor.buffer.text t.editor.painter t.console →
      Paints s t (.ok .incomplete)
  | leaves {outcome : Outcome} {cursor : Nat} {p : Painter} {c : Screen} : outcome ≠ .incomplete →
      (Painter.redraw s.editor.line.text cursor : Paint Screen Unit).exec
        (s.editor.painter, s.console) = (.ok (), p, c) →
      Shows s.console s.editor.line.text p c →
      (Painter.finish s.editor.line.length : Paint Screen Unit).exec (p, c) =
        (.ok (), t.editor.painter, t.console) → Paints s t (.ok outcome)

/-- Whatever an event paints, the screen keeps its size and the painter stays within it. Every call
of a host finds the two in such a state. -/
theorem Paints.within (paints : Paints s t r) (within : Within s.editor.painter s.console)
    (some_rows : 0 < s.console.height) :
    t.console.width = s.console.width ∧ t.console.height = s.console.height ∧
      Within t.editor.painter t.console := by
  cases paints with
  | nothing _ painter console =>
    rw [painter, console]
    exact ⟨rfl, rfl, within⟩
  | shows _ shows => exact ⟨shows.width, shows.height, shows.within⟩
  | @leaves _ _ p c _ _ shows left =>
    obtain ⟨d, cell, left'⟩ := exec_finish_raises (s := c) p s.editor.line.length
      shows.within.width_pos (shows.height ▸ some_rows)
    obtain ⟨painter, console⟩ := Prod.mk.inj (Prod.mk.inj (left.symm.trans left')).2
    rw [painter, console]
    exact ⟨shows.width, shows.height, (shows.within.raise d).resize rfl rfl⟩

/-- The line that an event shows which makes a session `t` of `s`. -/
def shown (s : Session Screen W) (event : KeyEvent) (t : Session Screen W) : Buffer :=
  if s.editor.meaning event = some .commit then s.editor.line else t.editor.buffer

variable [WorkingDirectory W]

theorem paints_conclude (within : Within s.editor.painter s.console) (some_rows : 0 < s.console.height)
    (other : s.editor.meaning event ≠ some .commit)
    (run : (conclude (s.handled event s.clipboard).1 : Edit Screen W Outcome).exec
      (s.handled event s.clipboard).2 = (r, t))
    (low : s.editor.painter.InReach s.console t.editor.buffer.length) : Paints s t r := by
  obtain ⟨painter, console⟩ := s.display_handled event s.clipboard
  have acts := acts_handled s event s.clipboard
  obtain ⟨r', p', c', concluded⟩ := exec_conclude (s.handled event s.clipboard).1
    (s.handled event s.clipboard).2
  have buffer : t.editor.buffer = (s.handled event s.clipboard).2.editor.buffer :=
    congrArg (·.2.editor.buffer) (run.symm.trans concluded)
  rw [buffer] at low
  generalize s.handled event s.clipboard = x at *
  obtain ⟨p, c, run', shows⟩ := exec_redraw_shows x.2.editor.buffer.text x.2.editor.buffer.cursor
    within.width_pos some_rows low within.known
  have shown := run'
  rw [← painter, ← console] at shown
  cases acts with
  | @edits v _ keeps =>
    have concludes : (conclude .incomplete : Edit Screen W Outcome).exec v = _ :=
      exec_conclude_of_shown shown nofun
    obtain ⟨rfl, rfl⟩ := Prod.mk.inj (concludes.symm.trans run)
    exact .shows run' shows
  | commits commits => exact absurd commits other
  | @asks command directories host asks =>
    obtain ⟨d, cell, left⟩ := exec_finish_raises (s := c) p s.editor.line.length
      shows.within.width_pos (shows.height ▸ some_rows)
    obtain ⟨rfl, rfl⟩ := Prod.mk.inj ((exec_conclude_of_left shown left).symm.trans run)
    exact .leaves nofun run' shows left

theorem paints_handleKey (within : Within s.editor.painter s.console)
    (some_rows : 0 < s.console.height)
    (run : (handleKey event : Edit Screen W Outcome).exec s = (r, t))
    (low : s.editor.painter.InReach s.console (s.shown event t).length) : Paints s t r := by
  have answered := answered_handleKey s event
  rw [run] at answered
  generalize same : (r, t) = x at answered
  cases answered with
  | ignored =>
    obtain ⟨rfl, rfl⟩ := Prod.mk.inj same
    exact .nothing (fun outcome same => (Except.ok.inj same).symm) rfl rfl
  | commits commits =>
    rw [shown, if_pos commits] at low
    obtain ⟨p, c, shown, shows⟩ := exec_redraw_shows s.editor.line.text
      s.committing.atEnd.editor.buffer.cursor within.width_pos some_rows low within.known
    obtain ⟨d, cell, left⟩ := exec_finish_raises (s := c) p s.editor.line.length
      shows.within.width_pos (shows.height ▸ some_rows)
    have ends := exec_commit_of (s := s.committing) shown left
    obtain ⟨rfl, rfl⟩ := Prod.mk.inj (same.trans ends)
    exact .leaves nofun shown shows left
  | unreadable e =>
    obtain ⟨rfl, rfl⟩ := Prod.mk.inj same
    exact .nothing nofun rfl rfl
  | edits other =>
    rw [shown, if_neg other] at low
    exact paints_conclude within some_rows other same.symm low

/-- The sessions that a host can come to from a new editor on screens of one size. It may call the
editor in any order, and change between two calls all that it shares with the editor. Of the lines
that are shown no more is asked than that their rows can be counted. -/
inductive Sits (width height : UInt16) : Session Screen W → Prop
  | new (settings : Settings) (console : Screen) (history : History) (directories : DirectoryHistory)
      (host : W) : console.width = width → console.height = height →
      Sits width height ⟨Editor.new settings, console, history, directories, host⟩
  | start {t u : Session Screen W} {r : Except ConsoleError Unit} : Sits width height t →
      (start : Edit Screen W Unit).exec t = (r, u) →
      (anchored t.console.cursor.1 t.console.cursor.2).InReach t.console u.editor.buffer.length →
      Sits width height u
  | press {t u : Session Screen W} {event : KeyEvent} {r : Except ConsoleError Outcome} :
      Sits width height t → (handleKey event : Edit Screen W Outcome).exec t = (r, u) →
      t.editor.painter.InReach t.console (t.shown event u).length → Sits width height u
  | take {t : Session Screen W} : Sits width height t →
      Sits width height (t.edited (·.takeCommand.2))
  | meanwhile {t : Session Screen W} (console : Screen) (host : W) (keymap : Keymap)
      (completers : List Completer) (history : History) (directories : DirectoryHistory) :
      console.width = width → console.height = height → Sits width height t →
      Sits width height { t.meanwhile console host keymap completers with history, directories }

theorem painter_takeCommand (e : Editor) : e.takeCommand.2.painter = e.painter := by
  cases waiting : e.synthesized with
  | none => rw [Editor.takeCommand_of_none waiting]
  | some command => rw [Editor.takeCommand_of_some waiting]

/-- A line that starts is shown from the cursor of the screen on. -/
theorem shows_start (some_columns : 0 < s.console.width) (some_rows : 0 < s.console.height)
    {r : Except ConsoleError Unit} (run : (start : Edit Screen W Unit).exec s = (r, t))
    (low : (anchored s.console.cursor.1 s.console.cursor.2).InReach s.console t.editor.buffer.length) :
    Shows s.console t.editor.buffer.text t.editor.painter t.console := by
  rw [exec_start] at run
  obtain ⟨r', p, c, painted⟩ := exec_redraw (s.started.repainted
    (anchored s.console.cursor.1 s.console.cursor.2) s.console)
  obtain ⟨-, rfl⟩ := Prod.mk.inj (painted.symm.trans run)
  obtain ⟨q, d, shown, shows⟩ := exec_redraw_shows s.started.editor.buffer.text
    s.started.editor.buffer.cursor some_columns some_rows low (lastPainted_anchored_le _ _)
  have painted' := exec_redraw_of (s := s.started.repainted
    (anchored s.console.cursor.1 s.console.cursor.2) s.console) shown
  rw [← (Prod.mk.inj (painted'.symm.trans painted)).2]
  exact shows

theorem Sits.within (sits : Sits width height s) (some_columns : 0 < width) (some_rows : 0 < height) :
    s.console.width = width ∧ s.console.height = height ∧
      Within s.editor.painter s.console := by
  induction sits with
  | new _ console _ _ _ columns rows =>
    exact ⟨columns, rows, within_origin (columns ▸ some_columns) (rows ▸ some_rows)⟩
  | start _ run low ih =>
    obtain ⟨columns, rows, -⟩ := ih
    have shows := shows_start (columns ▸ some_columns) (rows ▸ some_rows) run low
    exact ⟨shows.width.trans columns, shows.height.trans rows, shows.within⟩
  | press _ run low ih =>
    obtain ⟨columns, rows, within⟩ := ih
    have paints := paints_handleKey within (rows ▸ some_rows) run low
    obtain ⟨width, height, within'⟩ := paints.within within (rows ▸ some_rows)
    exact ⟨width.trans columns, height.trans rows, within'⟩
  | @take t _ ih =>
    have painter : (t.edited (·.takeCommand.2)).editor.painter = t.editor.painter :=
      painter_takeCommand t.editor
    rw [painter]
    exact ih
  | meanwhile console _ _ _ _ _ columns rows _ ih =>
    obtain ⟨columns', rows', within⟩ := ih
    exact ⟨columns, rows, within.resize (columns.trans columns'.symm) (rows.trans rows'.symm)⟩

namespace tiny

theorem sits_press {s : Session Screen ShellDirectory} (sits : Sits 2 2 s) (event : KeyEvent)
    (outcome : Outcome)
    (ends : ((handleKey event : Edit Screen ShellDirectory Outcome).exec s).1 = .ok outcome)
    (low : s.editor.painter.InReach s.console (s.shown event (small.pressed s event)).length) :
    Sits 2 2 (small.pressed s event) :=
  sits.press (small.exec_handleKey s event outcome ends) low

theorem sits_half : Sits 2 2 half := by
  have begun : Sits 2 2 (small.started tiny) :=
    .start (.new _ (Screen.blank 2 2) _ _ _ rfl rfl) (small.exec_start tiny (by decide +kernel))
      (by decide +kernel)
  have one := sits_press begun (.ofChar 'a') .incomplete (by decide +kernel) (by decide +kernel)
  exact sits_press one (.ofChar 'b') .incomplete (by decide +kernel) (by decide +kernel)

end tiny

end LineEdit.Session
