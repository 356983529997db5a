import LineEdit.Proofs.Painter.Display
import LineEdit.Proofs.Session.Conclude

/-!
# The line on the screen

From the start of a line on, every event that changes the line has it shown again, so that the line
is displayed at any time until it is committed. A line that fits on the screen may still be out of
sight: a longer one before it has made the screen scroll, and the rows above the screen do not come
back. They are missed exactly if one of the lines since the start did not fit.
-/
namespace LineEdit.Session

open Attempt Painter

section

variable {C W : Type} {s : Session C W} {p : Painter} {c : C}

theorem exec_paint_of {A : Type} {act : Paint C A} {r : Except ConsoleError A}
    (run : act.exec (s.editor.painter, s.console) = (r, p, c)) :
    (paint act : Edit C W A).exec s = (r, s.repainted p c) := by
  unfold paint
  rw [exec_on, run]
  rfl

variable [Console C]

theorem exec_redraw_of {r : Except ConsoleError Unit}
    (run : (Painter.redraw s.editor.buffer.text s.editor.buffer.cursor : Paint C Unit).exec
      (s.editor.painter, s.console) = (r, p, c)) :
    (redraw : Edit C W Unit).exec s = (r, s.repainted p c) := by
  unfold redraw
  rw [exec_bind_of_ok (exec_get s)]
  exact exec_paint_of run

/-- A commit whose line is shown and left comes to its end. -/
theorem exec_commit_of {q : Painter} {d : C}
    (shown : (Painter.redraw s.atEnd.editor.buffer.text s.atEnd.editor.buffer.cursor :
      Paint C Unit).exec (s.editor.painter, s.console) = (.ok (), p, c))
    (left : (Painter.finish s.editor.buffer.length : Paint C Unit).exec (p, c) = (.ok (), q, d)) :
    (commit : Edit C W Outcome).exec s = (.ok .returnToHost, s.committed.repainted q d) := by
  have shows : (redraw : Edit C W Unit).exec s.atEnd = (.ok (), s.atEnd.repainted p c) :=
    exec_redraw_of shown
  have leaves : (paint (Painter.finish s.editor.buffer.length) : Edit C W Unit).exec
      (s.atEnd.repainted p c).recorded =
        (.ok (), (s.atEnd.repainted p c).recorded.repainted q d) := exec_paint_of left
  unfold commit
  rw [exec_bind_of_ok (exec_get s)]
  dsimp only
  rw [exec_bind_of_ok (exec_modify _ s), exec_bind_of_ok shows, exec_bind_of_ok (exec_modify _ _),
    exec_bind_of_ok leaves, exec_bind_of_ok (exec_update _ _)]
  rfl

theorem exec_conclude_of_shown {outcome : Outcome}
    (shown : (Painter.redraw s.editor.buffer.text s.editor.buffer.cursor : Paint C Unit).exec
      (s.editor.painter, s.console) = (.ok (), p, c))
    (stays : outcome ≠ .returnToHostThenResume) :
    (conclude outcome : Edit C W Outcome).exec s = (.ok outcome, s.repainted p c) := by
  unfold conclude
  rw [exec_bind_of_ok (exec_get s), exec_bind_of_ok (exec_redraw_of shown)]
  dsimp only
  rw [if_neg stays]
  rfl

theorem exec_conclude_of_left {q : Painter} {d : C}
    (shown : (Painter.redraw s.editor.buffer.text s.editor.buffer.cursor : Paint C Unit).exec
      (s.editor.painter, s.console) = (.ok (), p, c))
    (left : (Painter.finish s.editor.buffer.length : Paint C Unit).exec (p, c) = (.ok (), q, d)) :
    (conclude .returnToHostThenResume : Edit C W Outcome).exec s =
      (.ok .returnToHostThenResume, s.repainted q d) := by
  have leaves : (paint (Painter.finish s.editor.buffer.length) : Edit C W Unit).exec
      (s.repainted p c) = (.ok (), s.repainted q d) := exec_paint_of left
  unfold conclude
  rw [exec_bind_of_ok (exec_get s), exec_bind_of_ok (exec_redraw_of shown)]
  dsimp only
  rw [if_pos rfl, exec_bind_of_ok leaves]
  rfl

theorem exec_paste_of_unreadable {e : ConsoleError}
    (fails : (Console.clipboardText : Attempt C (Option String)).exec s.console = (.error e, c)) :
    (paste : Edit C W Unit).exec s = (.error e, { s with console := c }) := by
  unfold paste
  rw [exec_bind, exec_on, fails]

variable [WorkingDirectory W]

theorem exec_perform_of_unreadable {e : ConsoleError}
    (fails : (Console.clipboardText : Attempt C (Option String)).exec s.console = (.error e, c)) :
    (perform .paste : Edit C W Outcome).exec s = (.error e, { s with console := c }) := by
  unfold perform
  rw [exec_bind_of_ok (exec_get s)]
  dsimp only [Action.edit?]
  rw [seqRight_eq_bind, exec_bind_of_error (exec_paste_of_unreadable fails)]

/-- A paste that cannot read the clipboard ends what was under way and does nothing else. -/
theorem exec_handleKey_of_unreadable {event : KeyEvent} {e : ConsoleError}
    (reads : s.reads event)
    (fails : (Console.clipboardText : Attempt C (Option String)).exec s.console = (.error e, c)) :
    (handleKey event : Edit C W Outcome).exec s =
      (.error e, { s.edited (·.settle (some .paste)) with console := c }) := by
  obtain ⟨meant, unheld⟩ := reads
  obtain ⟨heard, bound⟩ := resolve_of_meaning meant
  have performs : (perform .paste : Edit C W Outcome).exec (s.edited (·.settle (some .paste))) =
      (.error e, { s.edited (·.settle (some .paste)) with console := c }) :=
    exec_perform_of_unreadable fails
  unfold handleKey
  rw [exec_bind_of_ok (exec_get s)]
  dsimp only
  rw [if_neg heard, unheld, bound]
  dsimp only
  unfold respond
  rw [exec_bind_of_ok (exec_update _ s), exec_bind_of_error performs]

end

variable {W : Type} {s t u v : Session Screen W} {lengths : List Nat}

/-- The line is displayed, from the cursor of `s₀` on, with room for all lengths it has had. Every
event that leaves the line to go on keeps this. -/
structure Displayed (s₀ : Screen) (lengths : List Nat) (s : Session Screen W) : Prop where
  made : MadeRoom s₀ lengths s.editor.painter s.console
  displays : Displays s.editor.painter s.console s.editor.buffer.text

/-- How far a line is shown: one that is left for the host reaches down by another row, for which
the screen scrolls as if the line were longer. -/
def reach (width : UInt16) (s : Session Screen W) : Except ConsoleError Outcome → Nat
  | .ok .returnToHostThenResume => s.editor.buffer.length + width.toNat
  | _ => s.editor.buffer.length

theorem length_le_reach (width : UInt16) (s : Session Screen W)
    (r : Except ConsoleError Outcome) : s.editor.buffer.length ≤ s.reach width r := by
  unfold reach
  split
  · exact Nat.le_add_right _ _
  · exact Nat.le_refl _

variable {s₀ : Screen}

theorem Displayed.again (displayed : Displayed s₀ lengths s)
    (painter : t.editor.painter = s.editor.painter) (buffer : t.editor.buffer = s.editor.buffer)
    (console : t.console = s.console) : Displayed s₀ (t.editor.buffer.length :: lengths) t := by
  obtain ⟨made, displays⟩ := displayed
  rw [← painter, ← buffer, ← console] at displays
  rw [← painter, ← console] at made
  exact ⟨made.again displays, displays⟩

theorem exec_redraw_displayed (made : MadeRoom s₀ lengths s.editor.painter s.console)
    (low : Low s₀ s.editor.buffer.length) :
    ∃ p c, (redraw : Edit Screen W Unit).exec s = (.ok (), s.repainted p c) ∧
      Displayed s₀ (s.editor.buffer.length :: lengths) (s.repainted p c) := by
  obtain ⟨p, c, run, made', displays⟩ := exec_redraw_madeRoom made s.editor.buffer.text
    s.editor.buffer.cursor low
  exact ⟨p, c, exec_redraw_of run, made', displays⟩

/-- What is shown after an event displays the line. -/
theorem exec_conclude_displayed (made : MadeRoom s₀ lengths s.editor.painter s.console)
    {outcome : Outcome} {r : Except ConsoleError Outcome}
    (run : (conclude outcome : Edit Screen W Outcome).exec s = (r, t))
    (low : Low s₀ (t.reach s₀.width r)) :
    Displayed s₀ (t.reach s₀.width r :: lengths) t := by
  have longer := length_le_reach s₀.width t r
  obtain ⟨r', p', c', concluded⟩ := exec_conclude outcome s
  have same : t.editor.buffer = s.editor.buffer :=
    congrArg (·.2.editor.buffer) (run.symm.trans concluded)
  rw [same] at longer
  obtain ⟨p, c, shown, made', displays⟩ := exec_redraw_madeRoom made s.editor.buffer.text
    s.editor.buffer.cursor (low.mono longer)
  by_cases leaves : outcome = .returnToHostThenResume
  · subst leaves
    obtain ⟨d, cell, left⟩ := exec_finish_raises (s := c) p s.editor.buffer.length
      made'.width_pos made'.height_pos
    obtain ⟨rfl, rfl⟩ := Prod.mk.inj (run.symm.trans (exec_conclude_of_left shown left))
    obtain ⟨q', d', left', made'', displays'⟩ := exec_finish_madeRoom made' displays low
    obtain ⟨rfl, rfl⟩ := Prod.mk.inj (Prod.mk.inj (left.symm.trans left')).2
    exact ⟨made''.of_longer (Nat.le_add_right _ _), displays'⟩
  · obtain ⟨rfl, rfl⟩ := Prod.mk.inj (run.symm.trans (exec_conclude_of_shown shown leaves))
    have reach : (s.repainted p c).reach s₀.width (.ok outcome) = s.editor.buffer.length := by
      cases outcome with
      | returnToHostThenResume => exact absurd rfl leaves
      | _ => rfl
    rw [reach]
    exact ⟨made', displays⟩

theorem length_le_recorded (s : Session Screen W) :
    s.editor.buffer.length ≤ s.atEnd.recorded.editor.buffer.length := by
  have text : s.atEnd.recorded.editor.buffer.text =
      s.editor.buffer.text ++ s.editor.settings.lineTerminator :=
    s.editor.buffer.text_insert_atEnd s.editor.settings.lineTerminator
  rw [Buffer.length, Buffer.length, text, String.length_append]
  exact Nat.le_add_right _ _

theorem length_le_commit {r : Except ConsoleError Outcome}
    (run : (commit : Edit Screen W Outcome).exec s = (r, t)) :
    s.editor.buffer.length ≤ t.editor.buffer.length := by
  have commits := commits_commit s
  rw [run] at commits
  have buffer {k : Core W} (same : t.core = k) : t.editor.buffer = k.editor.buffer :=
    congrArg (·.editor.buffer) same
  generalize s.shows = shown at commits
  cases commits with
  | unshown same =>
    rw [buffer same]
    exact Nat.le_refl _
  | unfinished same =>
    rw [buffer same]
    exact s.length_le_recorded
  | finished same =>
    rw [buffer same]
    exact s.length_le_recorded

/-- A commit of a line that can be shown comes to its end. -/
theorem mode_of_commit (made : MadeRoom s₀ lengths s.editor.painter s.console)
    {r : Except ConsoleError Outcome}
    (run : (commit : Edit Screen W Outcome).exec s = (r, t))
    (low : Low s₀ t.editor.buffer.length) : t.editor.mode = .idle := by
  obtain ⟨p, c, shown, made', -⟩ := exec_redraw_madeRoom made s.atEnd.editor.buffer.text
    s.atEnd.editor.buffer.cursor (low.mono (length_le_commit run))
  obtain ⟨d, cell, left⟩ := exec_finish_raises (s := c) p s.editor.buffer.length made'.width_pos
    made'.height_pos
  rw [← (Prod.mk.inj ((exec_commit_of shown left).symm.trans run)).2]
  rfl

variable [WorkingDirectory W]

/-- What becomes of an event on a screen. It is ignored, it commits the line, it cannot read the
clipboard, or it edits and then shows the line. -/
inductive Answered (s : Session Screen W) (event : KeyEvent) :
    Except ConsoleError Outcome × Session Screen W → Prop
  | ignored : Answered s event (.ok .incomplete, s)
  | commits : s.editor.meaning event = some .commit →
      Answered s event ((commit : Edit Screen W Outcome).exec s.committing)
  | unreadable (e : ConsoleError) : Answered s event (.error e, s.edited (·.settle (some .paste)))
  | edits : s.editor.meaning event ≠ some .commit →
      Answered s event ((conclude (s.handled event s.clipboard).1 : Edit Screen W Outcome).exec
        (s.handled event s.clipboard).2)

theorem answered_handleKey (s : Session Screen W) (event : KeyEvent) :
    Answered s event ((handleKey event : Edit Screen W Outcome).exec s) := by
  by_cases ignored : s.editor.ignores event = true
  · rw [exec_handleKey_of_ignored ignored]
    exact .ignored
  by_cases commits : s.editor.meaning event = some .commit
  · rw [exec_handleKey_of_commit s commits]
    exact .commits commits
  by_cases unreadable : s.reads event ∧ s.console.clipboardFails = true
  · have fails : (Console.clipboardText : Attempt Screen (Option String)).exec s.console =
        (.error (.io "clipboard unavailable"), s.console) := by
      rw [Screen.exec_clipboardText, Screen.readClipboard, if_pos unreadable.2]
    rw [exec_handleKey_of_unreadable unreadable.1 fails]
    exact .unreadable _
  · have sound (reads : s.reads event) :
        (Console.clipboardText : Attempt Screen (Option String)).exec s.console =
          (.ok s.clipboard, s.console) := by
      have readable : s.console.readClipboard = .ok s.console.clipboard :=
        if_neg fun fails => unreadable ⟨reads, fails⟩
      rw [clipboard, Screen.exec_clipboardText, readable]
    rw [exec_handleKey ignored commits sound]
    exact .edits commits

/-- After every event that leaves the line to go on it is displayed, with its new length among those
it has had. -/
theorem Displayed.press (displayed : Displayed s₀ lengths s) {event : KeyEvent}
    {r : Except ConsoleError Outcome}
    (run : (handleKey event : Edit Screen W Outcome).exec s = (r, t))
    (low : Low s₀ (t.reach s₀.width r)) (editing : t.editor.mode = .editing) :
    Displayed s₀ (t.reach s₀.width r :: lengths) t := by
  have answered := answered_handleKey s event
  rw [run] at answered
  generalize same : (r, t) = x at answered
  cases answered with
  | ignored =>
    obtain ⟨rfl, rfl⟩ := Prod.mk.inj same
    exact displayed.again rfl rfl rfl
  | commits commits =>
    have idle := mode_of_commit (s := s.committing) displayed.made same.symm
      (low.mono (t.length_le_reach s₀.width r))
    rw [idle] at editing
    exact absurd editing nofun
  | unreadable e =>
    obtain ⟨rfl, rfl⟩ := Prod.mk.inj same
    exact displayed.again rfl rfl rfl
  | edits other =>
    obtain ⟨painter, console⟩ := s.display_handled event s.clipboard
    have made := displayed.made
    rw [← painter, ← console] at made
    exact exec_conclude_displayed made same.symm low

/-- A line that starts is shown from the cursor of the screen on. -/
theorem exec_start (s : Session Screen W) :
    (start : Edit Screen W Unit).exec s = (redraw : Edit Screen W Unit).exec
      (s.started.repainted (anchored s.console.cursor.1 s.console.cursor.2) s.console) := by
  have begun : (paint Painter.begin : Edit Screen W Unit).exec (s.edited Editor.resume) =
      (.ok (), (s.edited Editor.resume).repainted
        (anchored s.console.cursor.1 s.console.cursor.2) s.console) := exec_paint_of rfl
  unfold start
  rw [exec_bind_of_ok (exec_update _ s), exec_bind_of_ok begun, exec_bind_of_ok (exec_modify _ _)]
  rfl

/-- A line that starts is displayed. -/
theorem displayed_of_start (column : s.console.cursor.1 < s.console.width)
    (some_rows : 0 < s.console.height) {r : Except ConsoleError Unit}
    (run : (start : Edit Screen W Unit).exec s = (r, t))
    (low : Low s.console t.editor.buffer.length) :
    Displayed s.console [t.editor.buffer.length] t := by
  rw [exec_start] at run
  obtain ⟨r', p, c, shown⟩ := exec_redraw (s.started.repainted
    (Painter.anchored s.console.cursor.1 s.console.cursor.2) s.console)
  obtain ⟨-, rfl⟩ := Prod.mk.inj (shown.symm.trans run)
  obtain ⟨q, d, shown', displayed⟩ := exec_redraw_displayed
    (s := s.started.repainted _ s.console) (madeRoom_anchored column some_rows) low
  rw [← (Prod.mk.inj (shown'.symm.trans shown)).2]
  exact displayed

/-- A session that has started on a screen and has been handed events, and how far the line was
shown by each of them, the last one first. What is on the clipboard may change at any time. -/
inductive Edits (s : Session Screen W) : List Nat → Session Screen W → Prop
  | start {t : Session Screen W} : (start : Edit Screen W Unit).exec s = (.ok (), t) →
      Edits s [t.editor.buffer.length] t
  | press {lengths : List Nat} {t u : Session Screen W} {event : KeyEvent}
      {r : Except ConsoleError Outcome} : Edits s lengths t →
      (handleKey event : Edit Screen W Outcome).exec t = (r, u) →
      Edits s (u.reach s.console.width r :: lengths) u
  | copy {lengths : List Nat} {t : Session Screen W} (text : Option String) (fails : Bool) :
      Edits s lengths t →
      Edits s lengths
        { t with console := { t.console with clipboard := text, clipboardFails := fails } }

theorem mode_of_press {event : KeyEvent} {r : Except ConsoleError Outcome}
    (run : (handleKey event : Edit Screen W Outcome).exec s = (r, t))
    (editing : t.editor.mode = .editing) : s.editor.mode = .editing := by
  cases mode : s.editor.mode with
  | editing => rfl
  | idle =>
    have ignored : s.editor.ignores event = true := by simp [Editor.ignores, mode]
    rw [exec_handleKey_of_ignored ignored] at run
    rw [← (Prod.mk.inj run).2, mode] at editing
    exact absurd editing nofun

theorem Edits.displayed (run : Edits s lengths t) (column : s.console.cursor.1 < s.console.width)
    (some_rows : 0 < s.console.height) (low : ∀ n ∈ lengths, Low s.console n)
    (editing : t.editor.mode = .editing) : Displayed s.console lengths t := by
  induction run with
  | start begun =>
    exact displayed_of_start column some_rows begun (low _ List.mem_cons_self)
  | press _ handled ih =>
    have before := ih (fun n mem => low n (List.mem_cons_of_mem _ mem))
      (mode_of_press handled editing)
    exact before.press handled (low _ List.mem_cons_self) editing
  | copy text fails _ ih =>
    obtain ⟨made, displays⟩ := ih low editing
    exact ⟨{ made with width := made.width, height := made.height },
      ⟨displays.column, displays.room, displays.cells⟩⟩

/-- Along every sequence of events after a start the line is displayed while it is edited: each of
its characters stands in the cell that belongs to it, counted from the anchor, unless this is above
the screen, and never below the screen. The anchor is on the screen, and with it the whole line,
exactly if every length that the line has had since the start fits on the screen, where a line that
was left for the host takes up another row. -/
theorem line_displayed (run : Edits s lengths t) (column : s.console.cursor.1 < s.console.width)
    (some_rows : 0 < s.console.height)
    (low : ∀ n ∈ lengths, s.console.cursor.2.toNat +
      (s.console.cursor.1.toNat + n) / s.console.width.toNat ≤ 65535)
    (editing : t.editor.mode = .editing) :
    let x := s.console.cursor.1.toNat
    let width := s.console.width.toNat
    let height := s.console.height.toNat
    let top := t.editor.painter.startY
    t.console.width = s.console.width ∧ t.console.height = s.console.height ∧
    t.editor.painter.startX = x ∧
    (0 ≤ top ↔ ∀ n ∈ lengths, x + n + 1 ≤ width * height) ∧
    ∀ i c, t.editor.buffer.text.toList[i]? = some c →
      top + ((x + i) / width : Nat) < height ∧
      ∀ y : Nat, (y : Int) = top + ((x + i) / width : Nat) →
        t.console.cell? ((x + i) % width) y = some c := by
  intro x width height top
  obtain ⟨made, displays⟩ := run.displayed column some_rows low editing
  have room := displays.room
  have cells := displays.cells
  rw [made.width, made.height] at room
  rw [made.column, made.width] at cells
  refine ⟨made.width, made.height, made.column, made.anchor, ?_⟩
  intro i c mem
  have last := row_le_lastRow mem t.editor.painter s.console.width.toNat
  rw [made.column] at last
  exact ⟨Int.lt_of_le_of_lt last room, fun y row => cells i c y mem row⟩

def tiny : Session Screen ShellDirectory := { small with console := Screen.blank 2 2 }

namespace tiny

def typed (s : Session Screen ShellDirectory) (c : Char) : Session Screen ShellDirectory :=
  small.pressed s (.ofChar c)

def half : Session Screen ShellDirectory := typed (typed (small.started tiny) 'a') 'b'

def full : Session Screen ShellDirectory := typed (typed half 'c') 'd'

def erase : KeyEvent := ⟨true, .plain .backspace, none⟩

def shortened : Session Screen ShellDirectory := small.pressed full erase

theorem press {s : Session Screen ShellDirectory} {lengths : List Nat} (run : Edits tiny lengths s)
    (event : KeyEvent) (n : Nat)
    (ends : ((handleKey event : Edit Screen ShellDirectory Outcome).exec s).1 = .ok .incomplete)
    (reached : (small.pressed s event).editor.buffer.length = n) :
    Edits tiny (n :: lengths) (small.pressed s event) := by
  rw [← reached]
  exact run.press (small.exec_handleKey s event .incomplete ends)

theorem edits_full : Edits tiny [4, 3, 2, 1, 0] full := by
  have begun : Edits tiny [0] (small.started tiny) :=
    .start (small.exec_start tiny (by decide +kernel))
  have one := press begun (.ofChar 'a') 1 (by decide +kernel) (by decide +kernel)
  have two := press one (.ofChar 'b') 2 (by decide +kernel) (by decide +kernel)
  have three := press two (.ofChar 'c') 3 (by decide +kernel) (by decide +kernel)
  exact press three (.ofChar 'd') 4 (by decide +kernel) (by decide +kernel)

end tiny

open tiny in
/-- Of a line that was longer than the screen, the last character is still in sight. -/
theorem line_displayed_tiny :
    Edits tiny [3, 4, 3, 2, 1, 0] shortened ∧ shortened.editor.buffer.text = "abc" ∧
      shortened.console.cell? 0 0 = some 'c' := by
  have run : Edits tiny [3, 4, 3, 2, 1, 0] shortened :=
    press edits_full erase 3 (by decide +kernel) (by decide +kernel)
  obtain ⟨-, -, -, -, shown⟩ :=
    line_displayed run (by decide) (by decide) (by decide) (by decide +kernel)
  refine ⟨run, by decide +kernel, ?_⟩
  exact (shown 2 'c' (by decide +kernel)).2 0 (by decide +kernel)

open tiny in
/-- It is not true that a line that fits on the screen is always shown there. Rows that scrolled
away for a longer line do not come back when it is shortened. -/
theorem line_out_of_sight :
    ¬∀ (s t u : Session Screen ShellDirectory) (lengths : List Nat) (event : KeyEvent),
      s.console.cursor.1 < s.console.width → s.console.cursor.2 < s.console.height →
      Edits s lengths t →
      (handleKey event : Edit Screen ShellDirectory Outcome).exec t = (.ok .incomplete, u) →
      u.editor.painter.startX + u.editor.buffer.length + 1 ≤
        u.console.width.toNat * u.console.height.toNat →
      ∀ i c, u.editor.buffer.text.toList[i]? = some c →
        ∃ y : Nat, y < u.console.height.toNat ∧
          (y : Int) = u.editor.painter.startY +
            ((u.editor.painter.startX + i) / u.console.width.toNat : Nat) ∧
          u.console.cell? ((u.editor.painter.startX + i) % u.console.width.toNat) y = some c := by
  intro shown
  have erased := small.exec_handleKey full erase .incomplete (by decide +kernel)
  obtain ⟨y, -, row, -⟩ := shown tiny full shortened [4, 3, 2, 1, 0] erase (by decide) (by decide)
    edits_full erased (by decide +kernel) 0 'a' (by decide +kernel)
  have above : shortened.editor.painter.startY +
      ((shortened.editor.painter.startX + 0) / shortened.console.width.toNat : Nat) = -1 := by
    decide +kernel
  rw [above] at row
  exact absurd row (by omega)

end LineEdit.Session
