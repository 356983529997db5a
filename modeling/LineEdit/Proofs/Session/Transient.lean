import LineEdit.Proofs.Completion.Cycle
import LineEdit.Proofs.Session.Leftover

/-!
# What is under way

Between two events a cycle of candidates can be under way, a search of the history, or a paste that
waits to be confirmed. An event first ends what it does not carry on, and at most one of the three
is carried on or begun by an action. All of this happens before the line is shown, so that a failure
of the console comes too late to mix them up.

A cycle owns the place of its candidate: as long as it goes on, nothing else changes the line.
-/
namespace LineEdit

open Attempt Text

/-- A cycle, what a search looks for, and a paste that waits: all that is begun by one event and may
be carried on by another. -/
structure Underway where
  cycle : Option Cycle
  stem : Option String
  heldPaste : Option HeldPaste

namespace Underway

def nothing : Underway := ⟨none, none, none⟩

/-- What can be under way in a mode, with this buffer: nothing, a cycle whose candidate stands in
the buffer, a search, or a paste that waits. No two of them go together. -/
inductive Fits (b : Buffer) : Mode → Underway → Prop
  | nothing (mode : Mode) : Fits b mode nothing
  | completing {cycle : Cycle} {before after : String} :
      cycle.Stands before after b → Fits b .editing ⟨some cycle, none, none⟩
  | searching (stem : String) : Fits b .editing ⟨none, some stem, none⟩
  | pasting (held : HeldPaste) : Fits b .editing ⟨none, none, some held⟩

def settle (u : Underway) (action : Option Action) : Underway where
  cycle := if action.any Action.completes then u.cycle else none
  stem := if action.any Action.searches then u.stem else none
  heldPaste := u.heldPaste

theorem Fits.settle {b : Buffer} {mode : Mode} {u : Underway} (fits : u.Fits b mode)
    (action : Option Action) : (u.settle action).Fits b mode := by
  cases fits with
  | nothing =>
    unfold Underway.settle Underway.nothing
    rw [ite_self, ite_self]
    exact .nothing mode
  | completing stands =>
    unfold Underway.settle
    rw [ite_self]
    split
    · exact .completing stands
    · exact .nothing .editing
  | searching stem =>
    unfold Underway.settle
    rw [ite_self]
    split
    · exact .searching stem
    · exact .nothing .editing
  | pasting held =>
    unfold Underway.settle
    rw [ite_self, ite_self]
    exact .pasting held

end Underway

namespace Editor

def underway (e : Editor) : Underway := ⟨e.completion.cycle, e.stem, e.heldPaste⟩

def Fits (e : Editor) : Prop := e.underway.Fits e.buffer e.mode

variable {e : Editor}

theorem fits_of_nothing (nothing : e.underway = .nothing) : e.Fits := by
  unfold Fits
  rw [nothing]
  exact .nothing e.mode

theorem underway_eq_nothing_iff : e.underway = .nothing ↔
    e.completion.cycle = none ∧ e.stem = none ∧ e.heldPaste = none := by
  simp only [underway, Underway.nothing, Underway.mk.injEq]

theorem Fits.of_idle (fits : e.Fits) (idle : e.mode = .idle) :
    e.completion.cycle = none ∧ e.stem = none ∧ e.heldPaste = none := by
  apply underway_eq_nothing_iff.mp
  unfold Fits at fits
  rw [idle] at fits
  generalize e.underway = u at fits
  cases fits with
  | nothing => rfl

theorem Fits.alone (fits : e.Fits) :
    (e.stem = none ∧ e.heldPaste = none) ∨ (e.completion.cycle = none ∧ e.heldPaste = none) ∨
      (e.completion.cycle = none ∧ e.stem = none) := by
  unfold Fits underway at fits
  generalize e.completion.cycle = cycle, e.stem = stem, e.heldPaste = held, e.mode = mode at fits ⊢
  cases fits with
  | nothing => exact .inl ⟨rfl, rfl⟩
  | completing => exact .inl ⟨rfl, rfl⟩
  | searching => exact .inr (.inl ⟨rfl, rfl⟩)
  | pasting => exact .inr (.inr ⟨rfl, rfl⟩)

theorem Fits.of_heldPaste {held : HeldPaste} (fits : e.Fits) (waits : e.heldPaste = some held) :
    e.completion.cycle = none ∧ e.stem = none := by
  unfold Fits underway at fits
  rw [waits] at fits
  generalize e.completion.cycle = cycle, e.stem = stem, e.mode = mode at fits ⊢
  cases fits with
  | pasting => exact ⟨rfl, rfl⟩

theorem Fits.of_cycle {cycle : Cycle} (fits : e.Fits) (active : e.completion.cycle = some cycle) :
    ∃ before after, cycle.Stands before after e.buffer := by
  unfold Fits underway at fits
  rw [active] at fits
  generalize e.stem = stem, e.heldPaste = held, e.mode = mode at fits
  cases fits with
  | completing stands => exact ⟨_, _, stands⟩

/-- A request begins a cycle, goes on with one, or changes nothing. -/
theorem fits_complete (editing : e.mode = .editing) (fits : e.Fits) (unsearched : e.stem = none)
    (unheld : e.heldPaste = none) (direction : Direction) : (e.complete direction).Fits := by
  unfold Fits underway complete
  dsimp only
  rw [editing, unsearched, unheld]
  cases active : e.completion.cycle with
  | none =>
    cases offered : e.completion.offer? e.buffer with
    | none =>
      obtain ⟨lookups, request⟩ := Completion.request_of_no_offer active offered direction
      rw [request]
      dsimp only
      rw [active]
      exact .nothing .editing
    | some offer =>
      obtain ⟨lookups, cycle, b, request, stands, -⟩ :=
        Completion.request_of_offer active offered direction
      rw [request]
      exact .completing stands
  | some cycle =>
    obtain ⟨before, after, stands⟩ := fits.of_cycle active
    rw [Completion.request_of_cycle active direction]
    exact .completing (stands.turn direction)

/-- What is pasted either joins the line or waits. -/
theorem fits_pasted (editing : e.mode = .editing) (nothing : e.underway = .nothing)
    (clipboard : Option String) : (e.pasted clipboard).Fits := by
  obtain ⟨cycle, stem, unheld⟩ := underway_eq_nothing_iff.mp nothing
  cases clipboard with
  | none => exact fits_of_nothing nothing
  | some text =>
    unfold pasted
    dsimp only
    split
    · exact fits_of_nothing nothing
    · unfold Fits underway
      dsimp only
      rw [editing, cycle, stem]
      exact .pasting _

theorem underway_takeCommand (e : Editor) : e.takeCommand.2.underway = e.underway := by
  cases waiting : e.synthesized with
  | none => rw [takeCommand_of_none waiting]; rfl
  | some command => rw [takeCommand_of_some waiting]; rfl

theorem underway_type (e : Editor) (c : Option Char) : (e.type c).underway = e.underway := by
  cases c with
  | none => rfl
  | some c => simp only [type, underway]

theorem underway_settle (e : Editor) (action : Option Action) :
    (e.settle action).underway = e.underway.settle action := by
  unfold settle underway Underway.settle
  dsimp only
  split
  · rfl
  · rfl

end Editor

namespace Session

variable {C W : Type} {s t u : Session C W}

theorem fits_searched (editing : s.editor.mode = .editing)
    (unheld : s.editor.heldPaste = none) (idle : s.editor.completion.cycle = none)
    (direction : Direction) : (s.searched direction).editor.Fits := by
  change Underway.Fits _ s.editor.mode ⟨s.editor.completion.cycle, some _, s.editor.heldPaste⟩
  rw [editing, unheld, idle]
  exact .searching _

theorem underway_recalled (s : Session C W) (direction : Direction) (stem : String) :
    (s.recalled direction stem).editor.underway = s.editor.underway := by
  simp only [recalled, Editor.underway]

theorem underway_committed (s : Session C W) :
    s.committed.editor.underway = s.editor.underway := by
  simp only [committed, recorded, atEnd, edited, Editor.underway]

theorem plain_of_edit? {action : Action} {settings : Settings} {b b' : Buffer}
    (edits : action.edit? settings b = some b') :
    action.completes = false ∧ action.searches = false := by
  cases action <;> first | exact ⟨rfl, rfl⟩ | exact absurd edits nofun

theorem fits_unheld (fits : s.editor.Fits) : s.unheld.editor.Fits := by
  cases waits : s.editor.heldPaste with
  | none =>
    rw [unheld_of_none waits]
    exact fits
  | some held =>
    obtain ⟨cycle, stem⟩ := fits.of_heldPaste waits
    exact Editor.fits_of_nothing (Editor.underway_eq_nothing_iff.mpr ⟨cycle, stem, rfl⟩)

theorem underway_settled (s : Session C W) {action : Option Action}
    (plain : action.any Action.completes = false) (silent : action.any Action.searches = false) :
    (s.unheld.edited (·.settle action)).editor.underway = .nothing := by
  refine (Editor.underway_settle _ action).trans ?_
  unfold Underway.settle
  rw [plain, silent]
  rfl

theorem Acts.ends {action : Option Action} {x : Outcome × Session C W} (acts : Acts s action x)
    (returns : x.1 ≠ .incomplete) : x.2.editor.underway = s.editor.underway ∧
      action.any Action.completes = false ∧ action.any Action.searches = false := by
  cases acts with
  | edits => exact absurd rfl returns
  | commits commits =>
    rw [commits]
    exact ⟨underway_committed s, rfl, rfl⟩
  | asks asks =>
    obtain ⟨action, rfl, asks⟩ := Option.bind_eq_some_iff.mp asks
    refine ⟨rfl, ?_⟩
    cases action <;> first | exact ⟨rfl, rfl⟩ | exact absurd asks nofun

variable [WorkingDirectory W]

theorem underway_navigated (s : Session C W) (direction : Direction) :
    (s.navigated direction).2.editor.underway = s.editor.underway := by
  unfold navigated
  dsimp only
  split
  · rfl
  · rfl

/-- An action that finds nothing under way but what it carries on leaves something that fits the
line. There is one case for each kind of action. -/
theorem fits_acted {action : Action} (editing : s.editor.mode = .editing) (fits : s.editor.Fits)
    (unheld : s.editor.heldPaste = none)
    (idle : action.completes = false → s.editor.completion.cycle = none)
    (unsearched : action.searches = false → s.editor.stem = none) (clipboard : Option String) :
    (s.acted action clipboard).2.editor.Fits := by
  have quiet : action.completes = false → action.searches = false →
      s.editor.underway = .nothing := by
    intro plain silent
    exact Editor.underway_eq_nothing_iff.mpr ⟨idle plain, unsearched silent, unheld⟩
  unfold acted
  cases edits : action.edit? s.editor.settings s.editor.buffer with
  | some b =>
    obtain ⟨plain, silent⟩ := plain_of_edit? edits
    exact Editor.fits_of_nothing (quiet plain silent)
  | none =>
    cases action with
    | completeNext => exact Editor.fits_complete editing fits (unsearched rfl) unheld .forward
    | completePrevious => exact Editor.fits_complete editing fits (unsearched rfl) unheld .backward
    | historySearchBackward => exact fits_searched editing unheld (idle rfl) .backward
    | historySearchForward => exact fits_searched editing unheld (idle rfl) .forward
    | paste => exact Editor.fits_pasted editing (quiet rfl rfl) clipboard
    | directoryBack =>
      exact Editor.fits_of_nothing ((underway_navigated s .backward).trans (quiet rfl rfl))
    | directoryForward =>
      exact Editor.fits_of_nothing ((underway_navigated s .forward).trans (quiet rfl rfl))
    | commit => exact Editor.fits_of_nothing ((underway_committed s).trans (quiet rfl rfl))
    | historyPrevious =>
      exact Editor.fits_of_nothing ((underway_recalled s .backward "").trans (quiet rfl rfl))
    | historyNext =>
      exact Editor.fits_of_nothing ((underway_recalled s .forward "").trans (quiet rfl rfl))
    | exitOrDeleteForward =>
      dsimp only
      split
      · exact Editor.fits_of_nothing (quiet rfl rfl)
      · exact Editor.fits_of_nothing (quiet rfl rfl)
    | _ => exact Editor.fits_of_nothing (quiet rfl rfl)

theorem fits_responded (editing : s.editor.mode = .editing) (fits : s.editor.Fits)
    (unheld : s.editor.heldPaste = none) (action : Option Action) (event : KeyEvent)
    (clipboard : Option String) : (s.responded action event clipboard).2.editor.Fits := by
  have settled := Underway.Fits.settle fits action
  rw [← Editor.underway_settle] at settled
  have idle : action.any Action.completes = false →
      (s.editor.settle action).completion.cycle = none := by
    intro plain
    simp only [Editor.settle, plain]
    rfl
  have unsearched : action.any Action.searches = false → (s.editor.settle action).stem = none := by
    intro silent
    simp only [Editor.settle, silent]
    rfl
  cases action with
  | none =>
    have nothing : (s.editor.settle none).underway = .nothing :=
      Editor.underway_eq_nothing_iff.mpr ⟨idle rfl, unsearched rfl, unheld⟩
    exact Editor.fits_of_nothing ((Editor.underway_type _ event.printable).trans nothing)
  | some action =>
    exact fits_acted (s := s.edited (·.settle (some action))) editing settled unheld idle unsearched
      clipboard

/-- What an event leaves under way fits the line, if what it finds does. What it finds and does not
carry on has ended before its action. -/
theorem fits_handled (fits : s.editor.Fits) (event : KeyEvent) (clipboard : Option String) :
    (s.handled event clipboard).2.editor.Fits := by
  by_cases ignored : s.editor.ignores event = true
  · have same : s.handled event clipboard = (.incomplete, s) := if_pos ignored
    rw [same]
    exact fits
  · have editing : s.editor.mode = .editing := by
      cases mode : s.editor.mode with
      | editing => rfl
      | idle => simp [Editor.ignores, mode] at ignored
    by_cases other : s.editor.heldPaste = none ∨ s.editor.keymap.resolve event ≠ some .paste
    · rw [handled_of_other ignored other]
      exact fits_responded (s := s.unheld) editing (fits_unheld fits) rfl _ event clipboard
    · obtain ⟨waits, confirmed⟩ := not_or.mp other
      obtain ⟨held, waits⟩ := Option.ne_none_iff_exists'.mp waits
      obtain ⟨cycle, stem⟩ := fits.of_heldPaste waits
      rw [handled_confirmed ignored waits (Decidable.not_not.mp confirmed)]
      exact Editor.fits_of_nothing (Editor.underway_eq_nothing_iff.mpr ⟨cycle, stem, rfl⟩)

/-- An event that hands over to the host leaves nothing under way. -/
theorem nothing_of_returns (s : Session C W) (event : KeyEvent) (clipboard : Option String)
    (returns : (s.handled event clipboard).1 ≠ .incomplete) :
    (s.handled event clipboard).2.editor.underway = .nothing := by
  obtain ⟨same, plain, silent⟩ := (acts_handled s event clipboard).ends returns
  exact same.trans (underway_settled s plain silent)

variable [Console C]

omit [WorkingDirectory W] [Console C] in
/-- However far an attempt to commit a line comes, it begins nothing. -/
theorem Commits.ends {k : Core W} {shown : Bool} {x : Except ConsoleError Outcome × Session C W}
    (commits : Commits k shown x) : x.2.editor.underway = k.editor.underway := by
  cases commits with
  | unshown same => exact congrArg (·.editor.underway) same
  | unfinished same =>
    refine (congrArg (·.editor.underway) same).trans ?_
    simp only [recorded, atEnd, edited, Editor.underway]
  | finished same => exact (congrArg (·.editor.underway) same).trans (underway_committed k)

theorem fits_handleKey {event : KeyEvent} {r : Except ConsoleError Outcome} (fits : t.editor.Fits)
    (run : (handleKey event : Edit C W Outcome).exec t = (r, u)) : u.editor.Fits := by
  by_cases commits : t.editor.meaning event = some .commit
  · have ends := commits_handleKey t commits
    rw [run] at ends
    exact Editor.fits_of_nothing (ends.ends.trans (underway_settled t.core rfl rfl))
  · obtain ⟨same, -⟩ := answers_handleKey t commits
    rw [run] at same
    have handled : u.core.editor.Fits := by
      rw [show u.core = _ from same]
      exact fits_handled (s := t.core) fits event t.clipboard
    exact handled

theorem nothing_of_owes {event : KeyEvent} {r : Except ConsoleError Outcome}
    (run : (handleKey event : Edit C W Outcome).exec t = (r, u)) (returns : owes r = true) :
    u.editor.underway = .nothing := by
  cases r with
  | error e => exact absurd returns nofun
  | ok outcome =>
    have handled := handled_of_ok run
    have left := nothing_of_returns t.core event t.clipboard
    rw [handled] at left
    apply left
    rintro rfl
    exact absurd returns nofun

theorem nothing_of_start {r : Except ConsoleError Unit}
    (run : (start : Edit C W Unit).exec t = (r, u)) : u.editor.underway = .nothing := by
  obtain ⟨directories, same⟩ := core_start t
  rw [run] at same
  exact congrArg (·.editor.underway) same

/-- The sessions that a host can come to from a new editor, and whether a command is ready for it. A
command is taken only then, but need not be. Anything may fail, and between two calls all that
the editor shares with its host may change. -/
inductive Reachable : Bool → Session C W → Prop
  | new (settings : Settings) (console : C) (history : History) (directories : DirectoryHistory)
      (host : W) : Reachable false ⟨Editor.new settings, console, history, directories, host⟩
  | start {ready : Bool} {t u : Session C W} {r : Except ConsoleError Unit} : Reachable ready t →
      (start : Edit C W Unit).exec t = (r, u) → Reachable false u
  | press {ready : Bool} {t u : Session C W} {event : KeyEvent} {r : Except ConsoleError Outcome} :
      Reachable ready t → (handleKey event : Edit C W Outcome).exec t = (r, u) →
      Reachable (owes r) u
  | take {t : Session C W} : Reachable true t → Reachable false (t.edited (·.takeCommand.2))
  | meanwhile {ready : Bool} {t : Session C W} (console : C) (host : W) (keymap : Keymap)
      (completers : List Completer) (history : History) (directories : DirectoryHistory) :
      Reachable ready t →
      Reachable ready { t.meanwhile console host keymap completers with history, directories }

theorem Reachable.fits {ready : Bool} (reachable : Reachable ready s) :
    s.editor.Fits ∧ (ready = true → s.editor.underway = .nothing) := by
  induction reachable with
  | new settings => exact ⟨.nothing .idle, fun _ => rfl⟩
  | start _ begun =>
    have nothing := nothing_of_start begun
    exact ⟨Editor.fits_of_nothing nothing, fun _ => nothing⟩
  | press _ handled ih =>
    obtain ⟨fits, -⟩ := ih
    exact ⟨fits_handleKey fits handled, nothing_of_owes handled⟩
  | @take t _ ih =>
    obtain ⟨-, quiet⟩ := ih
    have nothing := (Editor.underway_takeCommand t.editor).trans (quiet rfl)
    exact ⟨Editor.fits_of_nothing nothing, fun _ => nothing⟩
  | meanwhile _ _ _ _ _ _ _ ih => exact ih

/-- At most one thing is under way, and nothing while no line is edited. A cycle has a candidate at
its number, which stands in its place with the cursor behind it. -/
theorem underway_of_reachable {ready : Bool} (reachable : Reachable ready s) :
    (s.editor.mode = .idle → s.editor.completion.cycle = none ∧ s.editor.stem = none ∧
      s.editor.heldPaste = none) ∧
    ((s.editor.stem = none ∧ s.editor.heldPaste = none) ∨
      (s.editor.completion.cycle = none ∧ s.editor.heldPaste = none) ∨
      (s.editor.completion.cycle = none ∧ s.editor.stem = none)) ∧
    ∀ cycle, s.editor.completion.cycle = some cycle →
      cycle.candidates ≠ [] ∧ cycle.index < cycle.candidates.length ∧
      cycle.start ≤ cycle.stop ∧ cycle.stop ≤ s.editor.buffer.length ∧
      s.editor.buffer.cursor = cycle.stop ∧
      ∃ candidate, cycle.candidates[cycle.index]? = some candidate ∧
        slice s.editor.buffer.text cycle.start cycle.stop =
          Word.quote candidate ++ (if cycle.trailingSpace then " " else "") := by
  obtain ⟨fits, -⟩ := reachable.fits
  refine ⟨fits.of_idle, fits.alone, ?_⟩
  intro cycle active
  obtain ⟨before, after, stands⟩ := fits.of_cycle active
  obtain ⟨ordered, inside, cursor⟩ := stands.bounds
  have index_lt := stands.index_lt
  have here := List.getElem?_eq_getElem index_lt
  refine ⟨List.ne_nil_of_length_pos (Nat.zero_lt_of_lt index_lt), index_lt, ordered, inside, cursor,
    cycle.candidates[cycle.index], here, ?_⟩
  rw [stands.slice_eq, Cycle.text, here]
  rfl

namespace brittle

def offered : Session (Faulty Screen) ShellDirectory :=
  { started brittle with
    editor := { (started brittle).editor with
      completion := ⟨[⟨"letters", fun _ => some ⟨["a b", "c"], true⟩⟩], none, []⟩ } }

/-- A completion was asked for, and could not be shown. -/
def completing : Session (Faulty Screen) ShellDirectory :=
  pressed (failing offered (noWidth 0)) ⟨true, .plain .tab, none⟩

theorem reachable_completing : Reachable false completing := by
  have begun : Reachable false (started brittle) :=
    (Reachable.new Settings.default brittle.console brittle.history brittle.directories
      brittle.host).start (r := .ok ()) (Prod.ext (by decide +kernel) rfl)
  have broken : Reachable false (failing offered (noWidth 0)) :=
    begun.meanwhile (failing offered (noWidth 0)).console offered.host offered.editor.keymap
      offered.editor.completion.completers offered.history offered.directories
  have failed : (handleKey ⟨true, .plain .tab, none⟩ :
      Edit (Faulty Screen) ShellDirectory Outcome).exec (failing offered (noWidth 0)) =
        (.error (.io "device not ready"), completing) := exec_pressed (by decide +kernel)
  exact broken.press failed

end brittle

open brittle in
/-- The candidate is in the line, though nobody has seen it. -/
theorem underway_of_reachable_brittle :
    Reachable false completing ∧ ∃ cycle, completing.editor.completion.cycle = some cycle ∧
      completing.editor.stem = none ∧ completing.editor.heldPaste = none ∧
      slice completing.editor.buffer.text cycle.start cycle.stop = "\"a b\" " := by
  obtain ⟨-, alone, shown⟩ := underway_of_reachable reachable_completing
  have active : completing.editor.completion.cycle = some ⟨0, 6, ["a b", "c"], 0, true⟩ := by
    decide +kernel
  obtain ⟨-, -, -, -, -, candidate, here, text⟩ := shown _ active
  obtain rfl : "a b" = candidate := Option.some.inj here
  have others : completing.editor.stem = none ∧ completing.editor.heldPaste = none := by
    rcases alone with others | others | others
    · exact others
    · exact absurd (active.symm.trans others.1) nofun
    · exact absurd (active.symm.trans others.1) nofun
  refine ⟨reachable_completing, _, active, others.1, others.2, text.trans ?_⟩
  decide +kernel

end Session

end LineEdit
