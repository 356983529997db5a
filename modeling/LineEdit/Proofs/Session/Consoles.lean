import LineEdit.Proofs.Session.Leftover

/-!
# One editor on two consoles

Two sessions that hold the same but for their consoles are handed the same events. The consoles may
be of any kind and size, show whatever they like and fail at any point. Nothing that an editor
learns from a console but the clipboard finds its way into what it holds, and nothing that it holds
waits for the console, except that a line must have been shown before it is committed. So the
sessions go on to hold the same.
-/
namespace LineEdit.Session

open Attempt

variable {C D W : Type}

/-- An event that has the clipboard read: a paste, unless it confirms one. -/
def reads (s : Session C W) (event : KeyEvent) : Prop :=
  s.editor.meaning event = some .paste ∧ s.editor.heldPaste = none

theorem handled_clipboard [WorkingDirectory W] (s : Session C W) (event : KeyEvent)
    {first second : Option String} (same : s.reads event → first = second) :
    s.handled event first = s.handled event second := by
  by_cases ignored : s.editor.ignores event = true
  · have nothing (clipboard : Option String) : s.handled event clipboard = (.incomplete, s) :=
      if_pos ignored
    rw [nothing, nothing]
  · have meant : s.editor.meaning event = s.editor.keymap.resolve event := if_neg ignored
    by_cases pastes : s.editor.keymap.resolve event = some .paste
    · cases waits : s.editor.heldPaste with
      | none => rw [same ⟨meant.trans pastes, waits⟩]
      | some held =>
        rw [handled_confirmed ignored waits pastes, handled_confirmed ignored waits pastes]
    · rw [handled_of_other ignored (.inr pastes), handled_of_other ignored (.inr pastes)]
      exact responded_clipboard pastes _ event first second

variable [Console C] [Console D] [WorkingDirectory W]

theorem core_handleKey {s s' : Session C W} {t t' : Session D W} {event : KeyEvent}
    {r r' : Except ConsoleError Outcome} (same : s.core = t.core)
    (answers : s.reads event → s.clipboard = t.clipboard)
    (sound : s.editor.meaning event = some .commit → r.isOk ∧ r'.isOk)
    (run : (handleKey event : Edit C W Outcome).exec s = (r, s'))
    (run' : (handleKey event : Edit D W Outcome).exec t = (r', t')) :
    s'.core = t'.core ∧ ∀ a b, r = .ok a → r' = .ok b → a = b := by
  have meanings : s.editor.meaning event = t.editor.meaning event :=
    congrArg (·.editor.meaning event) same
  have handled : s.core.handled event s.clipboard = t.core.handled event t.clipboard := by
    rw [handled_clipboard s.core event answers, same]
  by_cases commits : s.editor.meaning event = some .commit
  · -- A commit that does not fail comes to its end on either side.
    obtain ⟨ends, ends'⟩ := sound commits
    cases r with
    | error e => exact absurd ends nofun
    | ok a =>
      cases r' with
      | error e => exact absurd ends' nofun
      | ok b =>
        rw [handled_of_ok run, handled_of_ok run'] at handled
        obtain ⟨rfl, cores⟩ := Prod.mk.inj handled
        refine ⟨cores, ?_⟩
        rintro _ _ ⟨rfl⟩ ⟨rfl⟩
        rfl
  · obtain ⟨core, result⟩ := answers_handleKey s commits
    obtain ⟨core', result'⟩ := answers_handleKey t (meanings ▸ commits)
    rw [run, handled] at core result
    rw [run'] at core' result'
    refine ⟨core.trans core'.symm, ?_⟩
    intro a b ends ends'
    exact (result a ends).trans (result' b ends').symm

/-- Two sessions that begin with the same but for their consoles and are dealt with alike, and what
the events ended with on either side. Lines that begin and events that commit a line do not fail,
and a clipboard that is read has the same on it on either side. All else that the consoles do may
differ, and between two events they may be exchanged. -/
inductive Alongside (s : Session C W) (t : Session D W) :
    List (Except ConsoleError Outcome × Except ConsoleError Outcome) →
      Session C W → Session D W → Prop
  | begin : s.core = t.core → Alongside s t [] s t
  | press {ends : List (Except ConsoleError Outcome × Except ConsoleError Outcome)}
      {u u' : Session C W} {v v' : Session D W} {event : KeyEvent}
      {r r' : Except ConsoleError Outcome} : Alongside s t ends u v →
      (u.reads event → u.clipboard = v.clipboard) →
      (u.editor.meaning event = some .commit → r.isOk ∧ r'.isOk) →
      (handleKey event : Edit C W Outcome).exec u = (r, u') →
      (handleKey event : Edit D W Outcome).exec v = (r', v') →
      Alongside s t (ends ++ [(r, r')]) u' v'
  | start {ends : List (Except ConsoleError Outcome × Except ConsoleError Outcome)}
      {u u' : Session C W} {v v' : Session D W} : Alongside s t ends u v →
      (start : Edit C W Unit).exec u = (.ok (), u') →
      (start : Edit D W Unit).exec v = (.ok (), v') → Alongside s t ends u' v'
  | take {ends : List (Except ConsoleError Outcome × Except ConsoleError Outcome)}
      {u : Session C W} {v : Session D W} : Alongside s t ends u v →
      Alongside s t ends (u.edited (·.takeCommand.2)) (v.edited (·.takeCommand.2))
  | exchange {ends : List (Except ConsoleError Outcome × Except ConsoleError Outcome)}
      {u : Session C W} {v : Session D W} (console : C) (console' : D) : Alongside s t ends u v →
      Alongside s t ends { u with console := console } { v with console := console' }
  | meanwhile {ends : List (Except ConsoleError Outcome × Except ConsoleError Outcome)}
      {u : Session C W} {v : Session D W} (host : W) (keymap : Keymap)
      (completers : List Completer) : Alongside s t ends u v →
      Alongside s t ends (u.meanwhile u.console host keymap completers)
        (v.meanwhile v.console host keymap completers)

omit [Console C] [WorkingDirectory W] in
theorem core_takeCommand (s : Session C W) :
    (s.edited (·.takeCommand.2)).core = s.core.edited (·.takeCommand.2) := by
  simp only [core, edited, Editor.takeCommand]
  cases s.editor.synthesized <;> rfl

/-- Painting never reaches what a session holds. On two consoles that answer alike about the
clipboard, the same events leave the same buffer, mode, completion, stem, held paste and synthesized
command behind, and the same histories and working directory, whatever else the consoles show and
however often they fail, unless they fail while a line is committed. Where both sides tell the host
what an event means, they tell the same. -/
theorem core_of_alongside {s u : Session C W} {t v : Session D W}
    {ends : List (Except ConsoleError Outcome × Except ConsoleError Outcome)}
    (run : Alongside s t ends u v) :
    u.core = v.core ∧ ∀ a b, (.ok a, .ok b) ∈ ends → a = b := by
  induction run with
  | begin same => exact ⟨same, nofun⟩
  | press _ answers sound handled handled' ih =>
    obtain ⟨same, earlier⟩ := ih
    obtain ⟨cores, now⟩ := core_handleKey same answers sound handled handled'
    refine ⟨cores, ?_⟩
    intro a b mem
    rcases List.mem_append.mp mem with before | last
    · exact earlier a b before
    · obtain ⟨rfl, rfl⟩ := Prod.mk.inj (List.mem_singleton.mp last)
      exact now a b rfl rfl
  | start _ begun begun' ih =>
    refine ⟨?_, ih.2⟩
    rw [started_of_ok begun, started_of_ok begun', ih.1]
  | take _ ih =>
    refine ⟨?_, ih.2⟩
    rw [core_takeCommand, core_takeCommand, ih.1]
  | exchange _ _ _ ih => exact ih
  | meanwhile host keymap completers _ ih =>
    exact ⟨congrArg (·.meanwhile () host keymap completers) ih.1, ih.2⟩

def narrow : Session Screen ShellDirectory := { small with console := Screen.blank 1 1 }

namespace narrow

def asked : Session Screen ShellDirectory := small.pressed (small.started narrow) brittle.parent

def retyped : Session Screen ShellDirectory := small.pressed asked (.ofChar 'x')

end narrow

open brittle in
/-- The one console fails while the host is sent to the parent directory, the other has a single
cell. -/
theorem core_of_alongside_narrow :
    ∃ ends, Alongside brittle narrow ends retyped narrow.retyped ∧
      ends.map Prod.snd = [.ok .returnToHostThenResume, .ok .incomplete] ∧
      ends.map Prod.fst = [.error (.io "device not ready"), .ok .incomplete] ∧
      retyped.core = narrow.retyped.core := by
  have starts : (start : Edit (Faulty Screen) ShellDirectory Unit).exec brittle =
      (.ok (), brittle.started brittle) := Prod.ext (by decide +kernel) rfl
  have begun := (Alongside.begin (s := brittle) (t := narrow) rfl).start starts
    (small.exec_start narrow (by decide +kernel))
  have apart := (begun.exchange (failing (brittle.started brittle) (noWidth 0)).console
    (small.started narrow).console).press
    (fun reads => absurd reads.1 (by decide +kernel))
    (fun commits => absurd commits (by decide +kernel))
    (exec_pressed (r := .error (.io "device not ready")) (by decide +kernel))
    (small.exec_handleKey (small.started narrow) parent .returnToHostThenResume
      (by decide +kernel))
  have run := (apart.exchange (failing stranded none).console narrow.asked.console).press
    (fun reads => absurd reads.1 (by decide +kernel))
    (fun commits => absurd commits (by decide +kernel))
    (exec_pressed (r := .ok .incomplete) (by decide +kernel))
    (small.exec_handleKey narrow.asked (.ofChar 'x') .incomplete (by decide +kernel))
  obtain ⟨same, -⟩ := core_of_alongside run
  exact ⟨_, run, rfl, rfl, same⟩

end LineEdit.Session
