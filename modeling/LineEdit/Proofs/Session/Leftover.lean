import LineEdit.Proofs.Session.Retry

/-!
# Commands that are left behind

A command that an event has the host run is put aside before anything is painted. If the painting
fails, the host never learns of the command, and it stays: nothing but taking it removes it, not
another event, not the beginning of a line and not a commit. The host that takes a committed line
later is given the command instead.

The host here begins lines and hands over events in any order, whether or not they fail, and takes a
command exactly when it is told to.
-/
namespace LineEdit.Session

open Attempt

variable {C W : Type}

/-- What a host has done. An event comes with the command that it has the host run, of which the
host learns only if nothing fails. -/
inductive Call where
  | started
  | pressed (asked : Option String) (result : Except ConsoleError Outcome)
  | took

def Call.leaves (waiting : Option String) : Call → Option String
  | .started => waiting
  | .pressed asked _ => asked.or waiting
  | .took => none

/-- The command that was asked for last and has not been taken. This is all that the calls tell
about what waits. -/
def pending (calls : List Call) : Option String := calls.foldl Call.leaves none

theorem pending_concat (calls : List Call) (call : Call) :
    pending (calls ++ [call]) = call.leaves (pending calls) := by
  unfold pending
  rw [List.foldl_append]
  rfl

/-- Whether the host has to take what it is to run. -/
def owes : Except ConsoleError Outcome → Bool
  | .ok .incomplete | .error _ => false
  | .ok .returnToHost | .ok .returnToHostThenResume => true

def requested? (settings : Settings) (action : Option Action) : Outcome → Option String
  | .returnToHostThenResume => action.bind (request? settings)
  | .incomplete | .returnToHost => none

theorem Acts.synthesized {k : Core W} {action : Option Action} {x : Outcome × Core W}
    (acts : Acts k action x) :
    x.2.editor.settings = k.editor.settings ∧ x.2.editor.synthesized =
      ((requested? k.editor.settings action x.1).map k.editor.settings.terminated).or
        k.editor.synthesized := by
  cases acts with
  | edits _ keeps => exact ⟨keeps.settings, keeps.synthesized⟩
  | commits _ => exact ⟨settings_committed k, synthesized_committed k⟩
  | asks asks =>
    dsimp only [requested?]
    rw [asks]
    exact ⟨rfl, rfl⟩

variable [Console C] [WorkingDirectory W]

/-- The command that an event has the host run, whether or not the host learns of it. -/
def asked? (s : Session C W) (event : KeyEvent) : Option String :=
  requested? s.editor.settings (s.editor.meaning event) (s.core.handled event s.clipboard).1

structure Leaves (t : Session C W) (event : KeyEvent) (k : Core W) : Prop where
  settings : k.editor.settings = t.editor.settings
  synthesized : k.editor.synthesized =
    ((t.asked? event).map t.editor.settings.terminated).or t.editor.synthesized

variable {s t u : Session C W} {event : KeyEvent}

theorem leaves_handled (t : Session C W) (event : KeyEvent) :
    Leaves t event (t.core.handled event t.clipboard).2 := by
  have acts : Acts (t.core.unheld.edited (·.settle (t.editor.meaning event)))
      (t.editor.meaning event) (t.core.handled event t.clipboard) :=
    acts_handled t.core event t.clipboard
  obtain ⟨settings, synthesized⟩ := acts.synthesized
  exact ⟨settings, synthesized⟩

theorem asked?_of_commit (commits : t.editor.meaning event = some .commit) :
    t.asked? event = none := by
  unfold asked?
  rw [handled_of_commit (s := t.core) commits]
  rfl

theorem asked?_of_ok {outcome : Outcome}
    (handled : (handleKey event : Edit C W Outcome).exec t = (.ok outcome, u)) :
    t.asked? event = requested? t.editor.settings (t.editor.meaning event) outcome := by
  unfold asked?
  rw [handled_of_ok handled]

/-- A failure does not change what an event leaves for the host: the command waits before anything
is painted. -/
theorem leaves_handleKey {r : Except ConsoleError Outcome}
    (run : (handleKey event : Edit C W Outcome).exec t = (r, u)) : Leaves t event u.core := by
  -- A commit is the only event that a failure stops half-way, and it leaves the command alone.
  by_cases commits : t.editor.meaning event = some .commit
  · have ends := commits_handleKey t commits
    have nothing := asked?_of_commit commits
    rw [run] at ends
    generalize t.committing.shows = shown at ends
    have kept : u.core.editor.settings = t.editor.settings ∧
        u.core.editor.synthesized = t.editor.synthesized := by
      cases ends with
      | unshown same =>
        rw [same]
        exact ⟨rfl, rfl⟩
      | unfinished same =>
        rw [same]
        exact ⟨rfl, rfl⟩
      | finished same =>
        rw [same]
        exact ⟨settings_committed _, synthesized_committed _⟩
    constructor
    · exact kept.1
    · rw [kept.2, nothing]
      rfl
  · obtain ⟨same, -⟩ := answers_handleKey t commits
    rw [run] at same
    rw [show u.core = _ from same]
    exact leaves_handled t event

/-- The dealings of a host with an editor, any part of which may fail. The host takes a command when
it owes that, and does nothing else then. -/
inductive Dealings (s : Session C W) : Bool → List Call → Session C W → Prop
  | rest : Dealings s false [] s
  | start {calls : List Call} {t u : Session C W} {r : Except ConsoleError Unit} :
      Dealings s false calls t → (start : Edit C W Unit).exec t = (r, u) →
      Dealings s false (calls ++ [.started]) u
  | press {calls : List Call} {t u : Session C W} {event : KeyEvent}
      {r : Except ConsoleError Outcome} :
      Dealings s false calls t → (handleKey event : Edit C W Outcome).exec t = (r, u) →
      Dealings s (owes r) (calls ++ [.pressed (t.asked? event) r]) u
  | take {calls : List Call} {t : Session C W} : Dealings s true calls t →
      Dealings s false (calls ++ [.took]) (t.edited (·.takeCommand.2))
  | meanwhile {owing : Bool} {calls : List Call} {t : Session C W} (console : C) (host : W)
      (keymap : Keymap) (completers : List Completer) : Dealings s owing calls t →
      Dealings s owing calls (t.meanwhile console host keymap completers)

/-- Along any dealings the command that waits is the one that was asked for last and not taken. The
induction is on the dealings, with one case for each call. -/
theorem Dealings.synthesized {owing : Bool} {calls : List Call} (run : Dealings s owing calls t)
    (nothing : s.editor.synthesized = none) :
    t.editor.settings = s.editor.settings ∧
      t.editor.synthesized = (pending calls).map s.editor.settings.terminated := by
  induction run with
  | rest => exact ⟨rfl, nothing⟩
  | @start calls t u _ _ begun ih =>
    obtain ⟨settings, synthesized⟩ := ih
    obtain ⟨directories, same⟩ := core_start t
    rw [begun] at same
    rw [pending_concat]
    exact ⟨(congrArg (·.editor.settings) same).trans settings,
      (congrArg (·.editor.synthesized) same).trans synthesized⟩
  | @press calls t u event r _ handled ih =>
    obtain ⟨settings, synthesized⟩ := ih
    have leaves := leaves_handleKey handled
    have left : u.editor.synthesized =
        ((t.asked? event).map t.editor.settings.terminated).or t.editor.synthesized :=
      leaves.synthesized
    constructor
    · exact leaves.settings.trans settings
    · rw [left, settings, synthesized, pending_concat]
      cases t.asked? event <;> rfl
  | @take calls t _ ih =>
    obtain ⟨settings, -⟩ := ih
    rw [pending_concat]
    exact ⟨t.editor.settings_takeCommand.trans settings, t.editor.synthesized_takeCommand⟩
  | meanwhile _ _ _ _ _ ih => exact ih

theorem Dealings.exists_failed {owing : Bool} {calls : List Call} {command : String}
    (run : Dealings s owing calls t) (idle : owing = false)
    (waits : pending calls = some command) : ∃ e, .pressed (some command) (.error e) ∈ calls := by
  induction run with
  | rest => exact absurd waits nofun
  | start _ _ ih =>
    rw [pending_concat] at waits
    obtain ⟨e, failed⟩ := ih rfl waits
    exact ⟨e, List.mem_append_left _ failed⟩
  | @press calls t u event r _ handled ih =>
    rw [pending_concat] at waits
    cases asks : t.asked? event with
    | none =>
      rw [asks] at waits
      obtain ⟨e, failed⟩ := ih rfl waits
      exact ⟨e, List.mem_append_left _ failed⟩
    | some asked =>
      rw [asks] at waits
      obtain rfl : asked = command := Option.some.inj waits
      cases r with
      | error e => exact ⟨e, List.mem_append_right _ (List.mem_singleton_self _)⟩
      | ok outcome =>
        -- A host that was told of the command would owe to take it.
        obtain rfl : outcome = .incomplete := by cases outcome <;> trivial
        exact absurd ((asked?_of_ok handled).symm.trans asks) nofun
  | take _ _ =>
    rw [pending_concat] at waits
    exact absurd waits nofun
  | meanwhile _ _ _ _ _ ih => exact ih idle waits

theorem meaning_of_returnToHost
    (handled : (handleKey event : Edit C W Outcome).exec t = (.ok .returnToHost, u)) :
    t.editor.meaning event = some .commit := by
  have acts := acts_of_ok handled
  generalize u.core = k at acts
  cases acts with
  | commits commits => exact commits

theorem asked?_of_returnToHostThenResume
    (handled : (handleKey event : Edit C W Outcome).exec t = (.ok .returnToHostThenResume, u)) :
    ∃ command, t.asked? event = some command := by
  have acts := acts_of_ok handled
  rw [asked?_of_ok handled]
  generalize u.core = k at acts
  cases acts with
  | @asks command _ _ asks => exact ⟨command, asks⟩

/-- Whatever fails, a host that is told to run a command takes the one that the event asked for. One
that is told that the line is finished takes the line with its terminator, unless a command waits:
then it takes that one, which an event that failed has left behind. -/
theorem taken_of_dealings {calls : List Call} {outcome : Outcome} (run : Dealings s false calls t)
    (nothing : s.editor.synthesized = none)
    (handled : (handleKey event : Edit C W Outcome).exec t = (.ok outcome, u)) :
    (outcome = .returnToHost → t.editor.meaning event = some .commit ∧
      u.editor.takeCommand.1 =
        s.editor.settings.terminated ((pending calls).getD t.editor.line.text)) ∧
    (outcome = .returnToHostThenResume → ∃ command, t.asked? event = some command ∧
      u.editor.takeCommand.1 = s.editor.settings.terminated command) ∧
    ∀ command, pending calls = some command →
      ∃ e, .pressed (some command) (.error e) ∈ calls := by
  obtain ⟨settings, synthesized⟩ := run.synthesized nothing
  have left : u.editor.synthesized =
      ((t.asked? event).map t.editor.settings.terminated).or t.editor.synthesized :=
    (leaves_handleKey handled).synthesized
  rw [settings, synthesized] at left
  refine ⟨?_, ?_, fun command waits => run.exists_failed rfl waits⟩
  · rintro rfl
    have commits := meaning_of_returnToHost handled
    refine ⟨commits, ?_⟩
    have text : u.editor.buffer.text = s.editor.settings.terminated t.editor.line.text := by
      have ends := commits_handleKey t commits
      rw [handled] at ends
      generalize t.committing.shows = shown at ends
      cases ends with
      | finished same =>
        rw [← settings]
        exact (congrArg (·.editor.buffer.text) same).trans (text_committed t.core.committing)
    rw [Editor.takeCommand_fst, left, asked?_of_commit commits, text]
    cases pending calls <;> rfl
  · rintro rfl
    obtain ⟨command, asks⟩ := asked?_of_returnToHostThenResume handled
    refine ⟨command, asks, ?_⟩
    rw [Editor.takeCommand_fst, left, asks]
    rfl

namespace brittle

def parent : KeyEvent := ⟨true, .withAlt .up, none⟩

def stranded : Session (Faulty Screen) ShellDirectory :=
  pressed (failing (started brittle) (noWidth 0)) parent

def retyped : Session (Faulty Screen) ShellDirectory := pressed (failing stranded none) (.ofChar 'x')

theorem dealings_retyped :
    Dealings brittle false
      [.started, .pressed (some "cd..") (.error (.io "device not ready")),
        .pressed none (.ok .incomplete)] retyped := by
  have broken {calls : List Call} {s : Session (Faulty Screen) ShellDirectory} (fault : Option Fault)
      (run : Dealings brittle false calls s) : Dealings brittle false calls (failing s fault) :=
    run.meanwhile (failing s fault).console s.host s.editor.keymap s.editor.completion.completers
  have begun : Dealings brittle false [.started] (started brittle) :=
    Dealings.rest.start (r := .ok ()) (Prod.ext (by decide +kernel) rfl)
  have asks : (failing (started brittle) (noWidth 0)).asked? parent = some "cd.." := by
    decide +kernel
  have failed : Dealings brittle false
      [.started, .pressed (some "cd..") (.error (.io "device not ready"))] stranded := by
    have unheard : (handleKey parent : Edit (Faulty Screen) ShellDirectory Outcome).exec
        (failing (started brittle) (noWidth 0)) = (.error (.io "device not ready"), stranded) :=
      exec_pressed (by decide +kernel)
    rw [← asks]
    exact (broken (noWidth 0) begun).press unheard
  have types : (failing stranded none).asked? (.ofChar 'x') = none := by decide +kernel
  have typing : (handleKey (.ofChar 'x') : Edit (Faulty Screen) ShellDirectory Outcome).exec
      (failing stranded none) = (.ok .incomplete, retyped) := exec_pressed (by decide +kernel)
  rw [← types]
  exact (broken none failed).press typing

end brittle

open brittle in
/-- The host takes the command it was never told of, in the place of the line. -/
theorem taken_of_dealings_brittle :
    ∃ u, (handleKey enter : Edit (Faulty Screen) ShellDirectory Outcome).exec retyped =
        (.ok .returnToHost, u) ∧
      retyped.editor.line.text = "x" ∧ u.editor.takeCommand.1 = "cd..\r\n" := by
  have finished : (handleKey enter : Edit (Faulty Screen) ShellDirectory Outcome).exec retyped =
      (.ok .returnToHost, pressed retyped enter) := exec_pressed (by decide +kernel)
  obtain ⟨takes, -, -⟩ := taken_of_dealings dealings_retyped rfl finished
  obtain ⟨-, taken⟩ := takes rfl
  refine ⟨_, finished, by decide +kernel, taken.trans ?_⟩
  decide +kernel

open brittle in
/-- A host that is told that the line is finished does not always take the line. A command of an
event that failed before may wait, and is taken first. -/
theorem not_always_committed_line :
    ¬∀ (s t u : Session (Faulty Screen) ShellDirectory) (calls : List Call) (event : KeyEvent),
      s.editor.synthesized = none → Dealings s false calls t →
      (handleKey event : Edit (Faulty Screen) ShellDirectory Outcome).exec t =
        (.ok .returnToHost, u) →
      u.editor.takeCommand.1 = s.editor.settings.terminated t.editor.line.text := by
  intro taken
  have finished : (handleKey enter : Edit (Faulty Screen) ShellDirectory Outcome).exec retyped =
      (.ok .returnToHost, pressed retyped enter) := exec_pressed (by decide +kernel)
  have same := taken _ _ _ _ enter rfl dealings_retyped finished
  exact absurd same (by decide +kernel)

end LineEdit.Session
