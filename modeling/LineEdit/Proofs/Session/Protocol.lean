import LineEdit.Console.Screen
import LineEdit.Proofs.Console.Reliable
import LineEdit.Proofs.Session.Core
import Mathlib.Data.List.Chain

/-!
# What the host is handed

A host begins a line, hands over events until one returns to it, takes what it is to run, and begins
again. Between its calls others may do what they like to the console, the working directory, the
completers and the keys. The deeds of a run are what the host sees of it.

Along every run the history grows by the lines that are committed and by nothing else. A committed
line is handed over once, with its terminator, and leaves an empty line behind. A command that the
editor has the host run is handed over as it is, and the line goes on as it was.
-/
namespace LineEdit.Session

open Attempt

variable {C W : Type}

/-- The command that the host is asked to run by an action, if the action asks for one. -/
def request? (settings : Settings) : Action → Option String
  | .directoryBack | .directoryForward => some ""
  | .parentDirectory => some settings.parentDirectoryCommand
  | .exitOrDeleteForward => some settings.exitCommand
  | _ => none

/-- The session keeps what only commits and requests change: the mode, the command that waits and
the entries of the history. -/
structure Keeps (s t : Session C W) : Prop where
  settings : t.editor.settings = s.editor.settings
  mode : t.editor.mode = s.editor.mode
  synthesized : t.editor.synthesized = s.editor.synthesized
  entries : t.history.entries = s.history.entries

/-- What can become of a session by an action, or by an event without one. It edits the line,
commits it, or asks the host to run a command. -/
inductive Acts (s : Session C W) (action : Option Action) : Outcome × Session C W → Prop
  | edits {t : Session C W} :
      action ≠ some .commit → Keeps s t → Acts s action (.incomplete, t)
  | commits : action = some .commit → Acts s action (.returnToHost, s.committed)
  | asks {command : String} {directories : DirectoryHistory} {host : W} :
      action.bind (request? s.editor.settings) = some command →
      Acts s action (.returnToHostThenResume, asking { s with directories, host } command)

theorem keeps_recalled (s : Session C W) (direction : Direction) (stem : String) :
    Keeps s (s.recalled direction stem) :=
  ⟨rfl, rfl, rfl, s.history.entries_move direction stem⟩

theorem keeps_searched (s : Session C W) (direction : Direction) :
    Keeps s (s.searched direction) :=
  ⟨rfl, rfl, rfl, s.history.entries_move direction _⟩

theorem keeps_typed (s : Session C W) (c : Option Char) : Keeps s (s.edited (·.type c)) := by
  cases c with
  | none => exact ⟨rfl, rfl, rfl, rfl⟩
  | some c =>
    simp only [edited, Editor.type]
    exact ⟨rfl, rfl, rfl, rfl⟩

theorem keeps_pasted (s : Session C W) (clipboard : Option String) :
    Keeps s (s.edited (·.pasted clipboard)) := by
  cases clipboard with
  | none => exact ⟨rfl, rfl, rfl, rfl⟩
  | some text =>
    simp only [edited, Editor.pasted]
    split <;> exact ⟨rfl, rfl, rfl, rfl⟩

section

variable [WorkingDirectory W]

theorem acts_navigated (s : Session C W) {action : Action} {direction : Direction}
    (asks : request? s.editor.settings action = some "") :
    Acts s (some action) (s.navigated direction) := by
  have other : some action ≠ some .commit := by
    rintro ⟨rfl⟩
    exact absurd asks nofun
  unfold navigated
  dsimp only
  split
  · exact .asks asks
  · exact .edits other ⟨rfl, rfl, rfl, rfl⟩

theorem acts_acted (s : Session C W) (action : Action) (clipboard : Option String) :
    Acts s (some action) (s.acted action clipboard) := by
  unfold acted
  cases edit : action.edit? s.editor.settings s.editor.buffer with
  | some b =>
    have other : some action ≠ some .commit := by
      rintro ⟨rfl⟩
      exact absurd edit nofun
    exact .edits other ⟨rfl, rfl, rfl, rfl⟩
  | none =>
    cases action with
    | commit => exact .commits rfl
    | historyPrevious => exact .edits nofun (keeps_recalled s _ _)
    | historyNext => exact .edits nofun (keeps_recalled s _ _)
    | historySearchBackward => exact .edits nofun (keeps_searched s _)
    | historySearchForward => exact .edits nofun (keeps_searched s _)
    | directoryBack => exact acts_navigated s rfl
    | directoryForward => exact acts_navigated s rfl
    | parentDirectory => exact .asks rfl
    | completeNext => exact .edits nofun ⟨rfl, rfl, rfl, rfl⟩
    | completePrevious => exact .edits nofun ⟨rfl, rfl, rfl, rfl⟩
    | paste => exact .edits nofun (keeps_pasted s clipboard)
    | exitOrDeleteForward =>
      dsimp only
      split
      · exact .asks rfl
      · exact .edits nofun ⟨rfl, rfl, rfl, rfl⟩
    | _ => exact .edits nofun ⟨rfl, rfl, rfl, rfl⟩

theorem acts_responded (s : Session C W) (action : Option Action) (event : KeyEvent)
    (clipboard : Option String) :
    Acts (s.edited (·.settle action)) action (s.responded action event clipboard) := by
  cases action with
  | some action => exact acts_acted _ action clipboard
  | none => exact .edits nofun (keeps_typed _ event.printable)

/-- An event acts on the line as it was before a paste was held back. From here on events are told
apart by these three cases, and no longer action by action. -/
theorem acts_handled (s : Session C W) (event : KeyEvent) (clipboard : Option String) :
    Acts (s.unheld.edited (·.settle (s.editor.meaning event))) (s.editor.meaning event)
      (s.handled event clipboard) := by
  by_cases ignored : s.editor.ignores event = true
  · have nothing : s.handled event clipboard = (.incomplete, s) := if_pos ignored
    have meant : s.editor.meaning event = none := if_pos ignored
    rw [nothing, meant]
    exact .edits nofun ⟨rfl, rfl, rfl, rfl⟩
  · have meant : s.editor.meaning event = s.editor.keymap.resolve event := if_neg ignored
    rw [meant]
    by_cases other : s.editor.heldPaste = none ∨ s.editor.keymap.resolve event ≠ some .paste
    · rw [handled_of_other ignored other]
      exact acts_responded _ _ event clipboard
    · obtain ⟨waits, confirmed⟩ := not_or.mp other
      obtain ⟨held, waits⟩ := Option.ne_none_iff_exists'.mp waits
      have confirmed := Decidable.not_not.mp confirmed
      rw [handled_confirmed ignored waits confirmed, confirmed]
      exact .edits nofun ⟨rfl, rfl, rfl, rfl⟩

end

/-- Where a host is in its dealings with an editor: no line is edited, a line is edited, or it has
to take what it is to run. -/
inductive Stage where
  | resting
  | editing
  | owing

def Stage.after : Outcome → Stage
  | .incomplete => .editing
  | .returnToHost | .returnToHostThenResume => .owing

/-- What a host sees of a run: the line that is there when it begins one, an event that came to a
line, with what it meant and what it means for the host, and a command that it took, with the line
that was left. -/
inductive Deed where
  | started (line : Buffer)
  | pressed (line : Buffer) (meaning : Option Action) (outcome : Outcome)
  | took (command : String) (left : Buffer)

/-- The entry that a deed adds to the history: the line of a commit unless it is empty. -/
def Deed.entry? : Deed → Option String
  | .pressed line (some .commit) _ => if line.isEmpty then none else some line.text
  | _ => none

theorem Deed.entry?_of_other {meaning : Option Action} (other : meaning ≠ some .commit)
    (line : Buffer) (outcome : Outcome) : entry? (.pressed line meaning outcome) = none := by
  unfold entry?
  split
  · exact absurd (Deed.pressed.inj ‹_›).2.1 other
  · rfl

theorem entries_committed (s : Session C W) :
    s.committed.history.entries = s.history.entries ++
      (Deed.entry? (.pressed s.editor.buffer (some .commit) .returnToHost)).toList := by
  change (if s.editor.buffer.isEmpty then s.history else s.history.add s.editor.buffer.text).entries =
    _ ++ (if s.editor.buffer.isEmpty then none else some s.editor.buffer.text : Option _).toList
  cases s.editor.buffer.isEmpty with
  | true => exact (List.append_nil _).symm
  | false => rfl

theorem text_committed (s : Session C W) :
    s.committed.editor.buffer.text = s.editor.settings.terminated s.editor.buffer.text :=
  s.editor.buffer.text_insert_atEnd s.editor.settings.lineTerminator

/-- The runs of a session whose attempts succeed. -/
inductive Run [Console C] [WorkingDirectory W] (s : Session C W) :
    Stage → List Deed → Session C W → Prop
  | rest : Run s .resting [] s
  | start {deeds : List Deed} {t u : Session C W} : Run s .resting deeds t →
      (start : Edit C W Unit).exec t = (.ok (), u) →
      Run s .editing (deeds ++ [.started u.editor.buffer]) u
  | press {deeds : List Deed} {t u : Session C W} {event : KeyEvent} {outcome : Outcome} :
      Run s .editing deeds t → (handleKey event : Edit C W Outcome).exec t = (.ok outcome, u) →
      Run s (.after outcome)
        (deeds ++ [.pressed t.editor.line (t.editor.meaning event) outcome]) u
  | take {deeds : List Deed} {t : Session C W} : Run s .owing deeds t →
      Run s .resting
        (deeds ++ [.took t.editor.takeCommand.1 t.editor.takeCommand.2.buffer])
        (t.edited (·.takeCommand.2))
  | meanwhile {stage : Stage} {deeds : List Deed} {t : Session C W} (console : C) (host : W)
      (keymap : Keymap) (completers : List Completer) : Run s stage deeds t →
      Run s stage deeds
        { t with
          console, host
          editor :=
            { t.editor with keymap, completion := { t.editor.completion with completers } } }

/-- What a deed says about the next one. A committed line is taken with its terminator and leaves an
empty line, a command that the host was asked to run is taken as it is and leaves the line, and the
line that was left is the one that is begun. -/
def Follows (settings : Settings) : Deed → Deed → Prop
  | .started _, .pressed .. => True
  | .pressed _ _ .incomplete, .pressed .. => True
  | .pressed line meaning .returnToHost, .took command left =>
    meaning = some .commit ∧ command = settings.terminated line.text ∧ left = Buffer.empty
  | .pressed line meaning .returnToHostThenResume, .took command left =>
    (∃ asked, meaning.bind (request? settings) = some asked ∧
      command = settings.terminated asked) ∧ left = line
  | .took _ left, .started line => line = left
  | _, _ => False

/-- What is true of an editor, by the stage and the last deed of a run. What the host is handed next
can be read off from it. -/
inductive Stands (e : Editor) : Stage → Option Deed → Prop
  | fresh : e.mode = .idle → e.synthesized = none → Stands e .resting none
  | started {line : Buffer} : e.mode = .editing → e.synthesized = none →
      Stands e .editing (some (.started line))
  | pressed {line : Buffer} {meaning : Option Action} : e.mode = .editing →
      e.synthesized = none → Stands e .editing (some (.pressed line meaning .incomplete))
  | committed {line : Buffer} : e.mode = .idle → e.synthesized = none →
      e.buffer.text = e.settings.terminated line.text →
      Stands e .owing (some (.pressed line (some .commit) .returnToHost))
  | asked {meaning : Option Action} {command : String} : e.mode = .editing →
      e.synthesized = some (e.settings.terminated command) →
      meaning.bind (request? e.settings) = some command →
      Stands e .owing (some (.pressed e.buffer meaning .returnToHostThenResume))
  | took {command : String} {left : Buffer} : e.synthesized = none → e.resume.buffer = left →
      Stands e .resting (some (.took command left))

/-- What is true along a run: the entries that the commits have added, and that each deed follows
from the one before. -/
structure Along (s : Session C W) (stage : Stage) (deeds : List Deed) (t : Session C W) : Prop where
  settings : t.editor.settings = s.editor.settings
  entries : t.history.entries = s.history.entries ++ deeds.filterMap Deed.entry?
  commits : ∀ line outcome, .pressed line (some .commit) outcome ∈ deeds → outcome = .returnToHost
  chain : deeds.IsChain (Follows s.editor.settings)
  stands : Stands t.editor stage deeds.getLast?

variable {s t u : Session C W} {deeds : List Deed}

/-- One more deed keeps what is true along a run, if it follows from what is true of the editor. -/
theorem Along.concat {stage stage' : Stage} {deed : Deed} (along : Along s stage deeds t)
    (settings : u.editor.settings = t.editor.settings)
    (entries : u.history.entries = t.history.entries ++ deed.entry?.toList)
    (commits : ∀ line outcome, deed = .pressed line (some .commit) outcome →
      outcome = .returnToHost)
    (next : ∀ last, Stands t.editor stage (some last) → Follows t.editor.settings last deed)
    (stands : ∀ last, Stands t.editor stage last → Stands u.editor stage' (some deed)) :
    Along s stage' (deeds ++ [deed]) u where
  settings := settings.trans along.settings
  entries := by
    rw [entries, along.entries, List.filterMap_append, List.append_assoc]
    cases added : deed.entry? <;> simp [added]
  commits line outcome mem := by
    rcases List.mem_append.mp mem with before | now
    · exact along.commits line outcome before
    · exact commits line outcome (List.mem_singleton.mp now).symm
  chain := by
    refine List.isChain_append.mpr ⟨along.chain, List.isChain_singleton _, ?_⟩
    rintro last mem first ⟨rfl⟩
    rw [← along.settings]
    refine next last ?_
    rw [← Option.mem_def.mp mem]
    exact along.stands
  stands := by
    rw [List.getLast?_concat]
    exact stands _ along.stands

theorem Along.take (along : Along s .owing deeds t) :
    Along s .resting
      (deeds ++ [.took t.editor.takeCommand.1 t.editor.takeCommand.2.buffer])
      (t.edited (·.takeCommand.2)) := by
  refine along.concat t.editor.settings_takeCommand (List.append_nil _).symm nofun
    (fun last stands => ?_)
    fun last stands => ?_
  · cases stands with
    | committed idle nothing text =>
      rw [Editor.takeCommand_of_none nothing]
      exact ⟨rfl, text, rfl⟩
    | @asked meaning command editing asked asks =>
      rw [Editor.takeCommand_of_some asked]
      exact ⟨⟨command, asks, rfl⟩, rfl⟩
  · change Stands t.editor.takeCommand.2 .resting _
    cases stands with
    | committed idle nothing text =>
      rw [Editor.takeCommand_of_none nothing]
      exact .took nothing (if_pos idle)
    | @asked meaning command editing asked asks =>
      rw [Editor.takeCommand_of_some asked]
      exact .took rfl (if_neg (by rw [editing]; nofun))

/-- What others do between the calls of the host does not matter. They may change the console, the
working directory, the keys and the completers. -/
theorem Along.meanwhile {stage : Stage} (along : Along s stage deeds t) (console : C) (host : W)
    (keymap : Keymap) (completers : List Completer) :
    Along s stage deeds
      { t with
        console, host
        editor :=
          { t.editor with keymap, completion := { t.editor.completion with completers } } } := by
  obtain ⟨settings, entries, commits, chain, stands⟩ := along
  refine ⟨settings, entries, commits, chain, ?_⟩
  generalize deeds.getLast? = last at stands ⊢
  cases stands with
  | fresh idle nothing => exact .fresh idle nothing
  | started editing nothing => exact .started editing nothing
  | pressed editing nothing => exact .pressed editing nothing
  | committed idle nothing text => exact .committed idle nothing text
  | asked editing asked asks => exact .asked editing asked asks
  | took nothing kept => exact .took nothing kept

theorem agree_of_core {k : Core W} (same : u.core = k) :
    u.editor.settings = k.editor.settings ∧ u.editor.buffer = k.editor.buffer ∧
      u.editor.mode = k.editor.mode ∧ u.editor.synthesized = k.editor.synthesized ∧
      u.history.entries = k.history.entries := by
  subst same
  exact ⟨rfl, rfl, rfl, rfl, rfl⟩

variable [Console C] [WorkingDirectory W]

theorem acts_of_ok {event : KeyEvent} {outcome : Outcome}
    (run : (handleKey event : Edit C W Outcome).exec t = (.ok outcome, u)) :
    Acts (t.core.unheld.edited (·.settle (t.editor.meaning event))) (t.editor.meaning event)
      (outcome, u.core) := by
  rw [← handled_of_ok run]
  exact acts_handled t.core event t.clipboard

theorem Along.start (along : Along s .resting deeds t)
    (run : (start : Edit C W Unit).exec t = (.ok (), u)) :
    Along s .editing (deeds ++ [.started u.editor.buffer]) u := by
  have same := started_of_ok run
  obtain ⟨settings, buffer, mode, synthesized, entries⟩ := agree_of_core same
  refine along.concat settings (entries.trans (List.append_nil _).symm) nofun ?_ ?_
  · intro last stands
    cases stands with
    | took _ kept => exact buffer.trans kept
  · intro last stands
    refine .started mode (synthesized.trans ?_)
    cases stands with
    | fresh _ nothing => exact nothing
    | took nothing _ => exact nothing

theorem Along.press {event : KeyEvent} {outcome : Outcome} (along : Along s .editing deeds t)
    (run : (handleKey event : Edit C W Outcome).exec t = (.ok outcome, u)) :
    Along s (.after outcome)
      (deeds ++ [.pressed t.editor.line (t.editor.meaning event) outcome]) u := by
  have acts := acts_of_ok run
  generalize t.editor.meaning event = meaning at acts ⊢
  generalize same : u.core = k at acts
  obtain ⟨settings, buffer, mode, synthesized, entries⟩ := agree_of_core same
  have next : ∀ last, Stands t.editor .editing (some last) → Follows t.editor.settings last
      (.pressed t.editor.line meaning outcome) := by
    intro last stands
    cases stands <;> exact trivial
  have before : ∀ last, Stands t.editor .editing last →
      t.editor.mode = .editing ∧ t.editor.synthesized = none := by
    intro last stands
    cases stands with
    | started editing nothing => exact ⟨editing, nothing⟩
    | pressed editing nothing => exact ⟨editing, nothing⟩
  obtain ⟨editing, nothing⟩ := before _ along.stands
  -- Only a commit adds an entry, and only a request leaves a command for the host.
  cases acts with
  | edits other keeps =>
    refine along.concat (settings.trans keeps.settings) ?_ ?_ next fun last _ => ?_
    · rw [Deed.entry?_of_other other, entries, keeps.entries]
      exact (List.append_nil _).symm
    · rintro _ _ ⟨rfl⟩
      exact absurd rfl other
    · exact .pressed ((mode.trans keeps.mode).trans editing)
        ((synthesized.trans keeps.synthesized).trans nothing)
  | commits commits =>
    obtain rfl : meaning = some .commit := commits
    refine along.concat settings (entries.trans (entries_committed _)) ?_ next fun last _ => ?_
    · rintro _ _ ⟨rfl⟩
      rfl
    refine .committed mode (synthesized.trans nothing) ?_
    rw [buffer, settings]
    exact text_committed (t.core.unheld.edited (·.settle (some .commit)))
  | @asks command _ _ asks =>
    have other : meaning ≠ some .commit := by
      rintro rfl
      exact absurd asks nofun
    refine along.concat settings ?_ ?_ next fun last _ => ?_
    · rw [Deed.entry?_of_other other, entries]
      exact (List.append_nil _).symm
    · rintro _ _ ⟨rfl⟩
      exact absurd rfl other
    · have line : t.editor.line = u.editor.buffer := buffer.symm
      have asked : u.editor.synthesized = some (u.editor.settings.terminated command) := by
        rw [synthesized, settings]
        rfl
      rw [line]
      refine .asked (mode.trans editing) asked ?_
      rw [settings]
      exact asks

theorem Run.along {stage : Stage} (run : Run s stage deeds t) (idle : s.editor.mode = .idle)
    (nothing : s.editor.synthesized = none) : Along s stage deeds t := by
  induction run with
  | rest => exact ⟨rfl, (List.append_nil _).symm, nofun, .nil, .fresh idle nothing⟩
  | start _ begun ih => exact ih.start begun
  | press _ handled ih => exact ih.press handled
  | take _ ih => exact ih.take
  | meanwhile console host keymap completers _ ih =>
    exact ih.meanwhile console host keymap completers

/-- Along every run of a session that begins idle, the history is what it was with the non-empty
lines of the commits behind it, and each deed is followed as it should be: a committed line reaches
the host with its terminator and leaves an empty line, a command that the host is asked to run
reaches it as it is and leaves the line to go on. On a console that does not fail, no run gets
stuck. -/
theorem history_and_commands_of_run {stage : Stage} (run : Run s stage deeds t)
    (idle : s.editor.mode = .idle) (nothing : s.editor.synthesized = none) :
    t.history.entries = s.history.entries ++ deeds.filterMap Deed.entry? ∧
    (∀ line outcome, .pressed line (some .commit) outcome ∈ deeds → outcome = .returnToHost) ∧
    deeds.IsChain (Follows s.editor.settings) ∧
    (ReliableConsole C →
      (∃ u, (start : Edit C W Unit).exec t = (.ok (), u)) ∧
      ∀ event, ∃ outcome u, (handleKey event : Edit C W Outcome).exec t = (.ok outcome, u)) := by
  have along := run.along idle nothing
  refine ⟨along.entries, along.commits, along.chain, fun reliable => ⟨?_, fun event => ?_⟩⟩
  · obtain ⟨_, u, begun⟩ := succeeds_start (C := C) (W := W) t
    exact ⟨u, begun⟩
  · exact succeeds_handleKey event t

def small : Session Screen ShellDirectory where
  editor := Editor.new Settings.default
  console := Screen.blank 8 3
  history := History.empty
  directories := DirectoryHistory.startingAt ⟨"/"⟩
  host := ShellDirectory.standingIn ⟨"/"⟩

namespace small

def started (s : Session Screen ShellDirectory) : Session Screen ShellDirectory :=
  ((start : Edit Screen ShellDirectory Unit).exec s).2

def pressed (s : Session Screen ShellDirectory) (event : KeyEvent) :
    Session Screen ShellDirectory :=
  ((handleKey event : Edit Screen ShellDirectory Outcome).exec s).2

theorem exec_start (s : Session Screen ShellDirectory)
    (begins : ((start : Edit Screen ShellDirectory Unit).exec s).1 = .ok ()) :
    (start : Edit Screen ShellDirectory Unit).exec s = (.ok (), started s) :=
  Prod.ext begins rfl

theorem exec_handleKey (s : Session Screen ShellDirectory) (event : KeyEvent) (outcome : Outcome)
    (ends : ((handleKey event : Edit Screen ShellDirectory Outcome).exec s).1 = .ok outcome) :
    (handleKey event : Edit Screen ShellDirectory Outcome).exec s = (.ok outcome, pressed s event) :=
  Prod.ext ends rfl

def typed : Session Screen ShellDirectory := pressed (started small) (.ofChar 'x')

def asked : Session Screen ShellDirectory := pressed typed ⟨true, .withAlt .up, none⟩

def resumed : Session Screen ShellDirectory := started (asked.edited (·.takeCommand.2))

def done : Session Screen ShellDirectory := pressed resumed ⟨true, .plain .enter, none⟩

end small

open small in
/-- A letter is typed, the host is sent to the parent directory, and the line that goes on is
committed. -/
theorem history_and_commands_of_run_small :
    ∃ deeds t, Run small .resting deeds t ∧ t.history.entries = ["x"] ∧
      deeds.IsChain (Follows Settings.default) := by
  have begun := Run.rest.start (exec_start small (by decide +kernel))
  have typing := begun.press
    (exec_handleKey (small.started small) (.ofChar 'x') .incomplete (by decide +kernel))
  have asking := typing.press
    (exec_handleKey typed ⟨true, .withAlt .up, none⟩ .returnToHostThenResume (by decide +kernel))
  have resuming := asking.take.start
    (exec_start (asked.edited (·.takeCommand.2)) (by decide +kernel))
  have run := (resuming.press
    (exec_handleKey resumed ⟨true, .plain .enter, none⟩ .returnToHost (by decide +kernel))).take
  obtain ⟨entries, -, chain, -⟩ := history_and_commands_of_run run rfl rfl
  refine ⟨_, _, run, entries.trans ?_, chain⟩
  decide +kernel

end LineEdit.Session
