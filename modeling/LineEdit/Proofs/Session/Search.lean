import LineEdit.Console.Screen
import LineEdit.Proofs.History.Cycle
import LineEdit.Proofs.Session.Core

/-!
# A search of the history by events

The first event of a search takes what stands before the cursor as the stem. The later ones look for
the same stem, although the line has been replaced and the cursor stands at its end, so that each
event goes one step around the cycle of the entries that begin with it.
-/
namespace LineEdit

open Attempt

def Action.search : Direction → Action
  | .backward => historySearchBackward
  | .forward => historySearchForward

namespace Session

open History

variable {C W : Type} {s t u : Session C W}

/-- A search for `stem` is under way among `entries`. Neither of them changes as long as nothing but
searching is done. -/
structure Searching (entries : List String) (stem : String) (s : Session C W) : Prop where
  unheld : s.editor.heldPaste = none
  stem_eq : s.editor.stem = some stem
  entries_eq : s.history.entries = entries

theorem Searching.matching_eq {stem : String} (searching : Searching s.history.entries stem t) :
    t.history.matching stem = s.history.matching stem := by
  rw [matching, matching, searching.entries_eq]

/-- What a search makes of the line and the history, with `stem` as what it looks for. -/
structure Steps (stem : String) (direction : Direction) (s t : Session C W) : Prop where
  unheld : t.editor.heldPaste = none
  stem_eq : t.editor.stem = some stem
  history : t.history = (s.history.move direction stem).2
  buffer : t.editor.buffer =
    ((s.history.move direction stem).1.map Buffer.ofText).getD s.editor.buffer

theorem Steps.searching {entries : List String} {stem : String} {direction : Direction}
    (steps : Steps stem direction s t) (same : s.history.entries = entries) :
    Searching entries stem t :=
  ⟨steps.unheld, steps.stem_eq, by rw [steps.history, entries_move, same]⟩

theorem steps_handled [WorkingDirectory W] {event : KeyEvent} {direction : Direction}
    (unheld : s.editor.heldPaste = none)
    (means : s.editor.meaning event = some (.search direction)) (clipboard : Option String) :
    Steps (s.editor.stem.getD s.editor.buffer.textBeforeCursor) direction s
      (s.handled event clipboard).2 := by
  obtain ⟨heard, bound⟩ := resolve_of_meaning means
  rw [handled_of_other heard (.inl unheld), unheld_of_none unheld, bound]
  cases direction with
  | backward => exact ⟨unheld, rfl, rfl, rfl⟩
  | forward => exact ⟨unheld, rfl, rfl, rfl⟩

/-- A search for what nothing begins with leaves the line. -/
theorem Steps.buffer_of_no_match {stem : String} {direction : Direction}
    (steps : Steps stem direction s t) (no_match : s.history.matching stem = []) :
    t.editor.buffer = s.editor.buffer := by
  rw [steps.buffer, move_of_no_match no_match]
  rfl

/-- The line is the entry at the position, which is so many steps around the cycle of matches. The
steps are counted from the newest match, and up to whole rounds. -/
structure Recalls (stem : String) (turns : Int) (s : Session C W) : Prop where
  found : s.history.matchesAt stem s.history.position = true
  shown : s.history.entries[s.history.position]?.map Buffer.ofText = some s.editor.buffer
  place : (s.history.countFrom stem (s.history.position + 1) : Int) ≡ turns
    [ZMOD (s.history.matching stem).length]

theorem Steps.recalls {stem : String} {direction : Direction} {turns : Int} {k : Nat}
    (steps : Steps stem direction s t) (found : s.history.matchesAt stem k = true)
    (moves : s.history.move direction stem = (s.history.entries[k]?, s.history.moveTo k))
    (place : (s.history.countFrom stem (k + 1) : Int) ≡ turns
      [ZMOD (s.history.matching stem).length]) :
    Recalls stem turns t := by
  obtain ⟨inside, -⟩ := matchesAt_eq_true_iff.mp found
  have position : (s.history.moveTo k).position = k :=
    History.position_moveTo (Nat.le_of_lt inside)
  have history : t.history = s.history.moveTo k := by rw [steps.history, moves]
  have buffer : t.editor.buffer = Buffer.ofText s.history.entries[k] := by
    rw [steps.buffer, moves, List.getElem?_eq_getElem inside]
    rfl
  refine ⟨?_, ?_, ?_⟩
  · rw [history, position]
    exact found
  · rw [history, position, buffer]
    exact congrArg _ (List.getElem?_eq_getElem inside)
  · rw [history, position]
    exact place

/-- A step from one recalled entry to the next is a turn of the cycle, in the direction of the
search. -/
theorem Recalls.step {stem : String} {direction : Direction} {turns : Int}
    (recalls : Recalls stem turns s) (steps : Steps stem direction s t) :
    Recalls stem (turns + turn direction) t := by
  obtain ⟨k, found, moves, place⟩ := move_of_match recalls.found direction
  exact steps.recalls found moves (place.trans (recalls.place.add_right _))

/-- How far around the cycle some steps lead that begin at the newest match. -/
def turns (directions : List Direction) : Int :=
  directions.count .backward - directions.count .forward - 1

theorem turns_cons (direction : Direction) (directions : List Direction) :
    turns (direction :: directions) = turns directions + turn direction := by
  cases direction <;> simp [turns, turn] <;> omega

variable [Console C] [WorkingDirectory W]

/-- A search that the session has gone through, with its directions, the last one first. It begins
backward. Events that are ignored may come in between, and the line may fail to be shown. -/
inductive Searches (s : Session C W) : List Direction → Session C W → Prop
  | begin {t : Session C W} {event : KeyEvent} {r : Except ConsoleError Outcome} :
      s.editor.meaning event = some (.search .backward) →
      (handleKey event : Edit C W Outcome).exec s = (r, t) → Searches s [.backward] t
  | again {directions : List Direction} {t u : Session C W} {event : KeyEvent}
      {r : Except ConsoleError Outcome} (direction : Direction) : Searches s directions t →
      t.editor.meaning event = some (.search direction) →
      (handleKey event : Edit C W Outcome).exec t = (r, u) →
      Searches s (direction :: directions) u
  | ignore {directions : List Direction} {t u : Session C W} {event : KeyEvent}
      {r : Except ConsoleError Outcome} : Searches s directions t →
      t.editor.ignores event = true → (handleKey event : Edit C W Outcome).exec t = (r, u) →
      Searches s directions u

theorem steps_handleKey {event : KeyEvent} {direction : Direction}
    {r : Except ConsoleError Outcome} (unheld : s.editor.heldPaste = none)
    (means : s.editor.meaning event = some (.search direction))
    (run : (handleKey event : Edit C W Outcome).exec s = (r, t)) :
    Steps (s.editor.stem.getD s.editor.buffer.textBeforeCursor) direction s t := by
  have other : s.editor.meaning event ≠ some .commit := by
    rw [means]
    cases direction <;> nofun
  obtain ⟨same, -⟩ := answers_handleKey s other
  rw [run] at same
  have steps := steps_handled (s := s.core) unheld means s.clipboard
  rw [← same] at steps
  exact ⟨steps.unheld, steps.stem_eq, steps.history, steps.buffer⟩

/-- What the first event of a search brings about and every further one keeps up, holds along the
search. -/
theorem Searches.along {P : List Direction → Session C W → Prop} {directions : List Direction}
    (run : Searches s directions t) (unheld : s.editor.heldPaste = none)
    (fresh : s.editor.stem = none)
    (first : ∀ t, Steps s.editor.buffer.textBeforeCursor .backward s t → P [.backward] t)
    (next : ∀ directions direction t u,
      Searching s.history.entries s.editor.buffer.textBeforeCursor t →
      Steps s.editor.buffer.textBeforeCursor direction t u → P directions t →
      P (direction :: directions) u) :
    Searching s.history.entries s.editor.buffer.textBeforeCursor t ∧ P directions t := by
  induction run with
  | begin means handled =>
    have steps := steps_handleKey unheld means handled
    rw [fresh] at steps
    exact ⟨steps.searching rfl, first _ steps⟩
  | again direction _ means handled ih =>
    obtain ⟨searching, holds⟩ := ih
    have steps := steps_handleKey searching.unheld means handled
    rw [searching.stem_eq] at steps
    exact ⟨steps.searching searching.entries_eq, next _ direction _ _ searching steps holds⟩
  | ignore _ ignored handled ih =>
    rw [exec_handleKey_of_ignored ignored] at handled
    rw [← (Prod.mk.inj handled).2]
    exact ih

theorem Searches.buffer_of_no_match {directions : List Direction} (run : Searches s directions t)
    (unheld : s.editor.heldPaste = none) (fresh : s.editor.stem = none)
    (no_match : s.history.matching s.editor.buffer.textBeforeCursor = []) :
    t.editor.buffer = s.editor.buffer := by
  refine (run.along (P := fun _ t => t.editor.buffer = s.editor.buffer) unheld fresh
    (fun t steps => steps.buffer_of_no_match no_match) ?_).2
  intro _ direction t u searching steps same
  exact (steps.buffer_of_no_match (searching.matching_eq.trans no_match)).trans same

theorem Searches.recalls {directions : List Direction} (run : Searches s directions t)
    (unheld : s.editor.heldPaste = none) (fresh : s.editor.stem = none)
    (rests : s.history.position = s.history.length)
    (some_match : s.history.matching s.editor.buffer.textBeforeCursor ≠ []) :
    Searching s.history.entries s.editor.buffer.textBeforeCursor t ∧
      Recalls s.editor.buffer.textBeforeCursor (turns directions) t := by
  refine run.along (P := fun directions t =>
    Recalls s.editor.buffer.textBeforeCursor (turns directions) t) unheld fresh ?_ ?_
  · intro t steps
    obtain ⟨k, found, moves, place⟩ := move_backward_of_rest rests some_match
    exact steps.recalls found moves place
  · intro directions direction t u _ steps recalls
    rw [turns_cons]
    exact recalls.step steps

/-- A search that begins backward with the history at rest cycles through the entries that begin
with what stood before the cursor, newest first: after `b` steps backward and `f` steps forward the
line is the one at `b - f - 1`, up to whole rounds, with the cursor at its end. If there is no such
entry, the line stays as it is. -/
theorem buffer_of_searches {directions : List Direction} (run : Searches s directions t)
    (unheld : s.editor.heldPaste = none) (fresh : s.editor.stem = none)
    (rests : s.history.position = s.history.length) :
    let found := s.history.matching s.editor.buffer.textBeforeCursor
    (found = [] → t.editor.buffer = s.editor.buffer) ∧
    (found ≠ [] → ∃ entry,
      found[(((directions.count .backward : Int) - directions.count .forward - 1) %
        found.length).toNat]? = some entry ∧
      t.editor.buffer = Buffer.ofText entry) := by
  refine ⟨run.buffer_of_no_match unheld fresh, fun some_match => ?_⟩
  obtain ⟨searching, recalls⟩ := run.recalls unheld fresh rests some_match
  obtain ⟨inside, -⟩ := matchesAt_eq_true_iff.mp recalls.found
  have place := getElem?_matching_of_modEq recalls.found recalls.place
  rw [searching.matching_eq, List.getElem?_eq_getElem inside] at place
  refine ⟨_, place, ?_⟩
  have shown := recalls.shown
  rw [List.getElem?_eq_getElem inside] at shown
  exact (Option.some.inj shown).symm

def twofold : Session Screen ShellDirectory where
  editor := { (Editor.new Settings.default).resume with buffer := Buffer.ofText "ab" }
  console := Screen.blank 8 3
  history := History.ofEntries ["abc", "x", "abd"]
  directories := DirectoryHistory.startingAt ⟨"/"⟩
  host := ShellDirectory.standingIn ⟨"/"⟩

namespace twofold

def pressed (s : Session Screen ShellDirectory) (event : KeyEvent) :
    Except ConsoleError Outcome × Session Screen ShellDirectory :=
  (handleKey event : Edit Screen ShellDirectory Outcome).exec s

theorem exec_pressed (s : Session Screen ShellDirectory) (event : KeyEvent) :
    (handleKey event : Edit Screen ShellDirectory Outcome).exec s =
      ((pressed s event).1, (pressed s event).2) := rfl

def older : KeyEvent := ⟨true, .plain .pageUp, none⟩

def newer : KeyEvent := ⟨true, .plain .pageDown, none⟩

def released : KeyEvent := ⟨false, .plain .pageUp, none⟩

def last : Session Screen ShellDirectory := (pressed twofold older).2

def first : Session Screen ShellDirectory := (pressed (pressed last released).2 older).2

def back : Session Screen ShellDirectory := (pressed first newer).2

end twofold

open twofold in
/-- Two steps back, with a key that goes up between them, and one forward. -/
theorem buffer_of_searches_twofold :
    Searches twofold [.forward, .backward, .backward] back ∧
      back.editor.buffer = Buffer.ofText "abd" := by
  have begun : Searches twofold [.backward] last :=
    .begin (by decide +kernel) (exec_pressed twofold older)
  have waited := begun.ignore (by decide +kernel) (exec_pressed last released)
  have again := waited.again .backward (by decide +kernel)
    (exec_pressed (pressed last released).2 older)
  have run : Searches twofold [.forward, .backward, .backward] back :=
    again.again .forward (by decide +kernel) (exec_pressed first newer)
  obtain ⟨-, shown⟩ := buffer_of_searches run rfl rfl rfl
  obtain ⟨entry, place, buffer⟩ := shown (by decide +kernel)
  refine ⟨run, ?_⟩
  rw [buffer]
  have last : some entry = some "abd" := by
    rw [← place]
    decide +kernel
  rw [Option.some.inj last]

end Session

end LineEdit
