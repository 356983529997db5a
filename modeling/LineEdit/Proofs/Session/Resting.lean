import LineEdit.Proofs.History.Search
import LineEdit.Proofs.Session.Protocol

/-!
# Where the history rests between lines

The position in the history rests past the end until an entry is recalled, and an entry that is
added brings it back there. Nothing else does, neither the end of a line nor the beginning of one. A
line that was recalled and then emptied adds nothing when it is committed, so that the next line
begins with the position still among the entries. The first step back then leads to some earlier
entry, unless the position is at the first entry and the step goes around the end.
-/
namespace LineEdit

/-- Whether the action moves the position in the history. -/
def Action.browses (action : Action) : Bool :=
  action = historyPrevious || action = historyNext || action.searches

theorem Action.browses_of_edit {action : Action} {settings : Settings} {b b' : Buffer}
    (edit : action.edit? settings b = some b') : action ≠ commit ∧ action.browses = false := by
  cases action with
  | commit | historyPrevious | historyNext | historySearchBackward | historySearchForward =>
    exact absurd edit nofun
  | _ => exact ⟨nofun, rfl⟩

namespace Session

open Attempt History

variable {C W : Type}

/-- What an event makes of the history that came to a line. It adds the line of a commit, moves the
position, or leaves the history alone. -/
inductive Browses (h : History) (line : Buffer) (meaning : Option Action) : History → Prop
  | commits : meaning = some .commit →
      Browses h line meaning (if line.isEmpty then h else h.add line.text)
  | moves (direction : Direction) (stem : String) : meaning.any Action.browses = true →
      Browses h line meaning (h.move direction stem).2
  | keeps : meaning ≠ some .commit → meaning.any Action.browses = false → Browses h line meaning h

section

variable [WorkingDirectory W]

theorem history_navigated (s : Session C W) (direction : Direction) :
    (s.navigated direction).2.history = s.history := by
  unfold navigated
  dsimp only
  split <;> rfl

theorem browses_acted (s : Session C W) (action : Action) (clipboard : Option String) :
    Browses s.history s.editor.buffer (some action) (s.acted action clipboard).2.history := by
  unfold acted
  cases edit : action.edit? s.editor.settings s.editor.buffer with
  | some b =>
    obtain ⟨other, stays⟩ := Action.browses_of_edit edit
    exact .keeps (fun same => other (Option.some.inj same)) stays
  | none =>
    cases action with
    | commit => exact .commits rfl
    | historyPrevious => exact .moves .backward "" rfl
    | historyNext => exact .moves .forward "" rfl
    | historySearchBackward => exact .moves .backward _ rfl
    | historySearchForward => exact .moves .forward _ rfl
    | directoryBack =>
      dsimp only
      rw [history_navigated]
      exact .keeps nofun rfl
    | directoryForward =>
      dsimp only
      rw [history_navigated]
      exact .keeps nofun rfl
    | exitOrDeleteForward =>
      dsimp only
      split <;> exact .keeps nofun rfl
    | _ => exact .keeps nofun rfl

theorem browses_handled (s : Session C W) (event : KeyEvent) (clipboard : Option String) :
    Browses s.history s.editor.line (s.editor.meaning event)
      (s.handled event clipboard).2.history := by
  by_cases ignored : s.editor.ignores event = true
  · have nothing : s.handled event clipboard = (.incomplete, s) := if_pos ignored
    have meant : s.editor.meaning event = none := if_pos ignored
    rw [nothing, meant]
    exact .keeps nofun rfl
  have meant : s.editor.meaning event = s.editor.keymap.resolve event := if_neg ignored
  rw [meant]
  by_cases other : s.editor.heldPaste = none ∨ s.editor.keymap.resolve event ≠ some .paste
  · rw [handled_of_other ignored other]
    cases s.editor.keymap.resolve event with
    | none => exact .keeps nofun rfl
    | some action => exact browses_acted (s.unheld.edited (·.settle (some action))) action clipboard
  · obtain ⟨waits, confirmed⟩ := not_or.mp other
    obtain ⟨held, waits⟩ := Option.ne_none_iff_exists'.mp waits
    have confirmed := Decidable.not_not.mp confirmed
    rw [handled_confirmed ignored waits confirmed, confirmed]
    exact .keeps nofun rfl

end

def Deed.browses : Deed → Bool
  | .pressed _ meaning _ => meaning.any Action.browses
  | .started _ | .took _ _ => false

/-- Whether the position in the history was moved since the last entry was added. -/
def browsed (deeds : List Deed) : Bool :=
  deeds.foldl (fun moved deed => deed.entry?.isNone && (moved || deed.browses)) false

theorem browsed_concat (deeds : List Deed) (deed : Deed) :
    browsed (deeds ++ [deed]) = (deed.entry?.isNone && (browsed deeds || deed.browses)) := by
  unfold browsed
  rw [List.foldl_append]
  rfl

/-- The history has entries, and rests past their end unless it was moved. The equivalence is kept
exactly, so that what does not bring the position back shows. -/
structure Rests (h : History) (moved : Bool) : Prop where
  some_entries : 0 < h.length
  rests_iff : h.position = h.length ↔ moved = false

variable {h k : History} {moved : Bool} {line : Buffer} {meaning : Option Action}

theorem Rests.after (rests : Rests h moved) (browses : Browses h line meaning k) (outcome : Outcome) :
    Rests k ((Deed.entry? (.pressed line meaning outcome)).isNone &&
      (moved || Deed.browses (.pressed line meaning outcome))) := by
  obtain ⟨some_entries, rests_iff⟩ := rests
  cases browses with
  | commits commits =>
    obtain rfl := commits
    change Rests _ ((if line.isEmpty then none else some line.text : Option _).isNone &&
      (moved || false))
    rw [Bool.or_false]
    cases line.isEmpty with
    | true => exact ⟨some_entries, rests_iff⟩
    | false => exact ⟨by simp [add, ofEntries, length], by simp [add, ofEntries, length]⟩
  | moves direction stem browses =>
    have other : meaning ≠ some .commit := by
      rintro rfl
      exact absurd browses nofun
    have lt := h.position_move_lt some_entries direction stem
    have same : (h.move direction stem).2.length = h.length :=
      congrArg List.length (h.entries_move direction stem)
    rw [Deed.entry?_of_other other]
    change Rests _ (true && (moved || meaning.any Action.browses))
    rw [browses, Bool.or_true]
    refine ⟨same ▸ some_entries, ?_⟩
    rw [same]
    exact iff_of_false (Nat.ne_of_lt lt) nofun
  | keeps other browses =>
    rw [Deed.entry?_of_other other]
    change Rests _ (true && (moved || meaning.any Action.browses))
    rw [browses, Bool.or_false]
    exact ⟨some_entries, rests_iff⟩

theorem Rests.concat {deeds : List Deed} {deed : Deed} (rests : Rests h (browsed deeds))
    (adds : deed.entry? = none) (moves : deed.browses = false) : Rests h (browsed (deeds ++ [deed])) := by
  rw [browsed_concat, adds, moves, Bool.or_false]
  exact rests

variable [Console C] [WorkingDirectory W] {s t : Session C W}

theorem Run.rests {stage : Stage} {deeds : List Deed} (run : Run s stage deeds t)
    (rests : Rests s.history false) : Rests t.history (browsed deeds) := by
  induction run with
  | rest => exact rests
  | @start _ t u _ begun ih =>
    have same : u.history = t.history := congrArg (·.history) (started_of_ok begun)
    rw [same]
    exact ih.concat rfl rfl
  | @press _ t u event outcome _ handled ih =>
    have same : (t.core.handled event t.clipboard).2.history = u.history :=
      congrArg (·.2.history) (handled_of_ok handled)
    rw [browsed_concat, ← same]
    exact ih.after (browses_handled t.core event t.clipboard) outcome
  | take _ ih => exact ih.concat rfl rfl
  | meanwhile console host keymap completers _ ih => exact ih

/-- What a step back through the history does: it recalls the entry before the position. -/
theorem recalled_of_ok {u : Session C W} {event : KeyEvent} {outcome : Outcome}
    (means : t.editor.meaning event = some .historyPrevious)
    (run : (handleKey event : Edit C W Outcome).exec t = (.ok outcome, u)) :
    u.core = ((t.core.unheld.edited (·.settle (some .historyPrevious))).recalled .backward "") := by
  obtain ⟨heard, bound⟩ := resolve_of_meaning means
  have handled := handled_of_ok run
  rw [handled_of_other (s := t.core) heard (.inr (by exact bound ▸ nofun))] at handled
  change t.core.unheld.responded (t.editor.keymap.resolve event) event t.clipboard = _ at handled
  rw [bound] at handled
  exact (congrArg Prod.snd handled).symm

/-- The history rests past the end exactly as long as it was not browsed since the last entry was
added. A step back through it recalls the entry before the position, which is the newest one if the
history rests or if the position is at the first entry. -/
theorem rests_of_run {stage : Stage} {deeds : List Deed} (run : Run s stage deeds t)
    (some_entries : s.history.entries ≠ []) (rests : s.history.position = s.history.length) :
    (t.history.position = t.history.length ↔ browsed deeds = false) ∧
    ∀ (event : KeyEvent) (outcome : Outcome) (u : Session C W),
      t.editor.meaning event = some .historyPrevious →
      (handleKey event : Edit C W Outcome).exec t = (.ok outcome, u) →
      t.history.entries[u.history.position]?.map Buffer.ofText = some u.editor.buffer ∧
      u.history.position = beside t.history.length .backward t.history.position ∧
      (u.history.position + 1 = t.history.length ↔
        browsed deeds = false ∨ t.history.position = 0) := by
  obtain ⟨some_entries, rests_iff⟩ :=
    run.rests ⟨List.length_pos_of_ne_nil some_entries, iff_of_true rests rfl⟩
  refine ⟨rests_iff, fun event outcome u means handled => ?_⟩
  have recalled := recalled_of_ok means handled
  have moved := t.history.move_empty some_entries .backward
  have lt := beside_lt .backward some_entries t.history.position_le
  have position : u.history.position = beside t.history.length .backward t.history.position := by
    have same : u.history = (t.history.move .backward "").2 := congrArg (·.history) recalled
    rw [same, moved]
    exact Nat.min_eq_left (Nat.le_of_lt lt)
  have buffer : some u.editor.buffer =
      t.history.entries[beside t.history.length .backward t.history.position]?.map Buffer.ofText := by
    have same : u.editor.buffer = ((t.history.move .backward "").1.map Buffer.ofText).getD _ :=
      congrArg (·.editor.buffer) recalled
    rw [same, moved]
    change _ = t.history.entries[beside t.history.entries.length _ _]?.map _
    dsimp only
    rw [List.getElem?_eq_getElem (by exact lt)]
    rfl
  refine ⟨by rw [position, buffer], position, ?_⟩
  have le := t.history.position_le
  change t.history.position ≤ t.history.length at le
  rw [position, ← rests_iff, beside]
  split <;> omega

def recollecting : Session Screen ShellDirectory :=
  { small with history := History.ofEntries ["a", "b"] }

namespace recollecting

open small

def emptied : Session Screen ShellDirectory :=
  pressed (pressed (small.started recollecting) ⟨true, .plain .up, none⟩) ⟨true, .plain .escape, none⟩

def ended : Session Screen ShellDirectory := pressed emptied ⟨true, .plain .enter, none⟩

def again : Session Screen ShellDirectory := small.started (ended.edited (·.takeCommand.2))

theorem begun_again :
    (start : Edit Screen ShellDirectory Unit).exec (ended.edited (·.takeCommand.2)) = (.ok (), again) :=
  exec_start (ended.edited (·.takeCommand.2)) (by decide +kernel)

/-- The newest entry is recalled, the line is emptied and committed, and the host takes it. -/
theorem run_ended : ∃ deeds, Run recollecting .resting deeds (ended.edited (·.takeCommand.2)) := by
  have recalling := (Run.rest.start (exec_start recollecting (by decide +kernel))).press
    (exec_handleKey _ ⟨true, .plain .up, none⟩ .incomplete (by decide +kernel))
  have emptying := recalling.press
    (exec_handleKey _ ⟨true, .plain .escape, none⟩ .incomplete (by decide +kernel))
  have ending := emptying.press
    (exec_handleKey emptied ⟨true, .plain .enter, none⟩ .returnToHost (by decide +kernel))
  exact ⟨_, ending.take⟩

end recollecting

open small recollecting in
/-- The new line begins with the position at the newest entry, and the first step back recalls the
one before. -/
theorem rests_of_run_recollecting :
    again.history.position = 1 ∧ again.history.length = 2 ∧
      (pressed again ⟨true, .plain .up, none⟩).editor.buffer = Buffer.ofText "a" := by
  obtain ⟨deeds, run⟩ := run_ended
  obtain ⟨-, steps⟩ := rests_of_run (run.start begun_again) (by decide) rfl
  have position : again.history.position = 1 := by decide +kernel
  obtain ⟨recalls, back, -⟩ := steps ⟨true, .plain .up, none⟩ .incomplete _ (by decide +kernel)
    (exec_handleKey again _ .incomplete (by decide +kernel))
  have before : again.history.entries[0]?.map Buffer.ofText = some (Buffer.ofText "a") := by
    decide +kernel
  rw [position] at back
  rw [back] at recalls
  exact ⟨position, by decide +kernel, Option.some.inj (recalls.symm.trans before)⟩

open small recollecting in
/-- A line that begins does not always find the history at rest. Neither a start nor the commit of
an empty line brings the position back. -/
theorem not_always_rests :
    ¬∀ (s t u : Session Screen ShellDirectory) (deeds : List Deed), s.editor.mode = .idle →
      s.history.entries ≠ [] → s.history.position = s.history.length →
      Run s .resting deeds t → t.editor.mode = .idle →
      (start : Edit Screen ShellDirectory Unit).exec t = (.ok (), u) →
      u.history.position = u.history.length := by
  intro rests
  obtain ⟨deeds, run⟩ := run_ended
  have same := rests _ _ again _ rfl (by decide) rfl run (by decide +kernel) begun_again
  exact absurd same (by decide +kernel)

end Session

end LineEdit
