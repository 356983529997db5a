import LineEdit.Proofs.Attempt
import LineEdit.Session

/-!
# Consoles that do not fail

On a console whose operations all succeed, everything that an editor does succeeds. Sequences and
loops of attempts that succeed do so too, and an editor consists of nothing else.
-/
namespace LineEdit

namespace Attempt

variable {S T A B : Type}

/-- An attempt that succeeds from every state. On a console whose operations all do, everything made
of them does, and the lemmas below go through what the editor is made of. -/
def Succeeds (act : Attempt S A) : Prop := ∀ s, ∃ a t, act.exec s = (.ok a, t)

theorem succeeds_pure (a : A) : Succeeds (pure a : Attempt S A) := fun s => ⟨a, s, rfl⟩

theorem succeeds_get : Succeeds (get : Attempt S S) := fun s => ⟨s, s, rfl⟩

theorem succeeds_set (t : S) : Succeeds (set t : Attempt S PUnit) := fun _ => ⟨⟨⟩, t, rfl⟩

theorem succeeds_modify (f : S → S) : Succeeds (modify f : Attempt S PUnit) :=
  fun s => ⟨⟨⟩, f s, rfl⟩

theorem Succeeds.bind {act : Attempt S A} {next : A → Attempt S B} (first : act.Succeeds)
    (second : ∀ a, (next a).Succeeds) : (act >>= next).Succeeds := by
  intro s
  obtain ⟨a, t, run⟩ := first s
  obtain ⟨b, u, run'⟩ := second a t
  exact ⟨b, u, (exec_bind_of_ok run).trans run'⟩

theorem Succeeds.seqRight {act : Attempt S A} {next : Attempt S B} (first : act.Succeeds)
    (second : next.Succeeds) : (act *> next).Succeeds := by
  rw [seqRight_eq_bind]
  exact first.bind fun _ => second

theorem Succeeds.on {part : S → T} {put : T → S → S} {act : Attempt T A} (h : act.Succeeds) :
    (Attempt.on part put act).Succeeds := by
  intro s
  obtain ⟨a, t, run⟩ := h (part s)
  refine ⟨a, put t s, ?_⟩
  rw [exec_on, run]

theorem succeeds_forM {items : List A} {act : A → Attempt S PUnit} (h : ∀ a, (act a).Succeeds) :
    (items.forM act).Succeeds := by
  induction items with
  | nil => exact succeeds_pure _
  | cons a items ih =>
    rw [List.forM_eq_forM] at ih ⊢
    rw [List.forM_cons]
    exact (h a).bind fun _ => ih

end Attempt

open Attempt

class ReliableConsole (C : Type) [Console C] : Prop where
  cursorPosition : Succeeds (Console.cursorPosition : Attempt C (UInt16 × UInt16))
  setCursorPosition : ∀ x y : UInt16, Succeeds (Console.setCursorPosition x y : Attempt C UInt16)
  width : Succeeds (Console.width : Attempt C UInt16)
  height : Succeeds (Console.height : Attempt C UInt16)
  drawText : ∀ text (x y : UInt16), Succeeds (Console.drawText text x y : Attempt C Unit)
  fillChar : ∀ c (count x y : UInt16), Succeeds (Console.fillChar c count x y : Attempt C Unit)
  clipboardText : Succeeds (Console.clipboardText : Attempt C (Option String))

variable {C W : Type} [Console C] [ReliableConsole C]

namespace Painter

theorem succeeds_draw (text : List Char) (x : Nat) (row : Int) :
    Succeeds (draw text x row : Attempt C Unit) := by
  unfold draw
  split
  · exact succeeds_pure _
  · exact ReliableConsole.drawText _ _ _

theorem succeeds_erase (count x : Nat) (row : Int) :
    Succeeds (erase count x row : Attempt C Unit) := by
  unfold erase
  split
  · exact succeeds_pure _
  · exact ReliableConsole.fillChar _ _ _ _

theorem succeeds_paintRow (p : Painter) (width : Nat) (text : List Char) (r : Nat) :
    Succeeds (p.paintRow width text r : Attempt C Unit) := by
  unfold paintRow
  dsimp only
  split
  · exact (succeeds_draw _ _ _).bind fun _ => succeeds_erase _ _ _
  · exact succeeds_pure _

theorem succeeds_eraseRow (width : Nat) (row : Int) :
    Succeeds (eraseRow width row : Attempt C Unit) := by
  unfold eraseRow
  split
  · exact succeeds_erase _ _ _
  · exact succeeds_pure _

theorem succeeds_paintRows (p : Painter) (width : Nat) (text : List Char) :
    Succeeds (p.paintRows width text : Attempt C Unit) := by
  unfold paintRows
  exact (succeeds_forM fun _ => succeeds_paintRow p width text _).bind fun _ =>
    succeeds_forM fun _ => succeeds_eraseRow _ _

theorem succeeds_moveCursor (x y : UInt16) : Succeeds (moveCursor x y : Paint C Unit) :=
  (ReliableConsole.setCursorPosition x y).on.bind fun _ => succeeds_modify _

theorem succeeds_begin : Succeeds (begin : Paint C Unit) :=
  ReliableConsole.cursorPosition.on.bind fun _ => succeeds_modify _

theorem succeeds_consoleWidth : Succeeds (consoleWidth : Paint C Nat) :=
  ReliableConsole.width.on.bind fun _ => succeeds_pure _

theorem succeeds_makeRoom (width height n : Nat) :
    Succeeds (makeRoom width height n : Paint C Unit) := by
  unfold makeRoom
  refine succeeds_get.bind fun s => ?_
  dsimp only
  split
  · exact succeeds_moveCursor _ _
  · exact succeeds_pure _

theorem succeeds_place (width : Nat) (text : List Char) (cursor : Nat) :
    Succeeds (place width text cursor : Paint C Unit) := by
  unfold place
  refine succeeds_get.bind fun s => ?_
  refine (succeeds_paintRows _ _ _).on.bind fun _ => ?_
  refine (succeeds_modify _).bind fun _ => ?_
  exact (ReliableConsole.setCursorPosition _ _).on.bind fun _ => succeeds_pure _

theorem succeeds_redraw (line : String) (cursor : Nat) :
    Succeeds (redraw line cursor : Paint C Unit) := by
  unfold redraw
  refine succeeds_consoleWidth.bind fun width => ?_
  refine ReliableConsole.height.on.bind fun height => ?_
  refine (succeeds_modify _).bind fun _ => ?_
  exact (succeeds_makeRoom _ _ _).bind fun _ => succeeds_place _ _ _

theorem succeeds_finish (n : Nat) : Succeeds (finish n : Paint C Unit) := by
  unfold finish
  refine succeeds_consoleWidth.bind fun width => ?_
  exact succeeds_get.bind fun s => succeeds_moveCursor _ _

end Painter

namespace Session

theorem succeeds_redraw : Succeeds (redraw : Edit C W Unit) :=
  succeeds_get.bind fun _ => (Painter.succeeds_redraw _ _).on

theorem succeeds_commit : Succeeds (commit : Edit C W Outcome) := by
  unfold commit
  refine succeeds_get.bind fun s => ?_
  refine (succeeds_modify _).bind fun _ => succeeds_redraw.bind fun _ => ?_
  refine (succeeds_modify _).bind fun _ => (Painter.succeeds_finish _).on.bind fun _ => ?_
  exact (succeeds_modify _).bind fun _ => succeeds_pure _

theorem succeeds_runThenResume (command : String) :
    Succeeds (runThenResume command : Edit C W Outcome) := by
  unfold runThenResume
  refine succeeds_get.bind fun s => ?_
  refine (succeeds_modify _).bind fun _ => succeeds_redraw.bind fun _ => ?_
  exact (Painter.succeeds_finish _).on.bind fun _ => succeeds_pure _

theorem succeeds_paste : Succeeds (paste : Edit C W Unit) :=
  ReliableConsole.clipboardText.on.bind fun _ => succeeds_modify _

variable [WorkingDirectory W]

theorem succeeds_navigate (direction : Direction) :
    Succeeds (navigate direction : Edit C W Outcome) := by
  unfold navigate
  refine succeeds_get.bind fun s => ?_
  dsimp only
  generalize s.directories.navigate direction s.host = walk
  obtain ⟨moved, directories, host⟩ := walk
  refine (succeeds_set _).bind fun _ => ?_
  cases moved with
  | true => exact succeeds_runThenResume ""
  | false => exact succeeds_pure _

theorem succeeds_perform (action : Action) : Succeeds (perform action : Edit C W Outcome) := by
  unfold perform
  refine succeeds_get.bind fun s => ?_
  dsimp only
  split
  · exact (succeeds_modify _).bind fun _ => succeeds_pure _
  · cases action with
    | commit => exact succeeds_commit
    | directoryBack => exact succeeds_navigate _
    | directoryForward => exact succeeds_navigate _
    | parentDirectory => exact succeeds_runThenResume _
    | paste => exact succeeds_paste.seqRight (succeeds_pure _)
    | exitOrDeleteForward =>
      dsimp only
      split
      · exact succeeds_runThenResume _
      · exact (succeeds_modify _).bind fun _ => succeeds_pure _
    | historyPrevious => exact (succeeds_modify _).seqRight (succeeds_pure _)
    | historyNext => exact (succeeds_modify _).seqRight (succeeds_pure _)
    | historySearchBackward => exact (succeeds_modify _).seqRight (succeeds_pure _)
    | historySearchForward => exact (succeeds_modify _).seqRight (succeeds_pure _)
    | completeNext => exact (succeeds_modify _).seqRight (succeeds_pure _)
    | completePrevious => exact (succeeds_modify _).seqRight (succeeds_pure _)
    | _ => exact succeeds_pure _

theorem succeeds_respond (action : Option Action) (event : KeyEvent) :
    Succeeds (respond action event : Edit C W Outcome) := by
  unfold respond
  refine (succeeds_modify _).bind fun _ => ?_
  have shows (outcome : Outcome) : Succeeds (if outcome = .incomplete then do
        redraw
        pure outcome
      else pure outcome : Edit C W Outcome) := by
    split
    · exact succeeds_redraw.bind fun _ => succeeds_pure _
    · exact succeeds_pure _
  cases action with
  | some action => exact (succeeds_perform action).bind shows
  | none => exact ((succeeds_modify _).seqRight (succeeds_pure _)).bind shows

/-- On a reliable console every event is handled. -/
theorem succeeds_handleKey (event : KeyEvent) :
    Succeeds (handleKey event : Edit C W Outcome) := by
  unfold handleKey
  refine succeeds_get.bind fun s => ?_
  dsimp only
  split
  · exact succeeds_pure _
  · split
    · exact succeeds_respond _ _
    · refine (succeeds_modify _).bind fun _ => ?_
      split
      · exact (succeeds_modify _).bind fun _ => succeeds_redraw.bind fun _ => succeeds_pure _
      · exact succeeds_respond _ _

/-- On a reliable console every line can begin. -/
theorem succeeds_start : Succeeds (start : Edit C W Unit) := by
  unfold start
  refine (succeeds_modify _).bind fun _ => Painter.succeeds_begin.on.bind fun _ => ?_
  exact (succeeds_modify _).bind fun _ => succeeds_redraw

end Session

end LineEdit
