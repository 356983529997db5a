import LineEdit.Console

/-!
# A console that fails

Any console, made to fail at a chosen operation, and with a record of what was done to it. An
operation that fails by choice does not reach the console and is not recorded.
-/
namespace LineEdit

inductive Operation where
  | cursorPosition
  | setCursorPosition
  | width
  | height
  | drawText
  | fillChar
  | clipboardText
deriving DecidableEq, Repr

/-- An operation that changed the console, with what it was given. A move also records by how many
rows the console scrolled for it, or that the console refused it. -/
inductive Stroke where
  | move (x y : UInt16) (scrolled : Option UInt16)
  | draw (text : String) (x y : UInt16)
  | fill (c : Char) (count x y : UInt16)
deriving DecidableEq, Repr

/-- The choice that an operation fails. It is left alone `skip` times, and fails every time after
that. -/
structure Fault where
  operation : Operation
  skip : Nat
  error : ConsoleError
deriving DecidableEq, Repr

structure Faulty (C : Type) where
  inner : C
  fault : Option Fault
  strokes : List Stroke

namespace Faulty

variable {C : Type}

def sound (inner : C) : Faulty C := ⟨inner, none, []⟩

/-- The outcome of an operation: by choice a failure, which the console never sees, else what the
console makes of it. -/
def guarded {A : Type} (operation : Operation) (act : Attempt C A)
    (record : Except ConsoleError A → List Stroke) : Attempt (Faulty C) A :=
  ExceptT.mk fun s =>
    let reach := fun (fault : Option Fault) =>
      let (result, inner) := act.run.run s.inner
      (result, ⟨inner, fault, s.strokes ++ record result⟩)
    match s.fault with
    | none => reach none
    | some f =>
      if f.operation ≠ operation then reach (some f)
      else
        match f.skip with
        | 0 => (.error f.error, s)
        | skip + 1 => reach (some { f with skip })

instance [Console C] : Console (Faulty C) where
  cursorPosition := guarded .cursorPosition Console.cursorPosition fun _ => []
  setCursorPosition x y :=
    guarded .setCursorPosition (Console.setCursorPosition x y) fun
      | .ok rows => [.move x y (some rows)]
      | .error _ => [.move x y none]
  width := guarded .width Console.width fun _ => []
  height := guarded .height Console.height fun _ => []
  drawText text x y := guarded .drawText (Console.drawText text x y) fun _ => [.draw text x y]
  fillChar c count x y :=
    guarded .fillChar (Console.fillChar c count x y) fun _ => [.fill c count x y]
  clipboardText := guarded .clipboardText Console.clipboardText fun _ => []

end Faulty

end LineEdit
