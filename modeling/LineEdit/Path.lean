/-!
# Paths

A path keeps the text it was written as. Two paths are the same when they name the same steps:
repeated and trailing slashes do not matter, nor do steps to `.` other than a leading one. Steps to
`..` stay as they are.
-/
namespace LineEdit

structure Path where
  text : String
deriving DecidableEq, Repr, Inhabited

namespace Path

/-- The pieces of text between slashes: one more than there are slashes. A piece is empty where two
slashes meet, and where a slash is the first or the last character. -/
def pieces : List Char → List (List Char)
  | [] => [[]]
  | c :: cs =>
    if c = '/' then [] :: pieces cs
    else
      match pieces cs with
      | [] => [[c]]
      | piece :: rest => (c :: piece) :: rest

def isRooted (p : Path) : Bool := p.text.toList.head? = some '/'

/-- What tells paths apart: whether the path starts at the root of all paths, and its steps. -/
structure Steps where
  rooted : Bool
  names : List (List Char)
deriving DecidableEq, Repr

/-- The steps of a path. A step without a name is none, and `.` is one only in the first place. No
step is resolved, so that a path through `..` differs from the shorter one to the same place. -/
def steps (p : Path) : Steps :=
  let places := pieces p.text.toList
  ⟨p.isRooted,
    (places.take 1).filter (· ≠ []) ++ (places.drop 1).filter fun name => name ≠ [] && name ≠ ['.']⟩

def Same (p q : Path) : Prop := p.steps = q.steps

instance : DecidableRel Same := fun p q => inferInstanceAs (Decidable (p.steps = q.steps))

theorem Same.refl (p : Path) : Same p p := rfl

theorem Same.symm {p q : Path} (h : Same p q) : Same q p := Eq.symm h

theorem Same.trans {p q r : Path} (h : Same p q) (k : Same q r) : Same p r := Eq.trans h k

end Path

end LineEdit
