import LineEdit.WorkingDirectory

/-!
# A tree of folders

A working directory among folders that exist, all of them inside one that is the root. A path is
followed step by step from the folder where one is, and every folder on the way has to exist. What
lies around the root is not known, so that a path that leaves it leads nowhere.
-/
namespace LineEdit

/-- Folders, and the one where one is. A folder is known by the names on the way to it. -/
structure FolderTree where
  folders : List (List (List Char))
  here : List (List Char)
deriving DecidableEq, Repr

namespace FolderTree

def parent (place : List (List Char)) : Option (List (List Char)) :=
  if place = [] then none else some place.dropLast

/-- The folders that are passed on the way from `place` when every folder that is missing is made. A
step to the folder around ends the way when there is none around. -/
def passed (place : List (List Char)) : List (List Char) → List (List (List Char))
  | [] => [place]
  | step :: steps =>
    if step = [] ∨ step = ['.'] then passed place steps
    else if step = ['.', '.'] then
      match parent place with
      | none => [place]
      | some around => place :: passed around steps
    else place :: passed (place ++ [step]) steps

/-- The tree of the folders at the given paths and all that are passed on the way to them, seen from
the root. A path from the root of all paths is outside of the tree and adds nothing. -/
def ofPaths (paths : List Path) : FolderTree :=
  ⟨[] :: (paths.filter (!·.isRooted)).flatMap fun p => passed [] (Path.pieces p.text.toList), []⟩

def follow (t : FolderTree) (place : List (List Char)) :
    List (List Char) → Option (List (List Char))
  | [] => some place
  | step :: steps =>
    if step = [] ∨ step = ['.'] then t.follow place steps
    else if step = ['.', '.'] then (parent place).bind fun around => t.follow around steps
    else if t.folders.contains (place ++ [step]) then t.follow (place ++ [step]) steps
    else none

def longPath : Nat := 4096

/-- Goes where a path leads, and stays when it leads nowhere. An empty path leads nowhere, nor does
one from the root of all paths or one of `longPath` bytes or more. -/
def go (t : FolderTree) (path : Path) : Bool × FolderTree :=
  if path.text.isEmpty || path.isRooted || longPath ≤ path.text.utf8ByteSize then (false, t)
  else
    match t.follow t.here (Path.pieces path.text.toList) with
    | some place => (true, { t with here := place })
    | none => (false, t)

def current (t : FolderTree) : Path := ⟨"/".intercalate (t.here.map String.ofList)⟩

instance : WorkingDirectory FolderTree := ⟨current, go⟩

end FolderTree

end LineEdit
