import LineEdit.Direction
import LineEdit.WorkingDirectory

/-!
# The history of directories

The directories that were left, oldest first. The directory worked in joins them only when it is
left, or when a walk through the history begins; it then takes the last place, and an earlier
occurrence of it goes.
-/
namespace LineEdit

/-- The directories that were left, oldest first, and where among them the walk stands. The working
directory as it was seen last need not be one of them. -/
structure DirectoryHistory where
  dirs : List Path
  position : Nat
  lastKnown : Path
deriving DecidableEq, Repr

namespace DirectoryHistory

def startingAt (dir : Path) : DirectoryHistory := ⟨[], 0, dir⟩

/-- The directory known last put into the last place, where the walk now stands. An earlier
occurrence of the same path is taken out, so that no path is there twice. -/
def commit (h : DirectoryHistory) : DirectoryHistory :=
  let others := h.dirs.eraseP fun dir => decide (dir.Same h.lastKnown)
  ⟨others ++ [h.lastKnown], others.length, h.lastKnown⟩

def resume (h : DirectoryHistory) (current : Path) : DirectoryHistory :=
  if current.Same h.lastKnown then h else { h.commit with lastKnown := current }

def prepared (h : DirectoryHistory) : DirectoryHistory :=
  if h.position + 1 ≥ h.dirs.length then h.commit else h

def neighbour (h : DirectoryHistory) : Direction → Nat
  | .backward => h.position - 1
  | .forward => min (h.position + 1) (h.dirs.length - 1)

/-- Walks one directory back or forth, and tells whether the working directory was changed. A walk
that begins at the last directory or past it first puts the current one last, and that stays even
when the walk is at an end or the change is refused. -/
def navigate {W : Type} [WorkingDirectory W] (h : DirectoryHistory) (direction : Direction)
    (host : W) : Bool × DirectoryHistory × W :=
  let h := h.prepared
  let target := h.neighbour direction
  if target = h.position then (false, h, host)
  else
    match h.dirs[target]? with
    | none => (false, h, host)
    | some dir =>
      match WorkingDirectory.change host dir with
      | (false, host) => (false, h, host)
      | (true, host) => (true, ⟨h.dirs, target, dir⟩, host)

end DirectoryHistory

end LineEdit
