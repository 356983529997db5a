import LineEdit.Path

/-!
# The working directory

What the editor asks of the program around it: where it works, and to work somewhere else. A
directory that exists only in memory stands in for it where no real one is wanted.
-/
namespace LineEdit

/-- A holder of a working directory. A change may be refused, and whether it was is part of the
answer. -/
class WorkingDirectory (W : Type) where
  current : W → Path
  change : W → Path → Bool × W

structure ShellDirectory where
  here : Path
  refused : List Path
  /-- The paths that a change was asked to, in order, whether it was made or refused. -/
  requests : List Path
deriving DecidableEq, Repr

namespace ShellDirectory

def standingIn (here : Path) : ShellDirectory := ⟨here, [], []⟩

def leaveFor (d : ShellDirectory) (path : Path) : ShellDirectory := { d with here := path }

def refuse (d : ShellDirectory) (path : Path) : ShellDirectory :=
  { d with refused := d.refused ++ [path] }

/-- A change is made unless the path is the same as a refused one. -/
def request (d : ShellDirectory) (path : Path) : Bool × ShellDirectory :=
  let asked := { d with requests := d.requests ++ [path] }
  if d.refused.any fun p => decide (p.Same path) then (false, asked)
  else (true, { asked with here := path })

instance : WorkingDirectory ShellDirectory := ⟨here, request⟩

end ShellDirectory

end LineEdit
