import LineEdit.Direction
import LineEdit.Text.Compare

/-!
# The history of commands

The entries, oldest first, and a position among them that rests past the end until an entry is
recalled. A move goes around the entries from the position and stops at the first that begins with
the wanted stem.
-/
namespace LineEdit

/-- Earlier commands, oldest first, and the position of the one recalled last. The position may be
past the end, which is where it rests after an entry was added. -/
@[ext] structure History where
  entries : List String
  position : Nat
  position_le : position ≤ entries.length
deriving DecidableEq, Repr

namespace History

def ofEntries (entries : List String) : History := ⟨entries, entries.length, Nat.le_refl _⟩

def empty : History := ofEntries []

def add (h : History) (entry : String) : History := ofEntries (h.entries ++ [entry])

def length (h : History) : Nat := h.entries.length

/-- The index one step from index `i` of `n` entries, around the ends. The position past the end
has the last entry behind it and the first one ahead. -/
def beside (n : Nat) : Direction → Nat → Nat
  | .backward, i => if i = 0 then n - 1 else i - 1
  | .forward, i => if i + 1 < n then i + 1 else 0

/-- How many steps lead from index `i` to index `j` of `n` entries, around the ends. -/
def distance (n : Nat) : Direction → Nat → Nat → Nat
  | .backward, i, j => if j ≤ i then i - j else i + n - j
  | .forward, i, j => if i ≤ j then j - i else j + n - i

theorem beside_lt {n i : Nat} (direction : Direction) (hn : 0 < n) (hi : i ≤ n) :
    beside n direction i < n := by
  cases direction <;> simp only [beside] <;> split <;> omega

theorem distance_beside {n i j : Nat} (direction : Direction) (hi : i < n) (hj : j < n)
    (hij : i ≠ j) :
    distance n direction (beside n direction i) j + 1 = distance n direction i j := by
  cases direction <;> simp only [beside, distance] <;> split <;> split <;> split <;> omega

def matchesAt (h : History) (stem : String) (i : Nat) : Bool :=
  (h.entries[i]?).any (Text.startsWith · stem)

def moveTo (h : History) (i : Nat) : History :=
  ⟨h.entries, min i h.entries.length, Nat.min_le_right _ _⟩

/-- The first index from `i` on in the given direction whose entry begins with `stem`, none when
`stop` is reached without one. -/
def seek (h : History) (direction : Direction) (stem : String) (stop i : Fin h.entries.length) :
    Option (Fin h.entries.length) :=
  if h.matchesAt stem i then some i
  else if i = stop then none
  else
    h.seek direction stem stop
      ⟨beside h.entries.length direction i, beside_lt direction i.pos (Nat.le_of_lt i.isLt)⟩
termination_by distance h.entries.length direction i stop
decreasing_by
  have h := distance_beside direction i.isLt stop.isLt (fun h => absurd (Fin.ext h) ‹_›)
  omega

def searchStart (h : History) (some_entries : 0 < h.entries.length) (direction : Direction) :
    Fin h.entries.length :=
  ⟨beside h.entries.length direction h.position, beside_lt direction some_entries h.position_le⟩

/-- The index where a search ends: the position, or the first entry for the position past the end. A
search begins beside the position, not at it. -/
def searchEnd (h : History) (some_entries : 0 < h.entries.length) : Fin h.entries.length :=
  ⟨h.position % h.entries.length, Nat.mod_lt _ some_entries⟩

/-- Recalls the nearest entry in the given direction that begins with `stem`. A search that found
nothing leaves the position where it ended. -/
def move (h : History) (direction : Direction) (stem : String) : Option String × History :=
  if some_entries : 0 < h.entries.length then
    match h.seek direction stem (h.searchEnd some_entries) (h.searchStart some_entries direction) with
    | some i => (some h.entries[i], h.moveTo i)
    | none => (none, h.moveTo (h.searchEnd some_entries))
  else (none, h)

@[simp] theorem entries_move (h : History) (direction : Direction) (stem : String) :
    (h.move direction stem).2.entries = h.entries := by
  unfold move
  split
  · split <;> rfl
  · rfl

end History

end LineEdit
