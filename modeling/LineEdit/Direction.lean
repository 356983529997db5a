/-!
# Directions

Both histories, and the cycle of completions, are walked in two directions.
-/
namespace LineEdit

/-- Backward leads towards older entries, forward towards newer ones. -/
inductive Direction where
  | backward
  | forward
deriving DecidableEq, Repr

def Direction.step : Direction → Int
  | .backward => -1
  | .forward => 1

end LineEdit
