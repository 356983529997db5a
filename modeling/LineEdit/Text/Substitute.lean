/-!
# Substitution

Every occurrence of a piece of text replaced by another. Occurrences are looked for from the left
and do not overlap.
-/
namespace LineEdit.Text

/-- The characters with each occurrence of `old` replaced by `new`, where the first `skip`
characters belong to an occurrence that is replaced already. That `old` is not empty is up to the
caller. -/
def substituteFrom (old new : List Char) (skip : Nat) : List Char → List Char
  | [] => []
  | c :: cs =>
    match skip with
    | skip + 1 => substituteFrom old new skip cs
    | 0 =>
      if old.isPrefixOf (c :: cs) then new ++ substituteFrom old new (old.length - 1) cs
      else c :: substituteFrom old new 0 cs

def substitute (old new s : String) : String :=
  String.ofList (substituteFrom old.toList new.toList 0 s.toList)

end LineEdit.Text
