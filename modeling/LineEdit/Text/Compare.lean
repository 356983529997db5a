/-!
# Comparing texts
-/
namespace LineEdit.Text

def startsWith (s stem : String) : Bool := stem.toList.isPrefixOf s.toList

/-- Whether two texts differ at most in the case of the letters from `a` to `z`. -/
def sameIgnoringAsciiCase (s t : String) : Bool :=
  s.toList.map Char.toLower = t.toList.map Char.toLower

end LineEdit.Text
