import LineEdit.Text.Lowercase.Table

/-!
# Lower case

Every character has its own lower case, which is two characters long for a capital i with a dot.
Only the capital sigma looks at its neighbours: it has another lower case at the end of a word.
-/
namespace LineEdit.Text

namespace Lowercase

def inRanges (ranges : List (Nat × Nat)) (c : Char) : Bool :=
  ranges.any fun range => range.1 ≤ c.toNat && c.toNat ≤ range.2

def Run.covers (run : Run) (n : Nat) : Bool :=
  run.first ≤ n && n ≤ run.last && (n - run.first) % run.step = 0

/-- The lower case of a character by itself. One that no run covers is its own lower case. -/
def ofChar (c : Char) : List Char :=
  if c = 'İ' then ['i', '\u0307']
  else
    match runs.find? (·.covers c.toNat) with
    | some run => [Char.ofNat (Int.toNat (c.toNat + run.shift))]
    | none => [c]

def meetsCased (cs : List Char) : Bool :=
  match cs.dropWhile (inRanges ignoredRanges) with
  | [] => false
  | c :: _ => inRanges casedRanges c

/-- The lower case of the characters that follow `before`, which has the nearest one first. A
capital sigma gets the lower case of the end of a word when the nearest character before it that is
not passed over has case, and the nearest one after it has not. -/
def ofCharsAfter (before : List Char) : List Char → List Char
  | [] => []
  | c :: cs =>
    let lowered :=
      if c = 'Σ' then [if meetsCased before && !meetsCased cs then 'ς' else 'σ'] else ofChar c
    lowered ++ ofCharsAfter (c :: before) cs

end Lowercase

def lowercase (s : String) : String := String.ofList (Lowercase.ofCharsAfter [] s.toList)

end LineEdit.Text
