import LineEdit.Word

/-!
# The commands of a line

A line may hold several commands, with the words `&&`, `||` and `&` between them. The text of a word
as it is written counts, so that one of these in quotes is a word like others.
-/
namespace LineEdit.Word

def isSeparator (w : Word) : Bool :=
  w.written = "&&" || w.written = "||" || w.written = "&"

def commands : List Word → List (List Word)
  | [] => [[]]
  | w :: ws =>
    if w.isSeparator then [] :: commands ws
    else
      match commands ws with
      | [] => [[w]]
      | group :: groups => (w :: group) :: groups

/-- The command that word number `index` belongs to and the word's index in it, none when the word
is a separator or does not exist. -/
def commandAt (ws : List Word) (index : Nat) : Option (List Word × Nat) :=
  match ws[index]? with
  | none => none
  | some w =>
    if w.isSeparator then none
    else
      let before := ws.take index
      let inside := before.reverse.takeWhile (!isSeparator ·)
      (commands ws)[before.countP isSeparator]?.map (·, inside.length)

end LineEdit.Word
