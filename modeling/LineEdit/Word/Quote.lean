/-!
# Writing a word so that it reads back

A word is quoted only when it has to be. Inside quotes a backslash is an escape only before a
quote, so backslashes are doubled exactly where a quote follows them.
-/
namespace LineEdit.Word

def needsQuotes (c : Char) : Bool :=
  c = ' ' || c = '\t' || c = '\n' || c = '\x0b' || c = '"'

/-- The inside of a quoted word, after `backslashes` backslashes that are still to be written. How
they are written is known only at the next character that is none: they are doubled before a quote,
also before the one that closes the word. -/
def escape (backslashes : Nat) : List Char → List Char
  | [] => List.replicate (2 * backslashes) '\\'
  | c :: cs =>
    if c = '\\' then escape (backslashes + 1) cs
    else if c = '"' then List.replicate (2 * backslashes + 1) '\\' ++ c :: escape 0 cs
    else List.replicate backslashes '\\' ++ c :: escape 0 cs

/-- The characters that stand on a line for a word. The empty word is quoted too, as nothing would
stand for it otherwise. -/
def quoteChars (word : List Char) : List Char :=
  if word ≠ [] ∧ word.all (!needsQuotes ·) then word
  else '"' :: escape 0 word ++ ['"']

def quote (word : String) : String := String.ofList (quoteChars word.toList)

end LineEdit.Word
