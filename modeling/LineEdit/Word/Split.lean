import LineEdit.Word

/-!
# Splitting a line into words

The first word names the program: it runs to the first blank or, when the line opens with a
quote, through the next quote, and knows no escapes. The words after it are arguments, separated by
blanks that stand outside quotes. Inside an argument `n` backslashes before a quote stand for
`n / 2` backslashes, and an odd one left over makes the quote literal. Other quotes are counted:
the third in a row is literal, and a count of two closes what the first one opened.
-/
namespace LineEdit.Word

def isBlank (c : Char) : Bool := c = ' ' || c = '\t'

/-- The first word of a line and the characters after it. A quote that is not closed takes the whole
line, and a backslash is a character like others. -/
def readProgram : List Char → Word × List Char
  | '"' :: cs =>
    let inside := cs.takeWhile (· ≠ '"')
    match cs.dropWhile (· ≠ '"') with
    | [] => (ofChars 0 ('"' :: inside) inside, [])
    | close :: rest => (ofChars 0 ('"' :: inside ++ [close]) inside, rest)
  | cs =>
    let name := cs.takeWhile (!isBlank ·)
    (ofChars 0 name name, cs.dropWhile (!isBlank ·))

/-- An argument of which some characters are read, with both texts newest character first. It counts
the quotes since the last literal one, of which a second may still be followed by a third, and the
backslashes directly before the next character. -/
structure Argument where
  start : Nat
  written : List Char
  resolved : List Char
  quotes : Nat
  backslashes : Nat

namespace Argument

def begin (start : Nat) : Argument := ⟨start, [], [], 0, 0⟩

def quoted (a : Argument) : Bool := a.quotes = 1

/-- A quote: it halves the backslashes before it, and is literal when their number was odd. -/
def pushQuote (a : Argument) : Argument :=
  let kept := a.resolved.drop ((a.backslashes + 1) / 2)
  let written := '"' :: a.written
  if a.backslashes % 2 = 1 then ⟨a.start, written, '"' :: kept, a.quotes, 0⟩
  else if a.quotes = 2 then ⟨a.start, written, '"' :: kept, 0, 0⟩
  else ⟨a.start, written, kept, a.quotes + 1, 0⟩

def push (a : Argument) (c : Char) : Argument :=
  if c = '"' then a.pushQuote
  else
    let quotes := if a.quoted then 1 else 0
    let backslashes := if c = '\\' then a.backslashes + 1 else 0
    ⟨a.start, c :: a.written, c :: a.resolved, quotes, backslashes⟩

def endsAt (a : Argument) (c : Char) : Bool := isBlank c && !a.quoted

def word (a : Argument) : Word := ofChars a.start a.written.reverse a.resolved.reverse

end Argument

/-- The words of the characters from offset `pos` on. Without an argument under way, `blank` tells
whether a blank precedes `pos`; a line that ends there ends in an empty word. -/
def readArguments (pos : Nat) (blank : Bool) : Option Argument → List Char → List Word
  | none, [] => if blank then [emptyAt pos] else []
  | some a, [] => [a.word]
  | none, c :: cs =>
    if isBlank c then readArguments (pos + 1) true none cs
    else readArguments (pos + 1) false (some ((Argument.begin pos).push c)) cs
  | some a, c :: cs =>
    if a.endsAt c then a.word :: readArguments (pos + 1) true none cs
    else readArguments (pos + 1) false (some (a.push c)) cs

def attaches (a b : Word) : Bool := b.written.toList.head? = some '\\' && a.stop = b.start

/-- The words `a :: ws`, where a word that begins with a backslash directly behind the word before
it is joined to it. Only the word behind a quoted program can stand so. -/
def joinAttached (a : Word) : List Word → List Word
  | [] => [a]
  | b :: ws => if attaches a b then joinAttached (a.join b) ws else a :: joinAttached b ws

def splitChars (line : List Char) : List Word :=
  let (program, rest) := readProgram line
  joinAttached program (readArguments program.stop false none rest)

/-- The words of a line. A line without characters has one empty word. -/
def split (line : String) : List Word := splitChars line.toList

end LineEdit.Word
