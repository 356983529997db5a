/-!
# Characters in their places

In a YAML document the meaning of a character depends on where it stands, so that a document is
read as a list of characters with their places. Every end of a line is one character there.
-/
namespace LineEdit.Yaml

/-- A character and where it stands in its document. The index counts all characters before it, and
a line end of two characters counts twice there. -/
structure Placed where
  char : Char
  line : Nat
  column : Nat
  index : Nat
deriving DecidableEq, Repr

abbrev Source := List Placed

def isAllowed (c : Char) : Bool :=
  let n := c.toNat
  n = 0x09 || n = 0x0a || n = 0x0d || (0x20 ≤ n && n ≤ 0x7e) || n = 0x85
    || (0xa0 ≤ n && n ≤ 0xfffd) || 0x10000 ≤ n

def isBreak (c : Char) : Bool :=
  c = '\n' || c = '\r' || c = '\u0085' || c = '\u2028' || c = '\u2029'

/-- The byte order mark. It may begin a line between tokens, where it fills the first column. -/
def byteOrderMark : Char := '\ufeff'

def isSpace (c : Char) : Bool := c = ' ' || c = '\t'

/-- The characters in their places from the given one on. Line ends become line feeds, except for
the two that separate lines and paragraphs by name. -/
def placeFrom (line column index : Nat) : List Char → Source
  | [] => []
  | '\r' :: '\n' :: cs => ⟨'\n', line, column, index⟩ :: placeFrom (line + 1) 0 (index + 2) cs
  | c :: cs =>
    if isBreak c then
      let kept := if c = '\u2028' || c = '\u2029' then c else '\n'
      ⟨kept, line, column, index⟩ :: placeFrom (line + 1) 0 (index + 1) cs
    else ⟨c, line, column, index⟩ :: placeFrom line (column + 1) (index + 1) cs

def source? (text : String) : Option Source :=
  if text.toList.all isAllowed then some (placeFrom 0 0 0 text.toList) else none

def endsWord : Source → Bool
  | [] => true
  | p :: _ => isSpace p.char || isBreak p.char

/-- Whether a line starts here with the mark that begins or ends a document. The mark has to be a
word by itself. -/
def startsMarker : Source → Bool
  | p :: q :: r :: ps =>
    p.column = 0 && (p.char = '-' || p.char = '.') && q.char = p.char && r.char = p.char
      && endsWord ps
  | _ => false

/-- The source from the next token on, and whether a key may begin there. White space, comments and
the byte order marks that begin lines are passed over. Outside of brackets a key may begin on every
new line, and a tab is no white space where one may. -/
def skipToToken (bracketed keyAllowed comment : Bool) : Source → Source × Bool
  | [] => ([], keyAllowed)
  | p :: ps =>
    if isBreak p.char then skipToToken bracketed (keyAllowed || !bracketed) false ps
    else if comment then skipToToken bracketed keyAllowed true ps
    else if p.char = byteOrderMark && p.column = 0 then skipToToken bracketed keyAllowed false ps
    else if p.char = ' ' || (p.char = '\t' && (bracketed || !keyAllowed)) then
      skipToToken bracketed keyAllowed false ps
    else if p.char = '#' then skipToToken bracketed keyAllowed true ps
    else (p :: ps, keyAllowed)

end LineEdit.Yaml
