import LineEdit.Yaml.Source

/-!
# Scalars

A scalar is written between single quotes, between double quotes, or plainly. In all three a single
line end inside it stands for a space, and more of them stand for all but the first; the blanks
around line ends do not count.
-/
namespace LineEdit.Yaml

/-- White space inside a scalar, which counts only when more of the scalar follows. It is either
blanks of one line or line ends: the first, unless it was escaped, and the others. Both are kept
newest first. -/
inductive Gap where
  | blanks (cs : List Char)
  | breaks (first : Option Char) (others : List Char)
deriving DecidableEq, Repr

namespace Gap

def nothing : Gap := blanks []

def push (g : Gap) (c : Char) : Gap :=
  match g with
  | blanks cs => if isBreak c then breaks (some c) [] else blanks (c :: cs)
  | breaks first others => if isBreak c then breaks first (c :: others) else g

def hasBreak : Gap → Bool
  | blanks _ => false
  | breaks .. => true

/-- What the gap stands for, newest character first. A lone line feed is folded to a space, and the
first of several is dropped; the two line ends with names of their own are kept. -/
def text : Gap → List Char
  | blanks cs => cs
  | breaks (some '\n') [] => [' ']
  | breaks (some '\n') others => others
  | breaks (some c) others => others ++ [c]
  | breaks none others => others

end Gap

/-- The rest of a scalar in single quotes, after `read`, which has the newest character first, and
the source behind it. A quote inside the scalar is written twice. -/
def readSingleQuoted (read : List Char) (gap : Gap) : Source → Option (List Char × Source)
  | [] => none
  | p :: ps =>
    if isSpace p.char || isBreak p.char then readSingleQuoted read (gap.push p.char) ps
    else if startsMarker (p :: ps) then none
    else
      let read := gap.text ++ read
      if p.char ≠ '\'' then readSingleQuoted (p.char :: read) .nothing ps
      else
        match ps with
        | [] => some (read.reverse, [])
        | q :: qs =>
          if q.char = '\'' then readSingleQuoted ('\'' :: read) .nothing qs
          else some (read.reverse, q :: qs)

def escaped? (c : Char) : Option Char :=
  [('0', '\x00'), ('a', '\x07'), ('b', '\x08'), ('t', '\t'), ('\t', '\t'), ('n', '\n'),
    ('v', '\x0b'), ('f', '\x0c'), ('r', '\r'), ('e', '\x1b'), (' ', ' '), ('"', '"'), ('/', '/'),
    ('\\', '\\'), ('N', '\u0085'), ('_', '\u00a0'), ('L', '\u2028'), ('P', '\u2029')].lookup c

def escapedDigits? (c : Char) : Option Nat := [('x', 2), ('u', 4), ('U', 8)].lookup c

def hexDigit? (c : Char) : Option Nat :=
  if c.isDigit then some (c.toNat - '0'.toNat)
  else if 'a' ≤ c && c ≤ 'f' then some (c.toNat - 'a'.toNat + 10)
  else if 'A' ≤ c && c ≤ 'F' then some (c.toNat - 'A'.toNat + 10)
  else none

/-- How far an escape in double quotes is read. While its digits are read, it is known how many are
left and the value of those before. -/
inductive Escape where
  | outside
  | begun
  | digits (left value : Nat)
deriving DecidableEq, Repr

/-- The rest of a scalar in double quotes, after `read`, which has the newest character first, and
the source behind it. A backslash begins an escape, and takes away a line end. -/
def readDoubleQuoted (read : List Char) (gap : Gap) (escape : Escape) :
    Source → Option (List Char × Source)
  | [] => none
  | p :: ps =>
    match escape with
    | .begun =>
      if isBreak p.char then readDoubleQuoted read (.breaks none []) .outside ps
      else
        match escapedDigits? p.char with
        | some n => readDoubleQuoted read .nothing (.digits n 0) ps
        | none =>
          match escaped? p.char with
          | some c => readDoubleQuoted (c :: read) .nothing .outside ps
          | none => none
    | .digits left value =>
      match hexDigit? p.char with
      | none => none
      | some d =>
        let value := 16 * value + d
        if 1 < left then readDoubleQuoted read .nothing (.digits (left - 1) value) ps
        else if value.isValidChar then
          readDoubleQuoted (Char.ofNat value :: read) .nothing .outside ps
        else none
    | .outside =>
      if isSpace p.char || isBreak p.char then
        readDoubleQuoted read (gap.push p.char) .outside ps
      else if startsMarker (p :: ps) then none
      else
        let read := gap.text ++ read
        if p.char = '"' then some (read.reverse, ps)
        else if p.char = '\\' then readDoubleQuoted read .nothing .begun ps
        else readDoubleQuoted (p.char :: read) .nothing .outside ps

def isBracket (c : Char) : Bool := c = ',' || c = '[' || c = ']' || c = '{' || c = '}'

/-- The rest of a plain scalar, after `read`, which has the newest character first, whether it ended
on a new line, and the source behind it. A colon before white space ends it, a comment does after
white space, brackets do inside of brackets, and outside of them a line that does not reach column
`indent` does. -/
def readPlain (bracketed : Bool) (indent : Nat) (read : List Char) (gap : Gap) :
    Source → Option (List Char × Bool × Source)
  | [] => some (read.reverse, gap.hasBreak, [])
  | p :: ps =>
    if isSpace p.char || isBreak p.char then
      if p.char = '\t' && gap.hasBreak && p.column < indent then none
      else readPlain bracketed indent read (gap.push p.char) ps
    else if gap ≠ .nothing
        && (p.char = '#' || (!bracketed && p.column < indent) || startsMarker (p :: ps)) then
      some (read.reverse, gap.hasBreak, p :: ps)
    else if bracketed && p.char = ':'
        && ps.head?.any (fun q => isBracket q.char || q.char = '?') then
      none
    else if (p.char = ':' && endsWord ps) || (bracketed && isBracket p.char) then
      some (read.reverse, gap.hasBreak, p :: ps)
    else readPlain bracketed indent (p.char :: (gap.text ++ read)) .nothing ps

end LineEdit.Yaml
