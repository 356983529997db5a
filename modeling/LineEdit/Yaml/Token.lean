import LineEdit.Yaml.Scalar

/-!
# Tokens

A document is a sequence of tokens, some of which no character stands for: the collections that are
written by indentation begin and end where the columns of the lines tell. What stands before a colon
turns out to be a key only at the colon, so every place where a key may have begun is remembered
until then.
-/
namespace LineEdit.Yaml

inductive Token where
  | documentStart
  | documentEnd
  | blockSequenceStart
  | blockMappingStart
  | blockEnd
  | flowSequenceStart
  | flowSequenceEnd
  | flowMappingStart
  | flowMappingEnd
  | blockEntry
  | flowEntry
  | key
  | value
  | tag (name : String)
  | scalar (text : String) (plain : Bool)
deriving DecidableEq, Repr

/-- A place where a key may have begun, before the token at `position`. Where one is required,
nothing but a key can stand. -/
structure Candidate where
  position : Nat
  line : Nat
  column : Nat
  index : Nat
  required : Bool
deriving DecidableEq, Repr

/-- A document of which some tokens are read. The columns of the open collections that are written
by indentation are kept innermost first, and so are the candidates at the depths of brackets around
the one where reading goes on. -/
structure Scan where
  tokens : List Token
  indents : List Nat
  candidate : Option Candidate
  outer : List (Option Candidate)
  keyAllowed : Bool
deriving DecidableEq, Repr

namespace Scan

def begin : Scan := ⟨[], [], none, [], true⟩

def bracketed (s : Scan) : Bool := !s.outer.isEmpty

def push (s : Scan) (t : Token) : Scan := { s with tokens := s.tokens ++ [t] }

/-- Gives up the key that may have begun, unless there has to be one. Only one key may have begun at
a time at each depth. -/
def dropCandidate (s : Scan) : Option Scan :=
  if s.candidate.any (·.required) then none else some { s with candidate := none }

def markCandidate (s : Scan) (p : Placed) : Option Scan :=
  if s.keyAllowed then do
    let s ← s.dropCandidate
    let required := !s.bracketed && s.indents.head? = some p.column
    return { s with candidate := some ⟨s.tokens.length, p.line, p.column, p.index, required⟩ }
  else some s

/-- Closes the collections that are indented further than `column`. Inside brackets columns do not
matter. -/
def closeBeyond (s : Scan) (column : Nat) : Scan :=
  if s.bracketed then s
  else
    let closed := s.indents.takeWhile (column < ·)
    { s with
      tokens := s.tokens ++ closed.map fun _ => .blockEnd
      indents := s.indents.drop closed.length }

def closeAll (s : Scan) : Scan :=
  { s with tokens := s.tokens ++ s.indents.map (fun _ => .blockEnd), indents := [] }

/-- Opens a collection at `column`, with its token at the given position, unless one is open there
already. -/
def openAt (s : Scan) (column position : Nat) (t : Token) : Scan :=
  if s.bracketed || s.indents.head?.any (column ≤ ·) then s
  else
    { s with
      tokens := s.tokens.take position ++ t :: s.tokens.drop position
      indents := column :: s.indents }

def marker (s : Scan) (t : Token) : Option Scan := do
  let s ← s.closeAll.dropCandidate
  return { s.push t with keyAllowed := false }

def openBracket (s : Scan) (p : Placed) (t : Token) : Option Scan := do
  let s ← s.markCandidate p
  return { s.push t with candidate := none, outer := s.candidate :: s.outer, keyAllowed := true }

def closeBracket (s : Scan) (t : Token) : Option Scan := do
  let s ← s.dropCandidate
  let s := match s.outer with
    | [] => s
    | candidate :: outer => { s with candidate, outer }
  return { s.push t with keyAllowed := false }

def comma (s : Scan) : Option Scan := do
  let s ← s.dropCandidate
  return { s.push .flowEntry with keyAllowed := true }

/-- The dash before an item, which begins a sequence if it is the first. A question mark begins a
mapping in the same way. -/
def dash (s : Scan) (p : Placed) : Option Scan := do
  if !s.bracketed && !s.keyAllowed then none
  let s ← (s.openAt p.column s.tokens.length .blockSequenceStart).dropCandidate
  return { s.push .blockEntry with keyAllowed := true }

def questionMark (s : Scan) (p : Placed) : Option Scan := do
  if !s.bracketed && !s.keyAllowed then none
  let s ← (s.openAt p.column s.tokens.length .blockMappingStart).dropCandidate
  return { s.push .key with keyAllowed := !s.bracketed }

/-- Whether a key that began there can end here: on the same line, and not too far away. -/
def Candidate.reaches (c : Candidate) (p : Placed) : Bool :=
  c.line = p.line && p.index ≤ c.index + 1024

/-- The colon before a value. What a key may have begun with becomes one. -/
def colon (s : Scan) (p : Placed) : Option Scan :=
  match s.candidate with
  | some c =>
    if Candidate.reaches c p then
      let s := { s with
        tokens := s.tokens.take c.position ++ Token.key :: s.tokens.drop c.position
        candidate := none }
      let s := s.openAt c.column c.position .blockMappingStart
      some { s.push .value with keyAllowed := false }
    else if c.required then none
    else alone { s with candidate := none }
  | none => alone s
where
  alone (s : Scan) : Option Scan :=
    if s.bracketed then some { s.push .value with keyAllowed := false }
    else if s.keyAllowed then
      let s := s.openAt p.column s.tokens.length .blockMappingStart
      some { s.push .value with keyAllowed := true }
    else none

def single (s : Scan) (p : Placed) (t : Token) (keyAllowed : Bool) : Option Scan := do
  let s ← s.markCandidate p
  return { s.push t with keyAllowed }

end Scan

def isTagChar (c : Char) : Bool :=
  c.isAlphanum || "-_;/?:@&=+$.!~*'()".toList.contains c

/-- Whether what follows the exclamation mark of a tag names the tag: a second exclamation mark ends
a handle, and only the empty handle is known. -/
def isTagName (name : List Char) : Bool :=
  let handle := name.takeWhile fun c => c.isAlphanum || c = '-' || c = '_'
  match name.drop handle.length with
  | '!' :: suffix => handle.isEmpty && !suffix.isEmpty
  | _ => true

def readTag (bracketed : Bool) (ps : Source) : Option (String × Source) :=
  let name := (ps.takeWhile fun p => isTagChar p.char).map (·.char)
  let rest := ps.dropWhile fun p => isTagChar p.char
  if isTagName name && (endsWord rest || (bracketed && rest.head?.any (·.char = ','))) then
    some (String.ofList ('!' :: name), rest)
  else none

/-- Characters that no token begins with, and those that begin something that is not read here, such
as anchors, directives and scalars in blocks. -/
def startsNoToken (c : Char) : Bool :=
  isSpace c || "&*|>%@".toList.contains c || c = Char.ofNat 0x60

def Scan.token (s : Scan) (p : Placed) (ps : Source) : Option (Scan × Source) := do
  let s := s.closeBeyond p.column
  if startsMarker (p :: ps) then
    return (← s.marker (if p.char = '-' then .documentStart else .documentEnd), ps.drop 2)
  match p.char with
  | '[' => return (← s.openBracket p .flowSequenceStart, ps)
  | '{' => return (← s.openBracket p .flowMappingStart, ps)
  | ']' => return (← s.closeBracket .flowSequenceEnd, ps)
  | '}' => return (← s.closeBracket .flowMappingEnd, ps)
  | ',' => return (← s.comma, ps)
  | '\'' =>
    let (text, rest) ← readSingleQuoted [] .nothing ps
    return (← s.single p (.scalar (String.ofList text) false) false, rest)
  | '"' =>
    let (text, rest) ← readDoubleQuoted [] .nothing .outside ps
    return (← s.single p (.scalar (String.ofList text) false) false, rest)
  | '!' =>
    let (name, rest) ← readTag s.bracketed ps
    return (← s.single p (.tag name) false, rest)
  | c =>
    if c = '-' && endsWord ps then return (← s.dash p, ps)
    if c = '?' && (s.bracketed || endsWord ps) then return (← s.questionMark p, ps)
    if c = ':' && (s.bracketed || endsWord ps) then return (← s.colon p, ps)
    if startsNoToken c then none
    let indent := (s.indents.head?.map (· + 1)).getD 0
    let (text, onNewLine, rest) ← readPlain s.bracketed indent [] .nothing (p :: ps)
    return (← s.single p (.scalar (String.ofList text) true) onNewLine, rest)

/-- Reads the tokens of the source, at most `fuel` of them. Every token takes a character, so that
the length of the source is enough. -/
def Scan.run (fuel : Nat) (s : Scan) (ps : Source) : Option (List Token) :=
  let (ps, keyAllowed) := skipToToken s.bracketed s.keyAllowed false ps
  let s := { s with keyAllowed }
  match ps, fuel with
  | [], _ => s.closeAll.dropCandidate.map (·.tokens)
  | _, 0 => none
  | p :: ps, fuel + 1 =>
    match s.token p ps with
    | none => none
    | some (s, ps) => s.run fuel ps

/-- The tokens of a document, none when it is malformed. -/
def tokens? (text : String) : Option (List Token) := do
  let ps ← source? text
  Scan.begin.run ps.length ps

end LineEdit.Yaml
