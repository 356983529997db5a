import LineEdit.Yaml.Token

/-!
# Nodes

What a document says, apart from how it is written: scalars, sequences of nodes, and mappings from
nodes to nodes. Where a node may be left out, a plain scalar without characters stands for it.
-/
namespace LineEdit.Yaml

inductive Node where
  | scalar (text : String) (plain : Bool) (tag : Option String)
  | sequence (items : List Node)
  | mapping (entries : List (Node × Node))

namespace Node

/-- The node that is left out. -/
def absent (tag : Option String) : Node := scalar "" true tag

def splitTag : List Token → Option String × List Token
  | .tag name :: ts => (some name, ts)
  | ts => (none, ts)

def expect (t : Token) : List Token → Option (List Token)
  | [] => none
  | u :: ts => if u = t then some ts else none

def startsWithAny (stops : List Token) : List Token → Bool
  | [] => true
  | t :: _ => stops.contains t

mutual

/-- Reads a node from the tokens, nested at most `fuel` deep. Collections that are written by
indentation may stand where `block` is set, and a sequence without indentation where `flat` is. A
tag with nothing behind it tags the node that is left out. -/
def parse (fuel : Nat) (block flat : Bool) (ts : List Token) : Option (Node × List Token) :=
  match fuel with
  | 0 => none
  | fuel + 1 =>
    let (tag, ts) := splitTag ts
    match ts with
    | .scalar text plain :: ts => some (.scalar text plain tag, ts)
    | .flowSequenceStart :: ts => do
      let (items, ts) ← parseFlowItems fuel true ts
      return (.sequence items, ts)
    | .flowMappingStart :: ts => do
      let (entries, ts) ← parseFlowEntries fuel true ts
      return (.mapping entries, ts)
    | .blockEntry :: _ =>
      if flat then do
        let (items, ts) ← parseFlatItems fuel ts
        return (.sequence items, ts)
      else if tag.isSome then some (absent tag, ts)
      else none
    | .blockSequenceStart :: rest =>
      if block then do
        let (items, ts) ← parseItems fuel rest
        return (.sequence items, ts)
      else if tag.isSome then some (absent tag, ts)
      else none
    | .blockMappingStart :: rest =>
      if block then do
        let (entries, ts) ← parseEntries fuel rest
        return (.mapping entries, ts)
      else if tag.isSome then some (absent tag, ts)
      else none
    | ts => if tag.isSome then some (absent tag, ts) else none

def parseUnless (fuel : Nat) (stops : List Token) (block flat : Bool) (ts : List Token) :
    Option (Node × List Token) :=
  match fuel with
  | 0 => none
  | fuel + 1 =>
    if startsWithAny stops ts then some (absent none, ts) else parse fuel block flat ts

/-- The items of an indented sequence, up to its end. The functions below read the other collections
in the same way: each reads one item and then the rest with less fuel. -/
def parseItems (fuel : Nat) (ts : List Token) : Option (List Node × List Token) :=
  match fuel with
  | 0 => none
  | fuel + 1 =>
    match ts with
    | .blockEnd :: ts => some ([], ts)
    | .blockEntry :: ts => do
      let (item, ts) ← parseUnless fuel [.blockEntry, .blockEnd] true false ts
      let (items, ts) ← parseItems fuel ts
      return (item :: items, ts)
    | _ => none

def parseFlatItems (fuel : Nat) (ts : List Token) : Option (List Node × List Token) :=
  match fuel with
  | 0 => none
  | fuel + 1 =>
    match ts with
    | .blockEntry :: ts => do
      let (item, ts) ← parseUnless fuel [.blockEntry, .key, .value, .blockEnd] true false ts
      let (items, ts) ← parseFlatItems fuel ts
      return (item :: items, ts)
    | ts => some ([], ts)

def parseEntries (fuel : Nat) (ts : List Token) : Option (List (Node × Node) × List Token) :=
  match fuel with
  | 0 => none
  | fuel + 1 =>
    match ts with
    | .blockEnd :: ts => some ([], ts)
    | .key :: ts => do
      let stops : List Token := [.key, .value, .blockEnd]
      let (key, ts) ← parseUnless fuel stops true true ts
      let (value, ts) ← match ts with
        | .value :: ts => parseUnless fuel stops true true ts
        | ts => some (absent none, ts)
      let (entries, ts) ← parseEntries fuel ts
      return ((key, value) :: entries, ts)
    | _ => none

/-- The items of a sequence in brackets, up to the bracket that closes it. Unless the item is the
first, a comma has to come before it. An item may be a single entry of a mapping. -/
def parseFlowItems (fuel : Nat) (first : Bool) (ts : List Token) :
    Option (List Node × List Token) :=
  match fuel with
  | 0 => none
  | fuel + 1 =>
    match ts with
    | .flowSequenceEnd :: ts => some ([], ts)
    | ts => do
      let ts ← if first then some ts else expect .flowEntry ts
      match ts with
      | .flowSequenceEnd :: ts => some ([], ts)
      | .key :: ts =>
        let stops : List Token := [.value, .flowEntry, .flowSequenceEnd]
        let (key, ts) ←
          if startsWithAny stops ts then some (absent none, ts.drop 1)
          else parse fuel false false ts
        let (value, ts) ← match ts with
          | .value :: ts => parseUnless fuel [.flowEntry, .flowSequenceEnd] false false ts
          | ts => some (absent none, ts)
        let (items, ts) ← parseFlowItems fuel false ts
        return (.mapping [(key, value)] :: items, ts)
      | ts =>
        let (item, ts) ← parse fuel false false ts
        let (items, ts) ← parseFlowItems fuel false ts
        return (item :: items, ts)

/-- The entries of a mapping in brackets, up to the bracket that closes it. Unless the entry is the
first, a comma has to come before it. An entry without a colon has no value. -/
def parseFlowEntries (fuel : Nat) (first : Bool) (ts : List Token) :
    Option (List (Node × Node) × List Token) :=
  match fuel with
  | 0 => none
  | fuel + 1 =>
    match ts with
    | .flowMappingEnd :: ts => some ([], ts)
    | ts => do
      let ts ← if first then some ts else expect .flowEntry ts
      match ts with
      | .flowMappingEnd :: ts => some ([], ts)
      | .key :: ts =>
        let (key, ts) ← parseUnless fuel [.value, .flowEntry, .flowMappingEnd] false false ts
        let (value, ts) ← match ts with
          | .value :: ts => parseUnless fuel [.flowEntry, .flowMappingEnd] false false ts
          | ts => some (absent none, ts)
        let (entries, ts) ← parseFlowEntries fuel false ts
        return ((key, value) :: entries, ts)
      | ts =>
        let (key, ts) ← parse fuel false false ts
        let (entries, ts) ← parseFlowEntries fuel false ts
        return ((key, absent none) :: entries, ts)

end

def isFinished (ts : List Token) : Bool := ts.all (· = .documentEnd)

/-- The node of a text that is one document at most, none when the text is malformed or holds more.
A text without tokens is the node that is left out. -/
def ofText? (text : String) : Option Node := do
  let ts ← tokens? text
  let fuel := 2 * ts.length + 2
  match ts with
  | [] => some (absent none)
  | .documentStart :: ts =>
    let (node, ts) ← parseUnless fuel [.documentStart, .documentEnd] true false ts
    if isFinished ts then some node else none
  | ts =>
    let (node, ts) ← parse fuel true false ts
    if isFinished ts then some node else none

end Node

end LineEdit.Yaml
