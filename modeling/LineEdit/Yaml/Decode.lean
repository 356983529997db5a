import LineEdit.Yaml.Node

/-!
# Values of nodes

What a reader that knows which kind of value it wants makes of a node. A node that is left out is
an empty sequence or an empty mapping where one is wanted, and every scalar is a text.
-/
namespace LineEdit.Yaml

def digitsValue? (base value : Nat) : List Char → Option Nat
  | [] => some value
  | c :: cs =>
    match hexDigit? c with
    | some d => if d < base then digitsValue? base (base * value + d) cs else none
    | none => none

def natural? (base : Nat) (cs : List Char) : Option Nat :=
  if cs.isEmpty then none else digitsValue? base 0 cs

/-- The number that a plain scalar writes: in base ten, where only zero itself begins with a zero,
or in base sixteen, eight or two after a mark that says so. A plus may come first. -/
def unsigned? (text : String) : Option Nat :=
  let cs := text.toList
  let cs := if cs.head? = some '+' then cs.tail else cs
  match cs with
  | '0' :: 'x' :: digits => natural? 16 digits
  | '0' :: 'o' :: digits => natural? 8 digits
  | '0' :: 'b' :: digits => natural? 2 digits
  | ['0'] => some 0
  | '0' :: _ => none
  | cs => natural? 10 cs

namespace Node

def text? : Node → Option String
  | scalar text _ _ => some text
  | _ => none

def items? : Node → Option (List Node)
  | sequence items => some items
  | scalar "" true _ => some []
  | _ => none

/-- The entries of a mapping, all keys of which are texts. They keep their order, and a key may be
there twice. -/
def fields? : Node → Option (List (String × Node))
  | mapping entries => entries.mapM fun (key, value) => key.text?.map (·, value)
  | scalar "" true _ => some []
  | _ => none

def bool? : Node → Option Bool
  | scalar text true _ =>
    if ["true", "True", "TRUE"].contains text then some true
    else if ["false", "False", "FALSE"].contains text then some false
    else none
  | _ => none

def nat? (limit : Nat) : Node → Option Nat
  | scalar text true _ => (unsigned? text).filter (· ≤ limit)
  | _ => none

def char? (n : Node) : Option Char :=
  match n.text?.map (·.toList) with
  | some [c] => some c
  | _ => none

end Node

/-- The value of a field read by `read`, or `absent` when the field is not there. A field that is
there twice, or that cannot be read, is a failure. -/
def field {A : Type} (fields : List (String × Node)) (name : String) (read : Node → Option A)
    (absent : Option A) : Option A :=
  match fields.filter (·.1 = name) with
  | [] => absent
  | [(_, value)] => read value
  | _ => none

end LineEdit.Yaml
