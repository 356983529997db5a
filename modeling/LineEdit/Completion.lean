import LineEdit.Completion.Completer
import LineEdit.Direction
import LineEdit.Word.Quote

/-!
# Completion

The first request asks the completers in order, and the first that offers candidates is taken at
its word: the word under the cursor becomes its first candidate, or its last one when the request
goes backward. Every further request puts the next candidate, or the one before, in its place.
-/
namespace LineEdit

/-- Candidates that are tried in place of a word, one after the other. Candidate number `index`
stands from offset `start` up to `stop` now, quoted as needed. -/
structure Cycle where
  start : Nat
  stop : Nat
  candidates : List String
  index : Nat
  trailingSpace : Bool
deriving DecidableEq, Repr

namespace Cycle

def text (c : Cycle) : String :=
  Word.quote ((c.candidates[c.index]?).getD "") ++ (if c.trailingSpace then " " else "")

def turn (c : Cycle) (direction : Direction) : Cycle :=
  let n := c.candidates.length
  match direction with
  | .forward => { c with index := (c.index + 1) % n }
  | .backward => { c with index := (c.index + n - 1) % n }

/-- The candidate put into the buffer in place of what stood there. The end of what the cycle stands
for moves with it, so that the next candidate replaces this one and no more. -/
def apply (c : Cycle) (b : Buffer) : Cycle × Buffer :=
  ({ c with stop := c.start + c.text.length }, b.replace c.start c.stop c.text)

end Cycle

/-- A question that was put to completers, and how many of them heard it. Lookups are kept in order
as a record of what was asked; nothing that the editor does depends on them. -/
structure Lookup where
  query : Query
  heard : Nat
deriving DecidableEq, Repr

structure Completion where
  completers : List Completer
  cycle : Option Cycle
  lookups : List Lookup

namespace Completion

def empty : Completion := ⟨[], none, []⟩

def register (c : Completion) (completer : Completer) : Completion :=
  { c with completers := c.completers ++ [completer] }

def reset (c : Completion) : Completion := { c with cycle := none }

def isActive (c : Completion) : Bool := c.cycle.isSome

/-- The first offer with candidates, and how many of the completers were asked for it. An offer
without candidates is passed over, and no completer behind the one that made the offer is asked. -/
def consult (q : Query) : List Completer → Option Offer × Nat
  | [] => (none, 0)
  | completer :: rest =>
    match completer.offer q with
    | some ⟨candidate :: candidates, trailingSpace⟩ =>
      (some ⟨candidate :: candidates, trailingSpace⟩, 1)
    | _ =>
      let (found, asked) := consult q rest
      (found, asked + 1)

def begin (q : Query) (offer : Offer) (direction : Direction) : Cycle :=
  let first := match direction with
    | .forward => 0
    | .backward => offer.candidates.length - 1
  ⟨q.current.start, q.current.stop, offer.candidates, first, offer.trailingSpace⟩

/-- Answers a request for a completion, and tells whether the buffer has one. While a cycle is under
way no completer is asked again: the cycle is turned, around its end. -/
def request (c : Completion) (direction : Direction) (b : Buffer) : Bool × Completion × Buffer :=
  match c.cycle with
  | some cycle =>
    let (cycle, b) := (cycle.turn direction).apply b
    (true, { c with cycle := some cycle }, b)
  | none =>
    match Query.ofBuffer? b with
    | none => (false, c, b)
    | some q =>
      let (found, asked) := consult q c.completers
      let c := { c with lookups := c.lookups ++ [⟨q, asked⟩] }
      match found with
      | none => (false, c, b)
      | some offer =>
        let (cycle, b) := (begin q offer direction).apply b
        (true, { c with cycle := some cycle }, b)

end Completion

end LineEdit
