import LineEdit.Completion.Query
import LineEdit.Completion.Vocabulary
import LineEdit.Text.Compare
import LineEdit.Text.Lowercase

/-!
# Completers

A completer looks at a query and offers candidates for the word in it, or declines. Any function
of the query may serve as one; the completers here offer the words of a list that begin with what
is typed already, under some condition on the query.
-/
namespace LineEdit

structure Offer where
  candidates : List String
  trailingSpace : Bool
deriving DecidableEq, Repr

structure Completer where
  name : String
  offer : Query → Option Offer

namespace Completer

def startingWith (stem : String) (words : List String) : List String :=
  words.filter fun word => Text.startsWith word stem

/-- The words that begin with `stem` when case does not matter. Stem and word are each put into
lower case on their own, which is not always what lower case makes of the stem inside the word. -/
def startingWithIgnoringCase (stem : String) (words : List String) : List String :=
  let lowered := Text.lowercase stem
  words.filter fun word => Text.startsWith (Text.lowercase word) lowered

/-- An offer of the candidates, if there are any. A completer that has none declines, and the next
one is asked. -/
def offerOf (candidates : List String) (trailingSpace : Bool) : Option Offer :=
  if candidates.isEmpty then none else some ⟨candidates, trailingSpace⟩

/-- Completes word number `index` to one of `words`, after the given command or after any. Commands
that differ in the case of ASCII letters are the same, while candidates have to match exactly. -/
def wordList (command : Option String) (index : Nat) (words : List String)
    (trailingSpace : Bool) : Completer where
  name := "prefix-list"
  offer q :=
    if q.index = index && command.all (Text.sameIgnoringAsciiCase q.command ·) then
      offerOf (startingWith q.stem words) trailingSpace
    else none

def gitCommand : Completer where
  name := "git-command"
  offer q :=
    if q.command = "git" && q.index = 1 then
      offerOf (startingWith q.stem Vocabulary.gitCommands) true
    else none

/-- Completes an option of `git checkout` once its dash is typed. -/
def gitCheckoutOption : Completer where
  name := "git-checkout-option"
  offer q :=
    if q.command = "git" && q.word? 1 = some "checkout" && q.index = 2
        && Text.startsWith q.stem "-" then
      offerOf (startingWith q.stem Vocabulary.gitCheckoutOptions) true
    else none

def shellBuiltin : Completer where
  name := "builtin-command"
  offer q :=
    if q.index = 0 then offerOf (startingWithIgnoringCase q.stem Vocabulary.shellBuiltins) true
    else none

def environmentVariable (names : List String) : Completer where
  name := "environment-variable"
  offer q :=
    if Text.sameIgnoringAsciiCase q.command "set" && q.index = 1 then
      offerOf (startingWithIgnoringCase q.stem names) false
    else none

end Completer

end LineEdit
