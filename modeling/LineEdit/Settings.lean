import LineEdit.Action
import LineEdit.Text.Substitute

/-!
# Settings

What a user can choose about the editor. Some choices would leave it unusable, and `validate` tells
which.
-/
namespace LineEdit

structure Settings where
  /-- What follows every command that is handed to the host. -/
  lineTerminator : String
  wordDelimiters : String
  pathDelimiters : String
  exitCommand : String
  parentDirectoryCommand : String
  /-- The question before several lines are pasted, with `linesPlace` where their number goes. -/
  pasteConfirmation : String
  maxHistoryEntries : Nat
  bindings : List Binding
deriving DecidableEq, Repr

inductive SettingsError where
  | emptyLineTerminator
  | emptyWordDelimiters
  | noHistoryEntries
deriving DecidableEq, Repr

namespace SettingsError

def field : SettingsError → String
  | emptyLineTerminator => "line_terminator"
  | emptyWordDelimiters => "word_delimiters"
  | noHistoryEntries => "max_history_entries"

def reason : SettingsError → String
  | emptyLineTerminator | emptyWordDelimiters => "must not be empty"
  | noHistoryEntries => "must be greater than 0"

def message (e : SettingsError) : String :=
  "Invalid value for '" ++ e.field ++ "': " ++ e.reason

end SettingsError

namespace Settings

/-- The place for the number of lines in the question before a paste. -/
def linesPlace : String := "\x7blines\x7d"

/-- The settings of a user who chose nothing, which have no fault. -/
def default : Settings where
  lineTerminator := "\r\n"
  wordDelimiters := " "
  pathDelimiters := " \\/"
  exitCommand := "exit"
  parentDirectoryCommand := "cd.."
  pasteConfirmation :=
    "Paste " ++ linesPlace ++ "? Press Ctrl-V again to confirm, any other key to cancel."
  maxHistoryEntries := 1000
  bindings := []

def fault? (s : Settings) : Option SettingsError :=
  if s.lineTerminator.isEmpty then some .emptyLineTerminator
  else if s.wordDelimiters.isEmpty then some .emptyWordDelimiters
  else if s.maxHistoryEntries = 0 then some .noHistoryEntries
  else none

def pastePrompt (s : Settings) (lines : Nat) : String :=
  let counted := if lines = 1 then "1 line" else toString lines ++ " lines"
  Text.substitute linesPlace counted s.pasteConfirmation

/-- The command as it is handed to the host, which is also how a line is once it is finished. -/
def terminated (s : Settings) (command : String) : String := command ++ s.lineTerminator

end Settings

end LineEdit
