import LineEdit.File
import LineEdit.Settings
import LineEdit.Text.Whitespace
import LineEdit.Yaml.Decode

/-!
# Settings in a file

Settings are written as a YAML mapping from their names to their values. A setting that is not
there keeps its default, and a name that is no setting's does not matter.
-/
namespace LineEdit

open Yaml

/-- A key is written by its name, and one without a name under a tag for its kind. -/
def Key.ofNode? : Node → Option Key
  | n@(.scalar _ _ (some "!Char")) => n.char?.map .char
  | n@(.scalar _ _ (some "!Other")) => (n.nat? 65535).map fun code => .other (UInt16.ofNat code)
  | .scalar name _ none => Key.ofName? name
  | _ => none

def Chord.ofNode? (n : Node) : Option Chord := do
  let fields ← n.fields?
  return {
    key := ← field fields "key" Key.ofNode? none
    ctrl := ← field fields "ctrl" Node.bool? (some false)
    alt := ← field fields "alt" Node.bool? (some false)
    shift := ← field fields "shift" Node.bool? (some false) }

def Action.ofNode? (n : Node) : Option Action := n.text?.bind Action.ofName?

def Binding.ofNode? (n : Node) : Option Binding := do
  let fields ← n.fields?
  return {
    chord := ← field fields "chord" Chord.ofNode? none
    action := ← field fields "action" Action.ofNode? none }

inductive SettingsFailure where
  | notFound (path : String)
  | unreadable
  | malformed
  | invalid (e : SettingsError)
deriving DecidableEq, Repr

namespace Settings

/-- The settings of a node, none when it holds something else. Each setting has its own default, so
that a mapping of some of them is enough. -/
def ofNode? (n : Node) : Option Settings := do
  let fields ← n.fields?
  let text := fun (name : String) (absent : String) => field fields name Node.text? (some absent)
  return {
    lineTerminator := ← text "line_terminator" default.lineTerminator
    wordDelimiters := ← text "word_delimiters" default.wordDelimiters
    pathDelimiters := ← text "path_delimiters" default.pathDelimiters
    exitCommand := ← text "exit_command" default.exitCommand
    parentDirectoryCommand := ← text "parent_directory_command" default.parentDirectoryCommand
    pasteConfirmation := ← text "paste_confirmation" default.pasteConfirmation
    maxHistoryEntries := ← field fields "max_history_entries" (Node.nat? 0xffffffffffffffff)
      (some default.maxHistoryEntries)
    bindings := ← field fields "bindings" (fun n => do (← n.items?).mapM Binding.ofNode?)
      (some []) }

/-- The settings that a text holds, if they are of use. A text of white space holds the defaults,
and what cannot be read is told from what can be read but is refused. -/
def ofText (text : String) : Except SettingsFailure Settings :=
  let settings :=
    if text.toList.all Text.isWhitespace then some default else (Node.ofText? text).bind ofNode?
  match settings with
  | none => .error .malformed
  | some s =>
    match s.fault? with
    | some e => .error (.invalid e)
    | none => .ok s

def load (path : String) (file : File) : Except SettingsFailure Settings :=
  match file.readText with
  | .ok text => ofText text
  | .error .notFound => .error (.notFound path)
  | .error .unreadable => .error .unreadable

def notFoundMessage (path : String) : String := "Config file not found: " ++ path

end Settings

end LineEdit
