import LineEdit.File
import LineEdit.History
import LineEdit.Settings
import LineEdit.Text.Lines

/-!
# The history in a file

A history file holds one command a line. Commands of several lines cannot be kept, and lines without
a command are none.
-/
namespace LineEdit.History

def parseEntries (text : String) : List String := (Text.lines text).filter (!·.isEmpty)

/-- The text of the last `limit` entries. Those of several lines are left out, but count. -/
def renderEntries (entries : List String) (limit : Nat) : String :=
  let kept := (entries.drop (entries.length - limit)).filter Text.isSingleLine
  String.join (kept.map (· ++ "\n"))

def readEntries (file : File) : Except FileError (List String) :=
  match file.readText with
  | .ok text => .ok (parseEntries text)
  | .error .notFound => .ok []
  | .error e => .error e

def writeEntries (entries : List String) (limit : Nat) (file : File) : Except FileError File :=
  file.writeText (renderEntries entries limit)

/-- The history that a file holds, in place of another; that one stays when the file cannot be read
as a text. A file that is not there holds no entries, which is no failure. -/
def load (h : History) (file : File) : Except FileError Unit × History :=
  match readEntries file with
  | .ok entries => (.ok (), ofEntries entries)
  | .error e => (.error e, h)

def save (h : History) (settings : Settings) (file : File) : Except FileError File :=
  writeEntries h.entries settings.maxHistoryEntries file

end LineEdit.History
