/-!
# Files

What a path leads to, as far as reading a text and writing one can tell.
-/
namespace LineEdit

inductive File where
  | missing
  | directory
  | bytes (data : ByteArray)

inductive FileError where
  | notFound
  | unreadable
deriving DecidableEq, Repr

namespace File

def ofText (text : String) : File := bytes text.toUTF8

def readText : File → Except FileError String
  | missing => .error .notFound
  | directory => .error .unreadable
  | bytes data =>
    match String.fromUTF8? data with
    | some text => .ok text
    | none => .error .unreadable

/-- What the path leads to after a text was written there. What it led to before is lost, except
that a directory is not written over. -/
def writeText (text : String) : File → Except FileError File
  | directory => .error .unreadable
  | _ => .ok (ofText text)

end File

end LineEdit
