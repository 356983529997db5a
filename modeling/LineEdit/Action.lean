import LineEdit.Key

/-!
# Actions

What a chord of keys can be bound to.
-/
namespace LineEdit

inductive Action where
  | cursorLeft
  | cursorRight
  | cursorHome
  | cursorEnd
  | wordLeft
  | wordRight
  | deleteBackward
  | deleteForward
  | killWordBackward
  | killPathSegmentBackward
  | killWordForward
  | killToStart
  | killToEnd
  | commit
  | clearLine
  | historyPrevious
  | historyNext
  | historySearchBackward
  | historySearchForward
  | directoryBack
  | directoryForward
  | parentDirectory
  | completeNext
  | completePrevious
  | paste
  | exitOrDeleteForward
deriving DecidableEq, Repr

namespace Action

/-- The actions with the names that a binding calls them by. No other name is an action's. -/
def named : List (String × Action) :=
  [("cursor_left", cursorLeft), ("cursor_right", cursorRight), ("cursor_home", cursorHome),
    ("cursor_end", cursorEnd), ("word_left", wordLeft), ("word_right", wordRight),
    ("delete_backward", deleteBackward), ("delete_forward", deleteForward),
    ("kill_word_backward", killWordBackward),
    ("kill_path_segment_backward", killPathSegmentBackward),
    ("kill_word_forward", killWordForward), ("kill_to_start", killToStart),
    ("kill_to_end", killToEnd), ("commit", commit), ("clear_line", clearLine),
    ("history_previous", historyPrevious), ("history_next", historyNext),
    ("history_search_backward", historySearchBackward),
    ("history_search_forward", historySearchForward), ("directory_back", directoryBack),
    ("directory_forward", directoryForward), ("parent_directory", parentDirectory),
    ("complete_next", completeNext), ("complete_previous", completePrevious), ("paste", paste),
    ("exit_or_delete_forward", exitOrDeleteForward)]

def ofName? (name : String) : Option Action := named.lookup name

def completes (action : Action) : Bool := action = completeNext || action = completePrevious

/-- Whether the action searches the history for a stem. A search goes on, with the stem it began
with, as long as such actions follow one another; any other action ends it. -/
def searches (action : Action) : Bool :=
  action = historySearchBackward || action = historySearchForward

end Action

structure Binding where
  chord : Chord
  action : Action
deriving DecidableEq, Repr

end LineEdit
