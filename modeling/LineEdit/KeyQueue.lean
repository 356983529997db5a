import LineEdit.Key

/-!
# A queue of key events

Events that wait for someone to handle them, first come, first served.
-/
namespace LineEdit

structure KeyQueue where
  events : List KeyEvent
deriving DecidableEq, Repr

namespace KeyQueue

def empty : KeyQueue := ⟨[]⟩

def append (q : KeyQueue) (events : List KeyEvent) : KeyQueue := ⟨q.events ++ events⟩

/-- The events of typing a text, each character without modifiers, behind those that wait. -/
def appendText (q : KeyQueue) (text : String) : KeyQueue :=
  q.append (text.toList.map KeyEvent.ofChar)

def next (q : KeyQueue) : Option KeyEvent × KeyQueue := (q.events.head?, ⟨q.events.tail⟩)

end KeyQueue

end LineEdit
