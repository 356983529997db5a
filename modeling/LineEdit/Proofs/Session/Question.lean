import LineEdit.Proofs.Console.Reliable
import LineEdit.Proofs.Session.Core

/-!
# The question before a paste

Several lines on the clipboard are not pasted at once: the line is put aside together with them, and
a question takes its place. A second paste brings the line back and inserts what was put aside,
whatever is on the clipboard by then. Any other event brings the line back and is then answered as
if there had been no question, except that the first paste has ended what was under way.
-/
namespace LineEdit

open Attempt Text

theorem Buffer.text_insert (b : Buffer) (text : String) :
    (b.insert text).text = slice b.text 0 b.cursor ++ text ++ slice b.text b.cursor b.length := by
  apply String.toList_injective
  change (splice _ _ _ _).toList = _
  rw [toList_splice, String.toList_append, String.toList_append, toList_slice, toList_slice,
    Nat.max_self, List.drop_zero, Buffer.length, ← String.length_toList, List.take_length]

namespace Session

variable {C W : Type}

def settled (s : Session C W) : Session C W :=
  s.edited fun e => { e with completion := e.completion.reset, stem := none }

/-- The session with its line put aside and the question about `text` in its place. Only a
completion and a search that were under way are given up for it. -/
def questioned (s : Session C W) (text : String) : Session C W :=
  s.settled.edited fun e =>
    { e with
      heldPaste := some ⟨e.buffer, text⟩
      buffer := Buffer.ofText (e.settings.pastePrompt (lines text).length) }

variable {s t u : Session C W} {event : KeyEvent} {text : String}

theorem unheld_settled (unheld : s.editor.heldPaste = none) : s.settled.unheld = s.settled :=
  unheld_of_none (s := s.settled) unheld

theorem unheld_questioned (unheld : s.editor.heldPaste = none) (text : String) :
    (s.questioned text).unheld = s.settled := by
  obtain ⟨⟨_, _, _, _, _, _, _, held, _⟩, _, _, _, _⟩ := s
  obtain rfl : held = none := unheld
  rfl

section

variable [WorkingDirectory W]

theorem handled_of_several (unheld : s.editor.heldPaste = none)
    (pastes : s.editor.meaning event = some .paste) (several : isSingleLine text = false) :
    s.handled event (some text) = (.incomplete, s.questioned text) := by
  obtain ⟨heard, bound⟩ := resolve_of_meaning pastes
  have asks : s.settled.edited (·.pasted (some text)) = s.questioned text := by
    unfold questioned edited Editor.pasted
    simp only [several]
    rfl
  rw [handled_of_other heard (.inl unheld), unheld_of_none unheld, bound, ← asks]
  rfl

/-- A question that is confirmed leaves the line with the text at the cursor. -/
theorem handled_questioned_of_paste (unheld : s.editor.heldPaste = none)
    (pastes : s.editor.meaning event = some .paste) (text : String) (clipboard : Option String) :
    (s.questioned text).handled event clipboard =
      (.incomplete, s.settled.edited ({ · with buffer := s.editor.buffer.insert text })) := by
  obtain ⟨heard, bound⟩ := resolve_of_meaning pastes
  rw [handled_confirmed (s := s.questioned text) heard rfl bound, unheld_questioned unheld]
  rfl

/-- Any other event does what it would have done without a question. What is on the clipboard does
not matter on either side, since the event is no paste. -/
theorem handled_questioned_of_other (unheld : s.editor.heldPaste = none)
    (heard : s.editor.ignores event = false) (other : s.editor.keymap.resolve event ≠ some .paste)
    (text : String) (first second : Option String) :
    (s.questioned text).handled event first = s.settled.handled event second := by
  have heard' : ¬s.editor.ignores event = true := by
    rw [heard]
    nofun
  rw [handled_of_other (s := s.questioned text) heard' (.inr other),
    handled_of_other (s := s.settled) heard' (.inr other), unheld_questioned unheld,
    unheld_settled unheld]
  exact responded_clipboard other s.settled event first second

end

variable [Console C] [WorkingDirectory W]

/-- What can come between two events that are heard: events that are ignored, and changes of the
console. -/
inductive Idles (s : Session C W) : Session C W → Prop
  | rest : Idles s s
  | ignore {t u : Session C W} {event : KeyEvent} {r : Except ConsoleError Outcome} : Idles s t →
      t.editor.ignores event = true → (handleKey event : Edit C W Outcome).exec t = (r, u) →
      Idles s u
  | exchange {t : Session C W} (console : C) : Idles s t →
      Idles s { t with console := console }

theorem Idles.core (idles : Idles s t) : t.core = s.core := by
  induction idles with
  | rest => rfl
  | ignore _ ignored handled ih =>
    rw [exec_handleKey_of_ignored ignored] at handled
    rw [← ih, (Prod.mk.inj handled).2]
  | exchange _ _ ih => exact ih

/-- Several lines are pasted by two events. Whatever is ignored or put on the clipboard between
them, the second one inserts what the first one found. An event that is not a paste in its place
does what it does on a console of any kind without the question, but for a completion or a search
that was under way, and means the same for the host. On a console that does not fail, every event is
handled. -/
theorem question_transparent (unheld : s.editor.heldPaste = none)
    (pastes : s.editor.meaning event = some .paste) (found : s.clipboard = some text)
    (several : isSingleLine text = false) :
    (∀ asked t u, (handleKey event : Edit C W Outcome).exec s = (.ok asked, t) → Idles t u →
      asked = .incomplete ∧
      (∀ again outcome v, s.editor.meaning again = some .paste →
        (handleKey again : Edit C W Outcome).exec u = (.ok outcome, v) →
        outcome = .incomplete ∧
        v.editor.buffer.text = slice s.editor.buffer.text 0 s.editor.buffer.cursor ++ text ++
          slice s.editor.buffer.text s.editor.buffer.cursor s.editor.buffer.length ∧
        v.editor.buffer.cursor = s.editor.buffer.cursor + text.length) ∧
      ∀ key console outcome outcome' v w, s.editor.ignores key = false →
        s.editor.keymap.resolve key ≠ some .paste →
        (handleKey key : Edit C W Outcome).exec u = (.ok outcome, v) →
        (handleKey key : Edit C W Outcome).exec { s.settled with console := console } =
          (.ok outcome', w) →
        outcome = outcome' ∧ v.core = w.core) ∧
    (ReliableConsole C → ∀ (key : KeyEvent) (x : Session C W), ∃ outcome y,
      (handleKey key : Edit C W Outcome).exec x = (.ok outcome, y)) := by
  refine ⟨fun asked t u asks idles => ?_, fun _ => succeeds_handleKey⟩
  have answered := handled_of_ok asks
  rw [found, handled_of_several (s := s.core) unheld pastes several] at answered
  obtain ⟨rfl, held⟩ := Prod.mk.inj answered
  have waits : u.core = s.core.questioned text := idles.core.trans held.symm
  refine ⟨rfl, fun again outcome v confirms run => ?_,
    fun key console outcome outcome' v w heard other run direct => ?_⟩
  · have done := handled_of_ok run
    rw [waits, handled_questioned_of_paste (s := s.core) unheld confirms] at done
    obtain ⟨rfl, inserted⟩ := Prod.mk.inj done
    have buffer : v.editor.buffer = s.editor.buffer.insert text :=
      congrArg (·.editor.buffer) inserted.symm
    rw [buffer]
    exact ⟨rfl, s.editor.buffer.text_insert text, rfl⟩
  · have left := handled_of_ok run
    have right := handled_of_ok direct
    have same : { s.settled with console := console : Session C W }.core = s.core.settled := rfl
    rw [waits, handled_questioned_of_other (s := s.core) unheld heard other text _
      { s.settled with console := console : Session C W }.clipboard, ← same, right] at left
    obtain ⟨rfl, cores⟩ := Prod.mk.inj left
    exact ⟨rfl, cores.symm⟩

end Session

/-- A console of which nothing is seen. It takes whatever is put on it, and knows its cursor and the
clipboard. -/
structure Blind where
  cursor : UInt16 × UInt16
  clipboard : Option String

namespace Blind

instance : Console Blind where
  cursorPosition := do return (← get).cursor
  setCursorPosition x y := do
    modify ({ · with cursor := (x, min y 24) })
    return y - min y 24
  width := pure 80
  height := pure 25
  drawText _ _ _ := pure ()
  fillChar _ _ _ _ := pure ()
  clipboardText := do return (← get).clipboard

instance : ReliableConsole Blind where
  cursorPosition := succeeds_get.bind fun _ => succeeds_pure _
  setCursorPosition _ _ := (succeeds_modify _).bind fun _ => succeeds_pure _
  width := succeeds_pure _
  height := succeeds_pure _
  drawText _ _ _ := succeeds_pure _
  fillChar _ _ _ _ := succeeds_pure _
  clipboardText := succeeds_get.bind fun _ => succeeds_pure _

def session : Session Blind ShellDirectory where
  editor := { (Editor.new Settings.default).resume with buffer := (Buffer.ofText "xy").moveTo 1 }
  console := ⟨(4, 0), some "a\r\nb"⟩
  history := History.empty
  directories := DirectoryHistory.startingAt ⟨"/"⟩
  host := ShellDirectory.standingIn ⟨"/"⟩

def paste : KeyEvent := ⟨true, .withCtrl (.char 'V'), none⟩

def erase : KeyEvent := ⟨true, .plain .backspace, none⟩

end Blind

namespace Session

/-- The clipboard is emptied while the question waits. -/
theorem question_transparent_blind :
    ∃ t, (handleKey Blind.paste : Edit Blind ShellDirectory Outcome).exec Blind.session =
        (.ok .incomplete, t) ∧
      (∃ v, (handleKey Blind.paste : Edit Blind ShellDirectory Outcome).exec
          { t with console := ⟨(4, 0), none⟩ } = (.ok .incomplete, v) ∧
        v.editor.buffer.text = "xa\r\nby" ∧ v.editor.buffer.cursor = 5) ∧
      ∃ v w, (handleKey Blind.erase : Edit Blind ShellDirectory Outcome).exec
          { t with console := ⟨(4, 0), none⟩ } = (.ok .incomplete, v) ∧
        (handleKey Blind.erase : Edit Blind ShellDirectory Outcome).exec Blind.session.settled =
          (.ok .incomplete, w) ∧
        v.core = w.core := by
  have pastes : Blind.session.editor.meaning Blind.paste = some .paste := by decide +kernel
  have found : Blind.session.clipboard = some "a\r\nb" := by decide +kernel
  obtain ⟨transparent, handles⟩ := question_transparent rfl pastes found (by decide +kernel)
  have handles := handles inferInstance
  obtain ⟨asked, t, asks⟩ := handles Blind.paste Blind.session
  obtain ⟨rfl, confirms, others⟩ :=
    transparent asked t _ asks (Idles.rest.exchange ⟨(4, 0), none⟩)
  obtain ⟨confirmed, v, run⟩ := handles Blind.paste { t with console := ⟨(4, 0), none⟩ }
  obtain ⟨rfl, text, cursor⟩ := confirms Blind.paste confirmed v (by decide +kernel) run
  obtain ⟨erased, v', run'⟩ := handles Blind.erase { t with console := ⟨(4, 0), none⟩ }
  obtain ⟨direct, w, run''⟩ := handles Blind.erase Blind.session.settled
  obtain ⟨rfl, same⟩ := others Blind.erase Blind.session.console erased direct v' w
    (by decide +kernel) (by decide +kernel) run' run''
  have edits : ((handleKey Blind.erase : Edit Blind ShellDirectory Outcome).exec
      Blind.session.settled).1 = .ok .incomplete := rfl
  obtain rfl : erased = .incomplete :=
    Except.ok.inj ((congrArg Prod.fst run'').symm.trans edits)
  refine ⟨t, asks, ⟨v, run, text.trans ?_, cursor⟩, v', w, run', run'', same⟩
  decide +kernel

end Session

end LineEdit
