import LineEdit.Proofs.Session.Sitting

/-!
# Typing and pasting

A text that is typed character by character has the line shown again for each of them. A paste of
the text shows the line once. Both end in the same session, down to every cell of the screen: the
insertions add up to one, and a redraw leaves nothing of a shorter line before it.
-/
namespace LineEdit

open Attempt

/-- The screen with `text` on the clipboard, which can be read. -/
def Screen.copied (s : Screen) (text : String) : Screen :=
  { s with clipboard := some text, clipboardFails := false }

theorem Painter.exec_redraw_copied {p q : Painter} {s t : Screen} {line : String} {cursor : Nat}
    {r : Except ConsoleError Unit} (within : Within p s) (some_rows : 0 < s.height)
    (low : p.InReach s line.length)
    (run : (redraw line cursor : Paint Screen Unit).exec (p, s) = (r, q, t)) (text : String) :
    (redraw line cursor : Paint Screen Unit).exec (p, s.copied text) = (r, q, t.copied text) := by
  unfold InReach at low
  rw [columns_eq within.width_pos] at low
  have here := exec_redraw p s line cursor within.width_pos some_rows low within.known
  have there := exec_redraw p (s.copied text) line cursor within.width_pos some_rows low within.known
  obtain ⟨rfl, rest⟩ := Prod.mk.inj (run.symm.trans here)
  obtain ⟨rfl, rfl⟩ := Prod.mk.inj rest
  exact there

theorem Text.isSingleLine_of_plain {text : String} (plain : ∀ c ∈ text.toList, isControl c = false) :
    isSingleLine text = true := by
  refine List.all_eq_true.mpr fun c mem => ?_
  cases breaks : isLineBreak c with
  | false => rfl
  | true =>
    have controls : isControl c = true := by
      rcases Bool.or_eq_true_iff.mp breaks with r | n
      · rw [of_decide_eq_true r]
        decide
      · rw [of_decide_eq_true n]
        decide
    rw [plain c mem] at controls
    exact absurd controls nofun

/-- A character that types itself: it can be put into a line, and no action is bound to the chord
that it is typed with. -/
def Keymap.Types (map : Keymap) (c : Char) : Prop :=
  Text.isControl c = false ∧ map.resolve (.ofChar c) = none

instance (map : Keymap) (c : Char) : Decidable (map.Types c) := inferInstanceAs (Decidable (_ ∧ _))

namespace Session

open Painter

variable {W : Type} {s t : Session Screen W} {n : Nat}

/-- The session with `text` inserted into the line, by which everything under way has ended. -/
def inserted (s : Session Screen W) (text : String) : Session Screen W :=
  s.edited fun e => { e.settle none with buffer := e.buffer.insert text }

def copied (s : Session Screen W) (text : String) : Session Screen W :=
  { s with console := s.console.copied text }

def redrawn (s : Session Screen W) : Session Screen W := ((redraw : Edit Screen W Unit).exec s).2

theorem inserted_inserted (s : Session Screen W) (first second : String) :
    (s.inserted first).inserted second = s.inserted (first ++ second) := by
  simp only [inserted, edited, Editor.settle, Buffer.insert_insert]
  rfl

/-- A line is edited, and can be shown with `n` more characters. The screen may scroll for them, as
long as a console can count the rows. -/
structure Ready (s : Session Screen W) (n : Nat) : Prop where
  editing : s.editor.mode = .editing
  unheld : s.editor.heldPaste = none
  within : Within s.editor.painter s.console
  some_rows : 0 < s.console.height
  low : s.editor.painter.InReach s.console (s.editor.buffer.length + n)

theorem Ready.inserted {text : String} (ready : Ready s (n + text.length)) :
    Ready (s.inserted text) n := by
  refine ⟨ready.editing, ready.unheld, ready.within, ready.some_rows, ?_⟩
  change InReach _ _ ((s.editor.buffer.insert text).length + n)
  rw [Buffer.length_insert, Nat.add_assoc, Nat.add_comm text.length]
  exact ready.low

theorem Ready.shows (ready : Ready s n) : ∃ p c,
    (Painter.redraw s.editor.buffer.text s.editor.buffer.cursor : Paint Screen Unit).exec
      (s.editor.painter, s.console) = (.ok (), p, c) ∧
    Shows s.console s.editor.buffer.text p c :=
  exec_redraw_shows _ _ ready.within.width_pos ready.some_rows
    (ready.low.mono (Nat.le_add_right _ n)) ready.within.known

theorem redrawn_of {p : Painter} {c : Screen} {r : Except ConsoleError Unit}
    (run : (Painter.redraw s.editor.buffer.text s.editor.buffer.cursor : Paint Screen Unit).exec
      (s.editor.painter, s.console) = (r, p, c)) : s.redrawn = s.repainted p c := by
  unfold redrawn
  rw [exec_redraw_of run]

theorem Ready.conclude (ready : Ready s n) :
    (conclude .incomplete : Edit Screen W Outcome).exec s = (.ok .incomplete, s.redrawn) := by
  obtain ⟨p, c, run, -⟩ := ready.shows
  rw [redrawn_of run]
  exact exec_conclude_of_shown run nofun

theorem Ready.redrawn (ready : Ready s n) : Ready s.redrawn n := by
  obtain ⟨p, c, run, shows⟩ := ready.shows
  rw [redrawn_of run]
  exact ⟨ready.editing, ready.unheld, shows.within, shows.height ▸ ready.some_rows,
    ready.low.after ready.within ready.some_rows (Nat.le_add_right _ n) run⟩

/-- Showing a line before something is inserted makes no difference. A text that is typed is shown
after each character, one that is pasted only at the end. -/
theorem redrawn_inserted_redrawn {text : String} (ready : Ready s (n + text.length)) :
    (s.redrawn.inserted text).redrawn = (s.inserted text).redrawn := by
  obtain ⟨p, c, run, -⟩ := ready.shows
  obtain ⟨q, d, run', -⟩ := ready.inserted.shows
  have longer : s.editor.buffer.text.length ≤ (s.inserted text).editor.buffer.text.length := by
    have length := Buffer.length_insert s.editor.buffer text
    unfold Buffer.length at length
    change _ ≤ (s.editor.buffer.insert text).text.length
    omega
  have again := redraw_absorbs ready.within ready.some_rows longer
    (ready.inserted.low.mono (Nat.le_add_right _ n)) _ (s.inserted text).editor.buffer.cursor run
  rw [redrawn_of run, redrawn_of run']
  exact redrawn_of (s := (s.inserted text).repainted p c) (again.trans run')

theorem redrawn_copied (ready : Ready s n) (text : String) :
    (s.copied text).redrawn = s.redrawn.copied text := by
  obtain ⟨p, c, run, -⟩ := ready.shows
  rw [redrawn_of run]
  exact redrawn_of (s := s.copied text) (exec_redraw_copied ready.within ready.some_rows
    (ready.low.mono (Nat.le_add_right _ n)) run text)

variable [WorkingDirectory W] {event : KeyEvent} {text : String}

theorem exec_type {c : Char} (ready : Ready s (n + 1)) (types : s.editor.keymap.Types c) :
    (handleKey (.ofChar c) : Edit Screen W Outcome).exec s =
      (.ok .incomplete, (s.inserted (String.singleton c)).redrawn) := by
  obtain ⟨plain, free⟩ := types
  have heard : ¬s.editor.ignores (.ofChar c) = true := by
    unfold Editor.ignores KeyEvent.ofChar
    rw [ready.editing]
    cases c.isAlphanum <;> exact Bool.false_ne_true
  have meant : s.editor.meaning (.ofChar c) = none := (if_neg heard).trans free
  have typed : (KeyEvent.ofChar c).printable = some c := by
    change Option.filter (!Text.isControl ·) (some c) = some c
    rw [Option.filter_some, plain]
    rfl
  have handled : s.handled (.ofChar c) s.clipboard =
      (.incomplete, s.inserted (String.singleton c)) := by
    rw [handled_of_other heard (.inl ready.unheld), unheld_of_none ready.unheld, free]
    change (Outcome.incomplete, (s.edited (·.settle none)).edited (·.type _)) = _
    rw [typed]
    rfl
  have length : (String.singleton c).length = 1 := String.length_singleton
  rw [← length] at ready
  rw [exec_handleKey heard (by rw [meant]; nofun)
    (fun reads => absurd (meant.symm.trans reads.1) nofun), handled]
  exact ready.inserted.conclude

/-- A text is typed character by character. By induction on the characters, each of them inserts
itself and is shown, and what was shown on the way does not matter. -/
theorem exec_types (cs : List Char) {c : Char} (ready : Ready s (n + (cs.length + 1)))
    (types : ∀ a ∈ c :: cs, s.editor.keymap.Types a) :
    ((c :: cs).mapM fun a => handleKey (.ofChar a) : Edit Screen W (List Outcome)).exec s =
      (.ok (List.replicate (cs.length + 1) .incomplete),
        (s.inserted (String.ofList (c :: cs))).redrawn) := by
  induction cs generalizing s c with
  | nil =>
    rw [List.mapM_cons, exec_bind_of_ok (exec_type ready (types c List.mem_cons_self))]
    rfl
  | cons d cs ih =>
    have first := exec_type (n := n + (cs.length + 1)) ready (types c List.mem_cons_self)
    have one : (String.singleton c).length = 1 := String.length_singleton
    have others : (String.ofList (d :: cs)).length = cs.length + 1 := String.length_ofList
    have joined : String.singleton c ++ String.ofList (d :: cs) = String.ofList (c :: d :: cs) :=
      String.toList_injective (by simp)
    have next : Ready (s.inserted (String.singleton c)) (n + (cs.length + 1)) := by
      refine Ready.inserted ?_
      rw [one]
      exact ready
    have rest := ih next.redrawn fun a mem => types a (List.mem_cons_of_mem _ mem)
    rw [← others] at next
    rw [List.mapM_cons, exec_bind_of_ok first, exec_bind_of_ok rest, exec_pure,
      redrawn_inserted_redrawn next, inserted_inserted, joined]
    rfl

theorem exec_paste_copied (ready : Ready s (n + text.length))
    (pastes : s.editor.meaning event = some .paste) (single : Text.isSingleLine text = true) :
    (handleKey event : Edit Screen W Outcome).exec (s.copied text) =
      (.ok .incomplete, (s.inserted text).redrawn.copied text) := by
  obtain ⟨heard, bound⟩ := resolve_of_meaning pastes
  have readable : (Console.clipboardText : Attempt Screen (Option String)).exec
      (s.copied text).console = (.ok (some text), (s.copied text).console) := rfl
  have clipboard : (s.copied text).clipboard = some text := by
    unfold Session.clipboard
    rw [readable]
  have handled : (s.copied text).handled event (some text) =
      (.incomplete, (s.inserted text).copied text) := by
    rw [handled_of_other (s := s.copied text) heard (.inl ready.unheld),
      unheld_of_none (s := s.copied text) ready.unheld]
    change (s.copied text).responded (s.editor.keymap.resolve event) event _ = _
    rw [bound]
    change (Outcome.incomplete, ((s.copied text).edited _).edited (·.pasted (some text))) = _
    unfold Editor.pasted
    dsimp only
    rw [single]
    rfl
  have room : Ready ((s.inserted text).copied text) n := by
    obtain ⟨editing, unheld, within, some_rows, low⟩ := ready.inserted
    exact ⟨editing, unheld, within.resize rfl rfl, some_rows, low⟩
  rw [exec_handleKey (s := s.copied text) heard (by exact pastes ▸ nofun)
    (fun _ => by rw [clipboard]; exact readable), clipboard, handled, ← redrawn_copied ready.inserted]
  exact room.conclude

/-- A text without control characters, each character of which types itself, is typed on any screen
that a host can come to with a line that is edited and no paste that waits. Pasting it instead makes
the same session of it, apart from the clipboard: the same line and cursor, nothing under way, the
same histories, and the same painter and screen, cell by cell. The screen has cells, since one
without columns refuses every cursor. -/
theorem typed_eq_pasted {width height : UInt16} (sits : Sits width height s) (some_columns : 0 < width)
    (some_rows : 0 < height) (editing : s.editor.mode = .editing) (unheld : s.editor.heldPaste = none)
    (some_text : text ≠ "") (types : ∀ c ∈ text.toList, s.editor.keymap.Types c)
    (pastes : s.editor.meaning event = some .paste)
    (low : s.editor.painter.InReach s.console (s.editor.buffer.length + text.length)) :
    ∃ u, (text.toList.mapM fun c => handleKey (.ofChar c) :
        Edit Screen W (List Outcome)).exec s = (.ok (List.replicate text.length .incomplete), u) ∧
      (handleKey event : Edit Screen W Outcome).exec (s.copied text) =
        (.ok .incomplete, u.copied text) ∧
      u.editor.buffer = s.editor.buffer.insert text ∧ u.editor.mode = .editing ∧
      u.editor.completion.cycle = none ∧ u.editor.stem = none ∧ u.editor.heldPaste = none ∧
      u.history = s.history ∧ u.directories = s.directories ∧ u.host = s.host := by
  obtain ⟨columns, rows, within⟩ := sits.within some_columns some_rows
  have ready : Ready s (0 + text.length) := by
    rw [Nat.zero_add]
    exact ⟨editing, unheld, within, rows ▸ some_rows, low⟩
  have single : Text.isSingleLine text = true :=
    Text.isSingleLine_of_plain fun c mem => (types c mem).1
  refine ⟨(s.inserted text).redrawn, ?_, exec_paste_copied ready pastes single, rfl, editing, rfl, rfl,
    unheld, rfl, rfl, rfl⟩
  cases chars : text.toList with
  | nil => exact absurd (String.toList_eq_nil_iff.mp chars) some_text
  | cons c cs =>
    have whole : text = String.ofList (c :: cs) := by rw [← chars, String.ofList_toList]
    have length : text.length = cs.length + 1 := by rw [← String.length_toList, chars]; rfl
    rw [chars] at types
    rw [length] at ready ⊢
    have typed := exec_types cs ready types
    rw [← whole] at typed
    exact typed

namespace tiny

def ctrlV : KeyEvent := ⟨true, .withCtrl (.char 'V'), none⟩

end tiny

open tiny in
/-- Typing `cdef` into a full row makes a screen of two rows scroll twice, by one row, and pasting
it makes it scroll by two rows at once. -/
theorem typed_eq_pasted_tiny :
    ∃ u : Session Screen ShellDirectory,
      (['c', 'd', 'e', 'f'].mapM fun c => handleKey (.ofChar c) :
        Edit Screen ShellDirectory (List Outcome)).exec half =
          (.ok (List.replicate 4 .incomplete), u) ∧
      (handleKey ctrlV : Edit Screen ShellDirectory Outcome).exec (half.copied "cdef") =
        (.ok .incomplete, u.copied "cdef") ∧
      u.editor.buffer = Buffer.ofText "abcdef" := by
  have types : "cdef".toList.all (half.editor.keymap.Types ·) = true := by decide +kernel
  obtain ⟨u, typed, pasted, buffer, -⟩ := typed_eq_pasted sits_half (by decide) (by decide)
    (by decide +kernel) (by decide +kernel) (by decide)
    (fun c mem => of_decide_eq_true (List.all_eq_true.mp types c mem))
    (show half.editor.meaning ctrlV = some .paste by decide +kernel) (by decide +kernel)
  refine ⟨u, typed, pasted, buffer.trans ?_⟩
  decide +kernel

end Session

end LineEdit
