import LineEdit.Proofs.Session.Sitting

/-!
# Where the host goes on

When an event hands over to the host, the line is shown once more and the cursor goes to the first
column of the row below it. The screen scrolls for that by one row if the line, with the cell behind
it, ends in its last row, and not otherwise. So the host writes below the line, and what is shown of
the line stays where it is, but for the one row that it may have moved up.
-/
namespace LineEdit.Session

open Attempt Painter

variable {W : Type} [WorkingDirectory W] {s t : Session Screen W} {event : KeyEvent}
  {outcome : Outcome} {width height : UInt16}

theorem shown_of_leaves (run : (handleKey event : Edit Screen W Outcome).exec s = (.ok outcome, t))
    (leaves : outcome ≠ .incomplete) : s.shown event t = s.editor.line := by
  have acts := acts_of_ok run
  unfold shown
  by_cases commits : s.editor.meaning event = some .commit
  · exact if_pos commits
  · rw [if_neg commits]
    generalize same : t.core = k at acts
    have buffer : t.editor.buffer = k.editor.buffer := congrArg (·.editor.buffer) same
    cases acts with
    | edits => exact absurd rfl leaves
    | commits commits' => exact absurd commits' commits
    | asks => exact buffer

/-- Whatever a host did before, an event that hands over leaves the line by its last row `e`, which
holds the cell behind the line. A line has less than 2^63 characters, since it is kept in memory,
and a screen without columns refuses every cursor, so that no event hands over on it. -/
theorem line_left (sits : Sits width height s) (some_columns : 0 < width) (some_rows : 0 < height)
    (run : (handleKey event : Edit Screen W Outcome).exec s = (.ok outcome, t))
    (leaves : outcome ≠ .incomplete) (low : s.editor.painter.InReach s.console s.editor.line.length)
    (short : s.editor.line.length < 0x8000000000000000) :
    let line := s.editor.line
    ∃ cursor p c, (Painter.redraw line.text cursor : Paint Screen Unit).exec
        (s.editor.painter, s.console) = (.ok (), p, c) ∧
      let e : Int := p.startY + ((p.startX + line.length) / width.toNat : Nat)
      let d := if e + 1 = height.toNat then 1 else 0
      t.console.cursor.1 = 0 ∧
      (t.console.cursor.2.toNat : Int) = max 0 (min (e + 1) (height.toNat - 1)) ∧
      t.console.scrolled = c.scrolled + d ∧ t.editor.painter = p.raise d ∧
      (∀ x < width.toNat, ∀ y < height.toNat,
        t.console.cell? x y = some ((c.cell? x (y + d)).getD ' ')) ∧
      ∀ i char, line.text.toList[i]? = some char →
        let row : Int := t.editor.painter.startY +
          ((t.editor.painter.startX + i) / width.toNat : Nat)
        row < t.console.cursor.2.toNat ∧
        ∀ y : Nat, y = row → t.console.cell? ((t.editor.painter.startX + i) % width.toNat) y =
          some char := by
  intro line
  obtain ⟨columns, rows, within⟩ := sits.within some_columns some_rows
  have paints := paints_handleKey within (rows ▸ some_rows) run
    (by rwa [shown_of_leaves run leaves])
  cases paints with
  | nothing ends => exact absurd (ends outcome rfl) leaves
  | shows => exact absurd rfl leaves
  | @leaves _ cursor p c _ painted shows left =>
    obtain ⟨columns', rows', -, displays⟩ := shows
    have left' := left_of_displays displays (rows'.trans rows ▸ some_rows) short left
    rw [columns', columns, rows', rows] at left'
    exact ⟨cursor, p, c, painted, left'⟩

namespace tiny

def brimming : Session Screen ShellDirectory := typed half 'c'

def enter : KeyEvent := ⟨true, .plain .enter, none⟩

theorem sits_brimming : Sits 2 2 brimming :=
  sits_press sits_half (.ofChar 'c') .incomplete (by decide +kernel) (by decide +kernel)

end tiny

open tiny in
/-- A line that ends in the last row of the screen makes it scroll when it is committed, and its
last character is shown above the cursor. -/
theorem line_left_tiny :
    (small.pressed brimming enter).console.cursor.1 = 0 ∧
      (small.pressed brimming enter).console.cell? 0 0 = some 'c' ∧
      (0 : Int) < (small.pressed brimming enter).console.cursor.2.toNat := by
  have run := small.exec_handleKey brimming enter .returnToHost (by decide +kernel)
  obtain ⟨cursor, p, c, -, column, -, -, -, -, shown⟩ := line_left sits_brimming (by decide)
    (by decide) run nofun (by decide +kernel) (by decide +kernel)
  obtain ⟨above, cells⟩ := shown 2 'c' (by decide +kernel)
  have row : (small.pressed brimming enter).editor.painter.startY +
      (((small.pressed brimming enter).editor.painter.startX + 2) / 2 : Nat) = 0 := by
    decide +kernel
  have place : ((small.pressed brimming enter).editor.painter.startX + 2) % 2 = 0 := by
    decide +kernel
  have here := cells 0 row.symm
  change (small.pressed brimming enter).console.cell?
    (((small.pressed brimming enter).editor.painter.startX + 2) % 2) 0 = _ at here
  rw [place] at here
  exact ⟨column, here, row ▸ above⟩

end LineEdit.Session
