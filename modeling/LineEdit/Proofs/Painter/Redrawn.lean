import LineEdit.Proofs.Console.Failing
import LineEdit.Proofs.Painter.Repaint

/-!
# What a redraw leaves that fails

A redraw asks the console for its size, makes room for the line, paints its rows and the blanks
below them one by one, and puts the cursor into its cell. Any of these steps can fail, and the
redraw then stops there. Before there is room for the line nothing has happened to the screen. Once
the painting has begun the screen has scrolled, and it can be changed in the cells that the line
takes up and in the blanks below it, but nowhere else. Once all is painted, the painter takes the
last row of the line for the last one painted, even if the cursor is refused.
-/
namespace LineEdit.Painter

open Attempt Screen Faulty

def Before (p : Painter) (x : Nat) (row : Int) : Prop :=
  row < p.startY ∨ row = p.startY ∧ x < p.startX

instance (p : Painter) (x : Nat) (row : Int) : Decidable (p.Before x row) :=
  inferInstanceAs (Decidable (_ ∨ _))

/-- The cell is one of those that a line of `n` characters takes up or that are blanked below it. -/
def Takes (p : Painter) (width n x y : Nat) : Prop :=
  ¬p.Before x y ∧ (y : Int) ≤ max (p.lastRow width n) p.lastPainted

theorem follows_draw (text : List Char) (x : Nat) (row : Int) :
    Follows screen (draw text x row) (draw text x row) := by
  unfold draw
  split
  · exact follows_pure ()
  · exact follows_guarded _ _ _

theorem follows_erase (count x : Nat) (row : Int) :
    Follows screen (erase count x row) (erase count x row) := by
  unfold erase
  split
  · exact follows_pure ()
  · exact follows_guarded _ _ _

theorem refines_paintRow (p : Painter) (width : Nat) (text : List Char) (r : Nat) :
    Refines screen (p.paintRow width text r) (p.paintRow width text r) := by
  unfold paintRow
  dsimp only
  split
  · exact (follows_draw _ _ _).refines.bind fun _ => (follows_erase _ _ _).refines
  · exact (follows_pure _).refines

theorem refines_eraseRow (width : Nat) (row : Int) :
    Refines screen (eraseRow width row) (eraseRow width row) := by
  unfold eraseRow
  split
  · exact (follows_erase _ _ _).refines
  · exact (follows_pure _).refines

/-- Rows that are painted without a failure are painted as on a screen that does not fail. Each row
is drawn and blanked by operations of which this holds. -/
theorem refines_paintRows (p : Painter) (width : Nat) (text : List Char) :
    Refines screen (p.paintRows width text) (p.paintRows width text) := by
  unfold paintRows
  exact (refines_forM fun r => refines_paintRow p width text r).bind fun _ =>
    refines_forM fun _ => refines_eraseRow _ _

variable {p : Painter} {width n : Nat} {row : Int} {region : Nat → Nat → Prop}

theorem confined_draw (text : List Char) {x : Nat} (column : x ≤ 65535) (low : row ≤ 65535)
    (inside : ∀ i j : Nat, j = row.toNat → x ≤ i → region i j) :
    Confined region (draw text x row) := by
  refine Confined.of_follows (follows_draw text x row) fun s => ?_
  rw [exec_draw s text column low]
  refine sameBut_inked s fun i j outside => if_neg ?_
  rintro ⟨here, right⟩
  exact outside (inside i j here right)

theorem confined_erase {count x : Nat} (few : count ≤ 65535) (column : x ≤ 65535)
    (low : row ≤ 65535) (inside : ∀ i j : Nat, j = row.toNat → x ≤ i → region i j) :
    Confined region (erase count x row) := by
  refine Confined.of_follows (follows_erase count x row) fun s => ?_
  rw [exec_erase s few column low]
  refine sameBut_inked s fun i j outside => if_neg ?_
  rintro ⟨here, right, -⟩
  exact outside (inside i j here right)

theorem confined_paintRow (text : List Char) {r : Nat} (anchor : p.startX < width)
    (wide : width ≤ 65535) (low : p.lastRow width text.length ≤ 65535)
    (within : r < p.rowCount width text.length) :
    Confined (p.Takes width text.length) (p.paintRow width text r) := by
  have narrow := column_le anchor r
  have last : p.startY + (r : Int) ≤ p.lastRow width text.length := by
    unfold rowCount at within
    unfold lastRow
    omega
  have inside (visible : 0 ≤ p.startY + (r : Int)) : ∀ i j : Nat, j = (p.startY + (r : Int)).toNat →
      p.column r ≤ i → p.Takes width text.length i j := by
    intro i j here right
    have row : (j : Int) = p.startY + (r : Int) := by omega
    refine ⟨?_, by omega⟩
    rintro (above | ⟨same, left⟩)
    · omega
    · have first : r = 0 := by omega
      rw [column, if_pos first] at right
      omega
  have fits : (p.segment width text r).length ≤ width - p.column r := by
    rw [segment, List.length_take]
    omega
  unfold paintRow
  dsimp only
  split
  next visible =>
    refine (confined_draw _ (by omega) (by omega) (inside visible)).bind fun _ => ?_
    refine confined_erase (by omega) (by omega) (by omega) ?_
    intro i j here right
    exact inside visible i j here (by omega)
  next => exact confined_pure _

theorem confined_eraseRow (wide : width ≤ 65535) (below : p.lastRow width n < row)
    (stale : row ≤ p.lastPainted) (low : row ≤ 65535) :
    Confined (p.Takes width n) (eraseRow width row) := by
  have start := p.startY_le_lastRow width n
  unfold eraseRow
  split
  next visible =>
    refine confined_erase wide (Nat.zero_le _) low fun i j here _ => ?_
    refine ⟨?_, by omega⟩
    rintro (above | ⟨same, -⟩)
    · omega
    · omega
  next => exact confined_pure _

theorem confined_paintRows (text : List Char) (anchor : p.startX < width) (wide : width ≤ 65535)
    (low : p.lastRow width text.length ≤ 65535) (low' : p.lastPainted ≤ 65535) :
    Confined (p.Takes width text.length) (p.paintRows width text) := by
  unfold paintRows
  dsimp only
  refine (confined_forM fun r mem => ?_).bind fun _ => confined_forM fun k mem => ?_
  · exact confined_paintRow text anchor wide low (List.mem_range.mp mem)
  · have few := List.mem_range.mp mem
    exact confined_eraseRow wide (by omega) (by omega) (by omega)

/-- By how many rows a screen scrolls to make room for a line of `n` characters. -/
def room (p : Painter) (t : Screen) (n : Nat) : Nat :=
  (p.fold t.width.toNat).overflow t.width.toNat t.height.toNat n

/-- The painter when there is room for a line of `n` characters. -/
def ready (p : Painter) (t : Screen) (n : Nat) : Painter := (p.fold t.width.toNat).raise (p.room t n)

/-- Whether a redraw succeeds, and the painter and the screen that it may leave, when any operation
of the screen can fail. Either it failed before it changed the screen, or it made room for the line
and failed before all of the line was painted, or it painted the line and can only have failed to
put the cursor into its cell. -/
inductive Redrawn (p : Painter) (t : Screen) (line : String) : Bool → Painter → Screen → Prop
  | nothing {q : Painter} : q = p ∨ q = p.fold t.width.toNat → Redrawn p t line false q t
  | part {u : Screen} :
      SameBut ((p.ready t line.length).Takes t.width.toNat line.length)
        (t.scroll (p.room t line.length)) u →
      Redrawn p t line false (p.ready t line.length) u
  | whole (ok : Bool) (cell : UInt16 × UInt16) :
      Redrawn p t line ok ((p.ready t line.length).painted t.width.toNat line.length)
        (((t.scroll (p.room t line.length)).inked
          ((p.ready t line.length).ink t.width.toNat line.toList)).withCursor cell)

def seen (s : Painter × Faulty Screen) : Painter × Screen := (s.1, s.2.screen)

theorem follows_onConsole {A : Type} {act : Attempt (Faulty Screen) A} {sound : Attempt Screen A}
    (follows : Follows screen act sound) : Follows seen (onConsole act) (onConsole sound) := by
  intro s
  rcases follows s.2 with ⟨result, screen⟩ | ⟨failed, screen⟩
  · exact .inl ⟨result, congrArg (s.1, ·) screen⟩
  · exact .inr ⟨failed, congrArg (s.1, ·) screen⟩

/-- What becomes of a step that would succeed on a screen that does not fail. -/
theorem cases_of_follows {A : Type} {act : Paint (Faulty Screen) A} {sound : Paint Screen A}
    (follows : Follows seen act sound) {q : Painter} {c : Faulty Screen} {a : A} {t : Screen}
    (run : sound.exec (p, c.screen) = (.ok a, q, t)) :
    (∃ c', act.exec (p, c) = (.ok a, q, c') ∧ c'.screen = t) ∨
      ∃ e c', act.exec (p, c) = (.error e, p, c') ∧ c'.screen = c.screen := by
  rcases follows.cases (s := (p, c)) run with ⟨⟨q', c'⟩, ran, same⟩ | ⟨e, ⟨q', c'⟩, failed, same⟩
  · obtain ⟨rfl, screen⟩ := Prod.mk.inj same
    exact .inl ⟨c', ran, screen⟩
  · obtain ⟨rfl, screen⟩ := Prod.mk.inj same
    exact .inr ⟨e, c', failed, screen⟩

theorem follows_setCursorPosition (x y : UInt16) :
    Follows seen (onConsole (Console.setCursorPosition x y))
      (onConsole (Console.setCursorPosition x y)) :=
  follows_onConsole (follows_guarded _ _ _)

theorem follows_height : Follows seen (onConsole Console.height) (onConsole Console.height) :=
  follows_onConsole (follows_guarded _ _ _)

theorem follows_consoleWidth : Follows seen consoleWidth consoleWidth :=
  (follows_onConsole (follows_guarded _ _ _)).bind fun _ _ => ⟨rfl, rfl⟩

theorem follows_moveCursor (x y : UInt16) : Follows seen (moveCursor x y) (moveCursor x y) :=
  (follows_setCursorPosition x y).bind fun _ _ => ⟨rfl, rfl⟩

theorem follows_makeRoom (width height n : Nat) :
    Follows seen (makeRoom width height n) (makeRoom width height n) := by
  intro s
  have moves := follows_moveCursor 0 (saturate (s.1.lastRow width n).toNat) s
  unfold makeRoom
  rw [exec_bind_of_ok (exec_get _), exec_bind_of_ok (exec_get _)]
  dsimp only [seen] at moves ⊢
  split
  · exact moves
  · exact .inl ⟨rfl, rfl⟩

/-- A line for which there is room is painted, but for the place of the cursor, or a part of its
cells is. -/
theorem place_cases (q : Painter) (c : Faulty Screen) (text : List Char) (cursor : Nat)
    (anchor : q.startX < c.screen.width.toNat)
    (room : q.lastRow c.screen.width.toNat text.length < (c.screen.height.toNat : Int))
    (some_rows : 0 < c.screen.height) (low : q.lastPainted ≤ 65535) :
    (∃ e c', (place c.screen.width.toNat text cursor).exec (q, c) = (.error e, q, c') ∧
        SameBut (q.Takes c.screen.width.toNat text.length) c.screen c'.screen) ∨
      ∃ r c' cell, (place c.screen.width.toNat text cursor).exec (q, c) =
        (r, q.painted c.screen.width.toNat text.length, c') ∧
        c'.screen = (c.screen.inked (q.ink c.screen.width.toNat text)).withCursor cell := by
  have width_le := c.screen.width.toNat_lt
  have height_le := c.screen.height.toNat_lt
  have painted := refines_paintRows q c.screen.width.toNat text c
  have confined := confined_paintRows text anchor (by omega) (by omega) low c
  have start : (onConsole (q.paintRows c.screen.width.toNat text)).exec (q, c) =
      (((q.paintRows c.screen.width.toNat text).exec c).1, q,
        ((q.paintRows c.screen.width.toNat text).exec c).2) := rfl
  unfold place
  rw [exec_bind_of_ok (exec_get _)]
  dsimp only
  cases run : (q.paintRows c.screen.width.toNat text).exec c with
  | mk r d =>
    rw [run] at painted confined start
    cases r with
    | error e => exact .inl ⟨e, d, exec_bind_of_error start, confined⟩
    | ok _ =>
      right
      have inked : d.screen = c.screen.inked (q.ink c.screen.width.toNat text) := by
        have both := painted () rfl
        rw [exec_paintRows q c.screen text anchor (by omega) low] at both
        exact (congrArg Prod.snd both).symm
      have moved := exec_cursorIntoCell q (c.screen.inked (q.ink c.screen.width.toNat text)) anchor
        room some_rows (Nat.min_le_right cursor text.length)
      rw [width_inked, ← inked] at moved
      rw [exec_bind_of_ok start, exec_bind_of_ok (exec_modify _ _)]
      dsimp only
      rcases cases_of_follows (follows_setCursorPosition _ _) (exec_onConsole _ moved) with
        ⟨d', ran, same⟩ | ⟨e, d', failed, same⟩
      · refine ⟨.ok (), d', q.cellOf c.screen.width.toNat (min cursor text.length),
          exec_bind_of_ok ran, ?_⟩
        rw [same, inked]
      · refine ⟨.error e, d', c.screen.cursor, exec_bind_of_error failed, ?_⟩
        rw [same, inked]
        rfl

theorem redrawn_paint (p : Painter) (c : Faulty Screen) (line : String) (cursor : Nat)
    (some_columns : 0 < c.screen.width) (some_rows : 0 < c.screen.height)
    (low : (p.fold c.screen.width.toNat).lastRow c.screen.width.toNat line.length ≤ 65535)
    (low' : p.lastPainted ≤ 65535) :
    let paint := (do
      makeRoom c.screen.width.toNat c.screen.height.toNat line.length
      place c.screen.width.toNat line.toList cursor : Paint (Faulty Screen) Unit)
    let run := paint.exec (p.fold c.screen.width.toNat, c)
    Redrawn p c.screen line run.1.isOk run.2.1 run.2.2.screen := by
  have length : line.toList.length = line.length := String.length_toList
  have anchor := p.fold_startX_lt (UInt16.lt_iff_toNat_lt.mp some_columns)
  dsimp only
  obtain ⟨cell, roomy⟩ : ∃ cell,
      (makeRoom c.screen.width.toNat c.screen.height.toNat line.length).exec
        (p.fold c.screen.width.toNat, c.screen) = (.ok (), p.ready c.screen line.length,
          (c.screen.scroll (p.room c.screen line.length)).withCursor cell) :=
    exec_makeRoom _ c.screen line.length some_columns some_rows low
  rcases cases_of_follows (follows_makeRoom _ _ _) roomy with ⟨c₁, ran, same⟩ | ⟨e, c₁, failed, same⟩
  case inr =>
    rw [exec_bind_of_error failed]
    dsimp only
    rw [same]
    exact .nothing (.inr rfl)
  rw [exec_bind_of_ok ran]
  have width : c₁.screen.width = c.screen.width := by rw [same]; rfl
  have height : c₁.screen.height = c.screen.height := by rw [same]; rfl
  have fits : (p.ready c.screen line.length).lastRow c.screen.width.toNat line.length <
      (c.screen.height.toNat : Int) := by
    unfold ready room
    rw [lastRow_raise]
    exact lastRow_sub_overflow_lt _ _ _ _
  have known : (p.ready c.screen line.length).lastPainted ≤ 65535 := by
    change (p.fold _).lastPainted - (_ : Int) ≤ 65535
    rw [fold_lastPainted]
    omega
  have placed := place_cases (p.ready c.screen line.length) c₁ line.toList cursor
  rw [width, height, length] at placed
  rcases placed anchor fits some_rows known with ⟨e, c', ran, confined⟩ | ⟨r, c', cell', ran, inked⟩
  · rw [ran]
    rw [same] at confined
    exact .part ((sameBut_withCursor _ cell).trans confined)
  · rw [ran]
    dsimp only
    rw [inked, same, inked_withCursor, withCursor_withCursor]
    exact .whole r.isOk cell'

/-- A redraw fails before it did anything, or it knows the size of the screen and goes on from
there. -/
theorem exec_redraw_cases (p : Painter) (c : Faulty Screen) (line : String) (cursor : Nat) :
    (∃ e d, (redraw line cursor).exec (p, c) = (.error e, p, d) ∧ d.screen = c.screen) ∨
      ∃ d : Faulty Screen, d.screen = c.screen ∧ (redraw line cursor).exec (p, c) =
        (do
          makeRoom (columns d.screen) d.screen.height.toNat line.length
          place (columns d.screen) line.toList cursor : Paint (Faulty Screen) Unit).exec
            (p.fold (columns d.screen), d) := by
  have length : line.toList.length = line.length := String.length_toList
  have width : (consoleWidth : Paint Screen Nat).exec (p, c.screen) =
      (.ok (columns c.screen), p, c.screen) := rfl
  unfold redraw
  dsimp only
  rcases cases_of_follows follows_consoleWidth width with ⟨c₁, ran₁, same₁⟩ | ⟨e, d, failed, same⟩
  case inr => exact .inl ⟨e, d, exec_bind_of_error failed, same⟩
  rw [exec_bind_of_ok ran₁]
  have height : (onConsole Console.height).exec (p, c₁.screen) =
      (.ok c₁.screen.height, p, c₁.screen) := rfl
  rcases cases_of_follows follows_height height with ⟨c₂, ran₂, same₂⟩ | ⟨e, d, failed, same⟩
  case inr => exact .inl ⟨e, d, exec_bind_of_error failed, same.trans same₁⟩
  refine .inr ⟨c₂, same₂.trans same₁, ?_⟩
  rw [exec_bind_of_ok ran₂, exec_bind_of_ok (exec_modify _ _), length, ← same₁, ← same₂]

/-- Whatever fails, a redraw leaves one of these. What is shown of the rows after failures starts
from here, without another look at the operations of a redraw. -/
theorem redrawn_exec (p : Painter) (c : Faulty Screen) (line : String) (cursor : Nat)
    (some_columns : 0 < c.screen.width) (some_rows : 0 < c.screen.height)
    (low : (p.fold c.screen.width.toNat).lastRow c.screen.width.toNat line.length ≤ 65535)
    (low' : p.lastPainted ≤ 65535) :
    Redrawn p c.screen line ((redraw line cursor).exec (p, c)).1.isOk
      ((redraw line cursor).exec (p, c)).2.1 ((redraw line cursor).exec (p, c)).2.2.screen := by
  rcases exec_redraw_cases p c line cursor with ⟨e, d, failed, same⟩ | ⟨d, same, run⟩
  · rw [failed]
    dsimp only
    rw [same]
    exact .nothing (.inl rfl)
  · rw [← same] at some_columns some_rows low ⊢
    rw [run, columns_eq some_columns]
    exact redrawn_paint p d line cursor some_columns some_rows low low'

end LineEdit.Painter
