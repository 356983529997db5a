import LineEdit.Proofs.Console.Strokes
import LineEdit.Proofs.Painter.Redraw

/-!
# One redraw, cell by cell

Whatever the painter takes for its anchor, and whatever the screen showed, one redraw gives every
cell of the screen and every call that it makes. The anchor is folded into the width of the screen,
the screen scrolls by as many rows as the line ends below it, and the cells from the anchor on are
those of the line, down to its last row and blank from there to the lowest row that was painted.
Nothing is drawn past the edges of the screen, apart from blanks for rows that were painted when it
was taller.
-/
namespace LineEdit

open Attempt Screen Faulty

/-- What is drawn is within the width and the height of a screen, apart from blanks that fill whole
rows between two others. -/
def Stroke.Inside (width height : Nat) (last lowest : Int) : Stroke → Prop
  | move _ _ _ => True
  | draw text x y => x.toNat + text.length ≤ width ∧ y.toNat < height
  | fill c count x y =>
    x.toNat + count.toNat ≤ width ∧
      (y.toNat < height ∨
        c = ' ' ∧ x = 0 ∧ count.toNat = width ∧ last < y.toNat ∧ (y.toNat : Int) ≤ lowest)

namespace Painter

variable {p : Painter} {s : Screen} {width height : Nat} {last lowest : Int}

theorem records_draw {text : List Char} {x : Nat} {row : Int} (t : Screen)
    (columns : x + text.length ≤ width) (visible : 0 ≤ row) (rows : row < height)
    (width_le : width ≤ 65535) (height_le : height ≤ 65535) :
    Records recording (Stroke.Inside width height last lowest) (draw text x row) (draw text x row)
      t := by
  unfold draw
  by_cases empty : text.isEmpty
  · rw [if_pos empty, if_pos empty]
    exact records_pure _
  · rw [if_neg empty, if_neg empty]
    refine records_guarded .drawText t fun stroke mem => ?_
    obtain rfl := List.mem_singleton.mp mem
    refine ⟨?_, ?_⟩
    · rw [toNat_saturate (by omega), String.length_ofList]
      exact columns
    · rw [toNat_rowNumber (by omega)]
      omega

/-- Blanks are put into the screen, or they fill a row that is one of the others. -/
theorem records_erase {count x : Nat} {row : Int} (t : Screen) (columns : x + count ≤ width)
    (visible : 0 ≤ row) (low : row ≤ 65535) (width_le : width ≤ 65535)
    (rows : row < height ∨ x = 0 ∧ count = width ∧ last < row ∧ row ≤ lowest) :
    Records recording (Stroke.Inside width height last lowest) (erase count x row)
      (erase count x row) t := by
  unfold erase
  by_cases none : count = 0
  · rw [if_pos none, if_pos none]
    exact records_pure _
  · rw [if_neg none, if_neg none]
    refine records_guarded .fillChar t fun stroke mem => ?_
    obtain rfl := List.mem_singleton.mp mem
    have first : (saturate x).toNat = x := toNat_saturate (by omega)
    have many : (saturate count).toNat = count := toNat_saturate (by omega)
    have here : (rowNumber row).toNat = row.toNat := toNat_rowNumber low
    refine ⟨?_, ?_⟩
    · rw [first, many]
      exact columns
    · rw [here, many]
      rcases rows with inside | ⟨rfl, all, below, stale⟩
      · exact .inl (by omega)
      · exact .inr ⟨rfl, rfl, all, by omega, by omega⟩

theorem records_paintRow {text : List Char} {r : Nat} (t : Screen) (anchor : p.startX < width)
    (rows : p.startY + (r : Int) < height) (width_le : width ≤ 65535) (height_le : height ≤ 65535) :
    Records recording (Stroke.Inside width height last lowest) (p.paintRow width text r)
      (p.paintRow width text r) t := by
  have column := column_le anchor r
  have fits : (p.segment width text r).length ≤ width - p.column r := by
    rw [segment, List.length_take]
    omega
  unfold paintRow
  dsimp only
  by_cases visible : 0 ≤ p.startY + (r : Int)
  · rw [if_pos visible, if_pos visible]
    refine (records_draw t (by omega) visible rows width_le height_le).bind fun _ u _ => ?_
    exact records_erase u (by omega) visible (by omega) width_le (.inl rows)
  · rw [if_neg visible, if_neg visible]
    exact records_pure _

theorem records_paintRows {text : List Char} (t : Screen) (anchor : p.startX < width)
    (room : p.lastRow width text.length < height) (width_le : width ≤ 65535)
    (height_le : height ≤ 65535) (known : p.lastPainted ≤ 65535) :
    Records recording (Stroke.Inside width height (p.lastRow width text.length) p.lastPainted)
      (p.paintRows width text) (p.paintRows width text) t := by
  unfold paintRows
  refine (records_forM fun r mem u => ?_).bind fun _ v _ => records_forM fun k mem u => ?_
  · have inside := List.mem_range.mp mem
    unfold rowCount at inside
    unfold lastRow at room
    exact records_paintRow u anchor (by omega) width_le height_le
  · have stale := List.mem_range.mp mem
    unfold eraseRow
    by_cases visible : 0 ≤ p.lastRow width text.length + 1 + (k : Int)
    · rw [if_pos visible, if_pos visible]
      exact records_erase u (by omega) visible (by omega) width_le
        (.inr ⟨rfl, rfl, by omega, by omega⟩)
    · rw [if_neg visible, if_neg visible]
      exact records_pure _

def besideRecord (state : Painter × Screen) (strokes : List Stroke) : Painter × Faulty Screen :=
  (state.1, recording state.2 strokes)

variable {A : Type} {kind : Stroke → Prop} {state : Painter × Screen}

theorem records_onConsole {act : Attempt (Faulty Screen) A} {plain : Attempt Screen A}
    (records : Records recording kind act plain state.2) :
    Records besideRecord kind (onConsole act) (onConsole plain) state := by
  intro strokes
  obtain ⟨more, ran, kinds⟩ := records strokes
  refine ⟨more, ?_, kinds⟩
  change ((act.exec (recording state.2 strokes)).1, state.1,
    (act.exec (recording state.2 strokes)).2) = _
  rw [ran]
  rfl

theorem records_setCursorPosition (x y : UInt16) (moves : ∀ rows, kind (.move x y rows)) :
    Records besideRecord kind (onConsole (Console.setCursorPosition x y))
      (onConsole (Console.setCursorPosition x y)) state := by
  refine records_onConsole (records_guarded .setCursorPosition _ fun stroke mem => ?_)
  split at mem
  · rw [List.mem_singleton.mp mem]
    exact moves _
  · rw [List.mem_singleton.mp mem]
    exact moves _

theorem records_makeRoom (n : Nat) (moves : ∀ x y rows, kind (.move x y rows)) :
    Records besideRecord kind (makeRoom width height n) (makeRoom width height n) state := by
  unfold makeRoom
  refine records_get (fun strokes => rfl) ?_
  dsimp only [besideRecord]
  split
  · exact (records_setCursorPosition _ _ (moves _ _)).bind fun rows u _ =>
      records_modify fun strokes => rfl
  · exact records_pure _

theorem records_place {text : List Char} (cursor : Nat) (moves : ∀ x y rows, kind (.move x y rows))
    (rows : Records recording kind (state.1.paintRows width text) (state.1.paintRows width text)
      state.2) :
    Records besideRecord kind (place width text cursor) (place width text cursor) state := by
  unfold place
  refine records_get (fun strokes => rfl) ?_
  refine (records_onConsole rows).bind fun _ _ _ => ?_
  refine (records_modify fun strokes => rfl).bind fun _ _ _ => ?_
  exact (records_setCursorPosition _ _ (moves _ _)).bind fun _ _ _ => records_pure _

/-- A redraw stays within the screen, apart from blanks for rows below the line that were painted
before. The console may have become smaller since, so that those rows need not be on it. -/
theorem records_redraw (line : String) (cursor : Nat) (some_columns : 0 < s.width)
    (some_rows : 0 < s.height)
    (low : (p.fold s.width.toNat).lastRow s.width.toNat line.length ≤ 65535)
    (known : p.lastPainted ≤ 65535) :
    let q := (p.fold s.width.toNat).raise
      ((p.fold s.width.toNat).overflow s.width.toNat s.height.toNat line.length)
    Records besideRecord
      (Stroke.Inside s.width.toNat s.height.toNat (q.lastRow s.width.toNat line.length)
        q.lastPainted)
      (redraw line cursor) (redraw line cursor) (p, s) := by
  intro q
  have width_lt := s.width.toNat_lt
  have height_lt := s.height.toNat_lt
  have length : line.toList.length = line.length := String.length_toList
  have anchor : q.startX < s.width.toNat :=
    p.fold_startX_lt (UInt16.lt_iff_toNat_lt.mp some_columns)
  obtain ⟨cell, room⟩ := exec_makeRoom (p.fold s.width.toNat) s line.toList.length some_columns
    some_rows (by rwa [length])
  have inside : q.lastRow s.width.toNat line.toList.length < (s.height.toNat : Int) := by
    rw [length, lastRow_raise]
    exact (p.fold s.width.toNat).lastRow_sub_overflow_lt _ _ _
  have painted : q.lastPainted ≤ 65535 := by
    change (p.fold s.width.toNat).lastPainted - _ ≤ 65535
    rw [fold_lastPainted]
    omega
  have rows (t : Screen) := records_paintRows t anchor inside (by omega) (by omega) painted
  rw [length] at room rows
  unfold redraw
  dsimp only
  have counted : Records besideRecord
      (Stroke.Inside s.width.toNat s.height.toNat (q.lastRow s.width.toNat line.length)
        q.lastPainted) consoleWidth consoleWidth (p, s) :=
    (records_onConsole (records_guarded .width s nofun)).bind fun _ _ _ => records_pure _
  refine counted.bind_of_ok (exec_consoleWidth p some_columns) ?_
  refine (records_onConsole (records_guarded .height s nofun)).bind_of_ok
    (exec_onConsole p (exec_height s)) ?_
  refine (records_modify fun strokes => rfl).bind_of_ok (exec_modify _ _) ?_
  rw [length]
  refine (records_makeRoom line.length fun _ _ _ => trivial).bind_of_ok room ?_
  exact records_place cursor (fun _ _ _ => trivial) (rows _)

theorem fold_eq (p : Painter) (width : Nat) :
    p.fold width = ⟨p.startX % width, p.startY + (p.startX / width : Nat), p.lastPainted⟩ := by
  unfold fold
  split
  next inside =>
    rw [Nat.mod_eq_of_lt inside, Nat.div_eq_of_lt inside, Int.natCast_zero, Int.add_zero]
  next => rfl

/-- What ink leaves of a screen that scrolled, cell by cell. -/
theorem cell?_scroll_inked (s : Screen) (d : Nat) (q : Painter) (text : List Char) {x y : Nat}
    (column : x < s.width.toNat) (row : y < s.height.toNat) :
    ((s.scroll d).inked (q.ink s.width.toNat text)).cell? x y =
      some (
        if (y : Int) < q.startY ∨ (y : Int) = q.startY ∧ x < q.startX then
          (s.cell? x (y + d)).getD ' '
        else if (y : Int) ≤ q.lastRow s.width.toNat text.length then
          (text[((y : Int) - q.startY).toNat * s.width.toNat + x - q.startX]?).getD ' '
        else if (y : Int) ≤ q.lastPainted then ' '
        else (s.cell? x (y + d)).getD ' ') := by
  rw [cell?_inked, cell?_scroll, if_pos ⟨column, row⟩]
  unfold ink
  split
  · rfl
  · split
    · rfl
    · split
      · rfl
      · rfl

/-- One redraw from any state, on any screen that has a cell. Let the anchor be folded into the
width of the screen, and let `e` be the row where the line then ends. As long as a console can count
that row, the redraw succeeds, the screen scrolls by the rows that `e` is below it, and the painter
is where the line went. The cells before the anchor are those that were scrolled there; from the
anchor on they are those of the line, with blanks behind it to the right edge and in the rows below
it that were painted before; the others are those that were scrolled there. The cursor is in its
cell of the line, or in the first row if that is above the screen. The same redraw, with a record of
what is done to the screen, puts nothing past its right edge, and below its last row nothing but
blanks for rows painted before. -/
theorem redraw_exact (p : Painter) (s : Screen) (line : String) (cursor : Nat)
    (some_columns : 0 < s.width) (some_rows : 0 < s.height) (known : p.lastPainted ≤ 65535) :
    let width := s.width.toNat
    let height := s.height.toNat
    let startX := p.startX % width
    let startY : Int := p.startY + (p.startX / width : Nat)
    let e : Int := startY + ((startX + line.length) / width : Nat)
    let d := (e - height + 1).toNat
    let place := startX + min cursor line.length
    e ≤ 65535 → ∃ t strokes,
      (redraw line cursor : Paint Screen Unit).exec (p, s) =
        (.ok (), ⟨startX, startY - d, e - d⟩, t) ∧
      (redraw line cursor : Paint (Faulty Screen) Unit).exec (p, sound s) =
        (.ok (), ⟨startX, startY - d, e - d⟩, ⟨t, none, strokes⟩) ∧
      t.width = s.width ∧ t.height = s.height ∧ t.scrolled = s.scrolled + d ∧
      (∀ x < width, ∀ y < height, t.cell? x y = some (
        if (y : Int) < startY - d ∨ (y : Int) = startY - d ∧ x < startX then
          (s.cell? x (y + d)).getD ' '
        else if (y : Int) ≤ e - d then
          (line.toList[((y : Int) - (startY - d)).toNat * width + x - startX]?).getD ' '
        else if (y : Int) ≤ p.lastPainted - d then ' '
        else (s.cell? x (y + d)).getD ' ')) ∧
      t.cursor.1.toNat = place % width ∧
      (t.cursor.2.toNat : Int) = max 0 (startY - d + (place / width : Nat)) ∧
      ∀ stroke ∈ strokes, stroke.Inside width height (e - d) (p.lastPainted - d) := by
  intro width height startX startY e d place counted
  have length : line.toList.length = line.length := String.length_toList
  have columns : 0 < width := UInt16.lt_iff_toNat_lt.mp some_columns
  have width_lt : width < 2 ^ 16 := s.width.toNat_lt
  have height_lt : height < 2 ^ 16 := s.height.toNat_lt
  have folded : p.fold width = ⟨startX, startY, p.lastPainted⟩ := p.fold_eq width
  have ends : (p.fold width).lastRow width line.length = e := by
    rw [folded]
    rfl
  have overflow : (p.fold width).overflow width height line.length = d := by
    rw [Painter.overflow, ends, depth]
    congr 1
    omega
  have raised : (p.fold width).raise d = ⟨startX, startY - d, p.lastPainted - d⟩ := by
    rw [folded]
    rfl
  have last : (⟨startX, startY - d, p.lastPainted - d⟩ : Painter).lastRow width line.length =
      e - d := by
    rw [← raised, lastRow_raise, ends]
  have visible : e - d < height := by
    rw [← ends, ← overflow]
    exact (p.fold width).lastRow_sub_overflow_lt _ _ _
  have run := exec_redraw p s line cursor some_columns some_rows (by rwa [ends]) known
  have recorded := records_redraw line cursor some_columns some_rows (by rwa [ends]) known
  dsimp only at run recorded
  rw [overflow, raised] at run recorded
  rw [last] at recorded
  obtain ⟨strokes, record, inside⟩ := recorded []
  rw [run] at record
  rw [painted, last] at run record
  refine ⟨_, strokes, run, record, rfl, rfl, rfl, ?_, ?_, ?_, inside⟩
  · intro x column y row
    rw [cell?_withCursor, cell?_scroll_inked s d _ _ column row, length, last]
  · exact toNat_saturate (Nat.le_of_lt_succ (Nat.lt_trans (Nat.mod_lt _ columns) width_lt))
  · have mono : place / width ≤ (startX + line.length) / width :=
      Nat.div_le_div_right (Nat.add_le_add_left (Nat.min_le_right _ _) _)
    have row : startY - d + ((place / width : Nat) : Int) ≤ 65535 := by omega
    exact toNat_rowNumber_eq_max row

/-- A screen that was wider and taller when the painter was anchored to the right of where it now
ends, and painted as far down as where it now has no rows. -/
def shrunk : Painter × Screen :=
  (⟨6, 0, 5⟩, ((Screen.blank 4 3).write "abcd".toList 0 0).write "wxyz".toList 0 1)

/-- The first row scrolls away, and the second keeps what is left of the anchor. -/
theorem redraw_exact_shrunk :
    0 < shrunk.2.width ∧ 0 < shrunk.2.height ∧ shrunk.1.lastPainted ≤ 65535 ∧
    ∃ t strokes,
      (redraw "1234567" 9).exec (shrunk.1, sound shrunk.2) =
        (.ok (), ⟨2, 0, 2⟩, ⟨t, none, strokes⟩) ∧
      t.scrolled = 1 ∧ t.cell? 1 0 = some 'x' ∧ t.cell? 2 0 = some '1' ∧ t.cell? 0 2 = some '7' ∧
      t.cell? 1 2 = some ' ' ∧ t.cursor.1.toNat = 1 ∧ (t.cursor.2.toNat : Int) = 2 ∧
      ∀ stroke ∈ strokes, stroke.Inside 4 3 2 4 := by
  obtain ⟨t, strokes, -, record, -, -, scrolled, cells, column, row, inside⟩ :=
    redraw_exact shrunk.1 shrunk.2 "1234567" 9 (by decide) (by decide) (by decide) (by decide)
  refine ⟨by decide, by decide, by decide, t, strokes, record, scrolled, ?_, ?_, ?_, ?_, column, row,
    inside⟩
  · exact (cells 1 (by decide) 0 (by decide)).trans (by decide +kernel)
  · exact (cells 2 (by decide) 0 (by decide)).trans (by decide +kernel)
  · exact (cells 0 (by decide) 2 (by decide)).trans (by decide +kernel)
  · exact (cells 1 (by decide) 2 (by decide)).trans (by decide +kernel)

end Painter

end LineEdit
