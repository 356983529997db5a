import LineEdit.Painter
import LineEdit.Proofs.Console.Screen

/-!
# What one redraw puts on a screen

The ink of a line is what a redraw puts on a screen: the characters of the line in their own cells
from the anchor on, blanks behind them up to the right edge, and blanks in the rows below that were
painted before. A redraw scrolls the screen by as many rows as the line reaches below it, puts the
ink of the line on it, and leaves the cursor in the cell that belongs to it.

What is drawn and blanked in one row is ink, the rows together are the ink of the line, and a redraw
makes room for the line before it puts any of it there.
-/
namespace LineEdit

open Attempt Screen

theorem toNat_saturate {n : Nat} (h : n ≤ 65535) : (saturate n).toNat = n := by
  rw [saturate, UInt16.toNat_ofNat', Nat.min_eq_left h, Nat.mod_eq_of_lt (by omega)]

theorem toNat_rowNumber {row : Int} (h : row ≤ 65535) : (rowNumber row).toNat = row.toNat := by
  rw [rowNumber, UInt16.toNat_ofNat', Nat.mod_eq_of_lt (by omega)]

theorem toNat_rowNumber_eq_max {row : Int} (h : row ≤ 65535) :
    ((rowNumber row).toNat : Int) = max 0 row := by
  rw [toNat_rowNumber h]
  omega

namespace Painter

/-- Drawn characters are ink from their column on, and erased cells are in the same way blanks. -/
theorem exec_draw (s : Screen) (text : List Char) {x : Nat} {row : Int} (hx : x ≤ 65535)
    (hrow : row ≤ 65535) :
    (draw text x row).exec s =
      (.ok (), s.inked fun i j => if j = row.toNat ∧ x ≤ i then text[i - x]? else none) := by
  unfold draw
  by_cases empty : text.isEmpty
  · have nothing : text = [] := List.isEmpty_iff.mp empty
    rw [if_pos empty, inked_of_none s (by simp [nothing])]
    rfl
  · rw [if_neg empty, exec_drawText, toNat_saturate hx, toNat_rowNumber hrow, write_eq_inked,
      String.toList_ofList]

theorem exec_erase (s : Screen) {count x : Nat} {row : Int} (hcount : count ≤ 65535)
    (hx : x ≤ 65535) (hrow : row ≤ 65535) :
    (erase count x row).exec s =
      (.ok (), s.inked fun i j =>
        if j = row.toNat ∧ x ≤ i ∧ i < x + count then some ' ' else none) := by
  unfold erase
  by_cases none : count = 0
  · rw [if_pos none, inked_of_none s]
    · rfl
    · intro i _ j _
      rw [if_neg (by omega)]
  · rw [if_neg none, exec_fillChar, toNat_saturate hcount, toNat_saturate hx,
      toNat_rowNumber hrow, write_eq_inked]
    congr 2
    funext i j
    rw [List.getElem?_replicate]
    by_cases inside : j = row.toNat ∧ x ≤ i ∧ i < x + count
    · rw [if_pos ⟨inside.1, inside.2.1⟩, if_pos (by omega), if_pos inside]
    · rw [if_neg inside]
      split
      · exact if_neg (by omega)
      · rfl

/-- The ink of row number `r` of a line: its characters from the row's first column on, and blanks
behind them. -/
def rowInk (p : Painter) (width : Nat) (text : List Char) (r : Nat) : Ink := fun x y =>
  if (y : Int) = p.startY + (r : Int) ∧ p.column r ≤ x then
    some ((text[r * width + x - p.startX]?).getD ' ')
  else none

theorem startX_le_column {p : Painter} {width : Nat} (anchor : p.startX < width) (r : Nat) :
    p.startX ≤ r * width + p.column r := by
  unfold column
  split
  next first =>
    rw [first]
    omega
  next later =>
    have := Nat.le_mul_of_pos_left width (Nat.pos_of_ne_zero later)
    omega

theorem column_le {p : Painter} {width : Nat} (anchor : p.startX < width) (r : Nat) :
    p.column r < width := by
  unfold column
  split <;> omega

/-- A row shows the characters of the line that belong into its columns. -/
theorem getElem?_segment {p : Painter} {width : Nat} (anchor : p.startX < width)
    (text : List Char) (r : Nat) {x : Nat} (left : p.column r ≤ x) (right : x < width) :
    (p.segment width text r)[x - p.column r]? = text[r * width + x - p.startX]? := by
  have := startX_le_column anchor r
  rw [segment, List.getElem?_take_of_lt (by omega), List.getElem?_drop]
  congr 1
  omega

theorem exec_paintRow (p : Painter) (s : Screen) (text : List Char) (r : Nat)
    (anchor : p.startX < s.width.toNat) (low : p.startY + (r : Int) ≤ 65535) :
    (p.paintRow s.width.toNat text r).exec s =
      (.ok (), s.inked (p.rowInk s.width.toNat text r)) := by
  have width_le := s.width.toNat_lt
  have column := column_le anchor r
  unfold paintRow
  dsimp only
  by_cases visible : 0 ≤ p.startY + (r : Int)
  · have fits : (p.segment s.width.toNat text r).length ≤ s.width.toNat - p.column r := by
      rw [segment, List.length_take]
      omega
    rw [if_pos visible, exec_bind_of_ok (exec_draw s _ (by omega) low),
      exec_erase _ (by omega) (by omega) low, inked_inked]
    congr 1
    refine inked_congr s fun x hx y _ => ?_
    unfold rowInk
    by_cases inside : (y : Int) = p.startY + (r : Int) ∧ p.column r ≤ x
    · have here : y = (p.startY + (r : Int)).toNat := by omega
      rw [if_pos inside, ← getElem?_segment anchor text r inside.2 hx]
      by_cases drawn : x < p.column r + (p.segment s.width.toNat text r).length
      · rw [if_neg (by omega), if_pos ⟨here, inside.2⟩, List.getElem?_eq_getElem (by omega)]
        rfl
      · rw [if_pos (by omega), List.getElem?_eq_none (by omega)]
        rfl
    · rw [if_neg inside, if_neg (by omega), if_neg (by omega)]
      rfl
  · rw [if_neg visible, inked_of_none s]
    · rfl
    · intro x _ y _
      rw [rowInk, if_neg (by omega)]

/-- A loop whose turns each put ink on the screen puts all of it there. The rows of a line and the
blanks below them are two such loops. -/
theorem exec_forM_range (s : Screen) (act : Nat → Attempt Screen Unit) (turn total : Nat → Ink)
    (n : Nat) (nothing : ∀ x y, total 0 x y = none)
    (more : ∀ k < n, ∀ x y, total (k + 1) x y = (turn k x y).or (total k x y))
    (each : ∀ k < n, ∀ t : Screen, t.width = s.width → t.height = s.height →
      (act k).exec t = (.ok (), t.inked (turn k))) :
    ((List.range n).forM act).exec s = (.ok (), s.inked (total n)) := by
  induction n with
  | zero =>
    rw [inked_of_none s fun x _ y _ => nothing x y]
    rfl
  | succ n ih =>
    have before := ih (fun k hk => more k (by omega)) fun k hk => each k (by omega)
    have last := each n (by omega) (s.inked (total n)) rfl rfl
    simp only [List.forM_eq_forM] at before ⊢
    rw [List.range_succ, List.forM_append, exec_bind_of_ok before, List.forM_cons,
      exec_bind_of_ok last, inked_inked, List.forM_nil]
    exact congrArg (fun t => (Except.ok (), t))
      (inked_congr s fun x _ y _ => (more n (by omega) x y).symm)

/-- The ink of the first `n` rows of a line. -/
def upperInk (p : Painter) (width : Nat) (text : List Char) (n : Nat) : Ink := fun x y =>
  if p.startY ≤ y ∧ (y : Int) < p.startY + (n : Int) ∧ ((y : Int) = p.startY → p.startX ≤ x) then
    some ((text[((y : Int) - p.startY).toNat * width + x - p.startX]?).getD ' ')
  else none

def blankInk (top : Int) (n : Nat) : Ink := fun _ y =>
  if top ≤ y ∧ (y : Int) < top + (n : Int) then some ' ' else none

/-- The ink of a line: its characters from the anchor on, blanks behind them, and blanks as far down
as was painted before. -/
def ink (p : Painter) (width : Nat) (text : List Char) : Ink := fun x y =>
  if (y : Int) < p.startY ∨ (y : Int) = p.startY ∧ x < p.startX then none
  else if (y : Int) ≤ p.lastRow width text.length then
    some ((text[((y : Int) - p.startY).toNat * width + x - p.startX]?).getD ' ')
  else if (y : Int) ≤ p.lastPainted then some ' ' else none

theorem startY_le_lastRow (p : Painter) (width n : Nat) : p.startY ≤ p.lastRow width n :=
  Int.le_add_of_nonneg_right (Int.natCast_nonneg _)

theorem ink_before {p : Painter} {x y : Nat}
    (before : (y : Int) < p.startY ∨ (y : Int) = p.startY ∧ x < p.startX) (width : Nat)
    (text : List Char) : p.ink width text x y = none :=
  if_pos before

theorem ink_inside {p : Painter} {width x y : Nat} {text : List Char}
    (behind : ¬((y : Int) < p.startY ∨ (y : Int) = p.startY ∧ x < p.startX))
    (inside : (y : Int) ≤ p.lastRow width text.length) :
    p.ink width text x y =
      some ((text[((y : Int) - p.startY).toNat * width + x - p.startX]?).getD ' ') := by
  rw [ink, if_neg behind, if_pos inside]

theorem ink_stale {p : Painter} {width y : Nat} {text : List Char}
    (below : p.lastRow width text.length < y) (stale : (y : Int) ≤ p.lastPainted) (x : Nat) :
    p.ink width text x y = some ' ' := by
  have := p.startY_le_lastRow width text.length
  rw [ink, if_neg (by omega), if_neg (by omega), if_pos stale]

theorem ink_beyond {p : Painter} {width y : Nat} {text : List Char}
    (below : p.lastRow width text.length < y) (beyond : p.lastPainted < y) (x : Nat) :
    p.ink width text x y = none := by
  have := p.startY_le_lastRow width text.length
  rw [ink, if_neg (by omega), if_neg (by omega), if_neg (by omega)]

theorem upperInk_succ (p : Painter) (width : Nat) (text : List Char) (n x y : Nat) :
    p.upperInk width text (n + 1) x y =
      (p.rowInk width text n x y).or (p.upperInk width text n x y) := by
  unfold upperInk rowInk
  by_cases row : (y : Int) = p.startY + (n : Int)
  · -- The first row alone does not begin in the first column.
    have count : ((y : Int) - p.startY).toNat = n := by omega
    by_cases first : n = 0
    · have column : p.column n = p.startX := if_pos first
      by_cases left : p.startX ≤ x
      · rw [if_pos (by omega), if_pos ⟨row, by omega⟩, count]
        rfl
      · rw [if_neg (by omega), if_neg (by omega), if_neg (by omega)]
        rfl
    · have column : p.column n = 0 := if_neg first
      rw [if_pos (by omega), if_pos ⟨row, by omega⟩, count]
      rfl
  · rw [if_neg (by omega : ¬((y : Int) = p.startY + (n : Int) ∧ p.column n ≤ x)), Option.none_or]
    by_cases above : p.startY ≤ y ∧ (y : Int) < p.startY + (n : Int) ∧
        ((y : Int) = p.startY → p.startX ≤ x)
    · rw [if_pos above, if_pos ⟨above.1, by omega, above.2.2⟩]
    · rw [if_neg above, if_neg fun h => above ⟨h.1, by omega, h.2.2⟩]

theorem exec_upperRows (p : Painter) (s : Screen) (text : List Char) (n : Nat)
    (anchor : p.startX < s.width.toNat) (low : p.startY + (n : Int) ≤ 65536) :
    ((List.range n).forM (p.paintRow s.width.toNat text)).exec s =
      (.ok (), s.inked (p.upperInk s.width.toNat text n)) := by
  refine exec_forM_range s _ (p.rowInk s.width.toNat text) (p.upperInk s.width.toNat text) n
    (fun x y => if_neg (by omega)) (fun k _ => p.upperInk_succ _ text k) fun k hk t width _ => ?_
  rw [← width] at anchor ⊢
  exact exec_paintRow p t text k anchor (by omega)

theorem exec_eraseRow (s : Screen) {row : Int} (low : row ≤ 65535) :
    (eraseRow s.width.toNat row).exec s =
      (.ok (), s.inked fun _ y => if (y : Int) = row then some ' ' else none) := by
  have width_le := s.width.toNat_lt
  unfold eraseRow
  by_cases visible : 0 ≤ row
  · rw [if_pos visible, exec_erase s (by omega) (by omega) low]
    refine congrArg (fun t => (Except.ok (), t)) (inked_congr s fun x hx y _ => ?_)
    by_cases here : (y : Int) = row
    · rw [if_pos here, if_pos (by omega)]
    · rw [if_neg here, if_neg (by omega)]
  · rw [if_neg visible, inked_of_none s]
    · rfl
    · intro x _ y _
      exact if_neg (by omega)

theorem exec_eraseRows (s : Screen) (top : Int) (n : Nat) (low : top + (n : Int) ≤ 65536) :
    ((List.range n).forM fun k => eraseRow s.width.toNat (top + (k : Int))).exec s =
      (.ok (), s.inked (blankInk top n)) := by
  refine exec_forM_range s _ (fun k _ y => if (y : Int) = top + (k : Int) then some ' ' else none)
    (blankInk top) n (fun x y => if_neg (by omega)) (fun k _ x y => ?_) fun k hk t width _ => ?_
  · unfold blankInk
    by_cases row : (y : Int) = top + (k : Int)
    · rw [if_pos row, if_pos (by omega)]
      rfl
    · rw [if_neg row, Option.none_or]
      by_cases above : top ≤ y ∧ (y : Int) < top + (k : Int)
      · rw [if_pos above, if_pos (by omega)]
      · rw [if_neg above, if_neg (by omega)]
  · rw [← width]
    exact exec_eraseRow t (by omega)

/-- The rows of a line and the blanks below them are the ink of the line. From here on painting is
reasoned about cell by cell, and no longer row by row. -/
theorem exec_paintRows (p : Painter) (s : Screen) (text : List Char)
    (anchor : p.startX < s.width.toNat) (low : p.lastRow s.width.toNat text.length ≤ 65535)
    (low' : p.lastPainted ≤ 65535) :
    (p.paintRows s.width.toNat text).exec s = (.ok (), s.inked (p.ink s.width.toNat text)) := by
  have last : p.startY + (p.rowCount s.width.toNat text.length : Int) =
      p.lastRow s.width.toNat text.length + 1 := by
    simp only [rowCount, lastRow]
    omega
  unfold paintRows
  rw [exec_bind_of_ok (exec_upperRows p s text _ anchor (by omega))]
  have below := exec_eraseRows
    (s.inked (p.upperInk s.width.toNat text (p.rowCount s.width.toNat text.length)))
    (p.lastRow s.width.toNat text.length + 1)
    (p.lastPainted - p.lastRow s.width.toNat text.length).toNat (by omega)
  rw [width_inked] at below
  rw [below, inked_inked]
  refine congrArg (fun t => (Except.ok (), t)) (inked_congr s fun x _ y _ => ?_)
  have first := p.startY_le_lastRow s.width.toNat text.length
  unfold blankInk upperInk
  by_cases before : (y : Int) < p.startY ∨ (y : Int) = p.startY ∧ x < p.startX
  · rw [ink_before before, if_neg (by omega), if_neg (by omega)]
    rfl
  · by_cases inside : (y : Int) ≤ p.lastRow s.width.toNat text.length
    · rw [ink_inside before inside, if_neg (by omega), if_pos (by omega)]
      rfl
    · -- Below the line only the blanks are left, as far as they go.
      rw [Option.or_eq_left_of_none (if_neg (by omega))]
      by_cases stale : (y : Int) ≤ p.lastPainted
      · rw [ink_stale (by omega) stale, if_pos (by omega)]
      · rw [ink_beyond (by omega) (by omega), if_neg (by omega)]

/-- How many rows the given row is below the last one of a console, none if it is on it or above. -/
def depth (height : Nat) (row : Int) : Nat := (row + 1 - (height : Int)).toNat

/-- By how many rows a line of `n` characters reaches below a console. -/
def overflow (p : Painter) (width height n : Nat) : Nat := depth height (p.lastRow width n)

/-- The number of columns that a painter takes a screen for, which is one for a screen without
columns. -/
def columns (s : Screen) : Nat := max s.width.toNat 1

theorem columns_eq {s : Screen} (some_columns : 0 < s.width) : columns s = s.width.toNat :=
  Nat.max_eq_left (UInt16.lt_iff_toNat_lt.mp some_columns)

/-- A console can count the last row of a line of `n` characters, before it scrolls for it. -/
def InReach (p : Painter) (s : Screen) (n : Nat) : Prop :=
  (p.fold (columns s)).lastRow (columns s) n ≤ 65535

instance (p : Painter) (s : Screen) (n : Nat) : Decidable (p.InReach s n) :=
  inferInstanceAs (Decidable (_ ≤ _))

/-- The painter after the console scrolled by `n` rows. -/
def raise (p : Painter) (n : Nat) : Painter := ⟨p.startX, p.startY - n, p.lastPainted - n⟩

def reaching (p : Painter) (row : Int) : Painter := { p with lastPainted := row }

/-- The painter after it painted a line of `n` characters. -/
def painted (p : Painter) (width n : Nat) : Painter := p.reaching (p.lastRow width n)

@[simp] theorem raise_zero (p : Painter) : p.raise 0 = p := by
  simp only [raise, Int.natCast_zero, Int.sub_zero]

theorem shift_eq_raise (p : Painter) {n : Nat} (h : n ≤ 65535) :
    p.shift (UInt16.ofNat n) = p.raise n := by
  rw [shift, UInt16.toNat_ofNat', Nat.mod_eq_of_lt (by omega)]
  rfl

theorem exec_onConsole {C A : Type} [Console C] {act : Attempt C A} {r : Except ConsoleError A}
    {s t : C} (p : Painter) (h : act.exec s = (r, t)) :
    (onConsole act).exec (p, s) = (r, p, t) := by
  change ((act.exec s).1, p, (act.exec s).2) = _
  rw [h]

theorem exec_consoleWidth (p : Painter) {s : Screen} (some_columns : 0 < s.width) :
    (consoleWidth : Paint Screen Nat).exec (p, s) = (.ok s.width.toNat, p, s) := by
  have columns : 0 < s.width.toNat := UInt16.lt_iff_toNat_lt.mp some_columns
  change (Except.ok (max s.width.toNat 1), p, s) = _
  rw [Nat.max_eq_left columns]

theorem lastPainted_anchored_le (x y : UInt16) : (anchored x y).lastPainted ≤ 65535 := by
  have row := y.toNat_lt
  change (y.toNat : Int) ≤ 65535
  omega

theorem exec_begin (p : Painter) (s : Screen) :
    (begin : Paint Screen Unit).exec (p, s) = (.ok (), anchored s.cursor.1 s.cursor.2, s) := rfl

theorem fold_startX_lt (p : Painter) {width : Nat} (some_columns : 0 < width) :
    (p.fold width).startX < width := by
  unfold fold
  split
  · assumption
  · exact Nat.mod_lt _ some_columns

theorem fold_fold (p : Painter) {width : Nat} (some_columns : 0 < width) :
    (p.fold width).fold width = p.fold width :=
  if_pos (p.fold_startX_lt some_columns)

@[simp] theorem fold_lastPainted (p : Painter) (width : Nat) :
    (p.fold width).lastPainted = p.lastPainted := by
  unfold fold
  split <;> rfl

@[simp] theorem lastRow_raise (p : Painter) (d width n : Nat) :
    (p.raise d).lastRow width n = p.lastRow width n - d := by
  simp only [lastRow, raise]
  omega

theorem lastRow_sub_overflow_lt (p : Painter) (width height n : Nat) :
    p.lastRow width n - (p.overflow width height n : Int) < height := by
  unfold overflow depth
  omega

/-- Moving the cursor below a screen raises the painter as far as the screen scrolls. -/
theorem exec_moveCursor (p : Painter) {s : Screen} {x y : UInt16} (column : x < s.width)
    (some_rows : 0 < s.height) :
    (moveCursor x y).exec (p, s) =
      (.ok (), p.raise (y.toNat + 1 - s.height.toNat),
        (s.scroll (y.toNat + 1 - s.height.toNat)).withCursor
          (x, UInt16.ofNat (min y.toNat (s.height.toNat - 1)))) := by
  have row := y.toNat_lt
  have rows : 0 < s.height.toNat := UInt16.lt_iff_toNat_lt.mp some_rows
  unfold moveCursor
  rw [exec_bind_of_ok (exec_onConsole p (exec_setCursorPosition s column some_rows)),
    exec_modify, shift_eq_raise p (by omega)]

/-- Room for a line that reaches below a screen is made by scrolling as far as it does. The cursor
is left anywhere, as it is placed later. -/
theorem exec_makeRoom (p : Painter) (s : Screen) (n : Nat) (some_columns : 0 < s.width)
    (some_rows : 0 < s.height) (low : p.lastRow s.width.toNat n ≤ 65535) :
    ∃ cursor, (makeRoom s.width.toNat s.height.toNat n).exec (p, s) =
      (.ok (), p.raise (p.overflow s.width.toNat s.height.toNat n),
        (s.scroll (p.overflow s.width.toNat s.height.toNat n)).withCursor cursor) := by
  unfold makeRoom overflow depth
  rw [exec_bind_of_ok (exec_get _)]
  dsimp only
  generalize p.lastRow s.width.toNat n = last at low ⊢
  by_cases below : (s.height.toNat : Int) ≤ last
  · have row : (saturate last.toNat).toNat + 1 - s.height.toNat =
        (last + 1 - (s.height.toNat : Int)).toNat := by
      rw [toNat_saturate (by omega)]
      omega
    rw [if_pos below, exec_moveCursor p some_columns some_rows, row]
    exact ⟨_, rfl⟩
  · have row : (last + 1 - (s.height.toNat : Int)).toNat = 0 := by omega
    rw [if_neg below, row, scroll_zero, raise_zero]
    exact ⟨s.cursor, rfl⟩

/-- The cursor goes into its cell of a line that ends on the screen without scrolling. -/
theorem exec_cursorIntoCell (p : Painter) (s : Screen) {n cursor : Nat}
    (anchor : p.startX < s.width.toNat) (room : p.lastRow s.width.toNat n < (s.height.toNat : Int))
    (some_rows : 0 < s.height) (inside : cursor ≤ n) :
    (Console.setCursorPosition (p.cellOf s.width.toNat cursor).1 (p.cellOf s.width.toNat cursor).2 :
      Attempt Screen UInt16).exec s = (.ok 0, s.withCursor (p.cellOf s.width.toNat cursor)) := by
  have height_le := s.height.toNat_lt
  have width_le := s.width.toNat_lt
  have rows : 0 < s.height.toNat := UInt16.lt_iff_toNat_lt.mp some_rows
  have column := Nat.mod_lt (p.startX + cursor) (Nat.zero_lt_of_lt anchor)
  have above : p.startY + ((p.startX + cursor) / s.width.toNat : Nat) < (s.height.toNat : Int) := by
    have mono : (p.startX + cursor) / s.width.toNat ≤ (p.startX + n) / s.width.toNat :=
      Nat.div_le_div_right (by omega)
    unfold lastRow at room
    omega
  have moved := exec_setCursorPosition s (x := (p.cellOf s.width.toNat cursor).1)
    (y := (p.cellOf s.width.toNat cursor).2)
    (by
      rw [UInt16.lt_iff_toNat_lt, cellOf, toNat_saturate (by omega)]
      exact column)
    some_rows
  have row : (p.cellOf s.width.toNat cursor).2.toNat < s.height.toNat := by
    rw [cellOf, toNat_rowNumber (by omega)]
    omega
  rw [Nat.sub_eq_zero_of_le row, scroll_zero, Nat.min_eq_left (Nat.le_sub_one_of_lt row),
    UInt16.ofNat_toNat] at moved
  exact moved

/-- A line that ends on the screen is put there without scrolling. -/
theorem exec_place (p : Painter) (s : Screen) (text : List Char) (cursor : Nat)
    (anchor : p.startX < s.width.toNat)
    (room : p.lastRow s.width.toNat text.length < (s.height.toNat : Int))
    (some_rows : 0 < s.height) (low : p.lastPainted ≤ 65535) :
    (place s.width.toNat text cursor).exec (p, s) =
      (.ok (), p.painted s.width.toNat text.length,
        (s.inked (p.ink s.width.toNat text)).withCursor
          (p.cellOf s.width.toNat (min cursor text.length))) := by
  have height_le := s.height.toNat_lt
  have moved := exec_cursorIntoCell p (s.inked (p.ink s.width.toNat text)) anchor room some_rows
    (Nat.min_le_right cursor text.length)
  rw [width_inked] at moved
  unfold place
  rw [exec_bind_of_ok (exec_get _), exec_bind_of_ok
    (exec_onConsole p (exec_paintRows p s text anchor (by omega) low)),
    exec_bind_of_ok (exec_modify _ _)]
  dsimp only
  rw [exec_bind_of_ok (exec_onConsole _ moved), exec_pure]
  rfl

/-- A redraw scrolls the screen as far as the line reaches below it, puts the ink of the line on it
and leaves the cursor in its cell. -/
theorem exec_redraw (p : Painter) (s : Screen) (line : String) (cursor : Nat)
    (some_columns : 0 < s.width) (some_rows : 0 < s.height)
    (low : (p.fold s.width.toNat).lastRow s.width.toNat line.length ≤ 65535)
    (low' : p.lastPainted ≤ 65535) :
    let q := p.fold s.width.toNat
    let d := q.overflow s.width.toNat s.height.toNat line.length
    (Painter.redraw line cursor : Paint Screen Unit).exec (p, s) =
      (.ok (), (q.raise d).painted s.width.toNat line.length,
        ((s.scroll d).inked ((q.raise d).ink s.width.toNat line.toList)).withCursor
          ((q.raise d).cellOf s.width.toNat (min cursor line.length))) := by
  intro q d
  have length : line.toList.length = line.length := String.length_toList
  have anchor := p.fold_startX_lt (UInt16.lt_iff_toNat_lt.mp some_columns)
  obtain ⟨cell, room⟩ := exec_makeRoom q s line.toList.length some_columns some_rows
    (by rwa [length])
  rw [length] at room
  have placed := exec_place (q.raise d) ((s.scroll d).withCursor cell) line.toList cursor anchor
    (by
      rw [length, lastRow_raise]
      exact q.lastRow_sub_overflow_lt _ _ _)
    some_rows
    (by
      change (p.fold s.width.toNat).lastPainted - (d : Int) ≤ 65535
      rw [fold_lastPainted]
      omega)
  unfold redraw
  dsimp only
  rw [exec_bind_of_ok (exec_consoleWidth p some_columns),
    exec_bind_of_ok (exec_onConsole p (exec_height s)), exec_bind_of_ok (exec_modify _ _), length,
    exec_bind_of_ok room]
  rw [length] at placed
  exact placed

end Painter

end LineEdit
