import LineEdit.Proofs.Painter.Display
import LineEdit.Proofs.Painter.Repaint

/-!
# A painter within a screen

Between two redraws the anchor has a column of the screen, and nothing has been painted below the
screen. From there a redraw displays its line, and what it leaves does not depend on shorter lines
that were painted since: all their cells are painted over, and all the rows that they scrolled for
are needed anyway. A line that is left has the cursor in the row below it, for which the screen
scrolls when the line ends in its last row.
-/
namespace LineEdit.Painter

open Attempt Screen

variable {p q : Painter} {s t : Screen} {line : String}

theorem within_origin (some_columns : 0 < s.width) (some_rows : 0 < s.height) : Within origin s := by
  refine ⟨UInt16.lt_iff_toNat_lt.mp some_columns, ?_⟩
  have rows := UInt16.lt_iff_toNat_lt.mp some_rows
  change (0 : Int) < s.height.toNat
  change 0 < s.height.toNat at rows
  omega

theorem Within.width_pos (within : Within p s) : 0 < s.width :=
  UInt16.lt_iff_toNat_lt.mpr (Nat.zero_lt_of_lt within.column)

theorem Within.resize (within : Within p s) (width : t.width = s.width) (height : t.height = s.height) :
    Within p t :=
  ⟨width ▸ within.column, height ▸ within.painted⟩

theorem Within.raise (within : Within p s) (d : Nat) : Within (p.raise d) s := by
  refine ⟨within.column, ?_⟩
  have painted := within.painted
  rw [lastPainted_raise]
  omega

theorem exec_redraw_fold (cursor : Nat) (some_columns : 0 < s.width) (some_rows : 0 < s.height)
    (low : p.InReach s line.length) (known : p.lastPainted ≤ 65535) :
    (redraw line cursor : Paint Screen Unit).exec (p, s) =
      (redraw line cursor : Paint Screen Unit).exec (p.fold s.width.toNat, s) := by
  have folded := p.fold_fold (UInt16.lt_iff_toNat_lt.mp some_columns)
  unfold InReach at low
  rw [columns_eq some_columns] at low
  have first := exec_redraw p s line cursor some_columns some_rows low known
  have second := exec_redraw (p.fold s.width.toNat) s line cursor some_columns some_rows
    (by rwa [folded]) (by rwa [fold_lastPainted])
  rw [folded] at second
  exact first.trans second.symm

/-- A painter and a screen of the size of `s`, which displays the line. -/
structure Shows (s : Screen) (line : String) (p : Painter) (t : Screen) : Prop where
  width : t.width = s.width
  height : t.height = s.height
  within : Within p t
  displays : Displays p t line

/-- A redraw leaves the painter within the screen, which displays the line. -/
theorem exec_redraw_shows (line : String) (cursor : Nat) (some_columns : 0 < s.width)
    (some_rows : 0 < s.height) (low : p.InReach s line.length) (known : p.lastPainted ≤ 65535) :
    ∃ q t, (redraw line cursor : Paint Screen Unit).exec (p, s) = (.ok (), q, t) ∧
      Shows s line q t := by
  rw [exec_redraw_fold cursor some_columns some_rows low known]
  unfold InReach at low
  rw [columns_eq some_columns] at low
  obtain ⟨t, run, width, height, displays⟩ := exec_redraw_displays (p := p.fold s.width.toNat) line
    cursor (p.fold_startX_lt (UInt16.lt_iff_toNat_lt.mp some_columns)) some_rows low
    (by rwa [fold_lastPainted])
  refine ⟨_, t, run, width, height, ⟨displays.column, ?_⟩, displays⟩
  have room := displays.room
  rw [width] at room
  exact room

theorem inReach_iff {n : Nat} (column : p.startX < s.width.toNat) :
    p.InReach s n ↔ p.lastRow s.width.toNat n ≤ 65535 := by
  have some_columns : 0 < s.width := UInt16.lt_iff_toNat_lt.mpr (Nat.zero_lt_of_lt column)
  rw [InReach, columns_eq some_columns, fold, if_pos column]

theorem lastRow_mono (p : Painter) (width : Nat) {m n : Nat} (le : m ≤ n) :
    p.lastRow width m ≤ p.lastRow width n := by
  have mono : (p.startX + m) / width ≤ (p.startX + n) / width :=
    Nat.div_le_div_right (Nat.add_le_add_left le _)
  unfold lastRow
  omega

/-- A redraw leaves nothing of a shorter line before it: the longer one alone gives the same painter
and the same screen. -/
theorem redraw_absorbs (within : Within p s) (some_rows : 0 < s.height) {longer : String}
    (le : line.length ≤ longer.length) (low : p.InReach s longer.length) (cursor cursor' : Nat)
    {r : Except ConsoleError Unit}
    (first : (redraw line cursor : Paint Screen Unit).exec (p, s) = (r, q, t)) :
    (redraw longer cursor' : Paint Screen Unit).exec (q, t) =
      (redraw longer cursor' : Paint Screen Unit).exec (p, s) := by
  have low := (inReach_iff within.column).mp low
  have mono := p.lastRow_mono s.width.toNat le
  have length : line.toList.length = line.length := String.length_toList
  have known := within.known
  obtain ⟨covers, start⟩ := within.covers
  have reached : max (max p.lastPainted (p.lastRow s.width.toNat line.length))
      (p.lastRow s.width.toNat longer.length) =
        max p.lastPainted (p.lastRow s.width.toNat longer.length) := by
    omega
  have shorter := exec_redraw_after s p covers s.cursor line cursor within.column some_rows
    within.known (by omega)
  have alone := exec_redraw_after s p covers s.cursor longer cursor' within.column some_rows
    within.known low
  rw [start] at shorter alone
  have covers' := covers_ink p s.width.toNat line.toList
    (Int.le_max_right p.lastPainted (p.lastRow s.width.toNat line.toList.length))
  rw [length] at covers'
  obtain ⟨-, left⟩ := Prod.mk.inj (shorter.symm.trans first)
  have same : (p.painted s.width.toNat line.length).lastRow s.width.toNat longer.length =
      p.lastRow s.width.toNat longer.length := rfl
  rw [← left, alone]
  refine (exec_redraw_after s (p.painted s.width.toNat line.length) covers' _ longer cursor'
    within.column some_rows (by omega) low).trans ?_
  rw [same, reached]
  rfl

theorem InReach.mono {m n : Nat} (low : p.InReach s n) (le : m ≤ n) : p.InReach s m :=
  Int.le_trans ((p.fold (columns s)).lastRow_mono (columns s) le) low

theorem InReach.after {n cursor : Nat} {r : Except ConsoleError Unit} (low : p.InReach s n)
    (within : Within p s) (some_rows : 0 < s.height) (le : line.length ≤ n)
    (run : (redraw line cursor : Paint Screen Unit).exec (p, s) = (r, q, t)) : q.InReach t n := by
  have low := (inReach_iff within.column).mp low
  have mono := p.lastRow_mono s.width.toNat le
  obtain ⟨covers, start⟩ := within.covers
  have shown := exec_redraw_after s p covers s.cursor line cursor within.column some_rows
    within.known (by omega)
  rw [start] at shown
  obtain ⟨rfl, rfl⟩ := Prod.mk.inj (Prod.mk.inj (run.symm.trans shown)).2
  refine (inReach_iff (by exact within.column)).mpr ?_
  rw [width_after, lastRow_raise]
  change p.lastRow s.width.toNat n - _ ≤ 65535
  omega

/-- A line of less than 2^63 characters does not take up more rows than a signed number can count,
as the number of its last row is not above that of its characters. -/
theorem rows_lt {n width : Nat} (column : p.startX < width) (short : n < 0x8000000000000000) :
    (p.startX + n) / width < 0x8000000000000000 := by
  have longer := Nat.le_mul_of_pos_right n (Nat.zero_lt_of_lt column)
  have rows : (p.startX + n) / width < n + 1 := by
    rw [Nat.div_lt_iff_lt_mul (Nat.zero_lt_of_lt column), Nat.succ_mul]
    omega
  omega

/-- A displayed line is left for the row below it, for which the screen scrolls by one row if the
line ends in its last one. -/
theorem exec_finish_of_displays (displays : Displays p s line) (some_rows : 0 < s.height)
    (short : line.length < 0x8000000000000000) :
    let next := p.lastRow s.width.toNat line.length + 1
    let d := if next = s.height.toNat then 1 else 0
    (finish line.length : Paint Screen Unit).exec (p, s) =
      (.ok (), p.raise d, (s.scroll d).withCursor (0, rowNumber (min next (s.height.toNat - 1)))) := by
  intro next d
  have room := displays.room
  have height_le := s.height.toNat_lt
  have rows : 0 < s.height.toNat := UInt16.lt_iff_toNat_lt.mp some_rows
  have below : p.lastRow s.width.toNat (line.length + s.width.toNat) = next :=
    lastRow_add_width p (Nat.zero_lt_of_lt displays.column) line.length
  have scrolls : p.overflow s.width.toNat s.height.toNat (line.length + s.width.toNat) = d := by
    change depth s.height.toNat (p.lastRow _ _) = if next = s.height.toNat then 1 else 0
    rw [below, depth]
    split <;> omega
  have row : min next.toNat (s.height.toNat - 1) = (min next ((s.height.toNat : Int) - 1)).toNat := by
    omega
  have left := exec_finish (p := p) line.length
    (UInt16.lt_iff_toNat_lt.mpr (Nat.zero_lt_of_lt displays.column)) some_rows
    (rows_lt displays.column short) (by omega)
  rw [scrolls, below, row] at left
  exact left

theorem row_lt_of_left (displays : Displays p s line) {i : Nat} {c : Char}
    (mem : line.toList[i]? = some c) :
    let next := p.lastRow s.width.toNat line.length + 1
    let d := if next = s.height.toNat then 1 else 0
    (p.raise d).startY + (((p.raise d).startX + i) / s.width.toNat : Nat) <
      max 0 (min next (s.height.toNat - 1)) := by
  intro next d
  have room := displays.room
  have row := row_le_lastRow mem (p.raise d) s.width.toNat
  rw [lastRow_raise] at row
  have scrolls : next = s.height.toNat ∧ d = 1 ∨ next ≠ s.height.toNat ∧ d = 0 := by
    by_cases last : next = s.height.toNat
    · exact .inl ⟨last, if_pos last⟩
    · exact .inr ⟨last, if_neg last⟩
  omega

/-- What a displayed line, whose last row is `e`, looks like once it was left: it has moved up with
the screen, and the cursor is below it. -/
theorem left_of_displays (displays : Displays p s line) (some_rows : 0 < s.height)
    (short : line.length < 0x8000000000000000) {r : Except ConsoleError Unit}
    (run : (finish line.length : Paint Screen Unit).exec (p, s) = (r, q, t)) :
    let e := p.lastRow s.width.toNat line.length
    let d := if e + 1 = s.height.toNat then 1 else 0
    t.cursor.1 = 0 ∧ (t.cursor.2.toNat : Int) = max 0 (min (e + 1) (s.height.toNat - 1)) ∧
      t.scrolled = s.scrolled + d ∧ q = p.raise d ∧
      (∀ x < s.width.toNat, ∀ y < s.height.toNat,
        t.cell? x y = some ((s.cell? x (y + d)).getD ' ')) ∧
      ∀ i char, line.toList[i]? = some char →
        let row : Int := q.startY + ((q.startX + i) / s.width.toNat : Nat)
        row < t.cursor.2.toNat ∧
        ∀ y : Nat, y = row → t.cell? ((q.startX + i) % s.width.toNat) y = some char := by
  intro e d
  have height_le := s.height.toNat_lt
  have finished := exec_finish_of_displays displays some_rows short
  obtain ⟨painter, screen⟩ := Prod.mk.inj (Prod.mk.inj (run.symm.trans finished)).2
  change q = p.raise d at painter
  change t = (s.scroll d).withCursor (0, rowNumber (min (e + 1) (s.height.toNat - 1))) at screen
  have below : (t.cursor.2.toNat : Int) = max 0 (min (e + 1) (s.height.toNat - 1)) := by
    rw [screen]
    exact toNat_rowNumber_eq_max (by omega)
  refine ⟨by rw [screen]; rfl, below, by rw [screen]; rfl, painter, fun x hx y hy => ?_,
    fun i char mem => ⟨?_, ?_⟩⟩
  · rw [screen, Screen.cell?_withCursor, Screen.cell?_scroll, if_pos ⟨hx, hy⟩]
  · rw [below, painter]
    exact row_lt_of_left displays mem
  · intro y here
    have raised := displays.raise d (0, rowNumber (min (e + 1) (s.height.toNat - 1)))
    rw [← painter, ← screen] at raised
    have shown := raised.cells i char y mem
    have same : t.width = s.width := by
      rw [screen]
      rfl
    rw [same] at shown
    exact shown here

end LineEdit.Painter
