import LineEdit.Proofs.Painter.Redraw

/-!
# What a screen shows of a line

A line is displayed if it ends on the screen and each of its characters stands in the cell that
belongs to it, as far as this is not above the screen. A redraw displays its line, and scrolling
leaves a displayed line displayed. The anchor is pushed above the screen by the first line that
needs more cells than there are, and nothing brings it back.
-/
namespace LineEdit.Painter

open Attempt Screen

variable {p : Painter} {s : Screen} {line : String}

@[simp] theorem startY_raise (p : Painter) (n : Nat) : (p.raise n).startY = p.startY - n := rfl

@[simp] theorem lastPainted_raise (p : Painter) (n : Nat) :
    (p.raise n).lastPainted = p.lastPainted - n := rfl

@[simp] theorem lastPainted_painted (p : Painter) (width n : Nat) :
    (p.painted width n).lastPainted = p.lastRow width n := rfl

/-- The line ends on the screen, and shows in its cells from the first row of the screen on. Its
characters in rows above are out of sight, and nothing is said of them. -/
structure Displays (p : Painter) (s : Screen) (line : String) : Prop where
  column : p.startX < s.width.toNat
  room : p.lastRow s.width.toNat line.length < (s.height.toNat : Int)
  cells : ∀ (i : Nat) (c : Char) (y : Nat), line.toList[i]? = some c →
    (y : Int) = p.startY + ((p.startX + i) / s.width.toNat : Nat) →
    s.cell? ((p.startX + i) % s.width.toNat) y = some c

theorem row_le_lastRow {i : Nat} {c : Char} (mem : line.toList[i]? = some c) (p : Painter)
    (width : Nat) :
    p.startY + ((p.startX + i) / width : Nat) ≤ p.lastRow width line.length := by
  have inside := (List.getElem?_eq_some_iff.mp mem).1
  rw [String.length_toList] at inside
  have mono : (p.startX + i) / width ≤ (p.startX + line.length) / width :=
    Nat.div_le_div_right (by omega)
  unfold lastRow
  omega

theorem ink_character {i : Nat} {c : Char} {width y : Nat} (mem : line.toList[i]? = some c)
    (row : (y : Int) = p.startY + ((p.startX + i) / width : Nat)) :
    p.ink width line.toList ((p.startX + i) % width) y = some c := by
  have split := Nat.div_add_mod' (p.startX + i) width
  have last := row_le_lastRow mem p width
  generalize (p.startX + i) / width = r at row split last
  generalize (p.startX + i) % width = x at split ⊢
  rw [ink_inside]
  · have count : ((y : Int) - p.startY).toNat = r := by omega
    rw [count, split, Nat.add_sub_cancel_left, mem]
    rfl
  · rintro (above | ⟨first, left⟩)
    · omega
    · obtain rfl : r = 0 := by omega
      omega
  · rw [String.length_toList]
    omega

/-- The ink of a line that ends on a screen displays it there. -/
theorem displays_inked (line : String) (column : p.startX < s.width.toNat)
    (room : p.lastRow s.width.toNat line.length < (s.height.toNat : Int)) :
    Displays p (s.inked (p.ink s.width.toNat line.toList)) line := by
  refine ⟨column, room, ?_⟩
  intro i c y mem row
  have last := row_le_lastRow mem p s.width.toNat
  have inside := Nat.mod_lt (p.startX + i) (Nat.zero_lt_of_lt column)
  rw [width_inked] at row ⊢
  rw [cell?_inked, ink_character mem row]
  cases cell : s.cell? ((p.startX + i) % s.width.toNat) y with
  | some old => rfl
  | none =>
    have outside := (s.cell?_eq_none_iff _ _).mp cell
    omega

theorem Displays.raise (displays : Displays p s line) (n : Nat) (cell : UInt16 × UInt16) :
    Displays (p.raise n) ((s.scroll n).withCursor cell) line := by
  have room := displays.room
  refine ⟨displays.column, ?_, ?_⟩
  · change (p.raise n).lastRow s.width.toNat line.length < (s.height.toNat : Int)
    rw [lastRow_raise]
    omega
  · intro i c y mem row
    change (y : Int) = p.startY - n + ((p.startX + i) / s.width.toNat : Nat) at row
    have last := row_le_lastRow mem p s.width.toNat
    have inside := Nat.mod_lt (p.startX + i) (Nat.zero_lt_of_lt displays.column)
    change (s.scroll n).cell? ((p.startX + i) % s.width.toNat) y = some c
    rw [cell?_scroll, if_pos ⟨inside, by omega⟩, displays.cells i c (y + n) mem (by omega)]
    rfl

/-- A redraw displays its line, wherever the painter was and whatever the screen showed. -/
theorem exec_redraw_displays (line : String) (cursor : Nat) (column : p.startX < s.width.toNat)
    (some_rows : 0 < s.height) (low : p.lastRow s.width.toNat line.length ≤ 65535)
    (low' : p.lastPainted ≤ 65535) :
    let q := p.raise (p.overflow s.width.toNat s.height.toNat line.length)
    ∃ t, (Painter.redraw line cursor : Paint Screen Unit).exec (p, s) =
        (.ok (), q.painted s.width.toNat line.length, t) ∧
      t.width = s.width ∧ t.height = s.height ∧
      Displays (q.painted s.width.toNat line.length) t line := by
  intro q
  have folded : p.fold s.width.toNat = p := if_pos column
  have some_columns : 0 < s.width := UInt16.lt_iff_toNat_lt.mpr (Nat.zero_lt_of_lt column)
  have run := exec_redraw p s line cursor some_columns some_rows (by rwa [folded]) low'
  rw [folded] at run
  have shown := displays_inked (p := q)
    (s := s.scroll (p.overflow s.width.toNat s.height.toNat line.length)) line column (by
      rw [lastRow_raise]
      exact p.lastRow_sub_overflow_lt _ _ _)
  exact ⟨_, run, rfl, rfl, shown.column, shown.room, shown.cells⟩

theorem lastRow_add_width (p : Painter) {width : Nat} (some_columns : 0 < width) (n : Nat) :
    p.lastRow width (n + width) = p.lastRow width n + 1 := by
  unfold lastRow
  rw [← Nat.add_assoc, Nat.add_div_right _ some_columns]
  omega

/-- Whatever the row below a line is, a screen lets the cursor go there, and the painter is raised
by as many rows as it scrolls. -/
theorem exec_finish_raises (p : Painter) (n : Nat) (some_columns : 0 < s.width)
    (some_rows : 0 < s.height) :
    ∃ d cell, (finish n : Paint Screen Unit).exec (p, s) =
      (.ok (), p.raise d, (s.scroll d).withCursor cell) := by
  unfold finish
  rw [exec_bind_of_ok (exec_consoleWidth p some_columns), exec_bind_of_ok (exec_get _)]
  exact ⟨_, _, exec_moveCursor p some_columns some_rows⟩

/-- Leaving a line scrolls the screen as a line would that is longer by a whole row. -/
theorem exec_finish (n : Nat) (some_columns : 0 < s.width) (some_rows : 0 < s.height)
    (rows : (p.startX + n) / s.width.toNat < 0x8000000000000000)
    (low : p.lastRow s.width.toNat (n + s.width.toNat) ≤ 65535) :
    (finish n : Paint Screen Unit).exec (p, s) =
      (.ok (), p.raise (p.overflow s.width.toNat s.height.toNat (n + s.width.toNat)),
        (s.scroll (p.overflow s.width.toNat s.height.toNat (n + s.width.toNat))).withCursor
          (0, UInt16.ofNat (min (p.lastRow s.width.toNat (n + s.width.toNat)).toNat
            (s.height.toNat - 1)))) := by
  have columns := UInt16.lt_iff_toNat_lt.mp some_columns
  have height := UInt16.lt_iff_toNat_lt.mp some_rows
  change 0 < s.height.toNat at height
  have below : p.rowBelow s.width.toNat n = p.lastRow s.width.toNat (n + s.width.toNat) := by
    rw [p.rowBelow_eq _ _ rows, lastRow_add_width p columns]
  unfold finish overflow depth
  rw [exec_bind_of_ok (exec_consoleWidth p some_columns), exec_bind_of_ok (exec_get _)]
  dsimp only
  rw [below, exec_moveCursor p some_columns some_rows]
  generalize p.lastRow s.width.toNat (n + s.width.toNat) = row at low ⊢
  have reached : (saturate row.toNat).toNat = row.toNat := toNat_saturate (by omega)
  have count : row.toNat + 1 - s.height.toNat = (row + 1 - (s.height.toNat : Int)).toNat := by
    omega
  rw [reached, count]

/-- The anchor stays on the screen as long as the line and the cell behind it fit. For a line that
does not fit, room is made by scrolling the anchor away. -/
theorem startY_raise_overflow (p : Painter) {width : Nat} (some_columns : 0 < width)
    (height n : Nat) :
    0 ≤ (p.raise (p.overflow width height n)).startY ↔
      0 ≤ p.startY ∧ p.startX + n + 1 ≤ width * height := by
  have fits : (p.startX + n) / width < height ↔ p.startX + n < height * width :=
    Nat.div_lt_iff_lt_mul some_columns
  rw [Nat.mul_comm] at fits
  rw [startY_raise]
  unfold overflow depth lastRow
  generalize (p.startX + n) / width = rows at fits ⊢
  omega

/-- The console can count the last row of a line of `n` characters from the cursor on. -/
def Low (s : Screen) (n : Nat) : Prop :=
  s.cursor.2.toNat + (s.cursor.1.toNat + n) / s.width.toNat ≤ 65535

theorem Low.mono {m n : Nat} (low : Low s n) (le : m ≤ n) : Low s m := by
  have mono : (s.cursor.1.toNat + m) / s.width.toNat ≤ (s.cursor.1.toNat + n) / s.width.toNat :=
    Nat.div_le_div_right (Nat.add_le_add_left le _)
  exact Nat.le_trans (Nat.add_le_add_left mono _) low

/-- A painter on a screen that was anchored at the cursor of `s₀`, which has a cell for it, and has
since made room for lines of the given lengths. -/
structure MadeRoom (s₀ : Screen) (lengths : List Nat) (p : Painter) (s : Screen) : Prop where
  some_columns : s₀.cursor.1 < s₀.width
  some_rows : 0 < s₀.height
  width : s.width = s₀.width
  height : s.height = s₀.height
  column : p.startX = s₀.cursor.1.toNat
  row : p.startY ≤ s₀.cursor.2.toNat
  painted : p.lastPainted ≤ 65535
  anchor : 0 ≤ p.startY ↔
    ∀ n ∈ lengths, s₀.cursor.1.toNat + n + 1 ≤ s₀.width.toNat * s₀.height.toNat

variable {s₀ t : Screen} {lengths : List Nat} {n : Nat}

theorem madeRoom_anchored (some_columns : s.cursor.1 < s.width) (some_rows : 0 < s.height) :
    MadeRoom s [] (anchored s.cursor.1 s.cursor.2) s where
  some_columns := some_columns
  some_rows := some_rows
  width := rfl
  height := rfl
  column := rfl
  row := Int.le_refl _
  painted := lastPainted_anchored_le _ _
  anchor := by
    change 0 ≤ (s.cursor.2.toNat : Int) ↔ _
    simp

theorem MadeRoom.startX_lt (made : MadeRoom s₀ lengths p s) : p.startX < s.width.toNat := by
  rw [made.column, made.width]
  exact UInt16.lt_iff_toNat_lt.mp made.some_columns

theorem MadeRoom.width_pos (made : MadeRoom s₀ lengths p s) : 0 < s.width :=
  UInt16.lt_iff_toNat_lt.mpr (Nat.zero_lt_of_lt made.startX_lt)

theorem MadeRoom.height_pos (made : MadeRoom s₀ lengths p s) : 0 < s.height :=
  made.height ▸ made.some_rows

theorem MadeRoom.lastRow_le (made : MadeRoom s₀ lengths p s) (low : Low s₀ n) :
    p.lastRow s.width.toNat n ≤ 65535 := by
  have row := made.row
  unfold Low at low
  rw [lastRow, made.width, made.column]
  generalize (s₀.cursor.1.toNat + n) / s₀.width.toNat = rows at low ⊢
  omega

/-- Room for a line keeps the anchor on the screen if the line fits. The length joins those that the
line has had, and the anchor is still there exactly if all of them fit. -/
theorem MadeRoom.raise (made : MadeRoom s₀ lengths p s) (width : t.width = s.width)
    (height : t.height = s.height) (n : Nat) :
    MadeRoom s₀ (n :: lengths) (p.raise (p.overflow s.width.toNat s.height.toNat n)) t where
  some_columns := made.some_columns
  some_rows := made.some_rows
  width := width.trans made.width
  height := height.trans made.height
  column := made.column
  row := by
    have row := made.row
    rw [startY_raise]
    omega
  painted := by
    have painted := made.painted
    rw [lastPainted_raise]
    omega
  anchor := by
    rw [startY_raise_overflow p (Nat.zero_lt_of_lt made.startX_lt), made.anchor, made.width,
      made.height, made.column, List.forall_mem_cons, and_comm]

theorem MadeRoom.painted_lastRow (made : MadeRoom s₀ lengths p s)
    (room : p.lastRow s.width.toNat n < (s.height.toNat : Int)) :
    MadeRoom s₀ lengths (p.painted s.width.toNat n) s := by
  have rows := s.height.toNat_lt
  have low : (p.painted s.width.toNat n).lastPainted ≤ 65535 := by
    rw [lastPainted_painted]
    omega
  exact { made with column := made.column, row := made.row, painted := low, anchor := made.anchor }

theorem MadeRoom.of_longer {m : Nat} (made : MadeRoom s₀ (m :: n :: lengths) p s) (le : n ≤ m) :
    MadeRoom s₀ (m :: lengths) p s := by
  refine { made with anchor := ?_ }
  rw [made.anchor]
  simp only [List.forall_mem_cons]
  constructor
  · rintro ⟨longer, -, rest⟩
    exact ⟨longer, rest⟩
  · rintro ⟨longer, rest⟩
    exact ⟨longer, by omega, rest⟩

/-- A line that is displayed with its anchor on the screen fits. -/
theorem MadeRoom.again (made : MadeRoom s₀ lengths p s) (displays : Displays p s line) :
    MadeRoom s₀ (line.length :: lengths) p s := by
  refine { made with anchor := ?_ }
  rw [List.forall_mem_cons, ← made.anchor]
  refine ⟨fun visible => ⟨?_, visible⟩, And.right⟩
  have room := displays.room
  have fits : (p.startX + line.length) / s.width.toNat < s.height.toNat := by
    unfold lastRow at room
    generalize (p.startX + line.length) / s.width.toNat = rows at room ⊢
    omega
  rw [Nat.div_lt_iff_lt_mul (Nat.zero_lt_of_lt displays.column), made.width, made.height,
    made.column, Nat.mul_comm] at fits
  exact fits

theorem exec_redraw_madeRoom (made : MadeRoom s₀ lengths p s) (line : String) (cursor : Nat)
    (low : Low s₀ line.length) :
    ∃ q t, (Painter.redraw line cursor : Paint Screen Unit).exec (p, s) = (.ok (), q, t) ∧
      MadeRoom s₀ (line.length :: lengths) q t ∧ Displays q t line := by
  obtain ⟨t, run, width, height, displays⟩ := exec_redraw_displays line cursor made.startX_lt
    made.height_pos (made.lastRow_le low) made.painted
  have painted := (made.raise width height line.length).painted_lastRow (n := line.length)
    displays.room
  rw [width] at painted
  exact ⟨_, t, run, painted, displays⟩

theorem exec_finish_madeRoom (made : MadeRoom s₀ lengths p s) (displays : Displays p s line)
    (low : Low s₀ (line.length + s₀.width.toNat)) :
    ∃ q t, (finish line.length : Paint Screen Unit).exec (p, s) = (.ok (), q, t) ∧
      MadeRoom s₀ ((line.length + s₀.width.toNat) :: lengths) q t ∧ Displays q t line := by
  have rows : (p.startX + line.length) / s.width.toNat < 0x8000000000000000 := by
    have line_low : Low s₀ line.length := low.mono (Nat.le_add_right _ _)
    unfold Low at line_low
    rw [made.column, made.width]
    omega
  have low' := made.lastRow_le low
  rw [← made.width] at low' ⊢
  have run := exec_finish line.length made.width_pos made.height_pos rows low'
  exact ⟨_, _, run, MadeRoom.raise (t := (s.scroll _).withCursor _) made rfl rfl _,
    displays.raise _ _⟩

end LineEdit.Painter
