import LineEdit.Proofs.Painter.Redraw

/-!
# Repainting a line

The rows of a screen and those below it that it has not scrolled to yet are counted on, as if the
screen went on downwards. Counted so, the lines painted one after another from one anchor all begin
in the same cell, and what is on the screen in the end is one sheet: the last line from the anchor
on, blanks behind it as far down as any of the lines came, and everywhere else what the screen
showed before. The screen shows the sheet from as far down as it scrolled for the lowest of them.
-/
namespace LineEdit.Painter

open Attempt Screen

/-- The ink of lines painted from one anchor, of which the lowest reached row `lowest`: none before
the anchor, blanks below the last of the lines, and nothing below the lowest. -/
structure Covers (p : Painter) (lowest : Int) (ink : Ink) : Prop where
  before : ∀ x y : Nat, (y : Int) < p.startY ∨ (y : Int) = p.startY ∧ x < p.startX → ink x y = none
  stale : ∀ x y : Nat, p.lastPainted < y → (y : Int) ≤ lowest → ink x y = some ' '
  beyond : ∀ x y : Nat, lowest < y → ink x y = none
  painted_le : p.lastPainted ≤ lowest

theorem ink_raise (p : Painter) (n width : Nat) (text : List Char) (x y : Nat) :
    (p.raise n).ink width text x y = p.ink width text x (y + n) := by
  have start : (p.raise n).startY = p.startY - n := rfl
  have painted : (p.raise n).lastPainted = p.lastPainted - n := rfl
  have last := p.lastRow_raise n width text.length
  by_cases before : ((y + n : Nat) : Int) < p.startY ∨
      ((y + n : Nat) : Int) = p.startY ∧ x < p.startX
  · rw [ink_before before, ink_before]
    change _ ∨ _ ∧ x < p.startX
    omega
  · by_cases inside : ((y + n : Nat) : Int) ≤ p.lastRow width text.length
    · have row : ((y : Int) - (p.raise n).startY).toNat = ((y + n : Nat) - p.startY).toNat := by
        omega
      rw [ink_inside before inside, ink_inside _ (by omega), row]
      · rfl
      · change ¬(_ ∨ _ ∧ x < p.startX)
        omega
    · by_cases stale : ((y + n : Nat) : Int) ≤ p.lastPainted
      · rw [ink_stale (by omega) stale, ink_stale (by omega) (by omega)]
      · rw [ink_beyond (by omega) (by omega), ink_beyond (by omega) (by omega)]

/-- A line covers the ink of the lines before it, but for blanks below it. Both together are the ink
of the one line, painted down to the lowest row of all. -/
theorem Covers.ink_or {p : Painter} {lowest : Int} {old : Ink} (covers : Covers p lowest old)
    (width : Nat) (text : List Char) (x y : Nat) :
    (p.ink width text x y).or (old x y) =
      (p.reaching (max lowest (p.lastRow width text.length))).ink width text x y := by
  have painted := covers.painted_le
  have column : (p.reaching (max lowest (p.lastRow width text.length))).startX = p.startX := rfl
  have start : (p.reaching (max lowest (p.lastRow width text.length))).startY = p.startY := rfl
  have last : (p.reaching (max lowest (p.lastRow width text.length))).lastRow width text.length =
      p.lastRow width text.length := rfl
  have reached : (p.reaching (max lowest (p.lastRow width text.length))).lastPainted =
      max lowest (p.lastRow width text.length) := rfl
  generalize p.reaching (max lowest (p.lastRow width text.length)) = q
    at column start last reached ⊢
  by_cases before : (y : Int) < p.startY ∨ (y : Int) = p.startY ∧ x < p.startX
  · rw [ink_before before, ink_before (p := q) (by omega), covers.before x y before]
    rfl
  · by_cases inside : (y : Int) ≤ p.lastRow width text.length
    · rw [ink_inside before inside, ink_inside (p := q) (by omega) (by omega), column, start]
      rfl
    · by_cases below : (y : Int) ≤ lowest
      · rw [ink_stale (p := q) (by omega) (by omega)]
        by_cases stale : (y : Int) ≤ p.lastPainted
        · rw [ink_stale (by omega) stale]
          rfl
        · rw [ink_beyond (by omega) (by omega), covers.stale x y (by omega) below]
          rfl
      · rw [ink_beyond (by omega) (by omega), ink_beyond (by omega) (by omega),
          covers.beyond x y (by omega)]
        rfl

/-- What a painted line leaves is again ink of lines painted from the anchor. -/
theorem covers_ink (p : Painter) (width : Nat) (text : List Char) {lowest : Int}
    (le : p.lastRow width text.length ≤ lowest) :
    Covers (p.painted width text.length) lowest
      ((p.reaching lowest).ink width text) where
  before _ _ before := ink_before (p := p.reaching lowest) before width text
  stale x _ below within := ink_stale (p := p.reaching lowest) below within x
  beyond x _ below := ink_beyond (p := p.reaching lowest) (Int.lt_of_le_of_lt le below) below x
  painted_le := le

/-- The screen after lines were painted from one anchor, the lowest of them down to row `lowest`. It
has scrolled as far as that row is below it. -/
def after (s : Screen) (lowest : Int) (ink : Ink) (cell : UInt16 × UInt16) : Screen :=
  ((s.scroll (depth s.height.toNat lowest)).inked
    fun x y => ink x (y + depth s.height.toNat lowest)).withCursor cell

@[simp] theorem width_after (s : Screen) (lowest : Int) (ink : Ink) (cell : UInt16 × UInt16) :
    (after s lowest ink cell).width = s.width := rfl

@[simp] theorem height_after (s : Screen) (lowest : Int) (ink : Ink) (cell : UInt16 × UInt16) :
    (after s lowest ink cell).height = s.height := rfl

theorem cell?_after (s : Screen) (lowest : Int) (ink : Ink) (cell : UInt16 × UInt16) {x y : Nat}
    (column : x < s.width.toNat) (row : y < s.height.toNat) :
    (after s lowest ink cell).cell? x y =
      some ((ink x (y + depth s.height.toNat lowest)).getD
        ((s.cell? x (y + depth s.height.toNat lowest)).getD ' ')) := by
  rw [after, cell?_withCursor, cell?_inked, cell?_scroll, if_pos ⟨column, row⟩]
  rfl

theorem scroll_after {s : Screen} {p : Painter} {lowest : Int} {old : Ink}
    (covers : Covers p lowest old) (cell : UInt16 × UInt16) (d : Nat) :
    (after s lowest old cell).scroll d =
      ((s.scroll (depth s.height.toNat lowest + d)).inked
        fun x y => old x (y + (depth s.height.toNat lowest + d))).withCursor cell := by
  have within : ∀ x : Nat, ∀ y ≥ s.height.toNat, old x (y + depth s.height.toNat lowest) = none := by
    intro x y below
    refine covers.beyond x _ ?_
    unfold depth
    omega
  have scrolled := scroll_inked (s.scroll (depth s.height.toNat lowest))
    (fun x y => old x (y + depth s.height.toNat lowest)) d within
  rw [scroll_scroll] at scrolled
  rw [after, scroll_withCursor, scrolled]
  simp only [Nat.add_assoc, Nat.add_comm d]

theorem depth_max (height : Nat) (p : Painter) (width n : Nat) (lowest : Int) :
    depth height lowest +
      (p.raise (depth height lowest)).overflow width height n =
      depth height (max lowest (p.lastRow width n)) := by
  unfold overflow depth
  rw [lastRow_raise]
  omega

theorem raise_raise (p : Painter) (m n : Nat) : (p.raise m).raise n = p.raise (m + n) := by
  simp only [raise, mk.injEq, true_and]
  omega

theorem painted_raise (p : Painter) (d width n : Nat) :
    (p.raise d).painted width n = (p.painted width n).raise d := by
  rw [painted, lastRow_raise]
  rfl

/-- A redraw of a line keeps the account of the lines painted from its anchor. -/
theorem exec_redraw_after (s : Screen) (p : Painter) {lowest : Int} {old : Ink}
    (covers : Covers p lowest old) (cell : UInt16 × UInt16) (line : String) (cursor : Nat)
    (anchor : p.startX < s.width.toNat) (some_rows : 0 < s.height)
    (low : lowest ≤ 65535) (low' : p.lastRow s.width.toNat line.length ≤ 65535) :
    (redraw line cursor : Paint Screen Unit).exec
        (p.raise (depth s.height.toNat lowest), after s lowest old cell) =
      (.ok (), (p.painted s.width.toNat line.length).raise
          (depth s.height.toNat (max lowest (p.lastRow s.width.toNat line.length))),
        after s (max lowest (p.lastRow s.width.toNat line.length))
          ((p.reaching (max lowest (p.lastRow s.width.toNat line.length))).ink s.width.toNat
            line.toList)
          ((p.raise (depth s.height.toNat (max lowest (p.lastRow s.width.toNat line.length)))).cellOf
            s.width.toNat (min cursor line.length))) := by
  have painted := covers.painted_le
  have folded : (p.raise (depth s.height.toNat lowest)).fold s.width.toNat =
      p.raise (depth s.height.toNat lowest) := if_pos anchor
  have step := exec_redraw (p.raise (depth s.height.toNat lowest)) (after s lowest old cell) line
    cursor (UInt16.lt_iff_toNat_lt.mpr (Nat.zero_lt_of_lt anchor)) some_rows
    (by
      rw [width_after, folded, lastRow_raise]
      omega)
    (by
      change p.lastPainted - (depth s.height.toNat lowest : Int) ≤ 65535
      omega)
  dsimp only at step
  rw [width_after, height_after, folded, scroll_after covers, depth_max, raise_raise, depth_max,
    inked_withCursor, withCursor_withCursor, inked_inked, painted_raise] at step
  rw [step, after]
  congr 4
  funext x y
  rw [ink_raise, covers.ink_or, String.length_toList]

def lowest (p : Painter) (width : Nat) (row : Int) (lines : List (String × Nat)) : Int :=
  lines.foldl (fun row line => max row (p.lastRow width line.1.length)) row

theorem lowest_le {p : Painter} {width : Nat} {bound : Int} (lines : List (String × Nat))
    {row : Int} (start : row ≤ bound)
    (low : ∀ line ∈ lines, p.lastRow width line.1.length ≤ bound) :
    p.lowest width row lines ≤ bound := by
  induction lines generalizing row with
  | nil => exact start
  | cons line lines ih =>
    exact ih (Int.max_le.mpr ⟨start, low line List.mem_cons_self⟩)
      fun l mem => low l (List.mem_cons_of_mem _ mem)

theorem lowest_concat (p : Painter) (width : Nat) (row : Int) (lines : List (String × Nat))
    (line : String × Nat) :
    p.lowest width row (lines ++ [line]) =
      max (p.lowest width row lines) (p.lastRow width line.1.length) := by
  rw [lowest, List.foldl_append]
  rfl

/-- Any number of redraws keep the account of the lines painted from an anchor. The induction is on
the lines, and every step puts the ink of one line over that of all before it. -/
theorem exec_redraws_after (s : Screen) (some_rows : 0 < s.height) (lines : List (String × Nat))
    {p : Painter} {row : Int} {old : Ink} (covers : Covers p row old) (cell : UInt16 × UInt16)
    (anchor : p.startX < s.width.toNat) (low : row ≤ 65535)
    (low' : ∀ line ∈ lines, p.lastRow s.width.toNat line.1.length ≤ 65535) :
    ∃ last ink cell', Covers (p.reaching last) (p.lowest s.width.toNat row lines) ink ∧
      (lines.forM fun line => redraw line.1 line.2 : Paint Screen Unit).exec
          (p.raise (depth s.height.toNat row), after s row old cell) =
        (.ok (), (p.reaching last).raise (depth s.height.toNat (p.lowest s.width.toNat row lines)),
          after s (p.lowest s.width.toNat row lines) ink cell') := by
  induction lines generalizing p row old cell with
  | nil => exact ⟨p.lastPainted, old, cell, covers, rfl⟩
  | cons line lines ih =>
    have here := low' line List.mem_cons_self
    have painted := exec_redraw_after s p covers cell line.1 line.2 anchor some_rows low here
    have length : line.1.toList.length = line.1.length := String.length_toList
    have covers' := covers_ink p s.width.toNat line.1.toList
      (Int.le_max_right row (p.lastRow s.width.toNat line.1.toList.length))
    rw [length] at covers'
    obtain ⟨last, ink, cell', covers'', rest⟩ := ih covers' _ anchor (by omega)
      fun l mem => low' l (List.mem_cons_of_mem _ mem)
    refine ⟨last, ink, cell', covers'', ?_⟩
    rw [List.forM_eq_forM, List.forM_cons, exec_bind_of_ok painted]
    exact rest

/-- The anchor has a column of the screen, and nothing is painted below the screen. This is so from
the moment a painter begins at the cursor, and redraws keep it. -/
structure Within (p : Painter) (s : Screen) : Prop where
  column : p.startX < s.width.toNat
  painted : p.lastPainted < (s.height.toNat : Int)

theorem Within.known {p : Painter} {s : Screen} (within : Within p s) : p.lastPainted ≤ 65535 := by
  have height_le := s.height.toNat_lt
  have painted := within.painted
  omega

theorem Within.covers {p : Painter} {s : Screen} (within : Within p s) :
    Covers p p.lastPainted (fun _ _ => none) ∧
      (p.raise (depth s.height.toNat p.lastPainted),
        after s p.lastPainted (fun _ _ => none) s.cursor) = (p, s) := by
  have painted := within.painted
  have shown : depth s.height.toNat p.lastPainted = 0 := by
    unfold depth
    omega
  refine ⟨⟨fun _ _ _ => rfl, fun _ _ below le => absurd le (Int.not_le.mpr below),
    fun _ _ _ => rfl, Int.le_refl _⟩, ?_⟩
  rw [after, shown, scroll_zero, raise_zero, inked_of_none s fun _ _ _ _ => rfl]
  rfl

/-- The redraws after a painter begins at the cursor of a screen, all in one. -/
theorem exec_begin_redraws (before : Painter) (s : Screen) (earlier : List (String × Nat))
    (line : String) (cursor : Nat) (column : s.cursor.1 < s.width) (row : s.cursor.2 < s.height)
    (low : ∀ text ∈ line :: earlier.map Prod.fst,
      (anchored s.cursor.1 s.cursor.2).lastRow s.width.toNat text.length ≤ 65535) :
    let p := anchored s.cursor.1 s.cursor.2
    let lowest := p.lowest s.width.toNat p.startY (earlier ++ [(line, cursor)])
    (do
      begin
      earlier.forM fun line => redraw line.1 line.2
      redraw line cursor : Paint Screen Unit).exec (before, s) =
      (.ok (), (p.painted s.width.toNat line.length).raise (depth s.height.toNat lowest),
        after s lowest ((p.reaching lowest).ink s.width.toNat line.toList)
          ((p.raise (depth s.height.toNat lowest)).cellOf s.width.toNat
            (min cursor line.length))) := by
  intro p lowest
  have columns : p.startX < s.width.toNat := UInt16.lt_iff_toNat_lt.mp column
  have rows : s.cursor.2.toNat < s.height.toNat := UInt16.lt_iff_toNat_lt.mp row
  have some_rows : 0 < s.height := UInt16.lt_iff_toNat_lt.mpr (Nat.zero_lt_of_lt rows)
  have within : Within p s := ⟨columns, Int.ofNat_lt.mpr rows⟩
  obtain ⟨untouched, start⟩ := within.covers
  have low' : ∀ line ∈ earlier, p.lastRow s.width.toNat line.1.length ≤ 65535 := fun line mem =>
    low line.1 (List.mem_cons_of_mem _ (List.mem_map_of_mem mem))
  obtain ⟨_, _, cell, covers, drawn⟩ :=
    exec_redraws_after s some_rows earlier untouched s.cursor columns within.known low'
  have last := exec_redraw_after s _ covers cell line cursor columns some_rows
    (lowest_le earlier within.known low') (low line List.mem_cons_self)
  rw [start] at drawn
  rw [exec_bind_of_ok (exec_begin before s), exec_bind_of_ok drawn, last]
  have same : lowest = max _ _ := p.lowest_concat s.width.toNat p.startY earlier (line, cursor)
  rw [same]
  rfl

/-- What a screen `s` shows in column `x` of row `y` after lines were painted from its cursor on,
the last of them `line` and the lowest down to row `lowest`. Rows are counted as if it had not
scrolled. -/
def sheet (s : Screen) (lowest : Int) (line : String) (x y : Nat) : Char :=
  let p := anchored s.cursor.1 s.cursor.2
  if (y : Int) < p.startY ∨ (y : Int) = p.startY ∧ x < p.startX then (s.cell? x y).getD ' '
  else if (y : Int) ≤ p.lastRow s.width.toNat line.length then
    (line.toList[((y : Int) - p.startY).toNat * s.width.toNat + x - p.startX]?).getD ' '
  else if (y : Int) ≤ lowest then ' '
  else (s.cell? x y).getD ' '

theorem sheet_eq (s : Screen) (lowest : Int) (line : String) (x y : Nat) :
    sheet s lowest line x y =
      (((anchored s.cursor.1 s.cursor.2).reaching lowest).ink s.width.toNat line.toList x y).getD
        ((s.cell? x y).getD ' ') := by
  have last : ((anchored s.cursor.1 s.cursor.2).reaching lowest).lastRow s.width.toNat
      line.toList.length = (anchored s.cursor.1 s.cursor.2).lastRow s.width.toNat line.length := by
    rw [String.length_toList]
    rfl
  by_cases before : (y : Int) < (anchored s.cursor.1 s.cursor.2).startY ∨
      (y : Int) = (anchored s.cursor.1 s.cursor.2).startY ∧
        x < (anchored s.cursor.1 s.cursor.2).startX
  · rw [sheet, if_pos before, ink_before (by exact before)]
    rfl
  · rw [sheet, if_neg before]
    by_cases inside : (y : Int) ≤ (anchored s.cursor.1 s.cursor.2).lastRow s.width.toNat line.length
    · rw [if_pos inside, ink_inside (by exact before) (by omega)]
      rfl
    · rw [if_neg inside]
      by_cases stale : (y : Int) ≤ lowest
      · rw [if_pos stale, ink_stale (by omega) (by exact stale)]
        rfl
      · rw [if_neg stale, ink_beyond (by omega) (by exact Int.not_le.mp stale)]
        rfl

/-- Lines are painted one after another from the cursor of a screen on, `line` as the last. The
screen then has scrolled by the number of rows that the lowest of them reaches below it, its cells
show the sheet of these lines, and its cursor is in the cell that belongs to it. -/
theorem begin_redraws (before : Painter) (s : Screen) (earlier : List (String × Nat))
    (line : String) (cursor : Nat) (column : s.cursor.1 < s.width) (row : s.cursor.2 < s.height)
    (low : ∀ text ∈ line :: earlier.map Prod.fst,
      (anchored s.cursor.1 s.cursor.2).lastRow s.width.toNat text.length ≤ 65535) :
    let p := anchored s.cursor.1 s.cursor.2
    let lowest := p.lowest s.width.toNat p.startY (earlier ++ [(line, cursor)])
    let rows := depth s.height.toNat lowest
    let behind := p.startX + min cursor line.length
    ∃ q t,
      (do
        begin
        earlier.forM fun line => redraw line.1 line.2
        redraw line cursor : Paint Screen Unit).exec (before, s) = (.ok (), q, t) ∧
      q.startX = p.startX ∧ q.startY = p.startY - rows ∧
      t.width = s.width ∧ t.height = s.height ∧ t.scrolled = s.scrolled + rows ∧
      (∀ x < s.width.toNat, ∀ y < s.height.toNat,
        t.cell? x y = some (sheet s lowest line x (y + rows))) ∧
      t.cursor.1.toNat = behind % s.width.toNat ∧
      t.cursor.2.toNat = (p.startY + (behind / s.width.toNat : Nat) - rows).toNat := by
  intro p lowest rows behind
  have width_le := s.width.toNat_lt
  have columns : s.cursor.1.toNat < s.width.toNat := UInt16.lt_iff_toNat_lt.mp column
  have inside := Nat.mod_lt behind (Nat.zero_lt_of_lt columns)
  have above : p.startY + (behind / s.width.toNat : Nat) ≤ 65535 := by
    have here : p.startY + ((p.startX + line.length) / s.width.toNat : Nat) ≤ 65535 :=
      low line List.mem_cons_self
    have mono : behind / s.width.toNat ≤ (p.startX + line.length) / s.width.toNat :=
      Nat.div_le_div_right (Nat.add_le_add_left (Nat.min_le_right _ _) _)
    omega
  refine ⟨_, _, exec_begin_redraws before s earlier line cursor column row low, rfl, rfl, rfl, rfl,
    rfl, fun x hx y hy => ?_, ?_, ?_⟩
  · rw [cell?_after s _ _ _ hx hy, sheet_eq]
  · change (saturate (behind % s.width.toNat)).toNat = _
    exact toNat_saturate (by omega)
  · change (rowNumber (p.startY - rows + (behind / s.width.toNat : Nat))).toNat = _
    rw [toNat_rowNumber (by omega)]
    omega

def prompted : Screen := (Screen.blank 3 2).printPrompt ">"

/-- A line of six characters scrolls a small screen by one row. After it a line of one character
leaves nothing of it, and the prompt is out of sight. -/
theorem begin_redraws_prompted :
    ∃ q t,
      (do
        begin
        [("abcdef", 6)].forM fun line => redraw line.1 line.2
        redraw "x" 1 : Paint Screen Unit).exec (origin, prompted) = (.ok (), q, t) ∧
      q.startX = 1 ∧ q.startY = -1 ∧ t.scrolled = 1 ∧ t.cell? 0 0 = some ' ' ∧
      t.cursor.1.toNat = 2 ∧ t.cursor.2.toNat = 0 := by
  obtain ⟨q, t, run, column, start, _, _, scrolled, cells, cursor, cursor'⟩ :=
    begin_redraws origin prompted [("abcdef", 6)] "x" 1 (by decide) (by decide) (by decide)
  refine ⟨q, t, run, column, start, scrolled, ?_, cursor, cursor'⟩
  exact cells 0 (by decide) 0 (by decide)

end LineEdit.Painter
