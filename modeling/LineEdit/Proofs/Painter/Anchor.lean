import LineEdit.Proofs.Painter.Redrawn
import Mathlib.Tactic.LinearCombination
import Mathlib.Tactic.Ring

/-!
# The anchor and the rows that have scrolled

Think of the rows that have scrolled out of sight as still there, above the screen. On these rows
the anchor stays in one cell as long as the painter is used: where the screen scrolls by some rows,
the painter counts its anchor up by as many, and to fold the anchor into the width of the screen
only names the same cell differently. An operation that fails does not break the account, since the
painter changes its own rows only after the screen has scrolled. The one place where the painter
does not look at what scrolled is the last step of a redraw, and there nothing does.
-/
namespace LineEdit

open Attempt Screen Faulty

namespace Screen

theorem exec_setCursorPosition_of_right (s : Screen) {x : UInt16} (y : UInt16)
    (right : s.width ≤ x) :
    (Console.setCursorPosition x y : Attempt Screen UInt16).exec s =
      (.error (.outOfBounds x y), s) := by
  have refused : s.moveCursor x y = .error (.outOfBounds x y) := if_pos right
  change (trying (·.moveCursor x y)).exec s = _
  unfold trying exec
  dsimp only [ExceptT.mk, ExceptT.run, StateT.run]
  rw [refused]

/-- A screen takes the cursor, after it scrolled by the rows that it tells, or it refuses it. -/
theorem setCursorPosition_cases (s : Screen) (x y : UInt16) :
    (∃ rows cell, (Console.setCursorPosition x y : Attempt Screen UInt16).exec s =
        (.ok rows, (s.scroll rows.toNat).withCursor cell)) ∨
      ∃ e, (Console.setCursorPosition x y : Attempt Screen UInt16).exec s = (.error e, s) := by
  by_cases right : s.width ≤ x
  · exact .inr ⟨_, exec_setCursorPosition_of_right s y right⟩
  left
  by_cases shown : y < s.height
  · refine ⟨0, (x, y), ?_⟩
    rw [UInt16.toNat_zero, scroll_zero]
    refine exec_trying_of_ok ?_
    rw [moveCursor, if_neg right, if_pos shown]
    rfl
  · refine ⟨y - s.height + 1, (x, s.height - 1), ?_⟩
    refine exec_trying_of_ok ?_
    rw [moveCursor, if_neg right, if_neg shown]
    rfl

end Screen

theorem Faulty.strokes_guarded {A : Type} {operation : Operation} {act : Attempt Screen A}
    {record : Except ConsoleError A → List Stroke} {c d : Faulty Screen} {a : A}
    (run : (guarded operation act record).exec c = (.ok a, d)) :
    d.strokes = c.strokes ++ record (.ok a) := by
  obtain ⟨inner, fault, strokes⟩ := c
  have reached {fault : Option Fault} :
      ((act.exec inner).1, (⟨(act.exec inner).2, fault, strokes ++ record (act.exec inner).1⟩ :
        Faulty Screen)) = (.ok a, d) → d.strokes = strokes ++ record (.ok a) := by
    intro same
    obtain ⟨result, rfl⟩ := Prod.mk.inj same
    rw [← result]
  unfold guarded exec at run
  dsimp only [ExceptT.mk, ExceptT.run, StateT.run] at run
  cases fault with
  | none => exact reached run
  | some f =>
    obtain ⟨chosen, skip, error⟩ := f
    dsimp only at run
    split at run
    · exact reached run
    · cases skip with
      | zero => exact absurd (congrArg Prod.fst run) nofun
      | succ skip => exact reached run

namespace Painter

/-- The cell of the anchor, counted from the first cell that the screen had before it ever scrolled.
Scrolling takes from the row of the anchor what it adds to the rows that have left the screen. -/
def home (p : Painter) (t : Screen) : Int :=
  p.startY * columns t + p.startX + columns t * t.scrolled

/-- The screen keeps its size, and the anchor its cell. -/
structure Steady (s t : Painter × Screen) : Prop where
  width : t.2.width = s.2.width
  height : t.2.height = s.2.height
  home : home t.1 t.2 = home s.1 s.2
  painted : s.1.lastPainted ≤ 65535 → t.1.lastPainted ≤ 65535

theorem Steady.refl (s : Painter × Screen) : Steady s s := ⟨rfl, rfl, rfl, id⟩

theorem Steady.trans {s t u : Painter × Screen} (first : Steady s t) (second : Steady t u) :
    Steady s u where
  width := second.width.trans first.width
  height := second.height.trans first.height
  home := second.home.trans first.home
  painted := second.painted ∘ first.painted

theorem steady_fold (p : Painter) (t : Screen) : Steady (p, t) (p.fold (columns t), t) := by
  refine ⟨rfl, rfl, ?_, fun known => (p.fold_lastPainted _).symm ▸ known⟩
  unfold home fold
  dsimp only
  generalize columns t = width
  split
  · rfl
  · have split : ((p.startX / width * width + p.startX % width : Nat) : Int) = p.startX :=
      congrArg Nat.cast (Nat.div_add_mod' p.startX width)
    push_cast at split ⊢
    linear_combination split

/-- The anchor is counted up by the rows that scrolled. -/
theorem steady_scroll (p : Painter) (t : Screen) (rows : UInt16) (cell : UInt16 × UInt16) :
    Steady (p, t) (p.shift rows, (t.scroll rows.toNat).withCursor cell) := by
  refine ⟨rfl, rfl, ?_, ?_⟩
  · change (p.startY - rows.toNat) * (columns t : Int) + p.startX +
      columns t * ((t.scrolled + rows.toNat : Nat) : Int) =
        p.startY * columns t + p.startX + columns t * t.scrolled
    push_cast
    ring
  · intro known
    change p.lastPainted - (rows.toNat : Int) ≤ 65535
    dsimp only at known
    omega

theorem steady_sameBut {region : Nat → Nat → Prop} {t u : Screen} (p : Painter)
    (same : SameBut region t u) : Steady (p, t) (p, u) := by
  refine ⟨same.width, same.height, ?_, id⟩
  unfold home columns
  rw [same.width, same.scrolled]

theorem steady_reaching (p : Painter) (t : Screen) {row : Int} (low : row ≤ 65535) :
    Steady (p, t) (p.reaching row, t) :=
  ⟨rfl, rfl, rfl, fun _ => low⟩

variable {p q : Painter} {c d : Faulty Screen}

theorem steady_moveCursor (x y : UInt16) (s : Painter × Faulty Screen) :
    Steady (seen s) (seen ((moveCursor x y).exec s).2) := by
  rcases follows_moveCursor x y s with ⟨-, same⟩ | ⟨-, same⟩
  · rw [same]
    unfold moveCursor
    rcases setCursorPosition_cases (seen s).2 x y with ⟨rows, cell, taken⟩ | ⟨e, refused⟩
    · rw [exec_bind_of_ok (exec_onConsole _ taken), exec_modify]
      exact steady_scroll _ _ rows cell
    · rw [exec_bind_of_error (exec_onConsole _ refused)]
      exact .refl _
  · rw [same]
    exact .refl _

theorem steady_makeRoom (width height n : Nat) (s : Painter × Faulty Screen) :
    Steady (seen s) (seen ((makeRoom width height n).exec s).2) := by
  unfold makeRoom
  rw [exec_bind_of_ok (exec_get _)]
  dsimp only
  split
  · exact steady_moveCursor _ _ s
  · exact .refl _

/-- Where room was made for a line, it ends on the screen, from the same column on. So the cell of
the cursor is on the screen too, and to place the cursor there scrolls nothing. -/
theorem lastRow_lt_of_makeRoom {t u : Screen} {n : Nat} (some_rows : 0 < t.height)
    (low : p.lastRow (columns t) n ≤ 65535)
    (run : (makeRoom (columns t) t.height.toNat n).exec (p, t) = (.ok (), q, u)) :
    q.startX = p.startX ∧ q.lastRow (columns t) n < (t.height.toNat : Int) := by
  by_cases some_columns : 0 < t.width
  · rw [columns_eq some_columns] at low run ⊢
    obtain ⟨cell, roomy⟩ := exec_makeRoom p t n some_columns some_rows low
    obtain rfl : p.raise (p.overflow t.width.toNat t.height.toNat n) = q :=
      congrArg (·.2.1) (roomy.symm.trans run)
    rw [lastRow_raise]
    exact ⟨rfl, lastRow_sub_overflow_lt _ _ _ _⟩
  · -- a screen without columns takes no cursor, so that there was room before
    unfold makeRoom at run
    rw [exec_bind_of_ok (exec_get _)] at run
    dsimp only at run
    split at run
    next below =>
      have refused := exec_setCursorPosition_of_right t (saturate (p.lastRow (columns t) n).toNat)
        (UInt16.not_lt.mp some_columns)
      unfold moveCursor at run
      rw [exec_bind_of_error (exec_onConsole p refused)] at run
      exact absurd (congrArg Prod.fst run) nofun
    next shown =>
      obtain rfl : p = q := congrArg (·.2.1) run
      exact ⟨rfl, Int.not_le.mp shown⟩

theorem cursorIntoCell_cases (p : Painter) (t : Screen) {n cursor : Nat}
    (anchor : p.startX < columns t) (room : p.lastRow (columns t) n < (t.height.toNat : Int))
    (some_rows : 0 < t.height) (inside : cursor ≤ n) :
    let cell := p.cellOf (columns t) cursor
    (Console.setCursorPosition cell.1 cell.2 : Attempt Screen UInt16).exec t =
        (.ok 0, t.withCursor cell) ∨
      ∃ e, (Console.setCursorPosition cell.1 cell.2 : Attempt Screen UInt16).exec t =
        (.error e, t) := by
  by_cases some_columns : 0 < t.width
  · rw [columns_eq some_columns] at anchor room ⊢
    exact .inl (exec_cursorIntoCell p t anchor room some_rows inside)
  · have none : t.width = 0 := UInt16.le_zero_iff.mp (UInt16.not_lt.mp some_columns)
    exact .inr ⟨_, exec_setCursorPosition_of_right t _ (none ▸ UInt16.zero_le)⟩

/-- A redraw's outcome: the anchor is kept, and if nothing failed the last operation was to place
the cursor, by which nothing scrolled. -/
structure Lands (s : Painter × Screen) (run : Except ConsoleError Unit × Painter × Faulty Screen) :
    Prop where
  steady : Steady s (seen run.2)
  still : run.1 = .ok () → ∃ x y, run.2.2.strokes.getLast? = some (.move x y (some 0))

theorem lands_of_error {s : Painter × Screen} {e : ConsoleError} {t : Painter × Faulty Screen}
    (steady : Steady s (seen t)) : Lands s (.error e, t) :=
  ⟨steady, nofun⟩

theorem Lands.after {s t : Painter × Screen}
    {run : Except ConsoleError Unit × Painter × Faulty Screen} (lands : Lands t run)
    (steady : Steady s t) : Lands s run :=
  ⟨steady.trans lands.steady, lands.still⟩

theorem lands_cursorIntoCell {n cursor : Nat} (q : Painter) (anchor : p.startX < columns c.screen)
    (room : p.lastRow (columns c.screen) n < (c.screen.height.toNat : Int))
    (some_rows : 0 < c.screen.height) (inside : cursor ≤ n) :
    let cell := p.cellOf (columns c.screen) cursor
    Lands (q, c.screen)
      ((do let _ ← onConsole (Console.setCursorPosition cell.1 cell.2) :
        Paint (Faulty Screen) Unit).exec (q, c)) := by
  intro cell
  have follows : Follows screen (Console.setCursorPosition cell.1 cell.2 :
      Attempt (Faulty Screen) UInt16) (Console.setCursorPosition cell.1 cell.2) :=
    follows_guarded _ _ _
  have fails {e : ConsoleError} {d : Faulty Screen} (same : d.screen = c.screen)
      (failed : (Console.setCursorPosition cell.1 cell.2 : Attempt (Faulty Screen) UInt16).exec c =
        (.error e, d)) :
      Lands (q, c.screen)
        ((do let _ ← onConsole (Console.setCursorPosition cell.1 cell.2) :
          Paint (Faulty Screen) Unit).exec (q, c)) := by
    rw [exec_bind_of_error (exec_onConsole q failed), ← same]
    exact lands_of_error (.refl (q, d.screen))
  rcases cursorIntoCell_cases p c.screen anchor room some_rows inside with taken | ⟨e, refused⟩
  · rcases follows.cases taken with ⟨d, ran, same⟩ | ⟨e, d, failed, same⟩
    · have moved : SameBut (fun _ _ => False) c.screen d.screen := by
        rw [same]
        exact sameBut_withCursor c.screen cell
      rw [exec_bind_of_ok (exec_onConsole q ran)]
      refine ⟨steady_sameBut q moved, fun _ => ⟨cell.1, cell.2, ?_⟩⟩
      change d.strokes.getLast? = _
      rw [strokes_guarded ran]
      exact List.getLast?_concat
    · exact fails same failed
  · obtain ⟨e, d, failed, same | same⟩ := follows.fails refused
    · exact fails same failed
    · exact fails same failed

theorem lands_place (text : List Char) (cursor : Nat) (anchor : p.startX < columns c.screen)
    (room : p.lastRow (columns c.screen) text.length < (c.screen.height.toNat : Int))
    (some_rows : 0 < c.screen.height) (known : p.lastPainted ≤ 65535) :
    Lands (p, c.screen) ((place (columns c.screen) text cursor).exec (p, c)) := by
  have height_le := c.screen.height.toNat_lt
  have width_le : columns c.screen ≤ 65535 := by
    have := c.screen.width.toNat_lt
    unfold columns
    omega
  have confined := confined_paintRows text anchor width_le (by omega) known c
  have start : (onConsole (p.paintRows (columns c.screen) text)).exec (p, c) =
      (((p.paintRows (columns c.screen) text).exec c).1, p,
        ((p.paintRows (columns c.screen) text).exec c).2) := rfl
  unfold place
  rw [exec_bind_of_ok (exec_get _)]
  dsimp only
  generalize (p.paintRows (columns c.screen) text).exec c = run at confined start
  obtain ⟨r, d⟩ := run
  cases r with
  | error e =>
    rw [exec_bind_of_error start]
    exact lands_of_error (steady_sameBut p confined)
  | ok _ =>
    rw [exec_bind_of_ok start, exec_bind_of_ok (exec_modify _ _)]
    dsimp only
    have steady : Steady (p, c.screen) (p.painted (columns c.screen) text.length, d.screen) :=
      (steady_sameBut p confined).trans (steady_reaching p d.screen (by omega))
    have same : columns d.screen = columns c.screen := by
      unfold columns
      rw [confined.width]
    rw [← same] at anchor room ⊢
    rw [← confined.height] at room some_rows
    rw [← same] at steady
    exact (lands_cursorIntoCell _ anchor room some_rows (Nat.min_le_right _ _)).after steady

theorem lands_paint (text : List Char) (cursor : Nat) (anchor : p.startX < columns c.screen)
    (some_rows : 0 < c.screen.height) (low : p.lastRow (columns c.screen) text.length ≤ 65535)
    (known : p.lastPainted ≤ 65535) :
    Lands (p, c.screen)
      ((do
        makeRoom (columns c.screen) c.screen.height.toNat text.length
        place (columns c.screen) text cursor : Paint (Faulty Screen) Unit).exec (p, c)) := by
  have steady := steady_makeRoom (columns c.screen) c.screen.height.toNat text.length (p, c)
  have sound := (follows_makeRoom (columns c.screen) c.screen.height.toNat text.length).refines
    (p, c) ()
  cases run : (makeRoom (columns c.screen) c.screen.height.toNat text.length).exec (p, c) with
  | mk result s =>
    rw [run] at steady sound
    cases result with
    | error e =>
      rw [exec_bind_of_error run]
      exact lands_of_error steady
    | ok _ =>
      obtain ⟨q, d⟩ := s
      obtain ⟨column, room⟩ := lastRow_lt_of_makeRoom some_rows low (sound rfl)
      have same : columns d.screen = columns c.screen := congrArg (max ·.toNat 1) steady.width
      have rows : d.screen.height = c.screen.height := steady.height
      change q.startX = p.startX at column
      rw [← column, ← same] at anchor
      rw [← same, ← rows] at room
      rw [← rows] at some_rows
      rw [exec_bind_of_ok run, ← same]
      exact (lands_place text cursor anchor room some_rows (steady.painted known)).after steady

theorem lands_redraw (line : String) (cursor : Nat) (some_rows : 0 < c.screen.height)
    (low : p.InReach c.screen line.length) (known : p.lastPainted ≤ 65535) :
    Lands (p, c.screen) ((redraw line cursor).exec (p, c)) := by
  rcases exec_redraw_cases p c line cursor with ⟨e, d, failed, same⟩ | ⟨d, same, run⟩
  · rw [failed, ← same]
    exact lands_of_error (.refl (p, d.screen))
  · have anchor : (p.fold (columns d.screen)).startX < columns d.screen :=
      p.fold_startX_lt (Nat.lt_of_lt_of_le Nat.one_pos (Nat.le_max_right _ _))
    rw [← p.fold_lastPainted (columns d.screen)] at known
    rw [← same] at some_rows low ⊢
    unfold InReach at low
    rw [← String.length_toList] at low run
    rw [run]
    exact (lands_paint line.toList cursor anchor some_rows low known).after
      (steady_fold p d.screen)

theorem steady_finish (n : Nat) (s : Painter × Faulty Screen) :
    Steady (seen s) (seen ((finish n).exec s).2) := by
  obtain ⟨p, c⟩ := s
  have width : (consoleWidth : Paint Screen Nat).exec (p, c.screen) =
      (.ok (columns c.screen), p, c.screen) := rfl
  have kept {d : Faulty Screen} (same : d.screen = c.screen) :
      Steady (seen (p, c)) (seen (p, d)) := by
    unfold seen
    rw [same]
    exact .refl _
  unfold finish
  rcases cases_of_follows follows_consoleWidth width with ⟨d, ran, same⟩ | ⟨e, d, failed, same⟩
  · rw [exec_bind_of_ok ran, exec_bind_of_ok (exec_get _)]
    exact (kept same).trans (steady_moveCursor _ _ (p, d))
  · rw [exec_bind_of_error failed]
    exact kept same

/-- A painter that began at the cursor of a screen, and calls of it since then. Any operation of the
screen may fail, and of the lines no more is asked than that their rows can be counted. -/
inductive Calls (s : Screen) : Painter → Faulty Screen → Prop
  | begun {before q : Painter} {c d : Faulty Screen} : c.screen = s →
      begin.exec (before, c) = (.ok (), q, d) → Calls s q d
  | fault {p : Painter} {c : Faulty Screen} (f : Option Fault) :
      Calls s p c → Calls s p { c with fault := f }
  | redraw {p : Painter} {c : Faulty Screen} (line : String) (cursor : Nat) :
      Calls s p c → p.InReach c.screen line.length →
      Calls s ((redraw line cursor).exec (p, c)).2.1 ((redraw line cursor).exec (p, c)).2.2
  | finish {p : Painter} {c : Faulty Screen} (n : Nat) :
      Calls s p c → Calls s ((finish n).exec (p, c)).2.1 ((finish n).exec (p, c)).2.2

variable {s : Screen}

theorem seen_begin {before : Painter} (begun : begin.exec (before, c) = (.ok (), q, d)) :
    (q, d.screen) = (anchored c.screen.cursor.1 c.screen.cursor.2, c.screen) := by
  have follows : Follows seen (begin : Paint (Faulty Screen) Unit) begin :=
    (follows_onConsole (follows_guarded _ _ _)).bind fun _ _ => ⟨rfl, rfl⟩
  have sound := follows.refines (before, c) () (congrArg Prod.fst begun)
  rw [begun] at sound
  exact congrArg Prod.snd (sound.symm.trans (exec_begin before c.screen))

/-- No call moves the anchor. The induction is on the calls, where what a redraw does is said by
`Lands`. -/
theorem Calls.steady (calls : Calls s p c) (some_rows : 0 < s.height) :
    Steady (anchored s.cursor.1 s.cursor.2, s) (p, c.screen) := by
  induction calls with
  | begun same begun =>
    rw [seen_begin begun, same]
    exact .refl _
  | fault _ _ ih => exact ih
  | redraw line cursor _ low ih =>
    have lands := lands_redraw line cursor (ih.height ▸ some_rows) low
      (ih.painted (lastPainted_anchored_le _ _))
    exact ih.trans lands.steady
  | finish n _ ih => exact ih.trans (steady_finish n (_, _))

/-- The anchor stays in its cell through any calls, whether they fail or not: counted from where the
screen was at first, it is where the painter began. And nothing scrolls when a redraw places the
cursor, which is the last that it does. -/
theorem home_of_calls (calls : Calls s p c) (some_rows : 0 < s.height) :
    columns c.screen = columns s ∧ home p c.screen = home (anchored s.cursor.1 s.cursor.2) s ∧
    ∀ (line : String) (cursor : Nat) (q : Painter) (d : Faulty Screen),
      p.InReach c.screen line.length → (redraw line cursor).exec (p, c) = (.ok (), q, d) →
      ∃ x y, d.strokes.getLast? = some (.move x y (some 0)) := by
  have steady := calls.steady some_rows
  refine ⟨congrArg (max ·.toNat 1) steady.width, steady.home, ?_⟩
  intro line cursor q d low run
  have lands := lands_redraw line cursor (steady.height ▸ some_rows) low
    (steady.painted (lastPainted_anchored_le _ _))
  rw [run] at lands
  exact lands.still rfl

namespace strained

def refusing : Faulty Screen := ⟨prompted, some ⟨.setCursorPosition, 1, .io "device not ready"⟩, []⟩

/-- A line of six characters scrolls the screen by one row, and then its cursor cannot be placed. -/
def scrolled : Except ConsoleError Unit × Painter × Faulty Screen :=
  (redraw "abcdef" 6).exec (anchored 1 0, refusing)

def left : Except ConsoleError Unit × Painter × Faulty Screen :=
  (finish 6).exec (scrolled.2.1, { scrolled.2.2 with fault := none })

theorem calls_left : Calls prompted left.2.1 left.2.2 := by
  have begun : Calls prompted (anchored 1 0) (.sound prompted) :=
    .begun (show (sound prompted).screen = prompted from rfl)
      (show begin.exec (origin, sound prompted) = _ from rfl)
  exact .finish 6 (.fault none (.redraw "abcdef" 6 (.fault refusing.fault begun) (by decide +kernel)))

end strained

open strained in
/-- The screen scrolled by two rows for a painter that failed in between, and the next redraw begins
two rows higher. -/
theorem home_of_calls_strained :
    scrolled.1.isOk = false ∧ left.2.2.screen.scrolled = 2 ∧ home left.2.1 left.2.2.screen = 1 ∧
      ∃ x y, ((redraw "x" 1).exec left.2).2.2.strokes.getLast? = some (.move x y (some 0)) := by
  obtain ⟨-, same, still⟩ := home_of_calls calls_left (by decide)
  refine ⟨by decide +kernel, by decide +kernel, same, ?_⟩
  exact still "x" 1 _ _ (by decide +kernel) (Prod.ext (by decide +kernel) rfl)

end Painter

end LineEdit
