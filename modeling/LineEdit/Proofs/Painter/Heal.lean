import LineEdit.Proofs.Painter.Redrawn
import Mathlib.Data.List.Induction

/-!
# What is left on the screen after redraws that fail

A painter blanks the rows below a line as far as it knows of a line painted there, and it learns how
far a line reaches only when all of the line is painted. When a redraw fails on its way down, the
rows that it has drawn are on the screen, but not in the books: the next redraw takes away what the
last line that was painted to its end has left, and of one that was not it leaves whatever stands
below both lines.

Three rows are enough to say what is known of the screen: the row that the painter takes for the
last one painted, the lowest row of the lines that were painted to their end, and the row below
which the others have left nothing. The first two bound what was on the screen before and what is
blank; between the painter's row and the third the screen may show parts of lines that no line took
away.
-/
namespace LineEdit.Painter

open Attempt Screen Faulty

/-- What is known of the rows on which lines from one anchor were painted, counted as if the screen
had not scrolled: the row that the painter takes for the last one painted, the row below which lines
that were not painted to their end have left nothing, and the lowest row of the lines that were. -/
structure Account where
  kept : Int
  left : Int
  lowest : Int
  kept_le : kept ≤ lowest

/-- A line ends in row `last`, and the painter takes that for the last row painted or does not. In
the second case the line may have left something down to that row. -/
def Account.add (rows : Account) (last : Int) : Bool → Account
  -- all that was left goes with the rows that are blanked now, or none of it is known to be gone
  | true =>
    ⟨last, if rows.left ≤ max rows.kept last then last else rows.left, max rows.lowest last,
      Int.le_max_right _ _⟩
  | false => { rows with left := max rows.left last }

/-- The account of attempts to paint lines from an anchor. -/
def account (a : Painter) (width : Nat) (attempts : List (String × Bool)) : Account :=
  attempts.foldl (fun rows attempt => rows.add (a.lastRow width attempt.1.length) attempt.2)
    ⟨a.lastPainted, a.lastPainted, a.lastPainted, Int.le_refl _⟩

def remembers (p : Painter) (width : Nat) (line : String) : Bool :=
  decide (p.lastPainted = (p.fold width).lastRow width line.length)

/-- Attempts to redraw lines from one anchor, any operation of which may fail: each line, and
whether the painter takes it for painted then. -/
inductive Attempts (s : Screen) (a : Painter) : List (String × Bool) → Painter → Faulty Screen → Prop
  | begun {c : Faulty Screen} : c.screen = s → Attempts s a [] a c
  | fault {attempts : List (String × Bool)} {p : Painter} {c : Faulty Screen} (f : Option Fault) :
      Attempts s a attempts p c → Attempts s a attempts p { c with fault := f }
  | redraw {attempts : List (String × Bool)} {p q : Painter} {c d : Faulty Screen}
      {result : Except ConsoleError Unit} (line : String) (cursor : Nat) :
      Attempts s a attempts p c → (redraw line cursor).exec (p, c) = (result, q, d) →
      Attempts s a (attempts ++ [(line, q.remembers s.width.toNat line)]) q d

/-- What a screen `s` shows outside of a line, after lines from the anchor were painted down to row
`lowest`. -/
def ground (s : Screen) (a : Painter) (lowest : Int) (x y : Nat) : Char :=
  if a.Before x y ∨ lowest < y then (s.cell? x y).getD ' ' else ' '

/-- The painter and the screen agree with the account: before the anchor, and below all rows that
may show something else, the screen shows its ground. It has scrolled by `d` rows. -/
structure Agrees (s : Screen) (a : Painter) (rows : Account) (d : Nat) (p : Painter) (t : Screen) :
    Prop where
  width : t.width = s.width
  height : t.height = s.height
  scrolled : t.scrolled = s.scrolled + d
  painter : p.fold s.width.toNat = (a.reaching rows.kept).raise d
  cells : ∀ x < s.width.toNat, ∀ y < s.height.toNat,
    a.Before x (y + d : Nat) ∨ max rows.kept rows.left < (y + d : Nat) →
    t.cell? x y = some (ground s a rows.lowest x (y + d))
  low : rows.lowest ≤ 65535

variable {s t u : Screen} {a p q : Painter} {rows : Account} {d r : Nat} {line : String}

theorem ground_max {lowest last : Int} {x y : Nat} (behind : last < y) :
    ground s a lowest x y = ground s a (max lowest last) x y := by
  have same : max lowest last < y ↔ lowest < y := by omega
  unfold ground
  simp only [same]

theorem ground_of_reached {lowest last : Int} {x y : Nat} (start : a.startY ≤ last)
    (behind : last < y) (reached : (y : Int) ≤ lowest) : ground s a lowest x y = ' ' := by
  unfold ground Before
  rw [if_neg (by omega)]

theorem lastPainted_of_fold {kept : Int} (painter : p.fold s.width.toNat = (a.reaching kept).raise d) :
    p.lastPainted = kept - d := by
  rw [← p.fold_lastPainted s.width.toNat, painter]
  rfl

theorem Agrees.lastRow (agrees : Agrees s a rows d p t) (n : Nat) :
    (p.fold s.width.toNat).lastRow s.width.toNat n = a.lastRow s.width.toNat n - d := by
  rw [agrees.painter, lastRow_raise]
  rfl

theorem ground_of_below {x y : Nat} (below : s.height.toNat ≤ y) (lowest : Int) :
    ground s a lowest x y = ' ' := by
  have none : s.cell? x y = none := (s.cell?_eq_none_iff x y).mpr (.inr below)
  unfold ground
  rw [none]
  exact ite_self _

theorem Agrees.scroll (agrees : Agrees s a rows d p t) (r : Nat) {x y : Nat}
    (column : x < s.width.toNat)
    (outside : a.Before x (y + (d + r) : Nat) ∨ max rows.kept rows.left < (y + (d + r) : Nat)) :
    (t.cell? x (y + r)).getD ' ' = ground s a rows.lowest x (y + (d + r)) := by
  have same : y + (d + r) = y + r + d := by omega
  rw [same] at outside ⊢
  by_cases shown : y + r < s.height.toNat
  · rw [agrees.cells x column (y + r) shown outside]
    rfl
  · have below : t.cell? x (y + r) = none :=
      (t.cell?_eq_none_iff x (y + r)).mpr (.inr (by rw [agrees.height]; omega))
    rw [below, ground_of_below (by omega)]
    rfl

theorem Agrees.cell?_scroll (agrees : Agrees s a rows d p t) (r : Nat) {x y : Nat}
    (column : x < s.width.toNat) (row : y < s.height.toNat) :
    (t.scroll r).cell? x y = some ((t.cell? x (y + r)).getD ' ') := by
  rw [Screen.cell?_scroll, agrees.width, agrees.height, if_pos ⟨column, row⟩]

theorem lastRow_toList (a : Painter) (kept : Int) (width : Nat) (line : String) :
    (a.reaching kept).lastRow width line.toList.length = a.lastRow width line.length := by
  rw [String.length_toList]
  rfl

theorem remembers_iff (line : String) {kept : Int}
    (painter : q.fold s.width.toNat = (a.reaching kept).raise d) :
    q.remembers s.width.toNat line = true ↔ kept = a.lastRow s.width.toNat line.length := by
  have painted := lastPainted_of_fold painter
  have last : (a.reaching kept).lastRow s.width.toNat line.length =
      a.lastRow s.width.toNat line.length := rfl
  unfold remembers
  rw [decide_eq_true_iff, painted, painter, lastRow_raise, last]
  omega

theorem Agrees.cell?_of_sameBut (agrees : Agrees s a rows d p t) {last : Int}
    (same : SameBut (fun x y => ¬a.Before x (y + (d + r) : Nat) ∧
      ((y + (d + r) : Nat) : Int) ≤ max rows.kept last) (t.scroll r) u) {x y : Nat}
    (column : x < s.width.toNat) (row : y < s.height.toNat)
    (outside : a.Before x (y + (d + r) : Nat) ∨
      max rows.kept (max rows.left last) < (y + (d + r) : Nat)) :
    u.cell? x y = some (ground s a rows.lowest x (y + (d + r))) := by
  have beyond : a.Before x (y + (d + r) : Nat) ∨ (max rows.kept last < (y + (d + r) : Nat) ∧
      max rows.kept rows.left < (y + (d + r) : Nat)) := outside.imp_right fun below => by omega
  have unchanged : ¬(¬a.Before x (y + (d + r) : Nat) ∧
      ((y + (d + r) : Nat) : Int) ≤ max rows.kept last) := by
    rintro ⟨behind, above⟩
    rcases beyond with before | ⟨below, -⟩
    · exact behind before
    · exact absurd above (Int.not_le.mpr below)
  rw [same.cells x y unchanged, agrees.cell?_scroll r column row,
    agrees.scroll r column (beyond.imp_right And.right)]

/-- An attempt that did not paint all of the line keeps the account: it has scrolled the screen, and
changed it at most in the cells of the line and the blanks below. -/
theorem Agrees.of_failed (agrees : Agrees s a rows d p t)
    (painter : q.fold s.width.toNat = (a.reaching rows.kept).raise (d + r))
    (same : SameBut (fun x y => ¬a.Before x (y + (d + r) : Nat) ∧
      ((y + (d + r) : Nat) : Int) ≤ max rows.kept (a.lastRow s.width.toNat line.length)) (t.scroll r) u)
    (low : a.lastRow s.width.toNat line.length ≤ 65535) :
    Agrees s a (rows.add (a.lastRow s.width.toNat line.length) (q.remembers s.width.toNat line))
      (d + r) q u := by
  have remembered := remembers_iff line painter
  have kept_le := rows.kept_le
  have lowest_le := agrees.low
  generalize a.lastRow s.width.toNat line.length = last at *
  cases remembers : q.remembers s.width.toNat line with
  | true =>
    have kept : rows.kept = last := remembered.mp remembers
    have lowest : max rows.lowest last = rows.lowest := by omega
    constructor
    case width => exact same.width.trans agrees.width
    case height => exact same.height.trans agrees.height
    case scrolled => rw [same.scrolled, ← Nat.add_assoc, ← agrees.scrolled]; rfl
    -- the painter believes so without having painted it, as the last line ended in the same row
    case painter => rw [painter, kept]; rfl
    case cells =>
      intro x column y row outside
      dsimp only [Account.add] at outside ⊢
      rw [lowest]
      refine agrees.cell?_of_sameBut same column row (outside.imp_right fun below => ?_)
      split at below
      next => omega
      next => omega
    case low => exact Int.max_le.mpr ⟨lowest_le, low⟩
  | false =>
    constructor
    case width => exact same.width.trans agrees.width
    case height => exact same.height.trans agrees.height
    case scrolled => rw [same.scrolled, ← Nat.add_assoc, ← agrees.scrolled]; rfl
    case painter => exact painter
    case cells =>
      intro x column y row outside
      exact agrees.cell?_of_sameBut same column row outside
    case low => exact lowest_le

/-- What a screen shows in a cell when a line was painted on it whole: its characters and blanks
behind them, and blanks as far down as the painter knew of something painted. What is below that
stays. -/
theorem Agrees.cell?_whole (agrees : Agrees s a rows d p t) (text : List Char) (r : Nat) {x y : Nat}
    (column : x < s.width.toNat) (row : y < s.height.toNat) :
    ((t.scroll r).inked (((a.reaching rows.kept).raise (d + r)).ink s.width.toNat text)).cell? x y =
      some (((a.reaching rows.kept).ink s.width.toNat text x (y + (d + r))).getD
        ((t.cell? x (y + r)).getD ' ')) := by
  rw [cell?_inked, agrees.cell?_scroll r column row, ink_raise]
  rfl

theorem Agrees.of_whole (agrees : Agrees s a rows d p t) (cell : UInt16 × UInt16)
    (painter : q = ((a.reaching rows.kept).raise (d + r)).painted s.width.toNat line.length)
    (anchor : a.startX < s.width.toNat) (low : a.lastRow s.width.toNat line.length ≤ 65535) :
    Agrees s a (rows.add (a.lastRow s.width.toNat line.length) (q.remembers s.width.toNat line))
      (d + r) q (((t.scroll r).inked
        (((a.reaching rows.kept).raise (d + r)).ink s.width.toNat line.toList)).withCursor cell) := by
  have folded : q.fold s.width.toNat =
      (a.reaching (a.lastRow s.width.toNat line.length)).raise (d + r) := by
    rw [painter, painted_raise]
    exact if_pos anchor
  have start := a.startY_le_lastRow s.width.toNat line.length
  have last := a.lastRow_toList rows.kept s.width.toNat line
  have kept_le := rows.kept_le
  rw [(remembers_iff line folded).mpr rfl]
  constructor
  case width => exact agrees.width
  case height => exact agrees.height
  case scrolled => rw [← Nat.add_assoc, ← agrees.scrolled]; rfl
  case painter => exact folded
  case low => exact Int.max_le.mpr ⟨agrees.low, low⟩
  case cells =>
    intro x column y row outside
    dsimp only [Account.add] at outside ⊢
    rw [cell?_withCursor, agrees.cell?_whole line.toList r column row]
    rcases outside with before | below
    · rw [ink_before (p := a.reaching rows.kept) before,
        Option.getD_none, agrees.scroll r column (.inl before)]
      unfold ground
      rw [if_pos (.inl before), if_pos (.inl before)]
    · have behind : a.lastRow s.width.toNat line.length < (y + (d + r) : Nat) := by omega
      by_cases stale : ((y + (d + r) : Nat) : Int) ≤ rows.kept
      · rw [ink_stale (p := a.reaching rows.kept) (by omega) stale,
          ground_of_reached start behind (by omega)]
        rfl
      · have unmarked : max rows.kept rows.left < (y + (d + r) : Nat) := by
          split at below
          next => omega
          next => omega
        rw [ink_beyond (p := a.reaching rows.kept) (by omega) (Int.not_le.mp stale),
          Option.getD_none, agrees.scroll r column (.inr unmarked), ground_max behind]

theorem before_raise (p : Painter) (n x y : Nat) :
    (p.raise n).Before x y ↔ p.Before x (y + n : Nat) := by
  unfold Before raise
  dsimp only
  omega

theorem Agrees.ready (agrees : Agrees s a rows d p t) (n : Nat) :
    p.ready t n = (a.reaching rows.kept).raise (d + p.room t n) := by
  unfold Painter.ready
  rw [agrees.width, agrees.painter, raise_raise]

theorem Agrees.redrawn (agrees : Agrees s a rows d p t) {ok : Bool}
    (redrawn : Redrawn p t line ok q u) (anchor : a.startX < s.width.toNat)
    (low : a.lastRow s.width.toNat line.length ≤ 65535) :
    ∃ d', Agrees s a
      (rows.add (a.lastRow s.width.toNat line.length) (q.remembers s.width.toNat line)) d' q u := by
  have ready := agrees.ready line.length
  cases redrawn with
  | nothing unmoved =>
    have painter : q.fold s.width.toNat = (a.reaching rows.kept).raise (d + 0) := by
      rw [Nat.add_zero, ← agrees.painter]
      rcases unmoved with rfl | rfl
      · rfl
      · rw [agrees.width]
        exact fold_fold p (Nat.zero_lt_of_lt anchor)
    refine ⟨d + 0, agrees.of_failed painter ?_ low⟩
    rw [scroll_zero]
    exact .refl _ t
  | part confined =>
    rw [ready] at confined ⊢
    refine ⟨d + p.room t line.length, agrees.of_failed (if_pos anchor) (confined.mono ?_) low⟩
    rintro x y ⟨behind, within⟩
    rw [before_raise] at behind
    rw [lastRow_raise, agrees.width] at within
    change (y : Int) ≤ max (a.lastRow _ _ - _) (rows.kept - _) at within
    exact ⟨behind, by omega⟩
  | whole ok cell =>
    rw [ready, agrees.width]
    exact ⟨d + p.room t line.length, agrees.of_whole cell rfl anchor low⟩

/-- Where the account holds, what a redraw leaves is known. -/
theorem Agrees.exec {c : Faulty Screen} (agrees : Agrees s a rows d p c.screen) (line : String)
    (cursor : Nat) (some_columns : 0 < s.width) (some_rows : 0 < s.height)
    (low : a.lastRow s.width.toNat line.length ≤ 65535) :
    Redrawn p c.screen line ((redraw line cursor).exec (p, c)).1.isOk
      ((redraw line cursor).exec (p, c)).2.1 ((redraw line cursor).exec (p, c)).2.2.screen := by
  have lastPainted := lastPainted_of_fold agrees.painter
  have kept_le := rows.kept_le
  have lowest_le := agrees.low
  refine redrawn_exec p c line cursor (by rwa [agrees.width]) (by rwa [agrees.height]) ?_ (by omega)
  rw [agrees.width, agrees.lastRow]
  omega

theorem agrees_begun (s : Screen) (x y : UInt16) :
    Agrees s ((anchored x y).fold s.width.toNat)
      (account ((anchored x y).fold s.width.toNat) s.width.toNat []) 0 (anchored x y) s := by
  have lastPainted : ((anchored x y).fold s.width.toNat).lastPainted = y.toNat :=
    fold_lastPainted _ _
  constructor
  case width => rfl
  case height => rfl
  case scrolled => rfl
  case painter =>
    unfold raise
    rw [Int.natCast_zero, Int.sub_zero, Int.sub_zero]
    rfl
  case cells =>
    intro i column j row outside
    rw [Nat.add_zero] at outside ⊢
    cases shown : s.cell? i j with
    | none =>
      have gone := (s.cell?_eq_none_iff i j).mp shown
      omega
    | some c =>
      have same : ground s ((anchored x y).fold s.width.toNat)
          ((anchored x y).fold s.width.toNat).lastPainted i j = (s.cell? i j).getD ' ' :=
        if_pos (outside.imp_right fun below => (Int.max_lt.mp below).1)
      rw [shown] at same
      exact congrArg some same.symm
  case low =>
    have := y.toNat_lt
    change ((anchored x y).fold s.width.toNat).lastPainted ≤ 65535
    omega

/-- Any number of attempts keep the account of their lines. The induction is on the attempts; what
one of them may leave is one of the cases of `Redrawn`. -/
theorem Attempts.agrees {attempts : List (String × Bool)} {c : Faulty Screen} {x y : UInt16}
    (run : Attempts s (anchored x y) attempts p c) (some_columns : 0 < s.width)
    (some_rows : 0 < s.height)
    (low : ∀ attempt ∈ attempts,
      ((anchored x y).fold s.width.toNat).lastRow s.width.toNat attempt.1.length ≤ 65535) :
    ∃ d, Agrees s ((anchored x y).fold s.width.toNat)
      (account ((anchored x y).fold s.width.toNat) s.width.toNat attempts) d p c.screen := by
  have columns := UInt16.lt_iff_toNat_lt.mp some_columns
  have anchor := (anchored x y).fold_startX_lt columns
  induction run with
  | begun start =>
    rw [start]
    exact ⟨0, agrees_begun s x y⟩
  | fault f run ih => exact ih low
  | @redraw attempts p q c c' result line cursor run ran ih =>
    obtain ⟨d, agrees⟩ := ih fun attempt mem => low attempt (List.mem_append_left _ mem)
    have here : ((anchored x y).fold s.width.toNat).lastRow s.width.toNat line.length ≤ 65535 :=
      low (line, _) List.mem_concat_self
    have redrawn := agrees.exec line cursor some_columns some_rows here
    rw [ran] at redrawn
    obtain ⟨d', kept⟩ := agrees.redrawn redrawn anchor here
    refine ⟨d', ?_⟩
    unfold account at kept ⊢
    rw [List.foldl_append]
    exact kept

/-- What the account says that a screen `s` shows when a line was painted on it whole, none where it
does not say it. -/
def healed (s : Screen) (a : Painter) (rows : Account) (line : String) (x y : Nat) : Option Char :=
  if a.Before x y then some ((s.cell? x y).getD ' ')
  else if (y : Int) ≤ a.lastRow s.width.toNat line.length then
    some ((line.toList[((y : Int) - a.startY).toNat * s.width.toNat + x - a.startX]?).getD ' ')
  else if (y : Int) ≤ rows.kept then some ' '
  else if (y : Int) ≤ rows.left then none
  else if (y : Int) ≤ rows.lowest then some ' '
  else some ((s.cell? x y).getD ' ')

theorem Agrees.healed (agrees : Agrees s a rows d p t) (cell : UInt16 × UInt16) (r : Nat) {x y : Nat}
    (column : x < s.width.toNat) (row : y < s.height.toNat) :
    (((t.scroll r).inked (((a.reaching rows.kept).raise (d + r)).ink s.width.toNat
      line.toList)).withCursor cell).cell? x y =
      some ((Painter.healed s a rows line x (y + (d + r))).getD ((t.cell? x (y + r)).getD ' ')) := by
  rw [cell?_withCursor, agrees.cell?_whole line.toList r column row, Option.some.injEq]
  have start := a.startY_le_lastRow s.width.toNat line.length
  have last := a.lastRow_toList rows.kept s.width.toNat line
  unfold Painter.healed
  by_cases before : a.Before x (y + (d + r) : Nat)
  · rw [if_pos before, ink_before (p := a.reaching rows.kept) before,
      Option.getD_none, agrees.scroll r column (.inl before)]
    exact if_pos (.inl before)
  rw [if_neg before]
  by_cases inside : ((y + (d + r) : Nat) : Int) ≤ a.lastRow s.width.toNat line.length
  · rw [if_pos inside, ink_inside (p := a.reaching rows.kept) before (by omega)]
    rfl
  rw [if_neg inside]
  by_cases stale : ((y + (d + r) : Nat) : Int) ≤ rows.kept
  · rw [if_pos stale, ink_stale (p := a.reaching rows.kept) (by omega) stale]
  rw [if_neg stale, ink_beyond (p := a.reaching rows.kept) (by omega) (Int.not_le.mp stale)]
  by_cases unknown : ((y + (d + r) : Nat) : Int) ≤ rows.left
  · rw [if_pos unknown]
  rw [if_neg unknown, Option.getD_none, agrees.scroll r column (.inr (by omega))]
  unfold ground
  by_cases reached : ((y + (d + r) : Nat) : Int) ≤ rows.lowest
  · rw [if_pos reached, if_neg fun h => h.elim before (Int.not_lt.mpr reached)]
    rfl
  · rw [if_neg reached, if_pos (.inr (Int.not_le.mp reached))]
    rfl

/-- In the rows that the lines of the attempts take up, the screen shows only the characters of one
line, in their own cells, and blanks. -/
def Heals (t : Screen) (q : Painter) (attempts : List (String × Bool)) (line : String) : Prop :=
  ∀ x < t.width.toNat, ∀ y < t.height.toNat, ¬q.Before x y →
    (∃ attempt ∈ attempts, (y : Int) ≤ q.lastRow t.width.toNat attempt.1.length) →
    t.cell? x y =
      some ((line.toList[((y : Int) - q.startY).toNat * t.width.toNat + x - q.startX]?).getD ' ')

theorem lastRow_le_account (a : Painter) (width : Nat) (attempts : List (String × Bool)) :
    ∀ attempt ∈ attempts, a.lastRow width attempt.1.length ≤
      max (account a width attempts).lowest (account a width attempts).left := by
  induction attempts using List.reverseRecOn with
  | nil => exact fun _ mem => nomatch mem
  | append_singleton earlier latest ih =>
    have step : account a width (earlier ++ [latest]) =
        (account a width earlier).add (a.lastRow width latest.1.length) latest.2 :=
      List.foldl_append
    rw [step]
    generalize account a width earlier = rows at ih ⊢
    have kept_le := rows.kept_le
    intro attempt mem
    rcases List.mem_append.mp mem with old | new
    · have reached := ih attempt old
      cases latest.2 with
      | true =>
        dsimp only [Account.add]
        split
        next => omega
        next => omega
      | false =>
        dsimp only [Account.add]
        omega
    · obtain rfl := List.mem_singleton.mp new
      cases attempt.2 with
      | true => exact Int.le_trans (Int.le_max_right _ _) (Int.le_max_left _ _)
      | false => exact Int.le_trans (Int.le_max_right _ _) (Int.le_max_right _ _)

theorem getElem?_below {x : Nat} {row : Int} {width : Nat} (columns : 0 < width)
    (below : a.lastRow width line.length < row) :
    line.toList[(row - a.startY).toNat * width + x - a.startX]? = none := by
  have length : line.toList.length = line.length := String.length_toList
  unfold lastRow at below
  have rows : (a.startX + line.length) / width < (row - a.startY).toNat := by omega
  have chars := (Nat.div_lt_iff_lt_mul columns).mp rows
  exact List.getElem?_eq_none_iff.mpr (by omega)

theorem healed_of_covered (columns : 0 < s.width.toNat)
    (covered : rows.left ≤ max rows.kept (a.lastRow s.width.toNat line.length)) {x y : Nat}
    (behind : ¬a.Before x y) (reached : (y : Int) ≤ max rows.lowest rows.left) :
    Painter.healed s a rows line x y =
      some ((line.toList[((y : Int) - a.startY).toNat * s.width.toNat + x - a.startX]?).getD ' ') := by
  have kept_le := rows.kept_le
  unfold Painter.healed
  rw [if_neg behind]
  by_cases inside : (y : Int) ≤ a.lastRow s.width.toNat line.length
  · rw [if_pos inside]
  rw [if_neg inside, getElem?_below columns (Int.not_le.mp inside), Option.getD_none]
  by_cases stale : (y : Int) ≤ rows.kept
  · rw [if_pos stale]
  · rw [if_neg stale, if_neg (by omega), if_pos (by omega)]

/-- A line painted whole heals the screen where nothing is left below it, nor below the row to which
the painter blanks. -/
theorem Agrees.heals (agrees : Agrees s a rows d p t) {attempts : List (String × Bool)}
    (reached : ∀ attempt ∈ attempts,
      a.lastRow s.width.toNat attempt.1.length ≤ max rows.lowest rows.left)
    (covered : rows.left ≤ max rows.kept (a.lastRow s.width.toNat line.length))
    (cell : UInt16 × UInt16) (r : Nat) :
    Heals (((t.scroll r).inked (((a.reaching rows.kept).raise (d + r)).ink s.width.toNat
      line.toList)).withCursor cell)
      (((a.reaching rows.kept).raise (d + r)).painted s.width.toNat line.length) attempts line := by
  rintro x column y row behind ⟨attempt, mem, within⟩
  change x < t.width.toNat at column
  change y < t.height.toNat at row
  change (y : Int) ≤ (((a.reaching rows.kept).raise (d + r)).painted _ _).lastRow t.width.toNat _
    at within
  change _ = some ((line.toList[((y : Int) - (a.startY - (d + r : Nat))).toNat *
    t.width.toNat + x - a.startX]?).getD ' ')
  rw [painted_raise, before_raise] at behind
  rw [painted_raise, lastRow_raise, agrees.width] at within
  change (y : Int) ≤ a.lastRow s.width.toNat attempt.1.length - _ at within
  rw [agrees.width] at column ⊢
  rw [agrees.height] at row
  have ends := reached attempt mem
  have same : (y : Int) - (a.startY - (d + r : Nat)) = (y + (d + r) : Nat) - a.startY := by omega
  rw [agrees.healed cell r column row,
    healed_of_covered (Nat.zero_lt_of_lt column) covered behind (by omega), same]
  rfl

/-- A line that is painted whole after any attempts: the screen shows what the account says, and
where that does not say it what it showed before. Before the anchor and below all the lines that is
what was there at first; if no attempt that was not painted to its end reaches below this line, and
below the row to which the painter blanks, then nothing but this line is left of all of them. -/
theorem cells_after_attempts {attempts : List (String × Bool)} {c c' : Faulty Screen} {x y : UInt16}
    (run : Attempts s (anchored x y) attempts p c) (some_columns : 0 < s.width)
    (some_rows : 0 < s.height) {cursor : Nat}
    (succeeds : (redraw line cursor).exec (p, c) = (.ok (), q, c'))
    (low : ∀ text ∈ line :: attempts.map Prod.fst,
      ((anchored x y).fold s.width.toNat).lastRow s.width.toNat text.length ≤ 65535) :
    let a := (anchored x y).fold s.width.toNat
    let rows := account a s.width.toNat attempts
    (∃ d d', c.screen.scrolled = s.scrolled + d ∧ c'.screen.scrolled = s.scrolled + d' ∧ d ≤ d' ∧
      ∀ i < s.width.toNat, ∀ j < s.height.toNat, c'.screen.cell? i j =
        some ((healed s a rows line i (j + d')).getD ((c.screen.cell? i (j + (d' - d))).getD ' '))) ∧
    (rows.left ≤ max rows.kept (a.lastRow s.width.toNat line.length) →
      Heals c'.screen q attempts line) := by
  obtain ⟨d, agrees⟩ := run.agrees some_columns some_rows fun attempt mem =>
    low attempt.1 (List.mem_cons_of_mem _ (List.mem_map_of_mem mem))
  have here := low line List.mem_cons_self
  have reached := lastRow_le_account ((anchored x y).fold s.width.toNat) s.width.toNat attempts
  have redrawn := agrees.exec line cursor some_columns some_rows here
  rw [succeeds] at redrawn
  change Redrawn p c.screen line true q c'.screen at redrawn
  dsimp only
  generalize c'.screen = u at redrawn ⊢
  generalize (anchored x y).fold s.width.toNat = a at *
  generalize account a s.width.toNat attempts = rows at *
  cases redrawn with
  | whole _ cell =>
    rw [agrees.ready line.length, agrees.width]
    generalize p.room c.screen line.length = r
    refine ⟨⟨d, d + r, agrees.scrolled, ?_, Nat.le_add_right d r, ?_⟩, ?_⟩
    · rw [← Nat.add_assoc, ← agrees.scrolled]
      rfl
    · intro i column j row
      rw [Nat.add_sub_cancel_left]
      exact agrees.healed cell r column row
    · intro covered
      exact agrees.heals reached covered cell r

namespace torn

def unfillable : Faulty Screen :=
  ⟨Screen.blank 4 3, some ⟨.fillChar, 0, .io "device not ready"⟩, []⟩

def halfway : Painter × Faulty Screen := ((redraw "aaaab" 0).exec (anchored 0 0, unfillable)).2

def mended : Faulty Screen := { halfway.2 with fault := none }

theorem attempts_mended :
    Attempts (Screen.blank 4 3) (anchored 0 0) [("aaaab", false)] halfway.1 mended := by
  have forgot : halfway.1.remembers (Screen.blank 4 3).width.toNat "aaaab" = false := by
    decide +kernel
  rw [← forgot]
  exact .fault none (.redraw "aaaab" 0 (.fault unfillable.fault (.begun (c := .sound _) rfl)) rfl)

def redone (line : String) : Painter × Faulty Screen :=
  ((redraw line 0).exec (halfway.1, mended)).2

end torn

open torn in
/-- A line that reaches as far as the one that was painted in part takes all of it from the
screen. -/
theorem cells_after_attempts_torn :
    Heals (redone "yyyy").2.screen (redone "yyyy").1 [("aaaab", false)] "yyyy" := by
  have painted : (redraw "yyyy" 0).exec (halfway.1, mended) = (.ok (), redone "yyyy") :=
    Prod.ext (by decide +kernel) rfl
  exact (cells_after_attempts attempts_mended (by decide) (by decide) painted (by decide +kernel)).2
    (by decide +kernel)

open torn in
/-- A redraw that succeeds does not always take from the screen what earlier ones left there. -/
theorem not_always_heals :
    ¬∀ (s : Screen) (x y : UInt16) (attempts : List (String × Bool)) (p q : Painter)
      (c c' : Faulty Screen) (line : String) (cursor : Nat), 0 < s.width → 0 < s.height →
      Attempts s (anchored x y) attempts p c →
      (redraw line cursor).exec (p, c) = (.ok (), q, c') → Heals c'.screen q attempts line := by
  intro heals
  have painted : (redraw "x" 0).exec (halfway.1, mended) = (.ok (), redone "x") :=
    Prod.ext (by decide +kernel) rfl
  have blank : Heals (redone "x").2.screen (redone "x").1 [("aaaab", false)] "x" :=
    heals _ 0 0 _ _ _ _ _ "x" 0 (by decide) (by decide) attempts_mended painted
  replace blank := blank 0 (by decide +kernel) 1 (by decide +kernel) (by decide +kernel)
    ⟨("aaaab", false), List.mem_singleton_self _, by decide +kernel⟩
  have shown : (redone "x").2.screen.cell? 0 1 = some 'b' := by decide +kernel
  rw [shown] at blank
  exact absurd blank (by decide +kernel)

end LineEdit.Painter
