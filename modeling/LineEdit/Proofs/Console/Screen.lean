import LineEdit.Console.Screen
import LineEdit.Proofs.Attempt

/-!
# A screen cell by cell

What is put on a screen is described as ink: for some cells a character, for the others none. A
screen is known by its cells besides its few other fields, so that writing, inking and scrolling
are compared cell by cell.
-/
namespace LineEdit.Screen

open Attempt

/-- A character for some cells, by column and row. What is written to a screen is described by its
ink, so that two writings can be compared and put together cell by cell. -/
abbrev Ink := Nat → Nat → Option Char

/-- The screen with the characters of `ink` in place of its own. Ink outside of the screen does
nothing. -/
def inked (s : Screen) (ink : Ink) : Screen :=
  { s with
    rows := s.rows.mapIdx fun y row => row.mapIdx fun x c => (ink x y).getD c
    rows_length := by simp [s.rows_length]
    row_length := by
      intro row mem
      obtain ⟨y, hy, rfl⟩ := List.mem_mapIdx.mp mem
      rw [List.length_mapIdx]
      exact s.row_length _ (List.getElem_mem hy) }

def withCursor (s : Screen) (cell : UInt16 × UInt16) : Screen := { s with cursor := cell }

@[simp] theorem width_scroll (s : Screen) (n : Nat) : (s.scroll n).width = s.width := rfl

@[simp] theorem height_scroll (s : Screen) (n : Nat) : (s.scroll n).height = s.height := rfl

@[simp] theorem width_inked (s : Screen) (ink : Ink) : (s.inked ink).width = s.width := rfl

@[simp] theorem height_inked (s : Screen) (ink : Ink) : (s.inked ink).height = s.height := rfl

@[simp] theorem scroll_withCursor (s : Screen) (cell : UInt16 × UInt16) (n : Nat) :
    (s.withCursor cell).scroll n = (s.scroll n).withCursor cell := rfl

@[simp] theorem inked_withCursor (s : Screen) (cell : UInt16 × UInt16) (ink : Ink) :
    (s.withCursor cell).inked ink = (s.inked ink).withCursor cell := rfl

@[simp] theorem withCursor_withCursor (s : Screen) (first second : UInt16 × UInt16) :
    (s.withCursor first).withCursor second = s.withCursor second := rfl

theorem cell?_eq_none_iff (s : Screen) (x y : Nat) :
    s.cell? x y = none ↔ s.width.toNat ≤ x ∨ s.height.toNat ≤ y := by
  unfold cell?
  by_cases hy : y < s.rows.length
  · have row := s.row_length _ (List.getElem_mem hy)
    rw [List.getElem?_eq_getElem hy, Option.bind_some, List.getElem?_eq_none_iff, row]
    rw [s.rows_length] at hy
    omega
  · rw [List.getElem?_eq_none (by omega)]
    rw [s.rows_length] at hy
    simp only [Option.bind_none, true_iff]
    omega

/-- Two screens are the same if their cells and their other fields are. -/
theorem ext_cells {s t : Screen} (width : s.width = t.width) (height : s.height = t.height)
    (cursor : s.cursor = t.cursor) (scrolled : s.scrolled = t.scrolled)
    (clipboard : s.clipboard = t.clipboard) (fails : s.clipboardFails = t.clipboardFails)
    (cells : ∀ x y, s.cell? x y = t.cell? x y) : s = t := by
  have rows : s.rows = t.rows := by
    refine List.ext_getElem (by rw [s.rows_length, t.rows_length, height]) fun y hs ht => ?_
    refine List.ext_getElem? fun x => ?_
    have cell := cells x y
    simpa only [cell?, List.getElem?_eq_getElem hs, List.getElem?_eq_getElem ht,
      Option.bind_some] using cell
  obtain ⟨_, _, _, _, _, _, _, _, _⟩ := s
  obtain ⟨_, _, _, _, _, _, _, _, _⟩ := t
  simp_all

@[simp] theorem cell?_inked (s : Screen) (ink : Ink) (x y : Nat) :
    (s.inked ink).cell? x y = (s.cell? x y).map fun c => (ink x y).getD c := by
  simp only [cell?, inked, List.getElem?_mapIdx]
  cases s.rows[y]? <;> simp

@[simp] theorem cell?_withCursor (s : Screen) (cell : UInt16 × UInt16) (x y : Nat) :
    (s.withCursor cell).cell? x y = s.cell? x y := rfl

theorem cell?_write (s : Screen) (text : List Char) (i j x y : Nat) :
    (s.write text i j).cell? x y =
      (s.cell? x y).map fun c => if y = j ∧ i ≤ x then (text[x - i]?).getD c else c := by
  simp only [cell?, write, List.getElem?_modify]
  cases s.rows[y]? with
  | none => rfl
  | some row =>
    by_cases hj : j = y
    · simp [hj, overlay]
    · simp [hj, Ne.symm hj]

/-- A scrolled screen shows what was further down, and blanks below that. -/
theorem cell?_scroll (s : Screen) (n x y : Nat) :
    (s.scroll n).cell? x y =
      if x < s.width.toNat ∧ y < s.height.toNat then some ((s.cell? x (y + n)).getD ' ')
      else none := by
  by_cases inside : x < s.width.toNat ∧ y < s.height.toNat
  · have rows := s.rows_length
    rw [if_pos inside]
    simp only [cell?, scroll]
    by_cases shown : y + n < s.height.toNat
    · have here : y + n < s.rows.length := by omega
      have row := s.row_length _ (List.getElem_mem here)
      rw [List.getElem?_append_left (by rw [List.length_drop]; omega), List.getElem?_drop,
        Nat.add_comm n y, List.getElem?_eq_getElem here, Option.bind_some,
        List.getElem?_eq_getElem (by omega), Option.getD_some]
    · rw [List.getElem?_append_right (by rw [List.length_drop]; omega), List.getElem?_replicate,
        if_pos (by rw [List.length_drop]; omega), List.getElem?_eq_none (by omega)]
      simp [inside.1]
  · rw [if_neg inside, cell?_eq_none_iff]
    simp only [scroll]
    omega

theorem write_eq_inked (s : Screen) (text : List Char) (i j : Nat) :
    s.write text i j = s.inked fun x y => if y = j ∧ i ≤ x then text[x - i]? else none := by
  refine ext_cells rfl rfl rfl rfl rfl rfl fun x y => ?_
  rw [cell?_write, cell?_inked]
  congr 1
  funext c
  split <;> rfl

/-- Of two inks the later one stands where it has a character. -/
theorem inked_inked (s : Screen) (first second : Ink) :
    (s.inked first).inked second = s.inked fun x y => (second x y).or (first x y) := by
  refine ext_cells rfl rfl rfl rfl rfl rfl fun x y => ?_
  rw [cell?_inked, cell?_inked, cell?_inked, Option.map_map]
  congr 1
  funext c
  cases second x y <;> rfl

/-- Inks that agree on the cells of a screen do the same to it. -/
theorem inked_congr (s : Screen) {first second : Ink}
    (same : ∀ x < s.width.toNat, ∀ y < s.height.toNat, first x y = second x y) :
    s.inked first = s.inked second := by
  refine ext_cells rfl rfl rfl rfl rfl rfl fun x y => ?_
  rw [cell?_inked, cell?_inked]
  by_cases outside : s.width.toNat ≤ x ∨ s.height.toNat ≤ y
  · rw [(s.cell?_eq_none_iff x y).mpr outside]
    rfl
  · rw [same x (by omega) y (by omega)]

theorem inked_of_none (s : Screen) {ink : Ink}
    (nothing : ∀ x < s.width.toNat, ∀ y < s.height.toNat, ink x y = none) :
    s.inked ink = s := by
  rw [s.inked_congr nothing]
  refine ext_cells rfl rfl rfl rfl rfl rfl fun x y => ?_
  simp

@[simp] theorem scroll_zero (s : Screen) : s.scroll 0 = s := by
  refine ext_cells rfl rfl rfl rfl rfl rfl fun x y => ?_
  simp [cell?, scroll]

/-- Scrolling twice is scrolling by the sum. -/
theorem scroll_scroll (s : Screen) (m n : Nat) : (s.scroll m).scroll n = s.scroll (m + n) := by
  refine ext_cells rfl rfl rfl ?_ rfl rfl fun x y => ?_
  · exact Nat.add_assoc _ _ _
  · simp only [cell?_scroll, width_scroll, height_scroll]
    by_cases inside : x < s.width.toNat ∧ y < s.height.toNat
    · rw [if_pos inside, if_pos inside]
      by_cases shown : y + n < s.height.toNat
      · rw [if_pos ⟨inside.1, shown⟩, Nat.add_assoc, Nat.add_comm n m]
        rfl
      · have below : s.cell? x (y + (m + n)) = none :=
          (s.cell?_eq_none_iff _ _).mpr (.inr (by omega))
        rw [if_neg fun h => shown h.2, below]
    · rw [if_neg inside, if_neg inside]

/-- Ink that leaves out what is below the screen scrolls along. Ink below it would come into sight
where scrolling brings blanks. -/
theorem scroll_inked (s : Screen) (ink : Ink) (n : Nat)
    (within : ∀ x, ∀ y ≥ s.height.toNat, ink x y = none) :
    (s.inked ink).scroll n = (s.scroll n).inked fun x y => ink x (y + n) := by
  refine ext_cells rfl rfl rfl rfl rfl rfl fun x y => ?_
  simp only [cell?_scroll, cell?_inked, width_inked, height_inked]
  by_cases inside : x < s.width.toNat ∧ y < s.height.toNat
  · rw [if_pos inside, if_pos inside]
    cases cell : s.cell? x (y + n) with
    | some c => rfl
    | none =>
      have below := (s.cell?_eq_none_iff x (y + n)).mp cell
      rw [within x (y + n) (by omega)]
      rfl
  · rw [if_neg inside, if_neg inside]
    rfl

@[simp] theorem exec_height (s : Screen) :
    (Console.height : Attempt Screen UInt16).exec s = (.ok s.height, s) := rfl

@[simp] theorem exec_drawText (s : Screen) (text : String) (x y : UInt16) :
    (Console.drawText text x y : Attempt Screen Unit).exec s =
      (.ok (), s.write text.toList x.toNat y.toNat) := rfl

@[simp] theorem exec_fillChar (s : Screen) (c : Char) (count x y : UInt16) :
    (Console.fillChar c count x y : Attempt Screen Unit).exec s =
      (.ok (), s.write (List.replicate count.toNat c) x.toNat y.toNat) := rfl

@[simp] theorem exec_clipboardText (s : Screen) :
    (Console.clipboardText : Attempt Screen (Option String)).exec s = (s.readClipboard, s) := rfl

theorem exec_trying_of_ok {A : Type} {f : Screen → Except ConsoleError (A × Screen)} {s t : Screen}
    {a : A} (h : f s = .ok (a, t)) : (trying f).exec s = (.ok a, t) := by
  unfold trying exec
  dsimp only [ExceptT.mk, ExceptT.run, StateT.run]
  rw [h]

/-- A cursor in a column of the screen makes it scroll by as many rows as it is below it. -/
theorem exec_setCursorPosition (s : Screen) {x y : UInt16} (column : x < s.width)
    (some_rows : 0 < s.height) :
    (Console.setCursorPosition x y : Attempt Screen UInt16).exec s =
      (.ok (UInt16.ofNat (y.toNat + 1 - s.height.toNat)),
        (s.scroll (y.toNat + 1 - s.height.toNat)).withCursor
          (x, UInt16.ofNat (min y.toNat (s.height.toNat - 1)))) := by
  have rows : 0 < s.height.toNat := UInt16.lt_iff_toNat_lt.mp some_rows
  have accepted : s.moveCursor x y =
      .ok (UInt16.ofNat (y.toNat + 1 - s.height.toNat),
        (s.scroll (y.toNat + 1 - s.height.toNat)).withCursor
          (x, UInt16.ofNat (min y.toNat (s.height.toNat - 1)))) := by
    rw [moveCursor, if_neg (UInt16.not_le.mpr column)]
    by_cases shown : y < s.height
    · have shown' := UInt16.lt_iff_toNat_lt.mp shown
      rw [if_pos shown, Nat.sub_eq_zero_of_le shown', Nat.min_eq_left (by omega), scroll_zero,
        UInt16.ofNat_toNat]
      rfl
    · have reached : s.height.toNat ≤ y.toNat := by
        rw [UInt16.lt_iff_toNat_lt] at shown
        omega
      have in_range := y.toNat_lt
      have count : (y - s.height + 1).toNat = y.toNat + 1 - s.height.toNat := by
        rw [UInt16.toNat_add, UInt16.toNat_sub_of_le _ _ (UInt16.le_iff_toNat_le.mpr reached),
          UInt16.toNat_one]
        omega
      have below : y - s.height + 1 = UInt16.ofNat (y.toNat + 1 - s.height.toNat) := by
        rw [← count, UInt16.ofNat_toNat]
      have last : s.height - 1 = UInt16.ofNat (min y.toNat (s.height.toNat - 1)) := by
        have one_le : (1 : UInt16) ≤ s.height := UInt16.le_iff_toNat_le.mpr rows
        rw [Nat.min_eq_right (by omega), ← UInt16.toNat_one, ← UInt16.toNat_sub_of_le _ _ one_le,
          UInt16.ofNat_toNat]
      rw [if_neg shown]
      change Except.ok (y - s.height + 1,
        (s.scroll (y - s.height + 1).toNat).withCursor (x, s.height - 1)) = _
      rw [count, last, below]
  exact exec_trying_of_ok accepted

end LineEdit.Screen
