import LineEdit.Completion.Query
import LineEdit.Proofs.Word.Command
import LineEdit.Proofs.Word.Tiling

/-!
# The word at the cursor

The cursor is in the last word that starts at or before it. When it is in the blanks behind that
word, it is in an empty word of its own, which a query puts between the words of the line. Either
way the word lies inside the line and the cursor inside the word, and it is the word that a query is
about.
-/
namespace LineEdit

open Word

/-- The word at an offset is the last that starts at or before it. -/
theorem Word.indexAt_cases (offset : Nat) (ws : List Word) :
    (indexAt offset ws = none ∧ ws.findRev? (·.start ≤ offset) = none) ∨
      ∃ i w, indexAt offset ws = some i ∧ ws[i]? = some w ∧ w.start ≤ offset ∧
        ws.findRev? (·.start ≤ offset) = some w := by
  induction ws with
  | nil => exact .inl ⟨rfl, rfl⟩
  | cons w ws ih =>
    rw [indexAt, List.findRev?]
    rcases ih with ⟨nowhere, none_later⟩ | ⟨i, v, found, here, starts, later⟩
    · rw [nowhere, none_later]
      by_cases starts : w.start ≤ offset
      · right
        exact ⟨0, w, if_pos starts, rfl, starts, if_pos (decide_eq_true starts)⟩
      · left
        exact ⟨if_neg starts, if_neg (by simpa using starts)⟩
    · rw [found, later]
      exact .inr ⟨i + 1, v, rfl, here, starts, rfl⟩

namespace Buffer

def word (b : Buffer) : Word :=
  match (split b.text).findRev? (·.start ≤ b.cursor) with
  | some w => if w.stop < b.cursor then emptyAt b.cursor else w
  | none => emptyAt b.cursor

/-- Some word of the line starts at or before the cursor, because the first one does. When it ends
before the cursor, the word at the cursor is an empty one. -/
theorem exists_word (b : Buffer) :
    ∃ i w, indexAt b.cursor (split b.text) = some i ∧ (split b.text)[i]? = some w ∧
      w.start ≤ b.cursor ∧ b.word = if w.stop < b.cursor then emptyAt b.cursor else w := by
  obtain ⟨first, others, words, laid⟩ := exists_laid b.text.toList
  rcases indexAt_cases b.cursor (split b.text) with ⟨nowhere, -⟩ | ⟨i, w, found, here, starts, last⟩
  · obtain ⟨v, head, start⟩ := laid.tiles.start_head
    obtain rfl : first = v := Option.some.inj head
    have behind := (indexAt_eq_none_iff _ _).mp nowhere first
      (by rw [split, words]; exact List.mem_cons_self)
    omega
  · refine ⟨i, w, found, here, starts, ?_⟩
    unfold word
    rw [last]

theorem stop_le_of_mem_split {line : String} {w : Word} (mem : w ∈ split line) :
    w.stop ≤ line.length := by
  obtain ⟨first, others, words, laid⟩ := exists_laid line.toList
  have inside := laid.tiles.stop_le w (by rw [← words]; exact mem)
  rwa [Nat.zero_add, String.length_toList] at inside

theorem word_bounds (b : Buffer) :
    b.word.start ≤ b.cursor ∧ b.cursor ≤ b.word.stop ∧ b.word.stop ≤ b.length := by
  obtain ⟨i, w, -, here, starts, same⟩ := b.exists_word
  rw [same]
  split
  next => rw [stop_emptyAt]; exact ⟨Nat.le_refl _, Nat.le_refl _, b.cursor_le⟩
  next inside =>
    exact ⟨starts, Nat.le_of_not_lt inside, stop_le_of_mem_split (List.mem_of_getElem? here)⟩

end Buffer

namespace Query

theorem getElem?_locate (b : Buffer) :
    (locate b.text b.cursor).1[(locate b.text b.cursor).2]? = some b.word := by
  obtain ⟨i, w, found, here, -, same⟩ := b.exists_word
  unfold locate
  dsimp only
  rw [found, Option.getD_some, here]
  dsimp only
  rw [same]
  split
  next =>
    obtain ⟨inside, -⟩ := List.getElem?_eq_some_iff.mp here
    have length : ((split b.text).take (i + 1)).length = i + 1 := List.length_take_of_le inside
    dsimp only
    rw [List.getElem?_append_right (Nat.le_of_eq length), length, Nat.sub_self]
    rfl
  next => exact here

/-- There is a query unless the cursor is on a separator, and it is about the word there. -/
theorem ofBuffer?_cases (b : Buffer) :
    (b.word.isSeparator = true ∧ ofBuffer? b = none) ∨
      (b.word.isSeparator = false ∧ ∃ q, ofBuffer? b = some q ∧ q.current = b.word) := by
  have here := getElem?_locate b
  cases own : b.word.isSeparator with
  | true =>
    left
    unfold ofBuffer?
    dsimp only
    rw [commandAt_of_isSeparator here own]
    exact ⟨rfl, rfl⟩
  | false =>
    right
    obtain ⟨command, i, found, inside⟩ := commandAt_of_plain here own
    unfold ofBuffer?
    dsimp only
    rw [found]
    refine ⟨rfl, _, rfl, ?_⟩
    unfold current
    dsimp only
    rw [inside]
    rfl

theorem current_eq_word {b : Buffer} {q : Query} (asks : ofBuffer? b = some q) :
    q.current = b.word := by
  rcases ofBuffer?_cases b with ⟨-, nothing⟩ | ⟨-, p, same, current⟩
  · exact absurd (nothing.symm.trans asks) nofun
  · obtain rfl : q = p := Option.some.inj (asks.symm.trans same)
    exact current

end Query

end LineEdit
