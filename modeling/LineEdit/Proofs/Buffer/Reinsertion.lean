import LineEdit.Direction
import LineEdit.Proofs.Buffer.Motion

/-!
# Erased text put back

A deletion takes out the characters between the cursor and another place, on one side of it, and
returns them. Where they were is then where the cursor is, so an insertion of what was returned
makes the text whole again, whichever way the other place was found. The cursor ends up behind what
comes back: where it was, when that had stood before it, and further on by its length otherwise.
-/
namespace LineEdit.Buffer

variable {b : Buffer} {start stop : Nat} {outcome : String × Buffer}

theorem text_insert_between {before after : String} (text : b.text = before ++ after)
    (place : b.cursor = before.length) (new : String) :
    (b.insert new).text = before ++ new ++ after := by
  apply String.toList_injective
  change (Text.splice b.text b.cursor b.cursor new).toList = _
  rw [Text.toList_splice, Nat.max_self, text, place, ← String.length_toList, String.toList_append,
    List.take_left, List.drop_left, String.toList_append, String.toList_append]

namespace Removed

theorem length_returned (removed : b.Removed start stop outcome) (inside : stop ≤ b.length) :
    outcome.1.length = stop - start := by
  have inside : stop ≤ b.text.length := inside
  rw [← String.length_toList, removed.returned, List.length_drop, List.length_take,
    String.length_toList, Nat.min_eq_left inside]

/-- What is left is the text on both sides of what is returned, so that nothing else is lost and
nothing is returned twice. -/
theorem exists_around (removed : b.Removed start stop outcome) (le : start ≤ stop)
    (inside : stop ≤ b.length) : ∃ before after, b.text = before ++ outcome.1 ++ after ∧
      outcome.2.text = before ++ after ∧ before.length = start := by
  have within : start ≤ b.text.length := le.trans inside
  have first : b.text.toList.take start = (b.text.toList.take stop).take start := by
    rw [List.take_take, Nat.min_eq_left le]
  refine ⟨String.ofList (b.text.toList.take start), String.ofList (b.text.toList.drop stop), ?_, ?_,
    ?_⟩
  · apply String.toList_injective
    rw [String.toList_append, String.toList_append, String.toList_ofList, String.toList_ofList,
      removed.returned, first, List.take_append_drop, List.take_append_drop]
  · apply String.toList_injective
    rw [removed.text, String.toList_append, String.toList_ofList, String.toList_ofList]
  · rw [String.length_ofList, List.length_take, String.length_toList, Nat.min_eq_left within]

theorem text_insert (removed : b.Removed start stop outcome) (le : start ≤ stop)
    (inside : stop ≤ b.length) : (outcome.2.insert outcome.1).text = b.text := by
  obtain ⟨before, after, text, left, place⟩ := removed.exists_around le inside
  rw [text_insert_between left (removed.cursor.trans place.symm), text]

theorem cursor_insert (removed : b.Removed start stop outcome) (le : start ≤ stop)
    (inside : stop ≤ b.length) : (outcome.2.insert outcome.1).cursor = stop := by
  change outcome.2.cursor + outcome.1.length = stop
  rw [removed.cursor, removed.length_returned inside, Nat.add_sub_cancel' le]

end Removed

/-- What a deletion of `count` characters on one side of the cursor returns and leaves, and what an
insertion of the one into the other makes of it. -/
structure Erased (b : Buffer) (direction : Direction) (count : Nat) (outcome : String × Buffer) :
    Prop where
  length_returned : outcome.1.length = count
  /-- The text around what is returned stays, with the cursor where it was torn. -/
  around : ∃ before after, b.text = before ++ outcome.1 ++ after ∧
    outcome.2.text = before ++ after ∧ outcome.2.cursor = before.length ∧
    match direction with
    | .backward => b.cursor = (before ++ outcome.1).length
    | .forward => b.cursor = before.length
  text_insert : (outcome.2.insert outcome.1).text = b.text
  cursor_insert : (outcome.2.insert outcome.1).cursor =
    match direction with
    | .backward => b.cursor
    | .forward => b.cursor + count

theorem Removed.erased_backward (removed : b.Removed start b.cursor outcome)
    (le : start ≤ b.cursor) : b.Erased .backward (b.cursor - start) outcome := by
  have inside : b.cursor ≤ b.length := b.cursor_le
  have length := removed.length_returned inside
  obtain ⟨before, after, text, left, place⟩ := removed.exists_around le inside
  refine ⟨length, ⟨before, after, text, left, removed.cursor.trans place.symm, ?_⟩,
    removed.text_insert le inside, removed.cursor_insert le inside⟩
  rw [String.length_append, place, length, Nat.add_sub_cancel' le]

theorem Removed.erased_forward (removed : b.Removed b.cursor stop outcome) (le : b.cursor ≤ stop)
    (inside : stop ≤ b.length) : b.Erased .forward (stop - b.cursor) outcome := by
  obtain ⟨before, after, text, left, place⟩ := removed.exists_around le inside
  have length := removed.length_returned inside
  refine ⟨length, ⟨before, after, text, left, removed.cursor.trans place.symm, place.symm⟩,
    removed.text_insert le inside, ?_⟩
  rw [removed.cursor_insert le inside, Nat.add_sub_cancel' le]

/-- Every deletion returns what it takes out next to the cursor and leaves all else, and to insert
what it returned undoes it. Counts reach to the end of the text at most, and words to their
boundaries. -/
theorem deletions_erased (b : Buffer) (n : Nat) (delimiters : String) :
    b.Erased .backward (min n b.cursor) (b.deleteBefore n) ∧
      b.Erased .forward (min n (b.length - b.cursor)) (b.delete n) ∧
      b.Erased .backward b.cursor b.killToStart ∧
      b.Erased .forward (b.length - b.cursor) b.killToEnd ∧
      b.Erased .backward (b.cursor - b.previousBoundary delimiters)
        (b.killWordBackward delimiters) ∧
      b.Erased .forward (b.nextBoundary delimiters - b.cursor) (b.killWordForward delimiters) := by
  have inside : b.cursor ≤ b.length := b.cursor_le
  refine ⟨?_, ?_, ?_, ?_, ?_, ?_⟩
  · have count : b.cursor - (b.cursor - n) = min n b.cursor := by omega
    have le : b.cursor - n ≤ b.cursor := Nat.sub_le _ _
    exact count ▸ (removed_cut le (.inr rfl)).erased_backward le
  · have count : min (b.cursor + n) b.length - b.cursor = min n (b.length - b.cursor) := by omega
    have le : b.cursor ≤ min (b.cursor + n) b.length := by omega
    exact count ▸ (removed_cut le (.inl rfl)).erased_forward le (Nat.min_le_right _ _)
  · exact (removed_cut (Nat.zero_le _) (.inr rfl)).erased_backward (Nat.zero_le _)
  · exact (removed_cut inside (.inl rfl)).erased_forward inside (Nat.le_refl _)
  · have le := b.previousBoundary_le delimiters
    exact (removed_cut le (.inr rfl)).erased_backward le
  · have le := b.le_nextBoundary delimiters
    exact (removed_cut le (.inl rfl)).erased_forward le (b.nextBoundary_le delimiters)

end LineEdit.Buffer
