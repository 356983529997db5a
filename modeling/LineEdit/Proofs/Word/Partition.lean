import LineEdit.Proofs.Word.Command

/-!
# Words and their commands

The separators of a line part its words into commands: putting the separators back between the
commands gives the words again. The command that is found at an index is one of these, and it is the
longest stretch of words around that index without a separator.
-/
namespace LineEdit.Word

def PlainBetween (ws : List Word) (first stop : Nat) : Prop :=
  ∀ k, first ≤ k → k < stop → ∀ w ∈ ws[k]?, w.isSeparator = false

/-- The words from index `first` up to index `stop` are the longest stretch around `index` without a
separator. -/
structure Around (ws : List Word) (index first stop : Nat) : Prop where
  first_le : first ≤ index
  lt_stop : index < stop
  stop_le : stop ≤ ws.length
  plain : PlainBetween ws first stop
  longest : ∀ i j, i ≤ index → index < j → j ≤ ws.length → PlainBetween ws i j →
    first ≤ i ∧ j ≤ stop

/-- The commands with the separators put back, one behind each command but the last. Nothing of the
words is lost when they are parted into commands. -/
def rejoin (commands : List (List Word)) (separators : List Word) : List Word :=
  (List.zipWith (· ++ ·) commands (separators.map ([·]) ++ [[]])).flatten

theorem rejoin_commands (ws : List Word) : rejoin (commands ws) (ws.filter isSeparator) = ws := by
  rw [commands_eq_splitOnP]
  exact List.splitOnP_spec ws

theorem plain_of_mem_commands {ws command : List Word} (mem : command ∈ commands ws) :
    ∀ w ∈ command, w.isSeparator = false := by
  induction ws generalizing command with
  | nil =>
    obtain rfl : command = [] := by simpa [commands] using mem
    simp
  | cons v ws ih =>
    rw [commands] at mem
    cases own : v.isSeparator with
    | true =>
      rw [own, if_pos rfl, List.mem_cons] at mem
      rcases mem with rfl | mem
      · simp
      · exact ih mem
    | false =>
      rw [own, if_neg (by simp)] at mem
      cases groups : commands ws with
      | nil =>
        obtain rfl : command = [v] := by simpa [groups] using mem
        simpa using own
      | cons group others =>
        rw [groups] at ih mem
        rcases List.mem_cons.mp mem with rfl | mem
        · intro w inside
          rcases List.mem_cons.mp inside with rfl | inside
          · exact own
          · exact ih List.mem_cons_self w inside
        · exact ih (List.mem_cons_of_mem _ mem)

theorem getElem?_commands_of_commandAt {ws command : List Word} {index i : Nat}
    (found : commandAt ws index = some (command, i)) :
    (commands ws)[(ws.take index).countP isSeparator]? = some command := by
  unfold commandAt at found
  split at found
  next => simp at found
  next =>
    split at found
    next => simp at found
    next =>
      obtain ⟨group, there, same⟩ := Option.map_eq_some_iff.mp found
      obtain ⟨rfl, -⟩ := Prod.mk.inj same
      exact there

section
variable {left command right : List Word}

theorem around_append {i : Nat} (inside : i < command.length)
    (plain : ∀ w ∈ command, w.isSeparator = false)
    (ends : ∀ w ∈ left.getLast?, w.isSeparator = true)
    (opens : ∀ w ∈ right.head?, w.isSeparator = true) :
    Around (left ++ command ++ right) (left.length + i) left.length
      (left.length + command.length) where
  first_le := Nat.le_add_right _ _
  lt_stop := Nat.add_lt_add_left inside _
  stop_le := by simp
  plain := by
    intro k first_le lt_stop w here
    rw [List.append_assoc, List.getElem?_append_right first_le,
      List.getElem?_append_left (by omega)] at here
    exact plain w (List.mem_of_getElem? here)
  longest := by
    intro first stop first_le lt_stop stop_le between
    constructor
    · -- A stretch that begins further left has the last word of `left` in it.
      by_contra further
      have last : left.getLast? = some left[left.length - 1] := by
        rw [List.getLast?_eq_getElem?, List.getElem?_eq_getElem]
      have here : (left ++ command ++ right)[left.length - 1]? = left.getLast? := by
        rw [List.append_assoc, List.getElem?_append_left (by omega), List.getLast?_eq_getElem?]
      have plain := between (left.length - 1) (by omega) (by omega) _ (here.trans last)
      simp [ends _ last] at plain
    · -- A stretch that ends further right has the first word of `right` in it.
      by_contra further
      have some_words : 0 < right.length := by
        simp only [List.length_append] at stop_le
        omega
      have next : right.head? = some right[0] := by
        rw [List.head?_eq_getElem?, List.getElem?_eq_getElem]
      have here : (left ++ command ++ right)[left.length + command.length]? = right.head? := by
        rw [← List.length_append, List.getElem?_append_right (Nat.le_refl _), Nat.sub_self,
          List.head?_eq_getElem?]
      have plain := between (left.length + command.length) (by omega) (by omega) _ (here.trans next)
      simp [opens _ next] at plain

theorem drop_take_middle (left command right : List Word) :
    ((left ++ command ++ right).take (left.length + command.length)).drop left.length =
      command := by
  rw [← List.length_append, List.take_left, List.drop_left]

end

/-- The command that is found at an index is the longest stretch of words around it without a
separator. The index that is found with it is the distance from where the stretch begins. -/
theorem around_of_commandAt {ws command : List Word} {index i : Nat}
    (found : commandAt ws index = some (command, i)) :
    ∃ first stop, Around ws index first stop ∧ (ws.take stop).drop first = command ∧
      first + i = index := by
  obtain ⟨inside, plain, left, right, rfl, rfl, ends, opens⟩ := exists_sides_of_commandAt found
  exact ⟨left.length, left.length + command.length, around_append inside plain ends opens,
    drop_take_middle left command right, rfl⟩

theorem getElem?_of_around {ws : List Word} {index first stop : Nat}
    (around : Around ws index first stop) :
    ((ws.take stop).drop first)[index - first]? = ws[index]? := by
  rw [List.getElem?_drop, Nat.add_sub_cancel' around.first_le,
    List.getElem?_take_of_lt around.lt_stop]

/-- A command is found at every index but those of separators and those past the end. It is the one
behind as many separators as there are before the index, and the longest stretch of words without a
separator around it, and the index found with it is that of the same word in it. The commands are
one more than the separators and have none among them, and with the separators put back they are the
words. -/
theorem commandAt_agrees (ws : List Word) :
    (∀ index, commandAt ws index = none ↔
        ws.length ≤ index ∨ ∃ w, ws[index]? = some w ∧ w.isSeparator = true) ∧
      (∀ index command i, commandAt ws index = some (command, i) →
        (commands ws)[(ws.take index).countP isSeparator]? = some command ∧
          command[i]? = ws[index]? ∧
          ∃ first stop, Around ws index first stop ∧ (ws.take stop).drop first = command ∧
            first + i = index) ∧
      (commands ws).length = (ws.filter isSeparator).length + 1 ∧
      (∀ command ∈ commands ws, ∀ w ∈ command, w.isSeparator = false) ∧
      rejoin (commands ws) (ws.filter isSeparator) = ws := by
  refine ⟨fun index => commandAt_eq_none_iff, ?_, ?_, ?_, rejoin_commands ws⟩
  · intro index command i found
    obtain ⟨first, stop, around, rfl, rfl⟩ := around_of_commandAt found
    have here := getElem?_of_around around
    rw [Nat.add_sub_cancel_left] at here
    exact ⟨getElem?_commands_of_commandAt found, here, first, stop, around, rfl, rfl⟩
  · rw [length_commands, List.countP_eq_length_filter]
  · intro command mem
    exact plain_of_mem_commands mem

/-- Separators at an end or next to each other have empty commands beside them. -/
example : (commands (split "a && && b &")).map (·.map (·.written)) = [["a"], [], ["b"], []] := by
  decide +kernel

end LineEdit.Word
