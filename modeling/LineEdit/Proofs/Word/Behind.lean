import LineEdit.Proofs.Word.Command
import LineEdit.Proofs.Word.Quoting

/-!
# Words behind a separator

Behind a text that ends in a blank outside quotes, the reader of arguments is between two words,
whatever quotes and separators the text has of its own. A separator with a blank behind it is then a
word, the reader is between two words again, and what it reads from there on depends on the text
there alone. The words of that text are the last ones of the line, moved along by what stands before
them, and the command around one of them begins behind the separator at the earliest.
-/
namespace LineEdit.Word

@[simp] theorem isSeparator_shift (n : Nat) (w : Word) : (w.shift n).isSeparator = w.isSeparator :=
  rfl

theorem stop_shift (n : Nat) (w : Word) : (w.shift n).stop = w.stop + n :=
  Nat.add_right_comm w.start n _

theorem indexAt_append (offset : Nat) (before after : List Word) :
    indexAt offset (before ++ after) =
      match indexAt offset after with
      | some i => some (before.length + i)
      | none => indexAt offset before := by
  induction before with
  | nil =>
    rw [List.nil_append]
    cases indexAt offset after with
    | some i => exact congrArg some (Nat.zero_add i).symm
    | none => rfl
  | cons w before ih =>
    rw [List.cons_append, indexAt, ih]
    cases indexAt offset after with
    | some i => exact congrArg some (Nat.add_right_comm before.length i 1)
    | none => rfl

theorem indexAt_shift (n offset : Nat) (ws : List Word) :
    indexAt (offset + n) (ws.map (shift n)) = indexAt offset ws := by
  induction ws with
  | nil => rfl
  | cons w ws ih =>
    have starts : (w.shift n).start ≤ offset + n ↔ w.start ≤ offset := Nat.add_le_add_iff_right
    rw [List.map_cons, indexAt, indexAt, ih]
    simp only [starts]

theorem commands_shift (n : Nat) (ws : List Word) :
    commands (ws.map (shift n)) = (commands ws).map (·.map (shift n)) := by
  induction ws with
  | nil => rfl
  | cons w ws ih =>
    rw [List.map_cons, commands, commands, ih, isSeparator_shift]
    split
    next => rfl
    next =>
      cases commands ws with
      | nil => rfl
      | cons group groups => rfl

theorem commandAt_shift (n : Nat) (ws : List Word) (index : Nat) :
    commandAt (ws.map (shift n)) index =
      (commandAt ws index).map fun found => (found.1.map (shift n), found.2) := by
  have same : isSeparator ∘ shift n = isSeparator := rfl
  have plain : (!isSeparator ·) ∘ shift n = (!isSeparator ·) := rfl
  unfold commandAt
  rw [List.getElem?_map]
  cases ws[index]? with
  | none => rfl
  | some w =>
    dsimp only [Option.map_some]
    rw [isSeparator_shift]
    split
    next => rfl
    next =>
      rw [← List.map_take, ← List.map_reverse, List.takeWhile_map, List.length_map, List.countP_map,
        commands_shift, List.getElem?_map, same, plain]
      cases (commands ws)[(ws.take index).countP isSeparator]? with
      | none => rfl
      | some command => rfl

/-- Words before a separator do not matter to the command around a word behind it: neither the words
that are found nor the index in them depends on what they are. -/
theorem commandAt_behind (before ws : List Word) {w : Word} (separates : w.isSeparator = true)
    (index : Nat) : commandAt (before ++ w :: ws) (before.length + 1 + index) = commandAt ws index := by
  have split : before ++ w :: ws = (before ++ [w]) ++ ws := by
    rw [List.append_assoc, List.singleton_append]
  have length : (before ++ [w]).length = before.length + 1 := List.length_append
  have here : (before ++ w :: ws)[before.length + 1 + index]? = ws[index]? := by
    rw [split, ← length, List.getElem?_append_right (Nat.le_add_right _ _), Nat.add_sub_cancel_left]
  have earlier : (before ++ w :: ws).take (before.length + 1 + index) =
      (before ++ [w]) ++ ws.take index := by
    rw [split, ← length, List.take_length_add_append]
  have count : ((before ++ [w]) ++ ws.take index).countP isSeparator =
      (commands before).length + (ws.take index).countP isSeparator := by
    rw [List.countP_append, List.countP_append, List.countP_singleton, if_pos separates,
      length_commands]
  have inside : ((before ++ [w]) ++ ws.take index).reverse.takeWhile (!isSeparator ·) =
      (ws.take index).reverse.takeWhile (!isSeparator ·) := by
    have stops : (w :: before.reverse).takeWhile (!isSeparator ·) = [] := by
      rw [List.takeWhile_cons, separates]
      rfl
    rw [List.reverse_append, List.reverse_concat, List.takeWhile_append]
    split
    next whole =>
      rw [stops, List.append_nil, (List.takeWhile_prefix _).eq_of_length whole]
    next => rfl
  unfold commandAt
  dsimp only
  rw [here, earlier, count, inside, commands_append_separator _ _ separates,
    List.getElem?_append_right (Nat.le_add_right _ _), Nat.add_sub_cancel_left]

/-- The text has words, and ends in a blank outside quotes, where a separator that follows is a word
by itself. -/
def EndsBetween (text : String) : Prop :=
  2 ≤ (split text).length ∧ (split text).getLast?.any isEmpty = true

instance (text : String) : Decidable (EndsBetween text) :=
  inferInstanceAs (Decidable (_ ∧ _))

/-- What may stand between two commands. -/
def separators : List String := ["&&", "||", "&"]

/-- The words of a text with a blank before it. They differ from the words of the text alone, whose
first word is read as the name of a program. -/
def wordsBehind (text : String) : List Word := Scanner.between.split 0 text.toList

theorem quoteChars_of_mem {sep : String} (named : sep ∈ separators) :
    quoteChars sep.toList = sep.toList := by
  simp only [separators, List.mem_cons, List.not_mem_nil, or_false] at named
  rcases named with rfl | rfl | rfl
  · decide
  · decide
  · decide

theorem isSeparator_of_mem {sep : String} (named : sep ∈ separators) (pos : Nat) :
    isSeparator ⟨pos, sep, sep⟩ = true := by
  simp only [separators, List.mem_cons, List.not_mem_nil, or_false] at named
  rcases named with rfl | rfl | rfl
  · rfl
  · rfl
  · rfl

/-- Behind a separator the line goes on with the words of the text there, and what stands before the
separator only moves them. -/
theorem split_behind {left sep : String} (ends : EndsBetween left) (named : sep ∈ separators)
    (rest : String) :
    split (left ++ sep ++ " " ++ rest) = (split left).dropLast ++
      ⟨left.length, sep, sep⟩ :: (wordsBehind rest).map (shift (left ++ sep ++ " ").length) := by
  have some_chars : left.toList ≠ [] := by
    intro none
    have two := ends.1
    rw [split, none] at two
    exact absurd two (by decide)
  have length : left.toList.length + sep.toList.length + 1 = (left ++ sep ++ " ").length := by
    rw [String.length_append, String.length_append, String.length_toList, String.length_toList]
    rfl
  have moved : behind (left.toList.length + sep.toList.length) (' ' :: rest.toList) =
      (wordsBehind rest).map (shift (left ++ sep ++ " ").length) := by
    rw [behind, length, wordsBehind, ← Scanner.split_shift, Nat.zero_add]
    rfl
  have chars : (left ++ sep ++ " " ++ rest).toList =
      left.toList ++ (sep.toList ++ ' ' :: rest.toList) := by simp
  have apart : ∀ c ∈ (' ' :: rest.toList).head?, isBlank c = true := by
    rintro _ ⟨rfl⟩
    rfl
  have read := splitChars_append_quoteChars some_chars ends.2 apart sep.toList
  rw [quoteChars_of_mem named, moved] at read
  rw [split, chars, read, ofChars, String.ofList_toList, String.length_toList]
  rfl

end LineEdit.Word
