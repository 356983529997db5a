import LineEdit.Proofs.Word.Line
import LineEdit.Word.Command
import Mathlib.Data.List.Induction

/-!
# The command around a word

The commands of a line are its words split at the separators. A word that is none therefore stands
in the command that reaches from the last separator before it to the next one behind it, and this is
the command that is found at its index.
-/
namespace LineEdit.Word

theorem commands_eq_splitOnP (ws : List Word) : commands ws = ws.splitOnP isSeparator := by
  induction ws with
  | nil => rfl
  | cons w ws ih =>
    rw [commands, List.splitOnP_cons_eq_if_modifyHead, ih]
    cases groups : ws.splitOnP isSeparator with
    | nil => exact absurd groups (List.splitOnP_ne_nil _ _)
    | cons group groups => rfl

theorem commands_append_separator (before after : List Word) {w : Word}
    (separates : w.isSeparator = true) :
    commands (before ++ w :: after) = commands before ++ commands after := by
  simp only [commands_eq_splitOnP, List.splitOnP_append_cons _ _ separates]

theorem head?_commands (ws : List Word) :
    (commands ws).head? = some (ws.takeWhile (!isSeparator ·)) := by
  induction ws with
  | nil => rfl
  | cons w ws ih =>
    rw [commands, List.takeWhile_cons]
    cases own : w.isSeparator with
    | true => rfl
    | false =>
      cases groups : commands ws with
      | nil => rw [groups] at ih; exact absurd ih nofun
      | cons group groups' =>
        rw [groups] at ih
        obtain rfl := Option.some.inj ih
        rfl

theorem length_commands (ws : List Word) :
    (commands ws).length = ws.countP isSeparator + 1 := by
  induction ws with
  | nil => rfl
  | cons w ws ih =>
    rw [commands, List.countP_cons]
    cases own : w.isSeparator with
    | true => exact congrArg (· + 1) ih
    | false =>
      cases groups : commands ws with
      | nil => rw [groups] at ih; exact absurd ih nofun
      | cons group groups' => rw [groups] at ih; exact ih

theorem getElem?_commands_append {left : List Word}
    (ends : ∀ w ∈ left.getLast?, w.isSeparator = true) (rest : List Word) :
    (commands (left ++ rest))[left.countP isSeparator]? =
      some (rest.takeWhile (!isSeparator ·)) := by
  rw [← head?_commands, List.head?_eq_getElem?]
  rcases List.eq_nil_or_concat left with rfl | ⟨before, w, rfl⟩
  · rfl
  · rw [List.concat_eq_append] at ends ⊢
    have separates : w.isSeparator = true := ends w List.getLast?_concat
    rw [List.append_assoc, List.singleton_append, commands_append_separator _ _ separates,
      List.countP_append, List.countP_singleton, if_pos separates, ← length_commands,
      List.getElem?_append_right (Nat.le_refl _), Nat.sub_self]

/-- Words before a word are those of other commands and those of its own. The induction takes up the
words one by one, and a separator makes all up to it words of other commands. -/
theorem exists_command (before : List Word) :
    ∃ left inside, before = left ++ inside ∧ (∀ w ∈ left.getLast?, w.isSeparator = true) ∧
      ∀ w ∈ inside, w.isSeparator = false := by
  induction before using List.reverseRecOn with
  | nil => exact ⟨[], [], rfl, nofun, nofun⟩
  | append_singleton before w ih =>
    obtain ⟨left, inside, rfl, ends, plain⟩ := ih
    cases own : w.isSeparator with
    | true =>
      refine ⟨left ++ inside ++ [w], [], (List.append_nil _).symm, ?_, nofun⟩
      rw [List.getLast?_concat]
      rintro _ ⟨rfl⟩
      exact own
    | false =>
      refine ⟨left, inside ++ [w], List.append_assoc _ _ _, ends, ?_⟩
      intro v mem
      rcases List.mem_append.mp mem with mem | mem
      · exact plain v mem
      · rw [List.mem_singleton.mp mem, own]

theorem commandAt_append {left inside : List Word} {w : Word} (after : List Word)
    (ends : ∀ v ∈ left.getLast?, v.isSeparator = true)
    (plain : ∀ v ∈ inside, v.isSeparator = false) (own : w.isSeparator = false) :
    commandAt (left ++ inside ++ w :: after) (left ++ inside).length =
      some (inside ++ w :: after.takeWhile (!isSeparator ·), inside.length) := by
  have here : (left ++ inside ++ w :: after)[(left ++ inside).length]? = some w := by simp
  have before : (left ++ inside ++ w :: after).take (left ++ inside).length = left ++ inside :=
    List.take_left
  have unseparated : ∀ v ∈ inside.reverse, (!v.isSeparator) = true := by
    intro v mem
    rw [plain v (List.mem_reverse.mp mem)]
    rfl
  have stops : ∀ v ∈ left.reverse.head?, (!v.isSeparator) = false := by
    rw [List.head?_reverse]
    intro v last
    rw [ends v last]
    rfl
  have count : (left ++ inside).countP isSeparator = left.countP isSeparator := by
    have none : inside.countP isSeparator = 0 := by
      rw [List.countP_eq_zero]
      intro v mem
      rw [plain v mem]
      nofun
    rw [List.countP_append, none, Nat.add_zero]
  have group : (inside ++ w :: after).takeWhile (!isSeparator ·) =
      inside ++ w :: after.takeWhile (!isSeparator ·) := by
    rw [List.takeWhile_append_of_pos fun v mem => by rw [plain v mem]; rfl, List.takeWhile_cons,
      own]
    rfl
  unfold commandAt
  rw [here]
  dsimp only
  rw [own, if_neg nofun, before, count, List.reverse_append,
    (takeWhile_append_of_head _ _ unseparated stops).1, List.length_reverse, List.append_assoc,
    getElem?_commands_append ends, group]
  rfl

theorem commandAt_of_isSeparator {ws : List Word} {index : Nat} {w : Word}
    (here : ws[index]? = some w) (separates : w.isSeparator = true) : commandAt ws index = none := by
  unfold commandAt
  rw [here]
  exact if_pos separates

/-- Around a word that is no separator, the words of its command stand between those before the
command, which end in a separator, and those behind it. -/
theorem exists_around {ws : List Word} {index : Nat} {w : Word} (here : ws[index]? = some w)
    (plain : w.isSeparator = false) :
    ∃ left inside after, ws = left ++ inside ++ w :: after ∧ (left ++ inside).length = index ∧
      (∀ v ∈ left.getLast?, v.isSeparator = true) ∧ (∀ v ∈ inside, v.isSeparator = false) ∧
      commandAt ws index =
        some (inside ++ w :: after.takeWhile (!isSeparator ·), inside.length) := by
  obtain ⟨inside, rfl⟩ := List.getElem?_eq_some_iff.mp here
  obtain ⟨left, mid, before, ends, unseparated⟩ := exists_command (ws.take index)
  have length : (left ++ mid).length = index := by
    rw [← before, List.length_take]
    omega
  have whole : ws = left ++ mid ++ ws[index] :: ws.drop (index + 1) := by
    rw [← before, ← List.drop_eq_getElem_cons, List.take_append_drop]
  have found := commandAt_append (ws.drop (index + 1)) ends unseparated plain
  rw [← whole, length] at found
  exact ⟨left, mid, ws.drop (index + 1), whole, length, ends, unseparated, found⟩

/-- A word that is no separator is in the command that is found at its index, at the index that is
found with it. -/
theorem commandAt_of_plain {ws : List Word} {index : Nat} {w : Word} (here : ws[index]? = some w)
    (plain : w.isSeparator = false) :
    ∃ command i, commandAt ws index = some (command, i) ∧ command[i]? = some w := by
  obtain ⟨left, inside, after, -, -, -, -, found⟩ := exists_around here plain
  exact ⟨_, _, found, by simp⟩

/-- There is no command at an index exactly if there is no word, or a separator. -/
theorem commandAt_eq_none_iff {ws : List Word} {index : Nat} :
    commandAt ws index = none ↔
      ws.length ≤ index ∨ ∃ w, ws[index]? = some w ∧ w.isSeparator = true := by
  cases here : ws[index]? with
  | none => simp [commandAt, List.getElem?_eq_none_iff.mp here]
  | some w =>
    obtain ⟨inside, -⟩ := List.getElem?_eq_some_iff.mp here
    cases own : w.isSeparator with
    | true => simp [commandAt_of_isSeparator here own, own]
    | false =>
      obtain ⟨command, i, found, -⟩ := commandAt_of_plain here own
      simp [found, own, inside]

/-- The command that is found at an index has no separator. It stands among the words between two
separators, or an end of the words, and the index that is found with it is that of the same word. -/
theorem exists_sides_of_commandAt {ws command : List Word} {index i : Nat}
    (found : commandAt ws index = some (command, i)) :
    i < command.length ∧ (∀ v ∈ command, v.isSeparator = false) ∧
      ∃ left right, ws = left ++ command ++ right ∧ left.length + i = index ∧
        (∀ v ∈ left.getLast?, v.isSeparator = true) ∧
        ∀ v ∈ right.head?, v.isSeparator = true := by
  have some_command : commandAt ws index ≠ none := by simp [found]
  rw [Ne, commandAt_eq_none_iff, not_or, Nat.not_le] at some_command
  obtain ⟨inside, plain⟩ := some_command
  obtain ⟨w, here⟩ : ∃ w, ws[index]? = some w := ⟨_, List.getElem?_eq_getElem inside⟩
  have own : w.isSeparator = false :=
    eq_false_of_ne_true fun separates => plain ⟨w, here, separates⟩
  obtain ⟨left, mid, after, whole, length, ends, unseparated, same⟩ := exists_around here own
  cases found.symm.trans same
  refine ⟨by simp, ?_, left, after.dropWhile (!isSeparator ·), ?_, ?_, ends, ?_⟩
  · intro v mem
    rcases List.mem_append.mp mem with mem | mem
    · exact unseparated v mem
    · rcases List.mem_cons.mp mem with rfl | mem
      · exact own
      · simpa using List.mem_takeWhile_imp mem
  · rw [whole, List.append_assoc, List.append_assoc, List.append_assoc, List.cons_append,
      List.takeWhile_append_dropWhile]
  · rw [← length, List.length_append]
  · intro v first
    have stops := List.head?_dropWhile_not (!isSeparator ·) after
    rw [Option.mem_def.mp first] at stops
    simpa using stops

theorem commandAt_eq_some {ws command : List Word} {index i : Nat}
    (found : commandAt ws index = some (command, i)) :
    i < command.length ∧ (∀ v ∈ command, v.isSeparator = false) ∧
      ∃ left right, ws = left ++ command ++ right ∧ left.length + i = index := by
  obtain ⟨inside, plain, left, right, whole, length, -, -⟩ := exists_sides_of_commandAt found
  exact ⟨inside, plain, left, right, whole, length⟩

end LineEdit.Word
