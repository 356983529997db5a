import LineEdit.Proofs.Word.Tiling

/-!
# Words of a line that grows

More text behind a line leaves all its words but the last as they are. A word that is followed by
another one was ended by a blank outside quotes or by the quote that closes the first word, and no
character behind decides on that again; nor does one decide whether two words are joined, since the
second of them has begun. The last word is under way: it keeps its place and what is written of it,
and only what it stands for can change. Where the line ends in a blank, the empty word there gives
way to the next one.
-/
namespace LineEdit.Word

/-- What the last word `a` of a line can become when the line grows. It is longer, with all that was
written of it, or it was empty and another word begins in its place, further on if blanks come
first. -/
inductive GoesOn (a b : Word) : Prop
  | longer : a.isEmpty = false → b.start = a.start → a.written.toList <+: b.written.toList →
      GoesOn a b
  | further : a.isEmpty = true → a.start ≤ b.start → GoesOn a b

theorem goesOn_of_prefix {a b : Word} (start : b.start = a.start)
    (written : a.written.toList <+: b.written.toList) : a.GoesOn b := by
  cases empty : a.isEmpty with
  | true => exact .further empty start.ge
  | false => exact .longer empty start written

/-- The place and the first character of a word decide whether it is joined to the word before. Both
stay when the word goes on. -/
theorem GoesOn.attaches_eq {a b : Word} (h : a.GoesOn b) {u : Word}
    (apart : a.isEmpty = true → u.stop < a.start) : attaches u b = attaches u a := by
  cases h with
  | longer full start written =>
    obtain ⟨more, written⟩ := written
    have some_chars : a.written.toList ≠ [] :=
      String.toList_eq_nil_iff.not.mpr (String.isEmpty_eq_false_iff.mp full)
    obtain ⟨c, cs, begins⟩ := List.exists_cons_of_ne_nil some_chars
    rw [attaches, attaches, start, ← written, begins]
    rfl
  | further empty le =>
    have loose {v : Word} (behind : a.start ≤ v.start) : attaches u v = false := by
      have gap : u.stop ≠ v.start := Nat.ne_of_lt (Nat.lt_of_lt_of_le (apart empty) behind)
      rw [attaches, decide_eq_false gap, Bool.and_false]
    rw [loose le, loose (Nat.le_refl _)]

theorem toList_written_join (a b : Word) :
    (a.join b).written.toList = a.written.toList ++ b.written.toList :=
  String.toList_append

theorem GoesOn.join {a b u : Word} (h : a.GoesOn b) (attached : attaches u a = true) :
    (u.join a).GoesOn (u.join b) := by
  cases h with
  | longer full start written =>
    have both : (u.join a).written.toList <+: (u.join b).written.toList := by
      rw [toList_written_join, toList_written_join]
      exact (List.prefix_append_right_inj _).mpr written
    exact goesOn_of_prefix rfl both
  | further empty le =>
    rw [isEmpty_of_attaches attached] at empty
    exact absurd empty Bool.false_ne_true

namespace Scanner

theorem toList_written_word (a : Argument) : a.word.written.toList = a.written.reverse :=
  String.toList_ofList

/-- An argument under way becomes a word that begins with what is written of it. -/
theorem exists_split_inside (pos : Nat) (a : Argument) (cs : List Char) :
    ∃ w ws, (inside a).split pos cs = w :: ws ∧ w.start = a.start ∧
      a.written.reverse <+: w.written.toList := by
  have now (a : Argument) : a.written.reverse <+: a.word.written.toList :=
    (toList_written_word a).symm ▸ List.prefix_rfl
  induction cs generalizing pos a with
  | nil => exact ⟨a.word, [], rfl, rfl, now a⟩
  | cons c cs ih =>
    rw [split_cons]
    cases ends : a.endsAt c with
    | true =>
      simp only [emit?, next, ends, if_true, Option.toList_some, List.singleton_append]
      exact ⟨a.word, _, rfl, rfl, now a⟩
    | false =>
      simp only [emit?, next, ends, Bool.false_eq_true, if_false, Option.toList_none,
        List.nil_append]
      obtain ⟨w, ws, words, start, written⟩ := ih (pos + 1) (a.push c)
      rw [Argument.start_push] at start
      rw [Argument.written_push, List.reverse_cons] at written
      exact ⟨w, ws, words, start, (List.prefix_append _ [c]).trans written⟩

theorem exists_split_between (pos : Nat) (cs : List Char) :
    ∃ w ws, between.split pos cs = w :: ws ∧ pos ≤ w.start := by
  obtain ⟨gap, rest, -, -, tiles⟩ := (tiles_split cs).2 pos
  obtain ⟨w, head, start⟩ := tiles.start_head
  obtain ⟨ws, words⟩ := List.head?_eq_some_iff.mp head
  exact ⟨w, ws, words, by omega⟩

/-- The words that are complete stay, and the one that the end of the text completes goes on. The
two texts are read alike up to there, so that only what the reader has under way then can differ. -/
theorem exists_split_append {pos : Nat} {s : Scanner} (here : s.At pos) {cs : List Char}
    (some_read : cs ≠ []) (ds : List Char) : ∃ last grown others,
    s.split pos cs = s.words pos cs ++ [last] ∧
      s.split pos (cs ++ ds) = s.words pos cs ++ grown :: others ∧ last.GoesOn grown ∧
      (last.isEmpty = true → pos < last.start) := by
  have reached := at_after here cs
  have further : pos < pos + cs.length :=
    Nat.lt_add_of_pos_right (List.length_pos_of_ne_nil some_read)
  rw [split_append, split]
  -- Both runs agree up to here; they differ in what the reader behind `cs` completes.
  cases state : s.after pos cs with
  | fresh => exact absurd state (after_ne_fresh pos s some_read)
  | between =>
    obtain ⟨w, ws, words, start⟩ := exists_split_between (pos + cs.length) ds
    rw [words]
    exact ⟨_, w, ws, rfl, rfl, .further rfl start, fun _ => further⟩
  | inside a =>
    obtain ⟨w, ws, words, start, written⟩ := exists_split_inside (pos + cs.length) a ds
    rw [state] at reached
    have full := written_ne_empty_of_at reached
    rw [← toList_written_word] at written
    rw [words]
    exact ⟨_, w, ws, rfl, rfl, .longer full start written,
      fun none => absurd (full.symm.trans none) Bool.false_ne_true⟩

end Scanner

def Grow (ws vs : List Word) : Prop :=
  ∃ finished last grown others, ws = finished ++ [last] ∧ vs = finished ++ grown :: others ∧
    last.GoesOn grown

theorem joinAttached_cons (a b : Word) {us : List Word}
    (gaps : (b :: us).IsChain (fun a b => a.stop < b.start)) :
    joinAttached a (b :: us) = if attaches a b then a.join b :: us else a :: b :: us := by
  rcases joinAttached_cases a gaps with ⟨loose, alone⟩ | ⟨_, _, same, attached, joined⟩
  · rw [alone, loose b rfl]
    rfl
  · obtain ⟨rfl, rfl⟩ := List.cons.inj same
    rw [joined, if_pos attached]

/-- Joining looks at the words behind the first one only where they begin, and so comes to the same
when the last of them goes on. -/
theorem Grow.joinAttached {a last grown : Word} {finished others : List Word}
    (before : (finished ++ [last]).IsChain (fun a b => a.stop < b.start))
    (after : (finished ++ grown :: others).IsChain (fun a b => a.stop < b.start))
    (on : last.GoesOn grown) (apart : last.isEmpty = true → a.stop < last.start) :
    Grow (joinAttached a (finished ++ [last])) (joinAttached a (finished ++ grown :: others)) := by
  cases finished with
  | nil =>
    rw [List.nil_append] at before after ⊢
    rw [List.nil_append, joinAttached_cons a last before, joinAttached_cons a grown after,
      on.attaches_eq apart]
    split
    next attached => exact ⟨[], _, _, others, rfl, rfl, on.join attached⟩
    next => exact ⟨[a], last, grown, others, rfl, rfl, on⟩
  | cons b us =>
    rw [List.cons_append] at before after ⊢
    rw [List.cons_append, joinAttached_cons a b before, joinAttached_cons a b after]
    split
    next => exact ⟨a.join b :: us, last, grown, others, rfl, rfl, on⟩
    next => exact ⟨a :: b :: us, last, grown, others, rfl, rfl, on⟩

theorem exists_joinAttached (a : Word) (ws : List Word) :
    ∃ b bs, joinAttached a ws = b :: bs ∧ b.start = a.start ∧
      a.written.toList <+: b.written.toList := by
  induction ws generalizing a with
  | nil => exact ⟨a, [], rfl, rfl, List.prefix_rfl⟩
  | cons w ws ih =>
    rw [joinAttached]
    split
    next =>
      obtain ⟨b, bs, joined, start, written⟩ := ih (a.join w)
      rw [toList_written_join] at written
      exact ⟨b, bs, joined, start, (List.prefix_append _ _).trans written⟩
    next => exact ⟨a, _, rfl, rfl, List.prefix_rfl⟩

theorem prefix_readProgram {cs : List Char} (whole : (readProgram cs).2 = []) (ds : List Char) :
    cs <+: (readProgram (cs ++ ds)).1.written.toList := by
  have opens := opens_readProgram cs
  rw [whole] at opens
  generalize (readProgram cs).1 = w at opens
  cases opens with
  | @plain name _ no_quote full _ =>
    cases name with
    | nil => exact List.nil_prefix
    | cons c name =>
      have plain : c ≠ '"' := fun same => no_quote (congrArg some same)
      have passed : ∀ d ∈ c :: name, (!isBlank d) = true := by
        intro d mem
        rw [full d mem]
        rfl
      rw [List.append_nil, List.cons_append, readProgram_of_ne plain, ofChars,
        String.toList_ofList, ← List.cons_append, List.takeWhile_append_of_pos passed]
      exact List.prefix_append _ _
  | @closed inside _ no_quote =>
    have longer : Opens ('"' :: inside ++ '"' :: ds) _ ds := .closed no_quote
    have line : '"' :: inside ++ ['"'] ++ ds = '"' :: inside ++ '"' :: ds := by simp
    have same : (readProgram ('"' :: inside ++ ['"'] ++ ds)).1.written.toList =
        '"' :: inside ++ ['"'] := by
      rw [line, longer.readProgram_eq]
      exact String.toList_ofList
    exact same.symm ▸ List.prefix_rfl
  | @unclosed inside no_quote =>
    have passed : ∀ d ∈ inside, decide (d ≠ '"') = true :=
      fun d mem => decide_eq_true (ne_of_mem_of_not_mem mem no_quote)
    have begins : (inside ++ ds).takeWhile (· ≠ '"') = inside ++ ds.takeWhile (· ≠ '"') :=
      List.takeWhile_append_of_pos passed
    have longer := List.prefix_append ('"' :: inside) (ds.takeWhile (· ≠ '"'))
    simp only [List.cons_append, readProgram, begins]
    split
    next =>
      rw [ofChars, String.toList_ofList]
      exact longer
    next close rest _ =>
      rw [ofChars, String.toList_ofList]
      exact longer.trans (List.prefix_append _ [close])

theorem grow_splitChars (cs ds : List Char) : Grow (splitChars cs) (splitChars (cs ++ ds)) := by
  -- While the first word is all there is of the line, it is the word under way.
  by_cases whole : (readProgram cs).2 = []
  · obtain ⟨b, bs, words, start, written⟩ := exists_joinAttached (readProgram (cs ++ ds)).1
      (Scanner.fresh.split (readProgram (cs ++ ds)).1.stop (readProgram (cs ++ ds)).2)
    have alone : (readProgram cs).1.written.toList = cs := by
      have all := written_readProgram_append cs
      rwa [whole, List.append_nil] at all
    refine ⟨[], (readProgram cs).1, b, bs, ?_, ?_, goesOn_of_prefix ?_ ?_⟩
    · rw [splitChars_eq, whole]
      rfl
    · rw [splitChars_eq, words]
      rfl
    · rw [start, start_readProgram, start_readProgram]
    · rw [alone]
      exact (prefix_readProgram whole ds).trans written
  · have fresh := Scanner.at_fresh (readProgram cs).1.stop
    obtain ⟨last, grown, others, before, after, on, apart⟩ :=
      Scanner.exists_split_append fresh whole ds
    rw [splitChars_eq, splitChars_eq, readProgram_append whole]
    dsimp only
    rw [before, after]
    exact .joinAttached (before ▸ Scanner.isChain_gap_split fresh _)
      (after ▸ Scanner.isChain_gap_split fresh _) on apart

/-- More text leaves all words of a line but the last as they are. The last one goes on: it keeps
its beginning, or gives way to a word in its place if it was empty. -/
theorem take_split_append (line more : String) :
    let finished := (split line).length - 1
    (split (line ++ more)).take finished = (split line).take finished ∧
      ∃ last grown, (split line)[finished]? = some last ∧
        (split (line ++ more))[finished]? = some grown ∧ last.GoesOn grown := by
  intro finished
  obtain ⟨ws, last, grown, others, before, after, on⟩ := grow_splitChars line.toList more.toList
  have words : split line = ws ++ [last] := before
  have grows : split (line ++ more) = ws ++ grown :: others := by
    rw [split, String.toList_append, after]
  have length : finished = ws.length := by
    change (split line).length - 1 = ws.length
    rw [words, List.length_append]
    rfl
  rw [words, grows, length]
  refine ⟨?_, last, grown, ?_, ?_, on⟩
  · rw [List.take_left, List.take_left]
  · exact List.getElem?_concat_length
  · rw [List.getElem?_append_right (Nat.le_refl _), Nat.sub_self]
    rfl

/-- What the last word stands for need not go on: a quote takes back the backslash before it. -/
example : (split "x a\\").map resolved = ["x", "a\\"] ∧
    (split "x a\\\"").map resolved = ["x", "a\""] := by
  decide +kernel

end LineEdit.Word
