import LineEdit.Buffer
import Mathlib.Data.Nat.Find
import Mathlib.Data.List.Sort
import Mathlib.Data.List.TakeWhile
import Mathlib.Logic.Function.Iterate
import Mathlib.Order.Bounds.Defs

/-!
# Word motion

A word starts where a character that is no delimiter stands behind one, or where the text begins
with one that is none. A motion to the left goes to the nearest start before the cursor, or to the
beginning of the text when there is none, and a motion to the right goes to the nearest one behind
the cursor, or to the end. In either direction a motion passes one word and one gap, and no word
starts inside of these two.
-/
namespace LineEdit.Buffer

/-- Whether a word starts at offset `i`: the character there is no delimiter, and the one before it,
if there is one, is. -/
def StartsWord (cs : List Char) (delimiters : String) (i : Nat) : Prop :=
  (∃ c ∈ cs[i]?, c ∉ delimiters.toList) ∧ (i = 0 ∨ ∃ c ∈ cs[i - 1]?, c ∈ delimiters.toList)

theorem startsWord_iff_any (cs : List Char) (delimiters : String) (i : Nat) :
    (cs[i]?).any (· ∉ delimiters.toList) = true ∧
        (i = 0 ∨ (cs[i - 1]?).any (· ∈ delimiters.toList) = true) ↔
      StartsWord cs delimiters i := by
  simp only [Option.any_eq_true, decide_eq_true_iff, StartsWord, Option.mem_def]

instance (cs : List Char) (delimiters : String) : DecidablePred (StartsWord cs delimiters) :=
  fun i => decidable_of_iff _ (startsWord_iff_any cs delimiters i)

/-- The offsets above `n` where words start, in order. -/
def startsAfter (cs : List Char) (delimiters : String) (n : Nat) : List Nat :=
  (List.range cs.length).filter fun i => n < i ∧ StartsWord cs delimiters i

variable {cs : List Char} {delimiters : String} {i n : Nat}

theorem StartsWord.lt_length (starts : StartsWord cs delimiters i) : i < cs.length := by
  obtain ⟨⟨c, here, -⟩, -⟩ := starts
  exact (List.getElem?_eq_some_iff.mp here).choose

theorem exists_mem_middle {before middle : List Char} (after : List Char)
    (ge : before.length ≤ i) (lt : i < (before ++ middle).length) :
    ∃ c ∈ middle, (before ++ middle ++ after)[i]? = some c := by
  rw [List.length_append] at lt
  refine ⟨middle[i - before.length], List.getElem_mem _, ?_⟩
  rw [List.append_assoc, List.getElem?_append_right ge, List.getElem?_append_left (by omega),
    List.getElem?_eq_getElem]

/-- No word starts inside a word or in the gap behind it. Both boundaries are extreme among the
starts because of this. -/
theorem not_startsWord_inside {before word gap after : List Char}
    (plain : ∀ c ∈ word, c ∉ delimiters.toList) (delimits : ∀ c ∈ gap, c ∈ delimiters.toList)
    (gt : before.length < i) (lt : i < (before ++ word ++ gap).length) :
    ¬StartsWord (before ++ word ++ gap ++ after) delimiters i := by
  rintro ⟨⟨c, here, own⟩, first⟩
  rcases Nat.lt_or_ge (i - 1) (before ++ word).length with inside | behind
  · obtain ⟨d, mem, there⟩ := exists_mem_middle (gap ++ after) (Nat.le_sub_one_of_lt gt) inside
    rcases first with rfl | ⟨e, previous, separates⟩
    · exact absurd gt (Nat.not_lt_zero _)
    · rw [List.append_assoc, there] at previous
      obtain rfl := Option.some.inj previous
      exact plain d mem separates
  · obtain ⟨d, mem, there⟩ := exists_mem_middle after (by omega) lt
    rw [there] at here
    obtain rfl := Option.some.inj here
    exact own (delimits d mem)

theorem startsWord_append {before after : List Char}
    (own : ∃ c ∈ after.head?, c ∉ delimiters.toList)
    (separated : ∀ c ∈ before.getLast?, c ∈ delimiters.toList) :
    StartsWord (before ++ after) delimiters before.length := by
  constructor
  · rw [List.getElem?_append_right (Nat.le_refl _), Nat.sub_self, ← List.head?_eq_getElem?]
    exact own
  · rcases List.eq_nil_or_concat before with rfl | ⟨others, c, rfl⟩
    · exact .inl rfl
    · refine .inr ⟨c, ?_, separated c (by simp)⟩
      simp

theorem exists_runs (p : Char → Bool) (cs : List Char) :
    ∃ first second, cs = first ++ second ++ (cs.dropWhile p).dropWhile (!p ·) ∧
      (∀ c ∈ first, p c = true) ∧ (∀ c ∈ second, p c = false) ∧
      (second = [] → (cs.dropWhile p).dropWhile (!p ·) = []) ∧
      ∀ c ∈ ((cs.dropWhile p).dropWhile (!p ·)).head?, p c = true := by
  refine ⟨cs.takeWhile p, (cs.dropWhile p).takeWhile (!p ·), ?_, ?_, ?_, ?_, ?_⟩
  · rw [List.append_assoc, List.takeWhile_append_dropWhile, List.takeWhile_append_dropWhile]
  · exact fun c mem => List.mem_takeWhile_imp mem
  · exact fun c mem => by simpa using List.mem_takeWhile_imp mem
  · intro none
    have stops := List.head?_dropWhile_not p cs
    cases rest : cs.dropWhile p with
    | nil => rfl
    | cons c rest =>
      rw [rest] at stops none
      rw [List.takeWhile_cons_of_pos (by simpa using stops)] at none
      exact absurd none nofun
  · intro c first
    have stops := List.head?_dropWhile_not (!p ·) (cs.dropWhile p)
    rw [Option.mem_def.mp first] at stops
    simpa using stops

/-- Up to the cursor the text is what lies before the boundary, a word and the gap behind it. Either
may be missing, the word only where nothing lies before it. -/
theorem exists_before (b : Buffer) (delimiters : String) :
    ∃ far word gap, b.text.toList.take b.cursor = far ++ word ++ gap ∧
      far.length = b.previousBoundary delimiters ∧ (∀ c ∈ word, c ∉ delimiters.toList) ∧
      (∀ c ∈ gap, c ∈ delimiters.toList) ∧ (word = [] → far = []) ∧
      ∀ c ∈ far.getLast?, c ∈ delimiters.toList := by
  obtain ⟨gap, word, whole, delimits, plain, none, stops⟩ :=
    exists_runs delimiters.toList.contains (b.text.toList.take b.cursor).reverse
  refine ⟨_, word.reverse, gap.reverse, ?_, List.length_reverse, ?_, ?_, ?_, ?_⟩
  · conv_lhs => rw [← List.reverse_reverse (b.text.toList.take b.cursor), whole]
    simp
  · intro c mem
    simpa using plain c (List.mem_reverse.mp mem)
  · intro c mem
    simpa using delimits c (List.mem_reverse.mp mem)
  · intro empty
    rw [none (List.reverse_eq_nil_iff.mp empty), List.reverse_nil]
  · rw [List.getLast?_reverse]
    intro c last
    simpa using stops c last

theorem exists_after (b : Buffer) (delimiters : String) :
    ∃ word gap far, b.text.toList.drop b.cursor = word ++ gap ++ far ∧
      b.cursor + (word ++ gap).length = b.nextBoundary delimiters ∧
      (∀ c ∈ word, c ∉ delimiters.toList) ∧ (∀ c ∈ gap, c ∈ delimiters.toList) ∧
      (gap = [] → far = []) ∧ ∀ c ∈ far.head?, c ∉ delimiters.toList := by
  obtain ⟨word, gap, whole, plain, delimits, none, stops⟩ :=
    exists_runs (!delimiters.toList.contains ·) (b.text.toList.drop b.cursor)
  simp only [Bool.not_not] at whole none stops
  -- The boundary is counted from the end of the text, so what lies behind it gets a name first.
  generalize far_eq : List.dropWhile _ (List.dropWhile _ _) = far at whole none stops
  have place : b.nextBoundary delimiters = b.text.length - far.length := by rw [← far_eq]; rfl
  refine ⟨word, gap, far, whole, ?_, ?_, ?_, none, ?_⟩
  · have size := congrArg List.length whole
    have inside := b.cursor_le
    rw [List.length_append, List.length_drop, String.length_toList] at size
    omega
  · intro c mem
    simpa using plain c mem
  · intro c mem
    simpa using delimits c mem
  · intro c first
    simpa using stops c first

theorem length_take_cursor (b : Buffer) : (b.text.toList.take b.cursor).length = b.cursor := by
  rw [List.length_take, String.length_toList, Nat.min_eq_left b.cursor_le]

theorem previousBoundary_le (b : Buffer) (delimiters : String) :
    b.previousBoundary delimiters ≤ b.cursor := by
  obtain ⟨far, word, gap, before, place, -⟩ := b.exists_before delimiters
  have size := b.length_take_cursor
  rw [before, List.append_assoc, List.length_append] at size
  omega

theorem nextBoundary_le (b : Buffer) (delimiters : String) :
    b.nextBoundary delimiters ≤ b.length := Nat.sub_le _ _

theorem le_nextBoundary (b : Buffer) (delimiters : String) :
    b.cursor ≤ b.nextBoundary delimiters := by
  obtain ⟨word, gap, far, -, place, -⟩ := b.exists_after delimiters
  omega

/-- The boundary to the left is the beginning of the text or a word starts there, and none starts
between it and the cursor. -/
theorem previousBoundary_spec (b : Buffer) (delimiters : String) :
    (b.previousBoundary delimiters ≠ 0 →
      b.previousBoundary delimiters < b.cursor ∧
        StartsWord b.text.toList delimiters (b.previousBoundary delimiters)) ∧
      ∀ i, b.previousBoundary delimiters < i → i < b.cursor →
        ¬StartsWord b.text.toList delimiters i := by
  obtain ⟨far, word, gap, before, place, plain, delimits, none, stops⟩ := b.exists_before delimiters
  have size := b.length_take_cursor
  have whole : b.text.toList = far ++ word ++ gap ++ b.text.toList.drop b.cursor := by
    rw [← before, List.take_append_drop]
  rw [before] at size
  rw [← place]
  constructor
  · intro proper
    cases word with
    | nil => exact absurd (congrArg List.length (none rfl)) proper
    | cons c word =>
      constructor
      · rw [← size]
        simp
      · rw [whole, List.append_assoc, List.append_assoc]
        exact startsWord_append ⟨c, rfl, plain c List.mem_cons_self⟩ stops
  · intro i gt lt
    rw [whole]
    exact not_startsWord_inside plain delimits gt (size ▸ lt)

theorem nextBoundary_spec (b : Buffer) (delimiters : String) :
    (b.nextBoundary delimiters ≠ b.length →
      b.cursor < b.nextBoundary delimiters ∧
        StartsWord b.text.toList delimiters (b.nextBoundary delimiters)) ∧
      ∀ i, b.cursor < i → i < b.nextBoundary delimiters →
        ¬StartsWord b.text.toList delimiters i := by
  obtain ⟨word, gap, far, after, place, plain, delimits, none, stops⟩ := b.exists_after delimiters
  have size := b.length_take_cursor
  have whole : b.text.toList = b.text.toList.take b.cursor ++ word ++ gap ++ far := by
    rw [List.append_assoc, List.append_assoc, ← List.append_assoc word, ← after,
      List.take_append_drop]
  have reached :
      (b.text.toList.take b.cursor ++ word ++ gap).length = b.nextBoundary delimiters := by
    rw [← place, List.append_assoc, List.length_append, size]
  constructor
  · intro proper
    cases far with
    | nil =>
      rw [List.append_nil] at whole
      rw [← reached, ← whole, String.length_toList] at proper
      exact absurd rfl proper
    | cons c far =>
      have wide : gap ≠ [] := fun empty => absurd (none empty) (List.cons_ne_nil c far)
      constructor
      · rw [← place, List.length_append]
        have := List.length_pos_of_ne_nil wide
        omega
      · rw [whole, ← reached]
        apply startsWord_append ⟨c, rfl, stops c rfl⟩
        rw [List.getLast?_append_of_ne_nil _ wide]
        exact fun d last => delimits d (List.mem_of_getLast? last)
  · intro i gt lt
    rw [whole]
    exact not_startsWord_inside plain delimits (size.symm ▸ gt) (reached.symm ▸ lt)

theorem previousBoundary_eq (b : Buffer) (delimiters : String) :
    b.previousBoundary delimiters =
      Nat.findGreatest (StartsWord b.text.toList delimiters) (b.cursor - 1) := by
  obtain ⟨proper, apart⟩ := b.previousBoundary_spec delimiters
  symm
  rw [Nat.findGreatest_eq_iff]
  refine ⟨?_, fun nonzero => (proper nonzero).2, fun i gt le => apart i gt (by omega)⟩
  by_cases first : b.previousBoundary delimiters = 0
  · omega
  · have := (proper first).1
    omega

theorem mem_startsAfter :
    i ∈ startsAfter cs delimiters n ↔ n < i ∧ StartsWord cs delimiters i := by
  rw [startsAfter, List.mem_filter, List.mem_range, decide_eq_true_iff]
  exact ⟨And.right, fun after => ⟨after.2.lt_length, after⟩⟩

theorem sortedLT_startsAfter (cs : List Char) (delimiters : String) (n : Nat) :
    (startsAfter cs delimiters n).SortedLT :=
  ((List.sortedLT_range cs.length).pairwise.filter _).sortedLT

theorem startsAfter_length (cs : List Char) (delimiters : String) :
    startsAfter cs delimiters cs.length = [] := by
  rw [List.eq_nil_iff_forall_not_mem]
  intro i mem
  obtain ⟨gt, starts⟩ := mem_startsAfter.mp mem
  exact absurd starts.lt_length (Nat.not_lt.mpr gt.le)

/-- The boundary to the right is the first of the starts behind the cursor, and those behind it are
the others. -/
theorem startsAfter_cursor (b : Buffer) (delimiters : String) :
    startsAfter b.text.toList delimiters b.cursor =
      if b.nextBoundary delimiters = b.length then []
      else b.nextBoundary delimiters ::
        startsAfter b.text.toList delimiters (b.nextBoundary delimiters) := by
  obtain ⟨proper, apart⟩ := b.nextBoundary_spec delimiters
  split
  next last =>
    rw [List.eq_nil_iff_forall_not_mem]
    intro i mem
    obtain ⟨gt, starts⟩ := mem_startsAfter.mp mem
    have lt := starts.lt_length
    rw [String.length_toList] at lt
    exact apart i gt (last ▸ lt) starts
  next inside =>
    obtain ⟨gt, starts⟩ := proper inside
    apply (sortedLT_startsAfter _ _ _).eq_of_mem_iff
    · rw [List.sortedLT_iff_pairwise, List.pairwise_cons]
      exact ⟨fun i mem => (mem_startsAfter.mp mem).1, (sortedLT_startsAfter _ _ _).pairwise⟩
    · intro i
      rw [List.mem_cons, mem_startsAfter, mem_startsAfter]
      constructor
      · rintro ⟨after, here⟩
        rcases Nat.lt_trichotomy i (b.nextBoundary delimiters) with lt | same | beyond
        · exact absurd here (apart i after lt)
        · exact .inl same
        · exact .inr ⟨beyond, here⟩
      · rintro (rfl | ⟨beyond, here⟩)
        · exact ⟨gt, starts⟩
        · exact ⟨gt.trans beyond, here⟩

theorem nextBoundary_eq (b : Buffer) (delimiters : String) :
    b.nextBoundary delimiters =
      (startsAfter b.text.toList delimiters b.cursor).head?.getD b.length := by
  rw [startsAfter_cursor]
  split
  next last => exact last
  next => rfl

/-- The boundary to the left is the last start before the cursor, if there is one. The boundary to
the right is in the same way the first start behind the cursor. -/
theorem isGreatest_or_eq_zero (b : Buffer) (delimiters : String) :
    IsGreatest {i | StartsWord b.text.toList delimiters i ∧ i < b.cursor}
        (b.previousBoundary delimiters) ∨
      (∀ i, i < b.cursor → ¬StartsWord b.text.toList delimiters i) ∧
        b.previousBoundary delimiters = 0 := by
  obtain ⟨proper, apart⟩ := b.previousBoundary_spec delimiters
  by_cases here : StartsWord b.text.toList delimiters (b.previousBoundary delimiters) ∧
      b.previousBoundary delimiters < b.cursor
  · exact .inl ⟨here, fun i ⟨own, lt⟩ => Nat.le_of_not_lt fun gt => apart i gt lt own⟩
  · have first : b.previousBoundary delimiters = 0 := by
      by_contra nonzero
      exact here (proper nonzero).symm
    refine .inr ⟨fun i lt own => ?_, first⟩
    rcases Nat.eq_zero_or_pos i with rfl | pos
    · exact here (by rw [first]; exact ⟨own, lt⟩)
    · exact apart i (by omega) lt own

theorem isLeast_or_eq_length (b : Buffer) (delimiters : String) :
    IsLeast {i | StartsWord b.text.toList delimiters i ∧ b.cursor < i}
        (b.nextBoundary delimiters) ∨
      (∀ i, b.cursor < i → ¬StartsWord b.text.toList delimiters i) ∧
        b.nextBoundary delimiters = b.length := by
  obtain ⟨proper, apart⟩ := b.nextBoundary_spec delimiters
  by_cases last : b.nextBoundary delimiters = b.length
  · refine .inr ⟨fun i gt own => ?_, last⟩
    have lt := own.lt_length
    rw [String.length_toList] at lt
    exact apart i gt (last ▸ lt) own
  · exact .inl ⟨(proper last).symm,
      fun i ⟨own, gt⟩ => Nat.le_of_not_lt fun lt => apart i gt lt own⟩

theorem cursor_wordRight (b : Buffer) (delimiters : String) :
    (b.wordRight delimiters).cursor = b.nextBoundary delimiters :=
  cursor_moveTo (b.nextBoundary_le delimiters)

/-- One motion to the right after another visits the starts behind the cursor one by one, and then
the end. -/
theorem iterate_wordRight (b : Buffer) (delimiters : String) (k : Nat) :
    (wordRight · delimiters)^[k + 1] b =
      b.moveTo ((startsAfter b.text.toList delimiters b.cursor)[k]?.getD b.length) := by
  induction k generalizing b with
  | zero =>
    rw [← List.head?_eq_getElem?, ← nextBoundary_eq]
    rfl
  | succ k ih =>
    have text : (b.wordRight delimiters).text = b.text := rfl
    have length : (b.wordRight delimiters).length = b.length := rfl
    rw [Function.iterate_succ_apply, ih, text, length, cursor_wordRight, wordRight, moveTo_moveTo,
      startsAfter_cursor b]
    split
    next last =>
      have all : b.length = b.text.toList.length := String.length_toList.symm
      rw [last, all, startsAfter_length]
      rfl
    next => rfl

/-- From the start of a word a motion to the right and one to the left lead back to it. From
elsewhere they lead to the last start before, if there is one. -/
theorem wordLeft_wordRight {b : Buffer} {delimiters : String}
    (starts : StartsWord b.text.toList delimiters b.cursor) :
    (b.wordRight delimiters).wordLeft delimiters = b := by
  obtain ⟨proper, apart⟩ := b.nextBoundary_spec delimiters
  have gt : b.cursor < b.nextBoundary delimiters := by
    by_cases last : b.nextBoundary delimiters = b.length
    · have lt := starts.lt_length
      rwa [String.length_toList, ← length, ← last] at lt
    · exact (proper last).1
  have back : (b.wordRight delimiters).previousBoundary delimiters = b.cursor := by
    rw [previousBoundary_eq, cursor_wordRight, Nat.findGreatest_eq_iff]
    exact ⟨by omega, fun _ => starts, fun i after le => apart i after (by omega)⟩
  rw [wordLeft, back, wordRight, moveTo_moveTo, moveTo_cursor]

/-- A motion goes to the nearest start of a word on its side of the cursor, or to the end of the
text on that side when no word starts there. From the start of a word one to the right and one to
the left lead back to it. One to the right after another visits all later starts and stops at the
end. What is erased up to a word is what a motion passes. -/
theorem word_motion_nearest (b : Buffer) (delimiters : String) :
    let cs := b.text.toList
    let starts := StartsWord cs delimiters
    let previous := b.previousBoundary delimiters
    let next := b.nextBoundary delimiters
    (IsGreatest {i | starts i ∧ i < b.cursor} previous ∨
        (∀ i, i < b.cursor → ¬starts i) ∧ previous = 0) ∧
      (IsLeast {i | starts i ∧ b.cursor < i} next ∨
        (∀ i, b.cursor < i → ¬starts i) ∧ next = b.length) ∧
      (starts b.cursor → (b.wordRight delimiters).wordLeft delimiters = b) ∧
      (∀ k, (wordRight · delimiters)^[k + 1] (b.moveTo 0) =
        b.moveTo ((startsAfter cs delimiters 0)[k]?.getD b.length)) ∧
      b.Removed previous b.cursor (b.killWordBackward delimiters) ∧
      b.Removed b.cursor next (b.killWordForward delimiters) := by
  intro cs starts previous next
  refine ⟨b.isGreatest_or_eq_zero delimiters, b.isLeast_or_eq_length delimiters, wordLeft_wordRight,
    ?_, ?_, ?_⟩
  · intro k
    have origin : (b.moveTo 0).cursor = 0 := cursor_moveTo (Nat.zero_le _)
    rw [iterate_wordRight, moveTo_moveTo, origin]
    rfl
  · exact removed_cut (b.previousBoundary_le delimiters) (.inr rfl)
  · exact removed_cut (b.le_nextBoundary delimiters) (.inl rfl)

/-- The cursor stands where the second of three words starts, behind a gap of two blanks. -/
theorem word_motion_nearest_second :
    let b := (ofText "git  löse -n ").moveTo 5
    StartsWord b.text.toList " " b.cursor ∧ b.nextBoundary " " = 10 ∧
      IsLeast {i | StartsWord b.text.toList " " i ∧ b.cursor < i} 10 ∧
      (b.wordRight " ").wordLeft " " = b := by
  intro b
  have starts : StartsWord b.text.toList " " b.cursor := by decide
  have next : b.nextBoundary " " = 10 := by decide
  have inside : b.nextBoundary " " ≠ b.length := by decide
  obtain ⟨-, least, back, -⟩ := word_motion_nearest b " "
  exact ⟨starts, next, next ▸ least.resolve_right fun last => inside last.2, back starts⟩

end LineEdit.Buffer
