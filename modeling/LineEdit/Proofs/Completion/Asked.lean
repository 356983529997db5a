import LineEdit.Proofs.Completion.Cycle

/-!
# What completers are asked

A query that reaches a completer shows a stretch of the line: words between two separators, further
and further right, one of which the cursor is in. That word is a word of the line, or an empty word
of its own where the cursor stands inside the blanks between two words. Each look-up on the way to
the query finds something: the word at the cursor, the place where the empty word is put, the
command around it and the place of the word in that.
-/
namespace LineEdit

open Text Word

namespace Buffer

/-- The cursor stands inside the blanks between two words of the line, behind the end of the one and
before the start of the other. -/
def InGap (b : Buffer) : Prop :=
  ∃ i before after, (split b.text)[i]? = some before ∧ (split b.text)[i + 1]? = some after ∧
    before.stop < b.cursor ∧ b.cursor < after.start ∧
    ∀ c ∈ (slice b.text before.stop after.start).toList, isBlank c = true

theorem exists_sides (b : Buffer) :
    ∃ before w after, split b.text = before ++ w :: after ∧
      indexAt b.cursor (split b.text) = some before.length ∧ w.start ≤ b.cursor ∧
      (∀ v ∈ before, v.start < w.start) ∧ ∀ v ∈ after, b.cursor < v.start := by
  obtain ⟨tiling, belongs⟩ := tiling_split b.text
  obtain ⟨i, found, covers⟩ := belongs b.cursor
  obtain ⟨w, here, starts, next⟩ := (covers i).mpr rfl
  obtain ⟨inside, same⟩ := List.getElem?_eq_some_iff.mp here
  have sides : split b.text = (split b.text).take i ++ w :: (split b.text).drop (i + 1) := by
    rw [← same, ← List.drop_eq_getElem_cons, List.take_append_drop]
  have length : ((split b.text).take i).length = i := List.length_take_of_le (Nat.le_of_lt inside)
  have increasing := tiling.increasing
  rw [sides, List.pairwise_append, List.pairwise_cons] at increasing
  obtain ⟨-, ⟨-, further⟩, across⟩ := increasing
  refine ⟨_, w, _, sides, found.trans (congrArg some length.symm), starts, ?_, ?_⟩
  · intro v mem
    exact across v mem w List.mem_cons_self
  · -- The word behind the cursor is the first of those that start behind it.
    rw [← List.head?_drop] at next
    cases rest : (split b.text).drop (i + 1) with
    | nil => exact nofun
    | cons first others =>
      rw [rest] at next further
      have behind := next first rfl
      intro v mem
      rcases List.mem_cons.mp mem with rfl | mem
      · exact behind
      · exact Nat.lt_trans behind (List.rel_of_pairwise_cons further mem)

/-- Behind the word that it is at, the cursor is in a gap, since the last word ends the line. -/
theorem inGap_of_stop_lt {b : Buffer} {i : Nat} {w : Word}
    (found : indexAt b.cursor (split b.text) = some i) (here : (split b.text)[i]? = some w)
    (behind : w.stop < b.cursor) : b.InGap := by
  obtain ⟨tiling, belongs⟩ := tiling_split b.text
  obtain ⟨j, same, covers⟩ := belongs b.cursor
  obtain rfl : i = j := Option.some.inj (found.symm.trans same)
  obtain ⟨v, there, -, next⟩ := (covers i).mpr rfl
  obtain rfl : w = v := Option.some.inj (here.symm.trans there)
  cases later : (split b.text)[i + 1]? with
  | some after =>
    obtain ⟨-, blank⟩ := tiling.between i w after here later
    exact ⟨i, w, after, here, later, behind, next after later, blank⟩
  | none =>
    obtain ⟨inside, same⟩ := List.getElem?_eq_some_iff.mp here
    obtain ⟨last, ends, stop⟩ := tiling.last
    have end_of_words := List.getElem?_eq_none_iff.mp later
    rw [List.getLast?_eq_getElem?, show (split b.text).length - 1 = i by omega, here] at ends
    obtain rfl : w = last := Option.some.inj ends
    have inside := b.cursor_le
    omega

theorem word_cases (b : Buffer) :
    b.word ∈ split b.text ∨ b.word = emptyAt b.cursor ∧ b.InGap := by
  obtain ⟨i, w, found, here, -, same⟩ := b.exists_word
  rw [same]
  split
  next behind => exact .inr ⟨rfl, inGap_of_stop_lt found here behind⟩
  next => exact .inl (List.mem_of_getElem? here)

end Buffer

namespace Query

theorem increasing_insert {before after : List Word} {cursor : Nat}
    (left : before.Pairwise fun v w => v.start < w.start) (up_to : ∀ v ∈ before, v.start < cursor)
    (right : after.Pairwise fun v w => v.start < w.start) (beyond : ∀ v ∈ after, cursor < v.start) :
    (before ++ emptyAt cursor :: after).Pairwise fun v w => v.start < w.start := by
  rw [List.pairwise_append, List.pairwise_cons]
  refine ⟨left, ⟨beyond, right⟩, ?_⟩
  intro v mem w behind
  rcases List.mem_cons.mp behind with rfl | behind
  · exact up_to v mem
  · exact Nat.lt_trans (up_to v mem) (beyond w behind)

theorem increasing_locate (b : Buffer) :
    (locate b.text b.cursor).1.Pairwise fun v w => v.start < w.start := by
  obtain ⟨tiling, -⟩ := tiling_split b.text
  obtain ⟨before, w, after, sides, found, starts, left, right⟩ := b.exists_sides
  have increasing := tiling.increasing
  have here : (split b.text)[before.length]? = some w := by
    rw [sides, List.getElem?_append_right (Nat.le_refl _), Nat.sub_self]
    rfl
  unfold locate
  dsimp only
  rw [found, Option.getD_some, here]
  dsimp only
  split
  next behind =>
    have apart : w.start < b.cursor := Nat.lt_of_le_of_lt (Nat.le_add_right _ _) behind
    have whole : split b.text = before ++ [w] ++ after := by
      rw [sides, List.append_assoc, List.singleton_append]
    have length : (before ++ [w]).length = before.length + 1 := List.length_append
    rw [whole, List.pairwise_append] at increasing
    dsimp only
    rw [whole, ← length, List.take_left, List.drop_left]
    refine increasing_insert increasing.1 ?_ increasing.2.1 right
    intro v mem
    rcases List.mem_append.mp mem with mem | mem
    · exact Nat.lt_trans (left v mem) apart
    · rwa [List.mem_singleton.mp mem]
  next => exact increasing

/-- What a completer may rely on in a query about a line with its cursor: the index is that of a
word, no word is a separator, the words start further and further right, and the cursor is inside
the word at the index, which is a word of the line or an empty one in a gap. -/
structure Fits (q : Query) (b : Buffer) : Prop where
  index_lt : q.index < q.words.length
  plain : ∀ w ∈ q.words, w.isSeparator = false
  increasing : q.words.Pairwise fun v w => v.start < w.start
  start_le : q.current.start ≤ b.cursor
  le_stop : b.cursor ≤ q.current.stop
  offset_eq : q.offset = b.cursor - q.current.start
  current_cases : q.current ∈ split b.text ∨ q.current = emptyAt b.cursor ∧ b.InGap

/-- A query shows words between two separators, and its index is that of the word at the cursor. -/
theorem exists_commandAt {b : Buffer} {q : Query} (asks : ofBuffer? b = some q) :
    commandAt (locate b.text b.cursor).1 (locate b.text b.cursor).2 = some (q.words, q.index) ∧
      q.offset = b.cursor - q.current.start := by
  unfold ofBuffer? at asks
  dsimp only at asks
  cases found : commandAt (locate b.text b.cursor).1 (locate b.text b.cursor).2 with
  | none =>
    rw [found] at asks
    exact absurd asks nofun
  | some command =>
    rw [found] at asks
    obtain rfl := Option.some.inj asks
    exact ⟨rfl, rfl⟩

theorem fits_of_ofBuffer? {b : Buffer} {q : Query} (asks : ofBuffer? b = some q) : q.Fits b := by
  obtain ⟨found, offset⟩ := exists_commandAt asks
  obtain ⟨index_lt, plain, left, right, whole, -⟩ := commandAt_eq_some found
  obtain ⟨starts, inside, -⟩ := b.word_bounds
  have same := current_eq_word asks
  constructor
  case index_lt => exact index_lt
  case plain => exact plain
  case increasing =>
    have increasing := increasing_locate b
    rw [whole, List.append_assoc, List.pairwise_append, List.pairwise_append] at increasing
    exact increasing.2.1.1
  case start_le => rw [same]; exact starts
  case le_stop => rw [same]; exact inside
  case offset_eq => exact offset
  case current_cases => rw [same]; exact b.word_cases

end Query

def Completer.Alike (b : Buffer) (completer other : Completer) : Prop :=
  ∀ q : Query, q.Fits b → completer.offer q = other.offer q

namespace Completion

theorem consult_congr {q : Query} {completers others : List Completer}
    (same : List.Forall₂ (fun completer other => completer.offer q = other.offer q)
      completers others) : consult q completers = consult q others := by
  induction same with
  | nil => rfl
  | cons first _ ih => rw [consult, consult, first, ih]

/-- Only what completers answer to a query that fits the line makes a difference, since no other
query is put to them. -/
theorem request_congr (c : Completion) (b : Buffer) (direction : Direction)
    {others : List Completer} (alike : List.Forall₂ (Completer.Alike b) c.completers others) :
    { c with completers := others }.request direction b =
      ((c.request direction b).1, { (c.request direction b).2.1 with completers := others },
        (c.request direction b).2.2) := by
  obtain ⟨completers, cycle, lookups⟩ := c
  unfold request
  cases cycle with
  | some cycle => rfl
  | none =>
    dsimp only
    cases asks : Query.ofBuffer? b with
    | none => rfl
    | some q =>
      have fits := Query.fits_of_ofBuffer? asks
      have same : consult q completers = consult q others :=
        consult_congr (alike.imp fun completer other same => same q fits)
      dsimp only
      rw [same]
      cases (consult q others).1 with
      | none => rfl
      | some offer => rfl

theorem lookups_request (c : Completion) (b : Buffer) (direction : Direction) :
    ∃ asked, (c.request direction b).2.1.lookups = c.lookups ++ asked ∧
      ∀ lookup ∈ asked, Query.ofBuffer? b = some lookup.query := by
  unfold request
  cases c.cycle with
  | some cycle => exact ⟨[], (List.append_nil _).symm, nofun⟩
  | none =>
    dsimp only
    cases asks : Query.ofBuffer? b with
    | none => exact ⟨[], (List.append_nil _).symm, nofun⟩
    | some q =>
      refine ⟨[⟨q, (consult q c.completers).2⟩], ?_, ?_⟩
      · dsimp only
        cases (consult q c.completers).1 with
        | none => rfl
        | some offer => rfl
      · intro lookup mem
        rw [List.mem_singleton.mp mem]

theorem begin_inRange {c : Completion} {b : Buffer} {q : Query} {offer : Offer}
    (asks : Query.ofBuffer? b = some q) (found : firstOffer? q c.completers = some offer)
    (direction : Direction) :
    offer.candidates ≠ [] ∧ (begin q offer direction).index < offer.candidates.length ∧
      (begin q offer direction).start ≤ (begin q offer direction).stop ∧
      (begin q offer direction).stop ≤ b.length := by
  have some_candidates : offer.candidates ≠ [] := by simpa using List.find?_some found
  have length := List.length_pos_of_ne_nil some_candidates
  obtain ⟨starts, inside, ends⟩ := b.word_bounds
  rw [← Query.current_eq_word asks] at starts inside ends
  refine ⟨some_candidates, ?_, Nat.le_trans starts inside, ends⟩
  cases direction with
  | backward => exact Nat.sub_lt length Nat.zero_lt_one
  | forward => exact length

/-- Whatever the line and wherever the cursor, a query that a request puts to the completers fits
them, and other completers that answer alike whatever fits make no difference. On the way, the word
that the cursor is at exists, so that an empty word can be put behind it; the command around the
index exists among the commands, and the index reaches into that command; and of what is offered
there is a candidate to begin with, for a place in the line. -/
theorem asked_fits (c : Completion) (b : Buffer) (direction : Direction) :
    (∃ asked, (c.request direction b).2.1.lookups = c.lookups ++ asked ∧
      ∀ lookup ∈ asked, lookup.query.Fits b) ∧
    (∀ others, List.Forall₂ (Completer.Alike b) c.completers others →
      { c with completers := others }.request direction b =
        ((c.request direction b).1, { (c.request direction b).2.1 with completers := others },
          (c.request direction b).2.2)) ∧
    (∃ i w, indexAt b.cursor (split b.text) = some i ∧ (split b.text)[i]? = some w ∧
      w.start ≤ b.cursor) ∧
    (∀ words index, Query.locate b.text b.cursor = (words, index) →
      index < words.length ∧ (words.take index).countP isSeparator < (commands words).length ∧
      ∀ command i, commandAt words index = some (command, i) →
        i < command.length ∧ ∃ left right, words = left ++ command ++ right ∧ left.length + i = index) ∧
    ∀ q offer, Query.ofBuffer? b = some q → firstOffer? q c.completers = some offer →
      offer.candidates ≠ [] ∧ (begin q offer direction).index < offer.candidates.length ∧
        (begin q offer direction).start ≤ (begin q offer direction).stop ∧
        (begin q offer direction).stop ≤ b.length := by
  refine ⟨?_, fun others => request_congr c b direction, ?_, ?_, ?_⟩
  · obtain ⟨asked, recorded, about⟩ := c.lookups_request b direction
    exact ⟨asked, recorded, fun lookup mem => Query.fits_of_ofBuffer? (about lookup mem)⟩
  · obtain ⟨i, w, found, here, starts, -⟩ := b.exists_word
    exact ⟨i, w, found, here, starts⟩
  · intro words index located
    have here := Query.getElem?_locate b
    rw [located] at here
    refine ⟨(List.getElem?_eq_some_iff.mp here).1, ?_, ?_⟩
    · rw [length_commands]
      exact Nat.lt_succ_of_le ((List.take_sublist index words).countP_le)
    · intro command i found
      obtain ⟨index_lt, -, left, right, whole, same⟩ := commandAt_eq_some found
      exact ⟨index_lt, left, right, whole, same⟩
  · intro q offer asks found
    exact begin_inRange asks found direction

/-- The cursor stands inside the blanks of the second command. -/
example : Query.ofBuffer? ((Buffer.ofText "cd && a  b").moveTo 8) =
    some ⟨[⟨6, "a", "a"⟩, emptyAt 8, ⟨9, "b", "b"⟩], 1, 0⟩ := by
  decide +kernel

end Completion

end LineEdit
