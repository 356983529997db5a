import Mathlib.Data.Int.ModEq
import LineEdit.Proofs.History.Search

/-!
# Searches that go around

The entries that begin with a stem, newest first, are a cycle to a search that goes on. Where it
stands in the cycle is told by how many matches are newer: a search that leaves an index and one
that arrives at the index beside it have the same number of them behind it, up to whole rounds.
-/
namespace LineEdit.History

/-- The entries that begin with `stem`, newest first: the cycle that a search goes round. -/
def matching (h : History) (stem : String) : List String :=
  (h.entries.filter (Text.startsWith · stem)).reverse

/-- How many entries from index `i` on begin with `stem`. Counted from behind the entry of a match,
it is the place of that match in the cycle. -/
def countFrom (h : History) (stem : String) (i : Nat) : Nat :=
  (h.entries.drop i).countP (Text.startsWith · stem)

variable {h : History} {stem : String} {direction : Direction} {i k : Nat}

theorem countFrom_zero (h : History) (stem : String) :
    h.countFrom stem 0 = (h.matching stem).length := by
  rw [countFrom, matching, List.drop_zero, List.length_reverse, List.countP_eq_length_filter]

theorem countFrom_of_le (past : h.entries.length ≤ i) : h.countFrom stem i = 0 := by
  rw [countFrom, List.drop_eq_nil_of_le past, List.countP_nil]

theorem matchesAt_eq_true_iff :
    h.matchesAt stem i = true ↔
      ∃ inside : i < h.entries.length, Text.startsWith h.entries[i] stem = true := by
  by_cases inside : i < h.entries.length
  · simp [matchesAt, inside]
  · simp [matchesAt, inside]

theorem countFrom_of_match (found : h.matchesAt stem i = true) :
    h.countFrom stem i = h.countFrom stem (i + 1) + 1 := by
  obtain ⟨inside, begins⟩ := matchesAt_eq_true_iff.mp found
  rw [countFrom, List.drop_eq_getElem_cons inside, List.countP_cons,
    if_pos begins, countFrom]

theorem countFrom_of_miss (missed : ¬h.matchesAt stem i = true) :
    h.countFrom stem i = h.countFrom stem (i + 1) := by
  by_cases inside : i < h.entries.length
  · have other : ¬Text.startsWith h.entries[i] stem = true :=
      fun begins => missed (matchesAt_eq_true_iff.mpr ⟨inside, begins⟩)
    rw [countFrom, List.drop_eq_getElem_cons inside, List.countP_cons,
      if_neg other, countFrom, Nat.add_zero]
  · rw [countFrom_of_le (by omega), countFrom_of_le (by omega)]

/-- Among the matches, newest first, one stands behind those that are newer. -/
theorem getElem?_matching (found : h.matchesAt stem k = true) :
    (h.matching stem)[h.countFrom stem (k + 1)]? = h.entries[k]? := by
  obtain ⟨inside, begins⟩ := matchesAt_eq_true_iff.mp found
  have split : h.entries.filter (Text.startsWith · stem) =
      (h.entries.take k).filter (Text.startsWith · stem) ++
        h.entries[k] :: (h.entries.drop (k + 1)).filter (Text.startsWith · stem) := by
    rw [← List.filter_cons_of_pos (p := (Text.startsWith · stem)) begins, ← List.filter_append,
      ← List.drop_eq_getElem_cons inside, List.take_append_drop]
  rw [matching, split, List.reverse_append, List.reverse_cons, List.append_assoc, countFrom,
    List.countP_eq_length_filter, ← List.length_reverse, List.getElem?_append_right (Nat.le_refl _),
    Nat.sub_self, List.getElem?_eq_getElem inside]
  rfl

/-- How many matches are newer for a search that has come to index `i` and does not count it yet.
The same for a search that goes on from there is `leaving`. -/
def arriving (h : History) (stem : String) : Direction → Nat → Nat
  | .backward, i => h.countFrom stem (i + 1)
  | .forward, i => h.countFrom stem i

def leaving (h : History) (stem : String) : Direction → Nat → Nat
  | .backward, i => h.countFrom stem i
  | .forward, i => h.countFrom stem (i + 1)

theorem arriving_of_miss (missed : ¬h.matchesAt stem i = true) (direction : Direction) :
    h.arriving stem direction i = h.leaving stem direction i := by
  cases direction with
  | backward => exact (countFrom_of_miss missed).symm
  | forward => exact countFrom_of_miss missed

/-- A search loses or gains a whole round where it goes around an end, and nothing elsewhere. Counts
are therefore compared modulo the number of matches. -/
theorem arriving_beside (h : History) (stem : String) (direction : Direction) (i : Nat) :
    h.arriving stem direction (beside h.entries.length direction i) ≡
      h.leaving stem direction i [MOD (h.matching stem).length] := by
  have round : h.countFrom stem 0 ≡ 0 [MOD (h.matching stem).length] := by
    rw [countFrom_zero, Nat.ModEq, Nat.mod_self, Nat.zero_mod]
  cases direction with
  | backward =>
    simp only [arriving, leaving, beside]
    by_cases first : i = 0
    · rw [if_pos first, first, countFrom_of_le (by omega)]
      exact round.symm
    · rw [if_neg first, Nat.sub_add_cancel (by omega)]
  | forward =>
    simp only [arriving, leaving, beside]
    by_cases last : i + 1 < h.entries.length
    · rw [if_pos last]
    · rw [if_neg last, countFrom_of_le (i := i + 1) (by omega)]
      exact round

theorem seek_eq_some {stop start found : Fin h.entries.length}
    (seeks : h.seek direction stem stop start = some found) :
    h.matchesAt stem found = true ∧
      h.arriving stem direction found ≡ h.arriving stem direction start
        [MOD (h.matching stem).length] := by
  induction start using seek.induct h direction stem stop with
  | case1 i here =>
    rw [seek, if_pos here] at seeks
    obtain rfl := Option.some.inj seeks
    exact ⟨here, .refl _⟩
  | case2 missed =>
    rw [seek, if_neg missed, if_pos rfl] at seeks
    exact absurd seeks (Option.some_ne_none found).symm
  | case3 i missed away ih =>
    rw [seek, if_neg missed, if_neg away] at seeks
    obtain ⟨here, rounds⟩ := ih seeks
    refine ⟨here, rounds.trans ?_⟩
    rw [arriving_of_miss missed]
    exact h.arriving_beside stem direction i

/-- What is recalled, if anything is, stands where the search has arrived. -/
theorem move_of_ne_none (recalls : (h.move direction stem).1 ≠ none) :
    ∃ k, h.matchesAt stem k = true ∧ h.move direction stem = (h.entries[k]?, h.moveTo k) ∧
      h.arriving stem direction k ≡ h.leaving stem direction h.position
        [MOD (h.matching stem).length] := by
  unfold move at recalls ⊢
  split at recalls
  case isFalse => exact absurd rfl recalls
  case isTrue some_entries =>
    rw [dif_pos some_entries]
    split at recalls
    case h_2 => exact absurd rfl recalls
    case h_1 found seeks =>
      obtain ⟨here, rounds⟩ := seek_eq_some seeks
      refine ⟨found, here, ?_, rounds.trans (h.arriving_beside stem direction h.position)⟩
      rw [List.getElem?_eq_getElem found.isLt]
      rfl

def turn : Direction → Int
  | .backward => 1
  | .forward => -1

/-- Every match is found, unless the search goes forward from the position past the end. -/
theorem move_ne_none (found : h.matchesAt stem k = true)
    (inside : direction = .forward → h.position < h.entries.length) :
    (h.move direction stem).1 ≠ none := by
  obtain ⟨lt, -⟩ := matchesAt_eq_true_iff.mp found
  have some_entries : 0 < h.entries.length := Nat.zero_lt_of_lt lt
  intro fails
  rw [move_fst_eq_none_iff h some_entries, seek_eq_none_iff] at fails
  have on_way := (h.on_way_iff some_entries direction lt).mpr fun forward rests =>
    absurd (inside forward) (by omega)
  rw [fails k lt on_way] at found
  exact absurd found nofun

theorem move_of_no_match (no_match : h.matching stem = []) (direction : Direction) :
    (h.move direction stem).1 = none := by
  by_contra recalls
  obtain ⟨k, found, -⟩ := move_of_ne_none recalls
  obtain ⟨inside, -⟩ := matchesAt_eq_true_iff.mp found
  have place := getElem?_matching found
  rw [no_match, List.getElem?_eq_getElem inside] at place
  exact absurd place nofun

/-- From a match the search goes one step in the cycle, towards older matches if it goes backward.
It comes back to the same match if there is no other. -/
theorem move_of_match (here : h.matchesAt stem h.position = true) (direction : Direction) :
    ∃ k, h.matchesAt stem k = true ∧ h.move direction stem = (h.entries[k]?, h.moveTo k) ∧
      (h.countFrom stem (k + 1) : Int) ≡ h.countFrom stem (h.position + 1) + turn direction
        [ZMOD (h.matching stem).length] := by
  obtain ⟨inside, -⟩ := matchesAt_eq_true_iff.mp here
  obtain ⟨k, found, moves, rounds⟩ := move_of_ne_none (move_ne_none here fun _ => inside)
  have rounds := Int.natCast_modEq_iff.mpr rounds
  refine ⟨k, found, moves, ?_⟩
  cases direction with
  | backward =>
    simp only [arriving, leaving, countFrom_of_match here] at rounds
    exact rounds
  | forward =>
    simp only [arriving, leaving, countFrom_of_match found, Nat.cast_add, Nat.cast_one] at rounds
    simpa [turn, ← sub_eq_add_neg] using rounds.sub_right 1

theorem move_backward_of_rest (rests : h.position = h.length)
    (some_match : h.matching stem ≠ []) :
    ∃ k, h.matchesAt stem k = true ∧ h.move .backward stem = (h.entries[k]?, h.moveTo k) ∧
      (h.countFrom stem (k + 1) : Int) ≡ 0 [ZMOD (h.matching stem).length] := by
  obtain ⟨j, here⟩ : ∃ j, h.matchesAt stem j = true := by
    by_contra none_match
    simp only [matchesAt_eq_true_iff, not_exists] at none_match
    refine some_match ?_
    simp only [matching, List.reverse_eq_nil_iff, List.filter_eq_nil_iff]
    exact List.forall_mem_iff_forall_getElem.mpr none_match
  have recalls : (h.move .backward stem).1 ≠ none := move_ne_none here nofun
  obtain ⟨k, found, moves, rounds⟩ := move_of_ne_none recalls
  refine ⟨k, found, moves, ?_⟩
  have nothing : h.leaving stem .backward h.position = 0 := countFrom_of_le rests.ge
  rw [nothing] at rounds
  exact Int.natCast_modEq_iff.mpr rounds

/-- Where a match stands in the cycle, up to whole rounds, is where it stands among the matches. -/
theorem getElem?_matching_of_modEq {steps : Int} (found : h.matchesAt stem k = true)
    (at_steps : (h.countFrom stem (k + 1) : Int) ≡ steps [ZMOD (h.matching stem).length]) :
    (h.matching stem)[(steps % (h.matching stem).length).toNat]? = h.entries[k]? := by
  have place := getElem?_matching found
  obtain ⟨inside, -⟩ := matchesAt_eq_true_iff.mp found
  have newer : h.countFrom stem (k + 1) < (h.matching stem).length := by
    rw [List.getElem?_eq_getElem inside] at place
    exact (List.getElem?_eq_some_iff.mp place).1
  rw [← at_steps.eq, Int.emod_eq_of_lt (by omega) (by omega), Int.toNat_natCast, place]

end LineEdit.History
