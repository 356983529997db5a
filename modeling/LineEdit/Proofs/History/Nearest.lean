import LineEdit.Proofs.History.Search
import Mathlib.Data.List.Range

/-!
# The nearest match

A search comes to the entries in a fixed order: from the position on in its direction, around the
ends, and to the entry at the position last. It looks at a beginning of that order, which has each
entry once, and so it ends. What it recalls is the first entry in that order that begins with the
stem.
-/
namespace LineEdit.History

/-- The indices of `n` entries in the order in which a search comes to them that sets out from
`position`. The position past the end has the last entry behind it and the first one ahead. -/
def way (n : Nat) : Direction → Nat → List Nat
  | .backward, position =>
    (List.range position).reverse ++ (List.range' position (n - position)).reverse
  | .forward, position =>
    List.range' (position + 1) (n - (position + 1)) ++ List.range (min (position + 1) n)

/-- The search from index `i` on, together with the indices that it looks at, in order. It is the
same recursion as that of the search, and finds the same. -/
def survey (h : History) (direction : Direction) (stem : String) (stop i : Fin h.entries.length) :
    List Nat × Option (Fin h.entries.length) :=
  if h.matchesAt stem i then ([(i : Nat)], some i)
  else if i = stop then ([(i : Nat)], none)
  else
    let further := h.survey direction stem stop
      ⟨beside h.entries.length direction i, beside_lt direction i.pos (Nat.le_of_lt i.isLt)⟩
    ((i : Nat) :: further.1, further.2)
termination_by distance h.entries.length direction i stop
decreasing_by
  have h := distance_beside direction i.isLt stop.isLt (fun h => absurd (Fin.ext h) ‹_›)
  omega

def surveyMove (h : History) (direction : Direction) (stem : String) :
    List Nat × Option String × History :=
  if some_entries : 0 < h.entries.length then
    let search := h.survey direction stem (h.searchEnd some_entries)
      (h.searchStart some_entries direction)
    (search.1,
      search.2.elim (none, h.moveTo (h.searchEnd some_entries)) fun i =>
        (h.entries[(i : Nat)]?, h.moveTo i))
  else ([], none, h)

theorem way_perm {n position : Nat} (direction : Direction) (inside : position ≤ n) :
    (way n direction position).Perm (List.range n) := by
  have halves (k : Nat) (le : k ≤ n) : List.range k ++ List.range' k (n - k) = List.range n := by
    have whole := List.range'_append_1 (s := 0) (m := k) (n := n - k)
    rwa [Nat.zero_add, Nat.add_sub_cancel' le, ← List.range_eq_range',
      ← List.range_eq_range'] at whole
  cases direction with
  | backward =>
    rw [way, ← halves position inside]
    exact (List.reverse_perm _).append (List.reverse_perm _)
  | forward =>
    rw [way]
    rcases Nat.lt_or_ge position n with lt | ge
    · rw [Nat.min_eq_left lt, ← halves (position + 1) lt]
      exact List.perm_append_comm
    · rw [Nat.min_eq_right (Nat.le_succ_of_le ge), Nat.sub_eq_zero_of_le (Nat.le_succ_of_le ge)]
      exact .refl _

theorem length_way {n position : Nat} (direction : Direction) (inside : position ≤ n) :
    (way n direction position).length = n := by
  rw [(way_perm direction inside).length_eq, List.length_range]

/-- The way begins beside the position, and the way from there is the same but for that index,
which comes last on it. -/
theorem way_concat {n position : Nat} (direction : Direction) (some_entries : 0 < n)
    (inside : position ≤ n) :
    way n direction position ++ [beside n direction position] =
      beside n direction position :: way n direction (beside n direction position) := by
  cases direction with
  | backward =>
    cases position with
    | zero =>
      obtain ⟨m, rfl⟩ := Nat.exists_eq_add_one.mpr some_entries
      simp [way, beside, ← List.range_eq_range', List.range_succ]
    | succ p =>
      obtain ⟨m, rfl⟩ := Nat.exists_eq_add_of_lt inside
      have rest : p + m + 1 - p = m + 1 := by omega
      have rest' : p + m + 1 - (p + 1) = m := by omega
      simp [way, beside, List.range_succ, rest, rest', List.range'_succ]
  | forward =>
    by_cases last : position + 1 < n
    · obtain ⟨m, rfl⟩ := Nat.exists_eq_add_of_lt last
      have rest : position + 1 + m + 1 - (position + 1) = m + 1 := by omega
      have rest' : position + 1 + m + 1 - (position + 1 + 1) = m := by omega
      simp only [way, beside, if_pos last, rest, rest', List.range'_succ,
        Nat.min_eq_left (Nat.le_of_lt last), Nat.min_eq_left last,
        List.range_succ (n := position + 1), List.cons_append, List.append_assoc]
    · obtain ⟨m, rfl⟩ := Nat.exists_eq_add_one.mpr some_entries
      have rest : m + 1 - (position + 1) = 0 := by omega
      have all : min (position + 1) (m + 1) = m + 1 := by omega
      simp [way, beside, last, rest, all, List.range_eq_range', List.range'_succ]

/-- Up to `n` indices from the one beside the position on do not come to where the round closes. -/
theorem prefix_way {n position : Nat} {direction : Direction} {indices : List Nat}
    (some_entries : 0 < n) (inside : position ≤ n) (short : indices.length ≤ n)
    (round : indices <+:
      beside n direction position :: way n direction (beside n direction position)) :
    indices <+: way n direction position := by
  rw [← way_concat direction some_entries inside] at round
  refine List.prefix_of_prefix_length_le round (List.prefix_append _ _) ?_
  rw [length_way direction inside]
  exact short

variable {h : History} {direction : Direction} {stem : String} {stop i : Fin h.entries.length}

theorem survey_snd (h : History) (direction : Direction) (stem : String)
    (stop i : Fin h.entries.length) :
    (h.survey direction stem stop i).2 = h.seek direction stem stop i := by
  induction i using seek.induct h direction stem stop with
  | case1 i found => rw [survey, seek, if_pos found, if_pos found]
  | case2 missed => rw [survey, seek, if_neg missed, if_neg missed, if_pos rfl, if_pos rfl]
  | case3 i missed away ih =>
    rw [survey, seek, if_neg missed, if_neg missed, if_neg away, if_neg away]
    exact ih

theorem distance_lt {n i j : Nat} (direction : Direction) (hi : i < n) (hj : j < n) :
    distance n direction i j < n := by
  cases direction <;> simp only [distance] <;> split <;> omega

theorem length_survey_le (h : History) (direction : Direction) (stem : String)
    (stop i : Fin h.entries.length) :
    (h.survey direction stem stop i).1.length ≤ distance h.entries.length direction i stop + 1 := by
  induction i using seek.induct h direction stem stop with
  | case1 i found =>
    rw [survey, if_pos found]
    exact Nat.le_add_left _ _
  | case2 missed =>
    rw [survey, if_neg missed, if_pos rfl]
    exact Nat.le_add_left _ _
  | case3 i missed away ih =>
    have step := distance_beside direction i.isLt stop.isLt (fun same => away (Fin.ext same))
    rw [survey, if_neg missed, if_neg away]
    dsimp only at ih ⊢
    rw [List.length_cons]
    omega

theorem length_survey_le_length (h : History) (direction : Direction) (stem : String)
    (stop i : Fin h.entries.length) :
    (h.survey direction stem stop i).1.length ≤ h.entries.length :=
  Nat.le_trans (h.length_survey_le direction stem stop i) (distance_lt direction i.isLt stop.isLt)

/-- A search that sets out from a position keeps to the way from there. It may end early, at what it
finds or where it stops. -/
theorem survey_prefix_way {position : Nat} (inside : position ≤ h.entries.length)
    (starts : (i : Nat) = beside h.entries.length direction position) :
    (h.survey direction stem stop i).1 <+: way h.entries.length direction position := by
  refine prefix_way i.pos inside (h.length_survey_le_length direction stem stop i) ?_
  rw [← starts]
  clear starts
  -- Behind the first index, the way that the search keeps to is the one from that index.
  induction i using seek.induct h direction stem stop with
  | case1 i found =>
    rw [survey, if_pos found]
    exact List.cons_prefix_cons.mpr ⟨rfl, List.nil_prefix⟩
  | case2 missed =>
    rw [survey, if_neg missed, if_pos rfl]
    exact List.cons_prefix_cons.mpr ⟨rfl, List.nil_prefix⟩
  | case3 i missed away ih =>
    rw [survey, if_neg missed, if_neg away]
    refine List.cons_prefix_cons.mpr ⟨rfl, ?_⟩
    exact prefix_way i.pos (Nat.le_of_lt i.isLt) (h.length_survey_le_length direction stem stop _)
      ih

/-- What is found is the last that is looked at, and the first that begins with the stem. -/
theorem survey_eq_of_found {found : Fin h.entries.length}
    (finds : (h.survey direction stem stop i).2 = some found) :
    ∃ passed, (h.survey direction stem stop i).1 = passed ++ [(found : Nat)] ∧
      (∀ k ∈ passed, h.matchesAt stem k = false) ∧ h.matchesAt stem found = true := by
  induction i using seek.induct h direction stem stop with
  | case1 i here =>
    rw [survey, if_pos here] at finds ⊢
    obtain rfl := Option.some.inj finds
    exact ⟨[], rfl, by simp, here⟩
  | case2 missed =>
    simp [survey, missed] at finds
  | case3 i missed away ih =>
    rw [survey, if_neg missed, if_neg away] at finds ⊢
    obtain ⟨passed, same, misses, here⟩ := ih finds
    refine ⟨(i : Nat) :: passed, congrArg ((i : Nat) :: ·) same, ?_, here⟩
    intro k mem
    rcases List.mem_cons.mp mem with rfl | mem
    · exact eq_false_of_ne_true missed
    · exact misses k mem

theorem surveyMove_snd (h : History) (direction : Direction) (stem : String) :
    (h.surveyMove direction stem).2 = h.move direction stem := by
  rw [surveyMove, move]
  split
  next some_entries =>
    dsimp only
    rw [survey_snd]
    cases h.seek direction stem (h.searchEnd some_entries)
      (h.searchStart some_entries direction) with
    | none => rfl
    | some found =>
      rw [Option.elim_some, List.getElem?_eq_getElem found.isLt]
      rfl
  next => rfl

theorem length_surveyMove_le (h : History) (direction : Direction) (stem : String) :
    (h.surveyMove direction stem).1.length ≤ h.length := by
  rw [surveyMove]
  split
  · exact h.length_survey_le_length direction stem _ _
  · exact Nat.zero_le _

theorem surveyMove_prefix_way (h : History) (direction : Direction) (stem : String) :
    (h.surveyMove direction stem).1 <+: way h.length direction h.position := by
  rw [surveyMove]
  split
  · exact survey_prefix_way h.position_le rfl
  · exact List.nil_prefix

theorem surveyMove_of_recalls {entry : String}
    (recalls : (h.surveyMove direction stem).2.1 = some entry) :
    ∃ passed,
      (h.surveyMove direction stem).1 = passed ++ [(h.surveyMove direction stem).2.2.position] ∧
      (∀ k ∈ passed, h.matchesAt stem k = false) ∧
      h.matchesAt stem (h.surveyMove direction stem).2.2.position = true ∧
      h.entries[(h.surveyMove direction stem).2.2.position]? = some entry := by
  unfold surveyMove at recalls ⊢
  split at recalls
  case isFalse => simp at recalls
  case isTrue some_entries =>
    rw [dif_pos some_entries]
    dsimp only at recalls ⊢
    cases finds : (h.survey direction stem (h.searchEnd some_entries)
      (h.searchStart some_entries direction)).2 with
    | none => simp [finds] at recalls
    | some found =>
      obtain ⟨passed, same, misses, here⟩ := survey_eq_of_found finds
      rw [finds, Option.elim_some] at recalls
      rw [Option.elim_some, position_moveTo (Nat.le_of_lt found.isLt)]
      exact ⟨passed, same, misses, here, recalls⟩

/-- A move looks at no more entries than there are, in the order of the way from the position. What
it recalls is the last entry that it looks at, which is the one at the new position and the first
that begins with the stem. Without a stem it recalls an entry if there are any. -/
theorem move_nearest (h : History) (direction : Direction) (stem : String) :
    ∃ looked, h.surveyMove direction stem = (looked, h.move direction stem) ∧
      looked.length ≤ h.length ∧ looked <+: way h.length direction h.position ∧
      (∀ entry, (h.move direction stem).1 = some entry →
        ∃ passed, looked = passed ++ [(h.move direction stem).2.position] ∧
          (∀ k ∈ passed, ∀ other ∈ h.entries[k]?, Text.startsWith other stem = false) ∧
          h.entries[(h.move direction stem).2.position]? = some entry ∧
          Text.startsWith entry stem = true) ∧
      (0 < h.length → ∃ entry, (h.move direction "").1 = some entry) := by
  have same := h.surveyMove_snd direction stem
  refine ⟨(h.surveyMove direction stem).1, Prod.ext rfl same, h.length_surveyMove_le direction stem,
    h.surveyMove_prefix_way direction stem, ?_, ?_⟩
  · intro entry recalls
    rw [← same] at recalls ⊢
    obtain ⟨passed, looked, misses, here, there⟩ := surveyMove_of_recalls recalls
    refine ⟨passed, looked, ?_, there, ?_⟩
    · intro k mem other at_k
      have missed := misses k mem
      rw [matchesAt, Option.mem_def.mp at_k] at missed
      exact missed
    · rw [matchesAt, there] at here
      exact here
  · intro some_entries
    rw [h.move_empty some_entries]
    exact ⟨_, List.getElem?_eq_getElem (beside_lt direction some_entries h.position_le)⟩

example : (((ofEntries ["git log", "dir", "git status"]).moveTo 0).surveyMove .backward "git l").1 =
    [2, 1, 0] := by
  decide +kernel

end LineEdit.History
