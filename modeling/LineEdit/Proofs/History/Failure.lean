import LineEdit.Proofs.History.Cycle

/-!
# Searches that fail

A move that recalls nothing leaves the position where its search ended: at the entry where it was,
or at the first entry if it rested past the end. From there a move forward goes to the second entry,
where it would have gone to the first, while a move backward goes to the last entry from both
places. So all later moves recall the same as without the one that failed, unless the history
rested, has entries that differ, and the first of the moves goes forward.
-/
namespace LineEdit.History

def recalls (h : History) : List (Direction × String) → List (Option String)
  | [] => []
  | (direction, stem) :: later =>
    (h.move direction stem).1 :: (h.move direction stem).2.recalls later

/-- Two histories that recall the same whatever the moves, so that a user cannot tell them apart. -/
def Alike (g h : History) : Prop := ∀ moves, g.recalls moves = h.recalls moves

variable {g h : History}

theorem Alike.move (alike : g.Alike h) (direction : Direction) (stem : String) :
    (g.move direction stem).1 = (h.move direction stem).1 ∧
      (g.move direction stem).2.Alike (h.move direction stem).2 := by
  constructor
  · exact List.head_eq_of_cons_eq (alike [(direction, stem)])
  · intro later
    exact List.tail_eq_of_cons_eq (alike ((direction, stem) :: later))

theorem recalls_cons_congr {direction : Direction} {stem : String}
    (same : g.move direction stem = h.move direction stem) (later : List (Direction × String)) :
    g.recalls ((direction, stem) :: later) = h.recalls ((direction, stem) :: later) := by
  rw [recalls, recalls, same]

/-- A move that fails leaves the position modulo the number of entries. This changes it only past
the end, where it becomes the first entry. -/
theorem move_of_fails {direction : Direction} {stem : String}
    (fails : (h.move direction stem).1 = none) :
    (h.move direction stem).2 = h.moveTo (h.position % h.length) := by
  unfold move at fails ⊢
  split at fails
  case isTrue some_entries =>
    rw [dif_pos some_entries]
    split at fails
    case h_1 => simp at fails
    case h_2 seeks => rfl
  case isFalse no_entries =>
    have empty : h.length = 0 := Nat.eq_zero_of_not_pos no_entries
    rw [dif_neg no_entries, empty, Nat.mod_zero, moveTo_position]

theorem seek_congr {entries : List String} {p q : Nat} (hp : p ≤ entries.length)
    (hq : q ≤ entries.length) (direction : Direction) (stem : String)
    (stop i : Fin entries.length) :
    (History.mk entries p hp).seek direction stem stop i =
      (History.mk entries q hq).seek direction stem stop i := by
  have same (j : Nat) : (History.mk entries p hp).matchesAt stem j =
    (History.mk entries q hq).matchesAt stem j := rfl
  induction i using seek.induct (History.mk entries q hq) direction stem stop with
  | case1 i found =>
    rw [seek.eq_def, seek.eq_def (History.mk entries q hq), same, if_pos found, if_pos found]
  | case2 missed =>
    rw [seek.eq_def, seek.eq_def (History.mk entries q hq), same, if_neg missed, if_neg missed,
      if_pos rfl, if_pos rfl]
  | case3 i missed away ih =>
    rw [seek.eq_def, seek.eq_def (History.mk entries q hq), same, if_neg missed, if_neg missed,
      if_neg away, if_neg away]
    exact ih

/-- All that a move takes from the position is where its search begins and where it ends. -/
theorem move_congr {entries : List String} {p q : Nat} (hp : p ≤ entries.length)
    (hq : q ≤ entries.length) {direction : Direction}
    (begins : beside entries.length direction p = beside entries.length direction q)
    (ends : p % entries.length = q % entries.length) (stem : String) :
    (History.mk entries p hp).move direction stem =
      (History.mk entries q hq).move direction stem := by
  by_cases some_entries : 0 < entries.length
  case neg =>
    obtain rfl : p = q := by omega
    rfl
  case pos =>
    have start : (History.mk entries p hp).searchStart some_entries direction =
      (History.mk entries q hq).searchStart some_entries direction := Fin.ext begins
    have stop : (History.mk entries p hp).searchEnd some_entries =
      (History.mk entries q hq).searchEnd some_entries := Fin.ext ends
    rw [move, move, dif_pos some_entries, dif_pos some_entries, start, stop, seek_congr hp hq]
    generalize (History.mk entries q hq).seek direction stem _ _ = found
    cases found <;> rfl

theorem move_backward_moveTo_zero (rests : h.position = h.length) (stem : String) :
    (h.moveTo 0).move .backward stem = h.move .backward stem := by
  obtain ⟨entries, position, le⟩ := h
  obtain rfl : position = entries.length := rests
  refine move_congr _ _ ?_ ?_ stem
  · rw [Nat.zero_min, beside, if_pos rfl, beside]
    split <;> rfl
  · rw [Nat.zero_min, Nat.zero_mod, Nat.mod_self]

theorem move_fst_of_uniform (uniform : ∀ entry ∈ h.entries, ∀ other ∈ h.entries, entry = other)
    (direction : Direction) (stem : String) :
    (h.move direction stem).1 = h.entries.head?.filter (Text.startsWith · stem) := by
  cases first : h.entries.head? with
  | none =>
    have empty : h.entries = [] := List.head?_eq_none_iff.mp first
    rw [move, dif_neg (by simp [empty])]
    rfl
  | some entry =>
    have mem : entry ∈ h.entries := List.mem_of_head? first
    have some_entries : 0 < h.entries.length := List.length_pos_of_mem mem
    have lt := beside_lt direction some_entries h.position_le
    have next : h.entries[beside h.entries.length direction h.position]? = some entry := by
      rw [List.getElem?_eq_getElem lt]
      exact congrArg some (uniform _ (List.getElem_mem lt) entry mem)
    cases begins : Text.startsWith entry stem with
    | true =>
      have here : h.matchesAt stem (beside h.entries.length direction h.position) = true := by
        simpa [matchesAt, next] using begins
      rw [h.move_of_beside some_entries direction here, next]
      simp [Option.filter, begins]
    | false =>
      have no_match : h.matching stem = [] := by
        simp only [matching, List.reverse_eq_nil_iff, List.filter_eq_nil_iff]
        intro other mem'
        simp [uniform other mem' entry mem, begins]
      rw [move_of_no_match no_match]
      simp [Option.filter, begins]

/-- Where all entries are the same, it does not matter which of them the position is at, nor whether
it is past the end. -/
theorem alike_of_uniform (same : g.entries = h.entries)
    (uniform : ∀ entry ∈ h.entries, ∀ other ∈ h.entries, entry = other) : g.Alike h := by
  intro moves
  induction moves generalizing g h with
  | nil => rfl
  | cons move later ih =>
    obtain ⟨direction, stem⟩ := move
    have answer : (g.move direction stem).1 = (h.move direction stem).1 := by
      rw [move_fst_of_uniform uniform, move_fst_of_uniform (same ▸ uniform), same]
    rw [recalls, recalls, answer]
    congr 1
    apply ih
    · rw [entries_move, entries_move, same]
    · rw [entries_move]
      exact uniform

theorem move_forward_moveTo {i : Nat} (lt : i + 1 < h.length) :
    (h.moveTo i).move .forward "" = (h.entries[i + 1]?, h.moveTo (i + 1)) := by
  have next : beside (h.moveTo i).entries.length .forward (h.moveTo i).position = i + 1 := by
    rw [position_moveTo (Nat.le_of_succ_le (Nat.le_of_lt lt))]
    exact if_pos lt
  rw [(h.moveTo i).move_empty (Nat.zero_lt_of_lt lt), next]
  rfl

/-- If the position at the first entry and the one past the end cannot be told apart, all entries
are the same. -/
theorem uniform_of_alike (rests : h.position = h.length) (alike : (h.moveTo 0).Alike h) :
    ∀ entry ∈ h.entries, ∀ other ∈ h.entries, entry = other := by
  -- Moves forward take the two positions along the entries, one entry apart.
  have apart (i : Nat) (lt : i + 1 < h.length) :
      (h.moveTo (i + 1)).Alike (h.moveTo i) ∧ h.entries[i + 1]? = h.entries[i]? := by
    induction i with
    | zero =>
      have from_rest : h.move .forward "" = (h.entries[0]?, h.moveTo 0) := by
        have first : beside h.entries.length .forward h.position = 0 := by
          rw [rests]
          exact if_neg (Nat.not_lt_of_le (Nat.le_succ _))
        rw [h.move_empty (Nat.zero_lt_of_lt lt), first]
      obtain ⟨answer, later⟩ := alike.move .forward ""
      rw [move_forward_moveTo lt, from_rest] at answer later
      exact ⟨later, answer⟩
    | succ i ih =>
      obtain ⟨answer, later⟩ := (ih (Nat.lt_of_succ_lt lt)).1.move .forward ""
      rw [move_forward_moveTo lt, move_forward_moveTo (Nat.lt_of_succ_lt lt)] at answer later
      exact ⟨later, answer⟩
  have first (i : Nat) (lt : i < h.length) : h.entries[i]? = h.entries[0]? := by
    induction i with
    | zero => rfl
    | succ i ih => rw [(apart i lt).2, ih (Nat.lt_of_succ_lt lt)]
  intro entry mem other mem'
  obtain ⟨i, at_i⟩ := List.mem_iff_getElem?.mp mem
  obtain ⟨j, at_j⟩ := List.mem_iff_getElem?.mp mem'
  have lt := (List.getElem?_eq_some_iff.mp at_i).1
  have lt' := (List.getElem?_eq_some_iff.mp at_j).1
  rw [first i lt, ← first j lt', at_j] at at_i
  exact (Option.some.inj at_i).symm

/-- A move that recalls nothing keeps the entries and leaves the position modulo their number. If it
rested past the end before, it is left at the first entry. Later moves recall the same as without
the move that failed if the position did not rest or the first of them goes backward; and all of
them do, whatever they are, exactly if the position did not rest or the entries are all the same. -/
theorem recalls_of_failed (h : History) (direction : Direction) (stem : String)
    (fails : (h.move direction stem).1 = none) :
    (h.move direction stem).2.entries = h.entries ∧
      (h.move direction stem).2.position = h.position % h.length ∧
      (∀ later, (h.position < h.length ∨ ∀ first ∈ later.head?, first.1 = .backward) →
        (h.move direction stem).2.recalls later = h.recalls later) ∧
      ((∀ later, (h.move direction stem).2.recalls later = h.recalls later) ↔
        h.position < h.length ∨ ∀ entry ∈ h.entries, ∀ other ∈ h.entries, entry = other) := by
  have kept (inside : h.position < h.length) : (h.move direction stem).2 = h := by
    rw [move_of_fails fails, Nat.mod_eq_of_lt inside, moveTo_position]
  have left_first (rests : h.position = h.length) : (h.move direction stem).2 = h.moveTo 0 := by
    rw [move_of_fails fails, rests, Nat.mod_self]
  have cases : h.position < h.length ∨ h.position = h.length := Nat.lt_or_eq_of_le h.position_le
  refine ⟨h.entries_move direction stem, ?_, ?_, ?_⟩
  · rcases cases with inside | rests
    · rw [kept inside, Nat.mod_eq_of_lt inside]
    · rw [left_first rests, rests, Nat.mod_self]
      exact Nat.zero_min _
  · rintro later (inside | backward)
    · rw [kept inside]
    · rcases cases with inside | rests
      · rw [kept inside]
      · rw [left_first rests]
        cases later with
        | nil => rfl
        | cons first later =>
          obtain ⟨towards, wanted⟩ := first
          obtain rfl : towards = .backward := backward _ rfl
          exact recalls_cons_congr (move_backward_moveTo_zero rests wanted) later
  · constructor
    · intro alike
      rcases cases with inside | rests
      · exact .inl inside
      · rw [left_first rests] at alike
        exact .inr (uniform_of_alike rests alike)
    · rintro (inside | uniform)
      · rw [kept inside]
        exact fun _ => rfl
      · exact alike_of_uniform (h.entries_move direction stem) uniform

/-- After a search from rest that failed, a move forward recalls the second entry, and not the
first. -/
theorem failed_leaves_trace :
    ¬ ∀ (h : History) (direction : Direction) (stem : String), (h.move direction stem).1 = none →
      ∀ later, (h.move direction stem).2.recalls later = h.recalls later := by
  intro traceless
  have same := traceless (ofEntries ["abc", "def"]) .backward "z" (by decide +kernel)
    [(.forward, "")]
  exact absurd same (by decide +kernel)

theorem recalls_of_failed_rested :
    ((ofEntries ["abc", "def"]).move .backward "z").1 = none ∧
      ((ofEntries ["abc", "def"]).move .backward "z").2.position = 0 ∧
      ((ofEntries ["abc", "def"]).move .backward "z").2.recalls [(.backward, ""), (.forward, "a")] =
        [some "def", some "abc"] ∧
      ¬ ∀ later, ((ofEntries ["abc", "def"]).move .backward "z").2.recalls later =
        (ofEntries ["abc", "def"]).recalls later := by
  have fails : ((ofEntries ["abc", "def"]).move .backward "z").1 = none := by decide +kernel
  obtain ⟨-, position, backward, all⟩ := recalls_of_failed _ _ _ fails
  refine ⟨fails, position, ?_, ?_⟩
  · rw [backward [(.backward, ""), (.forward, "a")] (.inr (by decide))]
    decide +kernel
  · rw [all]
    decide

end LineEdit.History
