import LineEdit.History

/-!
# What a search of the history looks at

A search goes from an index to the index where it stops, in one direction and around the ends. It
looks at every entry on that way, so that it finds nothing exactly when nothing there begins with
the stem. From every position among the entries the way covers all of them. Going forward from the
position past the end it is one entry long, and a match behind that entry is missed.
-/
namespace LineEdit.History

@[simp] theorem distance_self (n : Nat) (direction : Direction) (i : Nat) :
    distance n direction i i = 0 := by
  cases direction <;> simp [distance]

theorem distance_eq_zero {n i j : Nat} {direction : Direction} (hi : i < n) (hj : j < n)
    (h : distance n direction i j = 0) : i = j := by
  cases direction <;> simp only [distance] at h <;> split at h <;> omega

/-- A search finds nothing exactly when no entry on its way begins with the stem. The way goes from
where it begins to where it stops, measured by the distance that the recursion goes down along. -/
theorem seek_eq_none_iff (h : History) (direction : Direction) (stem : String)
    (stop i : Fin h.entries.length) :
    h.seek direction stem stop i = none ↔
      ∀ k < h.entries.length,
        distance h.entries.length direction i k ≤ distance h.entries.length direction i stop →
          h.matchesAt stem k = false := by
  -- The way from `i` is `i` itself and the way from the index beside it.
  induction i using seek.induct h direction stem stop with
  | case1 i found =>
    rw [seek, if_pos found]
    have missed : ¬ h.matchesAt stem i = false := by simp [found]
    simp only [reduceCtorEq, false_iff]
    intro all
    exact missed (all i i.isLt (by simp))
  | case2 missed =>
    rw [seek, if_neg missed, if_pos rfl]
    simp only [distance_self, Nat.le_zero_eq, true_iff]
    intro k hk near
    rw [← distance_eq_zero stop.isLt hk near]
    exact eq_false_of_ne_true missed
  | case3 i missed away ih =>
    have away' : (i : Nat) ≠ stop := fun same => away (Fin.ext same)
    have step := distance_beside direction i.isLt stop.isLt away'
    rw [seek, if_neg missed, if_neg away, ih]
    constructor
    · intro rest k hk near
      by_cases same : (i : Nat) = k
      · rw [← same]
        exact eq_false_of_ne_true missed
      · have stepk := distance_beside direction i.isLt hk same
        refine rest k hk ?_
        simp only
        omega
    · intro all k hk near
      by_cases same : (i : Nat) = k
      · rw [← same]
        exact eq_false_of_ne_true missed
      · have stepk := distance_beside direction i.isLt hk same
        refine all k hk ?_
        simp only at near
        omega

/-- The way of a search covers all entries, unless it goes forward from the position past the end:
then it is the first entry alone. -/
theorem on_way_iff (h : History) (some_entries : 0 < h.entries.length) (direction : Direction)
    {k : Nat} (hk : k < h.entries.length) :
    distance h.entries.length direction (h.searchStart some_entries direction) k ≤
        distance h.entries.length direction (h.searchStart some_entries direction)
          (h.searchEnd some_entries) ↔
      (direction = .forward → h.position = h.entries.length → k = 0) := by
  have inside := h.position_le
  simp only [searchStart, searchEnd]
  by_cases rest : h.position = h.entries.length
  · -- Past the end the remainder is `0`, which is where a search forward begins.
    simp only [rest, Nat.mod_self]
    cases direction <;> simp only [beside, distance] <;> split <;> split <;> simp <;> omega
  · have lt : h.position < h.entries.length := by omega
    rw [Nat.mod_eq_of_lt lt]
    cases direction <;> simp only [beside, distance] <;> split <;> split <;> split <;> simp [rest] <;>
      omega

theorem matchesAt_eq_false_iff (h : History) (stem : String) {i : Nat}
    (hi : i < h.entries.length) :
    h.matchesAt stem i = false ↔ Text.startsWith h.entries[i] stem = false := by
  simp [matchesAt, hi]

theorem forall_matchesAt_iff (h : History) (stem : String) :
    (∀ k < h.entries.length, h.matchesAt stem k = false) ↔
      ∀ entry ∈ h.entries, Text.startsWith entry stem = false := by
  simp only [List.forall_mem_iff_forall_getElem]
  exact forall₂_congr fun k hk => h.matchesAt_eq_false_iff stem hk

theorem move_fst_eq_none_iff (h : History) (some_entries : 0 < h.entries.length)
    (direction : Direction) (stem : String) :
    (h.move direction stem).1 = none ↔
      h.seek direction stem (h.searchEnd some_entries) (h.searchStart some_entries direction)
        = none := by
  rw [move, dif_pos some_entries]
  split <;> simp_all

theorem position_moveTo {h : History} {i : Nat} (inside : i ≤ h.entries.length) :
    (h.moveTo i).position = i :=
  Nat.min_eq_left inside

theorem moveTo_position (h : History) : h.moveTo h.position = h :=
  History.ext rfl (position_moveTo h.position_le)

theorem position_move_lt (h : History) (some_entries : 0 < h.entries.length) (direction : Direction)
    (stem : String) : (h.move direction stem).2.position < h.entries.length := by
  have inside (i : Fin h.entries.length) : (h.moveTo i).position < h.entries.length := by
    rw [position_moveTo (Nat.le_of_lt i.isLt)]
    exact i.isLt
  rw [move, dif_pos some_entries]
  split
  · exact inside _
  · exact inside _

/-- The entry beside the position is recalled if it begins with the stem. -/
theorem move_of_beside (h : History) (some_entries : 0 < h.entries.length)
    (direction : Direction) {stem : String}
    (here : h.matchesAt stem (beside h.entries.length direction h.position) = true) :
    h.move direction stem =
      (h.entries[beside h.entries.length direction h.position]?,
        h.moveTo (beside h.entries.length direction h.position)) := by
  have lt := beside_lt direction some_entries h.position_le
  have starts : h.matchesAt stem (h.searchStart some_entries direction) = true := here
  rw [move, dif_pos some_entries, seek, if_pos starts, List.getElem?_eq_getElem lt]
  rfl

theorem move_empty (h : History) (some_entries : 0 < h.entries.length) (direction : Direction) :
    h.move direction "" =
      (h.entries[beside h.entries.length direction h.position]?,
        h.moveTo (beside h.entries.length direction h.position)) := by
  apply h.move_of_beside some_entries
  have lt := beside_lt direction some_entries h.position_le
  simp [matchesAt, lt, Text.startsWith]

/-- Recalling fails exactly when no entry begins with the stem, and besides when it goes forward
from the position past the end and the first entry does not begin with the stem: the entries
behind the first are not looked at there. -/
theorem move_eq_none_iff (h : History) (direction : Direction) (stem : String) :
    (h.move direction stem).1 = none ↔
      (∀ entry ∈ h.entries, Text.startsWith entry stem = false) ∨
        (direction = .forward ∧ h.position = h.length ∧
          ∀ first ∈ h.entries.head?, Text.startsWith first stem = false) := by
  by_cases some_entries : 0 < h.entries.length
  case neg =>
    have no_entries : h.entries = [] := by simpa using some_entries
    simp [move, no_entries]
  case pos =>
    rw [h.move_fst_eq_none_iff some_entries, seek_eq_none_iff, ← forall_matchesAt_iff]
    have head : h.matchesAt stem 0 = false ↔
        ∀ first ∈ h.entries.head?, Text.startsWith first stem = false := by
      rw [h.matchesAt_eq_false_iff stem some_entries, List.head?_eq_getElem?]
      simp [some_entries]
    rw [← head]
    constructor
    · intro on_way
      by_cases rest : direction = .forward ∧ h.position = h.entries.length
      · refine .inr ⟨rest.1, rest.2, ?_⟩
        exact on_way 0 some_entries ((h.on_way_iff some_entries direction some_entries).mpr
          fun _ _ => rfl)
      · refine .inl fun k hk => on_way k hk ((h.on_way_iff some_entries direction hk).mpr ?_)
        exact fun forward past => absurd ⟨forward, past⟩ rest
    · rintro (all | ⟨forward, past, first⟩) k hk near
      · exact all k hk
      · rw [(h.on_way_iff some_entries direction hk).mp near forward past]
        exact first

/-- With two entries, a search forward from the position past the end misses the second. -/
theorem forward_from_rest_misses :
    ¬ (((ofEntries ["abc", "def"]).move .forward "d").1 = none ↔
      ∀ entry ∈ (ofEntries ["abc", "def"]).entries, Text.startsWith entry "d" = false) := by
  decide +kernel

end LineEdit.History
