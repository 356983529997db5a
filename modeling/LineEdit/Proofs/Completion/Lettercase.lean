import LineEdit.Completion.Completer
import Mathlib.Data.List.Infix

/-!
# Offers that ignore case

Where case does not matter, a name is offered if its lower case begins with that of the stem. Every
character has a lower case of its own, but for the capital sigma, which has another one at the end
of a word. So a name that begins with the stem as it is written is offered unless a sigma that ends
a word in the stem does not end one in the name: the rest of the name goes on with a letter there.
-/
namespace LineEdit

namespace Text

namespace Lowercase

/-- The lower case of a character between those `before` it, the nearest one first, and those
`after` it. -/
def ofCharBetween (before after : List Char) (c : Char) : List Char :=
  if c = 'Σ' then [if meetsCased before && !meetsCased after then 'ς' else 'σ'] else ofChar c

variable {before after cs rest : List Char} {c : Char}

theorem ofCharsAfter_cons (before cs : List Char) (c : Char) :
    ofCharsAfter before (c :: cs) = ofCharBetween before cs c ++ ofCharsAfter (c :: before) cs :=
  rfl

theorem length_ofCharBetween (before after rest : List Char) (c : Char) :
    (ofCharBetween before after c).length = (ofCharBetween before rest c).length := by
  by_cases sigma : c = 'Σ' <;> simp [ofCharBetween, sigma]

theorem meetsCased_append (met : meetsCased cs = true) (rest : List Char) :
    meetsCased (cs ++ rest) = true := by
  unfold meetsCased at met ⊢
  cases passed : cs.dropWhile (inRanges ignoredRanges) with
  | nil => simp [passed] at met
  | cons c others =>
    rw [List.dropWhile_append, passed]
    simpa [passed] using met

theorem ofCharBetween_append_iff (before cs rest : List Char) (c : Char) :
    ofCharBetween before cs c = ofCharBetween before (cs ++ rest) c ↔
      (c = 'Σ' → meetsCased before = true → meetsCased cs = false →
        meetsCased (cs ++ rest) = false) := by
  by_cases sigma : c = 'Σ'
  case neg => simp [ofCharBetween, sigma]
  case pos =>
    have later (met : meetsCased cs = true) := meetsCased_append met rest
    cases b : meetsCased before <;> cases m : meetsCased cs <;>
      cases n : meetsCased (cs ++ rest) <;> simp_all [ofCharBetween]

/-- The lower case of a stem begins that of what begins with it, unless a sigma ends a word in the
stem and not in the whole. -/
theorem ofCharsAfter_prefix_iff (before stem rest : List Char) :
    ofCharsAfter before stem <+: ofCharsAfter before (stem ++ rest) ↔
      ∀ earlier later, stem = earlier ++ 'Σ' :: later →
        meetsCased (earlier.reverse ++ before) = true → meetsCased later = false →
          meetsCased (later ++ rest) = false := by
  induction stem generalizing before with
  | nil => simp [ofCharsAfter]
  | cons c cs ih =>
    have heads := length_ofCharBetween before cs (cs ++ rest) c
    rw [List.cons_append, ofCharsAfter_cons, ofCharsAfter_cons]
    constructor
    · intro begins earlier later parts
      have same : ofCharBetween before cs c = ofCharBetween before (cs ++ rest) c := by
        have first := (List.prefix_append _ _).trans begins
        rw [List.isPrefix_append_of_length heads.le] at first
        exact first.eq_of_length heads
      rw [same, List.prefix_append_right_inj, ih] at begins
      rcases List.append_eq_cons_iff.mp parts.symm with ⟨rfl, first⟩ | ⟨others, rfl, behind⟩
      · obtain ⟨rfl, rfl⟩ := List.cons.inj first
        exact (ofCharBetween_append_iff before _ rest _).mp same rfl
      · simpa using begins others later behind
    · intro ends
      have same := (ofCharBetween_append_iff before cs rest c).mpr fun sigma => by
        subst sigma
        exact ends [] cs rfl
      rw [same, List.prefix_append_right_inj, ih]
      intro earlier later parts
      simpa using ends (c :: earlier) later (by rw [parts, List.cons_append])

end Lowercase

/-- A capital sigma ends a word in the stem, and does not end one in the name that begins with the
stem. -/
def LosesSigma (stem name : String) : Prop :=
  ∃ earlier later rest, stem.toList = earlier ++ 'Σ' :: later ∧ name.toList = stem.toList ++ rest ∧
    Lowercase.meetsCased earlier.reverse = true ∧ Lowercase.meetsCased later = false ∧
    Lowercase.meetsCased (later ++ rest) = true

/-- The lower case of a name begins with that of a stem that the name begins with, unless the name
loses a sigma at the end of a word. -/
theorem startsWith_lowercase_iff {name stem : String} (begins : startsWith name stem = true) :
    startsWith (lowercase name) (lowercase stem) = true ↔ ¬LosesSigma stem name := by
  obtain ⟨rest, whole⟩ := List.isPrefixOf_iff_prefix.mp begins
  simp only [startsWith, lowercase, String.toList_ofList, List.isPrefixOf_iff_prefix, ← whole,
    Lowercase.ofCharsAfter_prefix_iff, List.append_nil]
  constructor
  · rintro ends ⟨earlier, later, others, parts, same, before, last, goes_on⟩
    obtain rfl : rest = others := List.append_cancel_left (whole.trans same)
    simp [ends earlier later parts before last] at goes_on
  · intro kept earlier later parts before last
    by_contra goes_on
    exact kept ⟨earlier, later, rest, parts, whole.symm, before, last, eq_true_of_ne_false goes_on⟩

end Text

namespace Completer

open Text

def candidates (c : Completer) (q : Query) : List String :=
  ((c.offer q).map (·.candidates)).getD []

theorem candidates_offerOf (names : List String) (trailingSpace : Bool) :
    ((offerOf names trailingSpace).map (·.candidates)).getD [] = names := by
  cases names <;> simp [offerOf]

theorem candidates_environmentVariable {names : List String} {q : Query}
    (sets : sameIgnoringAsciiCase q.command "set" = true) (second : q.index = 1) :
    (environmentVariable names).candidates q = startingWithIgnoringCase q.stem names := by
  simp [candidates, environmentVariable, sets, second, candidates_offerOf]

/-- In the second word of `set` the candidates are the names that satisfy a condition, in their
order. Of a name that begins with the stem as it is written, the condition says that no sigma is
lost at the end of a word. -/
theorem environmentVariable_offers (names : List String) {q : Query}
    (sets : sameIgnoringAsciiCase q.command "set" = true) (second : q.index = 1) :
    ∃ offered : String → Bool,
      (environmentVariable names).candidates q = names.filter offered ∧
        ∀ name, startsWith name q.stem = true →
          (offered name = true ↔ ¬LosesSigma q.stem name) := by
  refine ⟨fun name => startsWith (lowercase name) (lowercase q.stem), ?_, ?_⟩
  · rw [candidates_environmentVariable sets second, startingWithIgnoringCase]
  · intro name begins
    exact startsWith_lowercase_iff begins

/-- The sigma of the stem `ΑΣ` ends a word in two of the names, and is inside one in the third. -/
theorem environmentVariable_offers_sigma :
    let q : Query := ⟨Word.split "set ΑΣ", 1, 2⟩
    sameIgnoringAsciiCase q.command "set" = true ∧ q.index = 1 ∧
      ∃ offered : String → Bool,
        (environmentVariable ["ΑΣ", "ΑΣ Α", "ΑΣΑ"]).candidates q =
          ["ΑΣ", "ΑΣ Α", "ΑΣΑ"].filter offered ∧
        offered "ΑΣ" = true ∧ offered "ΑΣ Α" = true ∧ offered "ΑΣΑ" = false := by
  intro q
  have sets : sameIgnoringAsciiCase q.command "set" = true := by decide +kernel
  have stem : q.stem = "ΑΣ" := by decide +kernel
  obtain ⟨offered, same, decides⟩ :=
    environmentVariable_offers ["ΑΣ", "ΑΣ Α", "ΑΣΑ"] sets (rfl : q.index = 1)
  rw [stem] at decides
  refine ⟨sets, rfl, offered, same, ?_, ?_, ?_⟩
  · rw [decides "ΑΣ" (by decide)]
    rintro ⟨earlier, later, rest, parts, whole, -, last, goes_on⟩
    obtain rfl : rest = [] := List.append_right_eq_self.mp whole.symm
    simp [last] at goes_on
  · rw [decides "ΑΣ Α" (by decide), ← startsWith_lowercase_iff (by decide)]
    decide +kernel
  · rw [← Bool.not_eq_true, decides "ΑΣΑ" (by decide), not_not]
    exact ⟨['Α'], [], ['Α'], by decide, by decide, by decide +kernel, by decide +kernel,
      by decide +kernel⟩

theorem not_always_offers :
    ¬ ∀ (names : List String) (q : Query), sameIgnoringAsciiCase q.command "set" = true →
      q.index = 1 → ∀ name ∈ names, startsWith name q.stem = true →
        name ∈ (environmentVariable names).candidates q := by
  intro always
  have offered := always ["ΑΣΑ"] ⟨Word.split "set ΑΣ", 1, 2⟩ (by decide +kernel) rfl "ΑΣΑ"
    List.mem_cons_self (by decide +kernel)
  exact absurd offered (by decide +kernel)

end Completer

end LineEdit
