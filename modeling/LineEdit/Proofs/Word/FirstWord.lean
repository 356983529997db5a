import LineEdit.Proofs.Word.Quoting
import LineEdit.Proofs.Word.Tiling

/-!
# Quoting the first word

Quoting is made for arguments, and the first word of a line is not read as one. A quoted first word
runs through the next quote, whatever stands before that, and its backslashes are all literal. So
the quotes that surround a word are taken off, but nothing inside them is undone: a literal quote
ends the word early, and backslashes that were doubled before the closing quote stay doubled. Words
with neither read back at the beginning of a line as they do elsewhere.
-/
namespace LineEdit.Word

/-- Up to a quote only the last backslashes matter: they are still to be written when the quote is
reached. -/
theorem escape_append {u : List Char} (no_quote : '"' ∉ u) (n : Nat) :
    ∃ body t, List.replicate n '\\' ++ u = body ++ List.replicate t '\\' ∧
      body.getLast? ≠ some '\\' ∧ ∀ rest, escape n (u ++ rest) = body ++ escape t rest := by
  induction u generalizing n with
  | nil => exact ⟨[], n, List.append_nil _, nofun, fun _ => rfl⟩
  | cons c u ih =>
    have not_later : '"' ∉ u := fun mem => no_quote (List.mem_cons_of_mem c mem)
    by_cases backslash : c = '\\'
    · subst backslash
      obtain ⟨body, t, whole, ends, escapes⟩ := ih not_later (n + 1)
      refine ⟨body, t, ?_, ends, ?_⟩
      · rw [← whole, List.replicate_succ', List.append_assoc]
        rfl
      · intro rest
        rw [List.cons_append, escape, if_pos rfl, escapes]
    · have not_here : c ≠ '"' := fun same => no_quote (same ▸ List.mem_cons_self)
      obtain ⟨body, t, whole, ends, escapes⟩ := ih not_later 0
      refine ⟨List.replicate n '\\' ++ c :: body, t, ?_, ?_, ?_⟩
      · rw [List.append_assoc, List.cons_append, ← whole]
        rfl
      · cases body with
        | nil => simpa using backslash
        | cons d body => simpa [List.getLast?_append, List.getLast?_cons_cons] using ends
      · intro rest
        rw [List.cons_append, escape, if_neg backslash, if_neg not_here, escapes, List.append_assoc]
        rfl

theorem exists_trailing {word : List Char} (no_quote : '"' ∉ word) :
    ∃ body t, word = body ++ List.replicate t '\\' ∧ body.getLast? ≠ some '\\' ∧
      escape 0 word = body ++ List.replicate (2 * t) '\\' := by
  obtain ⟨body, t, whole, ends, escapes⟩ := escape_append no_quote 0
  refine ⟨body, t, whole, ends, ?_⟩
  have inside := escapes []
  rw [List.append_nil] at inside
  exact inside

theorem escape_eq_self_iff {word : List Char} (no_quote : '"' ∉ word) :
    escape 0 word = word ↔ word.getLast? ≠ some '\\' := by
  obtain ⟨body, t, whole, ends, doubled⟩ := exists_trailing no_quote
  rw [doubled]
  constructor
  · intro same
    have length := congrArg List.length (same.trans whole)
    simp only [List.length_append, List.length_replicate] at length
    obtain rfl : t = 0 := by omega
    rw [whole, List.replicate_zero, List.append_nil]
    exact ends
  · intro plain
    cases t with
    | zero => exact whole.symm
    | succ t =>
      rw [whole, List.replicate_succ', ← List.append_assoc, List.getLast?_concat] at plain
      exact absurd rfl plain

theorem quote_not_mem_append_backslashes {u : List Char} (no_quote : '"' ∉ u) (n : Nat) :
    '"' ∉ u ++ List.replicate n '\\' := by
  intro mem
  rcases List.mem_append.mp mem with before | behind
  · exact no_quote before
  · exact absurd (List.eq_of_mem_replicate behind) (by decide)

theorem quote_not_mem_escape {word : List Char} (no_quote : '"' ∉ word) : '"' ∉ escape 0 word := by
  obtain ⟨body, t, rfl, -, doubled⟩ := exists_trailing no_quote
  rw [doubled]
  apply quote_not_mem_append_backslashes
  exact fun mem => no_quote (List.mem_append_left _ mem)

/-- Between what stands before a first literal quote and the quote itself, a backslash more is
written. -/
theorem exists_literal_quote {word : List Char} (has_quote : '"' ∈ word) : ∃ u t more rest,
    word = u ++ '"' :: more ∧ '"' ∉ u ∧
    escape 0 word = u ++ List.replicate (t + 1) '\\' ++ '"' :: rest := by
  obtain ⟨u, more, rfl, no_quote⟩ := List.eq_append_cons_of_mem has_quote
  obtain ⟨body, t, whole, -, escapes⟩ := escape_append no_quote 0
  have same : u = body ++ List.replicate t '\\' := whole
  refine ⟨u, t, more, escape 0 more, rfl, no_quote, ?_⟩
  have twice : List.replicate (2 * t + 1) '\\' =
      List.replicate t '\\' ++ List.replicate (t + 1) '\\' := by
    rw [List.replicate_append_replicate]
    congr 1
    omega
  rw [escapes, escape, if_neg (by decide), if_pos rfl, twice, same]
  simp only [List.append_assoc]

theorem Opens.exists_first {cs rest : List Char} {w : Word} (opens : Opens cs w rest) :
    ∃ first others more, splitChars cs = first :: others ∧ first.resolved = w.resolved ++ more := by
  rw [splitChars_eq, opens.readProgram_eq]
  dsimp only
  rcases joinAttached_cases w (Scanner.isChain_gap_split (Scanner.at_fresh w.stop) rest) with
    ⟨-, alone⟩ | ⟨b, us, -, -, joined⟩
  · exact ⟨w, _, "", alone, String.append_empty.symm⟩
  · exact ⟨w.join b, us, b.resolved, joined, rfl⟩

theorem Opens.splitChars_of_blank {cs rest : List Char} {w : Word} (opens : Opens cs w rest)
    (apart : ∀ c ∈ rest.head?, isBlank c = true) :
    ∃ others, splitChars cs = w :: others ∧ (others = [] ↔ rest = []) := by
  rw [splitChars_eq, opens.readProgram_eq]
  dsimp only
  cases rest with
  | nil => exact ⟨[], rfl, fun _ => rfl, fun _ => rfl⟩
  | cons c rest =>
    have further := lt_start_of_isBlank (apart c rfl) w.stop rest
    rcases joinAttached_cases w (Scanner.isChain_gap_split (Scanner.at_fresh w.stop) (c :: rest))
      with ⟨-, alone⟩ | ⟨b, us, words, attached, -⟩
    · refine ⟨_, alone, ?_⟩
      have some_words : Scanner.fresh.split w.stop (c :: rest) ≠ [] := by
        intro none
        have tiles := opens.tiles
        have whole := opens.written_append
        rw [none] at tiles
        cases tiles with
        | last start written => simp [written] at whole
        | cons start written blank others => cases others
      exact ⟨fun none => absurd none some_words, nofun⟩
    · have behind := further b (by rw [words]; rfl)
      exact absurd (stop_eq_of_attaches attached) (Nat.ne_of_lt behind)

/-- Whether a word reads back when it is quoted as the first word of a line. The first word is read
without escapes, so that an escape in the quoted word stays in what is read. -/
def ReadsBackFirst (word : List Char) : Prop :=
  '"' ∉ word ∧ (word.any needsQuotes = true → word.getLast? ≠ some '\\')

instance (word : List Char) : Decidable (ReadsBackFirst word) :=
  inferInstanceAs (Decidable ('"' ∉ word ∧ (word.any needsQuotes = true → word.getLast? ≠ some '\\')))

theorem quoteChars_of_needs {word : List Char} (needs : word.any needsQuotes = true)
    (tail : List Char) : quoteChars word ++ tail = '"' :: escape 0 word ++ '"' :: tail := by
  have quoted : ¬(word ≠ [] ∧ word.all (!needsQuotes ·)) := by
    rw [← List.not_any_eq_all_not, needs]
    exact fun plain => Bool.false_ne_true plain.2
  rw [quoteChars, if_neg quoted, List.append_assoc]
  rfl

theorem isBlank_of_not_needs {word : List Char} (plain : word.any needsQuotes = false) :
    ∀ c ∈ word, isBlank c = false := by
  intro c mem
  have here := List.any_eq_false.mp plain c mem
  simp only [needsQuotes, Bool.not_eq_true, Bool.or_eq_false_iff] at here
  simp [isBlank, here]

/-- Without a literal quote, the whole of a quoted word is the first word. Its inside is the word
itself exactly if no backslashes were doubled. -/
theorem opens_quoteChars {word tail : List Char} (no_quote : '"' ∉ word)
    (apart : ∀ c ∈ tail.head?, isBlank c = true) : ∃ inside,
    Opens (quoteChars word ++ tail) (ofChars 0 (quoteChars word) inside) tail ∧
      (inside = word ↔ ReadsBackFirst word) := by
  cases needs : word.any needsQuotes with
  | true =>
    have written := quoteChars_of_needs needs []
    rw [List.append_nil] at written
    rw [quoteChars_of_needs needs, written]
    refine ⟨escape 0 word, .closed (quote_not_mem_escape no_quote), ?_⟩
    unfold ReadsBackFirst
    rw [escape_eq_self_iff no_quote, needs]
    exact ⟨fun ends => ⟨no_quote, fun _ => ends⟩, fun reads_back => reads_back.2 rfl⟩
  | false =>
    have reads_back : ReadsBackFirst word := by
      constructor
      · exact no_quote
      · rw [needs]
        exact fun contrary => absurd contrary Bool.false_ne_true
    refine ⟨word, ?_, fun _ => reads_back, fun _ => rfl⟩
    cases word with
    | nil => exact .closed List.not_mem_nil
    | cons c cs =>
      have plain : (c :: cs).all (!needsQuotes ·) = true := by
        rw [← List.not_any_eq_all_not, needs]
        rfl
      rw [quoteChars, if_pos ⟨List.cons_ne_nil c cs, plain⟩]
      refine .plain ?_ (isBlank_of_not_needs needs) apart
      exact fun head => no_quote (List.mem_of_mem_head? head)

/-- A literal quote ends the first word, with a backslash before it that the quoted word does not
have. -/
theorem opens_quoteChars_of_literal_quote {word : List Char} (has_quote : '"' ∈ word)
    (tail : List Char) : ∃ u more written t rest, word = u ++ '"' :: more ∧
      Opens (quoteChars word ++ tail) (ofChars 0 written (u ++ '\\' :: List.replicate t '\\')) rest := by
  obtain ⟨u, t, more, rest, whole, no_quote, escaped⟩ := exists_literal_quote has_quote
  have inside : '"' ∉ u ++ '\\' :: List.replicate t '\\' := by
    rw [← List.replicate_succ]
    exact quote_not_mem_append_backslashes no_quote (t + 1)
  have needs : word.any needsQuotes = true := List.any_eq_true.mpr ⟨'"', has_quote, rfl⟩
  have line : quoteChars word ++ tail =
      '"' :: (u ++ '\\' :: List.replicate t '\\') ++ '"' :: (rest ++ '"' :: tail) := by
    rw [quoteChars_of_needs needs, escaped, List.replicate_succ]
    simp
  rw [line]
  exact ⟨u, more, _, t, _, whole, .closed inside⟩

theorem splitChars_quoteChars (word : List Char) {tail : List Char}
    (apart : ∀ c ∈ tail.head?, isBlank c = true) :
    ∃ first others, splitChars (quoteChars word ++ tail) = first :: others ∧
      (first.resolved = String.ofList word ↔ ReadsBackFirst word) ∧
      (ReadsBackFirst word →
        first = ofChars 0 (quoteChars word) word ∧ (others = [] ↔ tail = [])) := by
  by_cases has_quote : '"' ∈ word
  · obtain ⟨u, more, written, t, rest, rfl, opens⟩ := opens_quoteChars_of_literal_quote has_quote tail
    obtain ⟨first, others, suffix, words, resolved⟩ := opens.exists_first
    have lost : ¬ReadsBackFirst (u ++ '"' :: more) := fun reads_back => reads_back.1 has_quote
    refine ⟨first, others, words, ⟨?_, fun reads_back => absurd reads_back lost⟩,
      fun reads_back => absurd reads_back lost⟩
    intro same
    have texts := congrArg String.toList (resolved.symm.trans same)
    simp [ofChars] at texts
  · obtain ⟨inside, opens, reads_back⟩ := opens_quoteChars has_quote apart
    obtain ⟨others, words, alone⟩ := opens.splitChars_of_blank apart
    refine ⟨_, others, words, String.ofList_inj.trans reads_back, ?_⟩
    intro survives
    rw [reads_back.mpr survives]
    exact ⟨rfl, alone⟩

/-- The first word of a line gives back a word that was quoted there if that has no literal quote,
and no backslash at its end when it needs quotes; then it is the quoted word and no more. For any
other word it gives back something else. -/
theorem split_quote_append (word tail : String) (apart : ∀ c ∈ tail.toList.head?, isBlank c = true) :
    ∃ first others, split (quote word ++ tail) = first :: others ∧
      (first.resolved = word ↔ ReadsBackFirst word.toList) ∧
      (ReadsBackFirst word.toList →
        first = ⟨0, quote word, word⟩ ∧ (others = [] ↔ tail = "")) := by
  obtain ⟨first, others, words, reads_back, survives⟩ := splitChars_quoteChars word.toList apart
  rw [String.ofList_toList] at reads_back
  refine ⟨first, others, ?_, reads_back, ?_⟩
  · rw [split, quote, String.toList_append, String.toList_ofList, words]
  · intro plain
    obtain ⟨same, alone⟩ := survives plain
    rw [ofChars, String.ofList_toList] at same
    exact ⟨same, alone.trans String.toList_eq_nil_iff⟩

/-- A program with a blank in its name reads back, and one with a backslash behind it does not. -/
theorem split_quote_append_blank :
    (∀ c ∈ "\tx".toList.head?, isBlank c) ∧
    (∃ others, split (quote "a b" ++ "\tx") = ⟨0, "\"a b\"", "a b"⟩ :: others) ∧
    ∃ first others, split (quote "a b\\" ++ "\tx") = first :: others ∧ first.resolved ≠ "a b\\" := by
  have apart : ∀ c ∈ "\tx".toList.head?, isBlank c := by
    have head : "\tx".toList.head? = some '\t' := by decide
    rw [head]
    rintro c ⟨rfl⟩
    rfl
  refine ⟨apart, ?_, ?_⟩
  · have survives : ReadsBackFirst "a b".toList := by decide
    obtain ⟨first, others, words, -, whole⟩ := split_quote_append "a b" "\tx" apart
    obtain ⟨same, -⟩ := whole survives
    rw [same] at words
    exact ⟨others, words⟩
  · have lost : ¬ReadsBackFirst "a b\\".toList := by decide
    obtain ⟨first, others, words, reads_back, -⟩ := split_quote_append "a b\\" "\tx" apart
    exact ⟨first, others, words, fun same => lost (reads_back.mp same)⟩

theorem not_always_reads_back_first :
    ¬∀ word : String, ∃ w, split (quote word) = [w] ∧ w.resolved = word := by
  intro reads_back
  obtain ⟨w, words, same⟩ := reads_back "Program Files\\"
  have read : split (quote "Program Files\\") =
      [⟨0, "\"Program Files\\\\\"", "Program Files\\\\"⟩] := by decide +kernel
  obtain rfl := List.head_eq_of_cons_eq (words.symm.trans read)
  exact absurd same (by decide)

end LineEdit.Word
