import LineEdit.Proofs.Word.Line
import LineEdit.Word.Quote

/-!
# Quoting is undone by splitting

Where a line has just ended a word, a quoted word read next gives back the word that was quoted,
whatever it is made of, and leaves a reader behind that the next blank or the end of the line
stops. The words before it are those of the line so far, and the words behind it only move.
-/
namespace LineEdit.Word

/-- Reading the characters takes an argument under way to another one, and completes no word.
Readings that follow one another make one reading. -/
def Argument.Reads (a : Argument) (cs : List Char) (b : Argument) : Prop :=
  ∀ pos ds, (Scanner.inside a).split pos (cs ++ ds) = (Scanner.inside b).split (pos + cs.length) ds

namespace Argument

theorem Reads.nil (a : Argument) : a.Reads [] a := fun _ _ => rfl

theorem Reads.cons {a b : Argument} {c : Char} {cs : List Char} (goes_on : a.endsAt c = false)
    (rest : (a.push c).Reads cs b) : a.Reads (c :: cs) b := by
  intro pos ds
  have step : (Scanner.inside a).split pos (c :: (cs ++ ds)) =
      (Scanner.inside (a.push c)).split (pos + 1) (cs ++ ds) := by
    simp [Scanner.split_cons, Scanner.emit?, Scanner.next, goes_on]
  rw [List.cons_append, step, rest, List.length_cons, Nat.add_assoc, Nat.add_comm 1]

theorem Reads.append {a b d : Argument} {cs es : List Char} (first : a.Reads cs b)
    (second : b.Reads es d) : a.Reads (cs ++ es) d := by
  intro pos ds
  rw [List.append_assoc, first, second, List.length_append, Nat.add_assoc]

theorem endsAt_of_quotes {a : Argument} (open_quote : a.quotes = 1) (c : Char) :
    a.endsAt c = false := by
  simp [endsAt, quoted, open_quote]

theorem reads_backslashes {a : Argument} (open_quote : a.quotes = 1) (n : Nat) :
    a.Reads (List.replicate n '\\')
      ⟨a.start, List.replicate n '\\' ++ a.written, List.replicate n '\\' ++ a.resolved, 1,
        a.backslashes + n⟩ := by
  induction n with
  | zero =>
    rw [← open_quote]
    exact Reads.nil a
  | succ n ih =>
    have one_more := ih.append (Reads.cons (endsAt_of_quotes rfl '\\') (Reads.nil _))
    rw [← List.replicate_succ'] at one_more
    exact one_more

/-- A quote takes back half of the backslashes directly before it, and an odd one makes it
literal. -/
theorem push_quote {a : Argument} {b : Nat} {before : List Char} (counted : a.backslashes = b)
    (put : a.resolved = List.replicate b '\\' ++ before) (few : a.quotes ≤ 1) :
    a.push '"' = ⟨a.start, '"' :: a.written,
      List.replicate (b % 2) '"' ++ (List.replicate (b / 2) '\\' ++ before),
      a.quotes + 1 - b % 2, 0⟩ := by
  have kept : a.resolved.drop ((b + 1) / 2) = List.replicate (b / 2) '\\' ++ before := by
    have halves : List.replicate b '\\' =
        List.replicate ((b + 1) / 2) '\\' ++ List.replicate (b / 2) '\\' := by
      rw [List.replicate_append_replicate]
      congr 1
      omega
    rw [put, halves, List.append_assoc, List.drop_left' List.length_replicate]
  rcases Nat.mod_two_eq_zero_or_one b with even | odd
  · have not_third : a.quotes ≠ 2 := by omega
    simp [push, pushQuote, counted, kept, even, not_third]
  · simp [push, pushQuote, counted, kept, odd]

theorem reads_quote {a : Argument} (open_quote : a.quotes = 1) (none_before : a.backslashes = 0)
    (n : Nat) :
    a.Reads (List.replicate n '\\' ++ ['"'])
      ⟨a.start, '"' :: List.replicate n '\\' ++ a.written,
        List.replicate (n % 2) '"' ++ (List.replicate (n / 2) '\\' ++ a.resolved), 2 - n % 2, 0⟩ := by
  have counted : a.backslashes + n = n := by rw [none_before, Nat.zero_add]
  refine (reads_backslashes open_quote n).append (Reads.cons (endsAt_of_quotes rfl _) ?_)
  rw [push_quote counted rfl (Nat.le_refl 1)]
  exact Reads.nil _

theorem reads_close {a : Argument} (open_quote : a.quotes = 1) (none_before : a.backslashes = 0)
    (n : Nat) :
    a.Reads (List.replicate (2 * n) '\\' ++ ['"'])
      ⟨a.start, '"' :: List.replicate (2 * n) '\\' ++ a.written,
        List.replicate n '\\' ++ a.resolved, 2, 0⟩ := by
  have even : 2 * n % 2 = 0 := by omega
  have half : 2 * n / 2 = n := by omega
  have reads := reads_quote open_quote none_before (2 * n)
  rw [even, half] at reads
  exact reads

/-- Inside quotes a quote after one backslash more than twice as many leaves half of them and is
literal. -/
theorem reads_literal_quote {a : Argument} (open_quote : a.quotes = 1)
    (none_before : a.backslashes = 0) (n : Nat) :
    a.Reads (List.replicate (2 * n + 1) '\\' ++ ['"'])
      ⟨a.start, '"' :: List.replicate (2 * n + 1) '\\' ++ a.written,
        '"' :: List.replicate n '\\' ++ a.resolved, 1, 0⟩ := by
  have odd : (2 * n + 1) % 2 = 1 := by omega
  have half : (2 * n + 1) / 2 = n := by omega
  have reads := reads_quote open_quote none_before (2 * n + 1)
  rw [odd, half] at reads
  exact reads

theorem reads_literal {a : Argument} (open_quote : a.quotes = 1) {c : Char} (plain : c ≠ '\\')
    (no_quote : c ≠ '"') (n : Nat) :
    a.Reads (List.replicate n '\\' ++ [c])
      ⟨a.start, c :: List.replicate n '\\' ++ a.written,
        c :: List.replicate n '\\' ++ a.resolved, 1, 0⟩ := by
  refine (reads_backslashes open_quote n).append (Reads.cons (endsAt_of_quotes rfl _) ?_)
  simp only [push, if_neg no_quote, if_neg plain]
  exact Reads.nil _

/-- The inside of a quoted word and the quote that closes it give back the word. The induction is on
the word, with any number of backslashes before it that are read and not yet written. -/
theorem reads_escape (word : List Char) {a : Argument} (open_quote : a.quotes = 1)
    (none_before : a.backslashes = 0) (n : Nat) :
    a.Reads (escape n word ++ ['"'])
      ⟨a.start, '"' :: (escape n word).reverse ++ a.written,
        (List.replicate n '\\' ++ word).reverse ++ a.resolved, 2, 0⟩ := by
  -- The backslashes seen so far are not on the line yet: the reader is where it was before them.
  induction word generalizing a n with
  | nil => simpa [escape] using reads_close open_quote none_before n
  | cons c word ih =>
    by_cases backslash : c = '\\'
    · subst backslash
      have rest := ih open_quote none_before (n + 1)
      rw [List.replicate_succ', List.append_assoc, List.singleton_append] at rest
      simpa only [escape, reduceIte] using rest
    · by_cases quote : c = '"'
      · subst quote
        have rest := (reads_literal_quote open_quote none_before n).append (ih rfl rfl 0)
        simpa [escape] using rest
      · have rest := (reads_literal open_quote backslash quote n).append (ih rfl rfl 0)
        simpa [escape, backslash, quote] using rest

theorem reads_plain (word : List Char) {a : Argument} (no_quote : a.quotes = 0)
    (plain : ∀ c ∈ word, needsQuotes c = false) :
    ∃ n, a.Reads word ⟨a.start, word.reverse ++ a.written, word.reverse ++ a.resolved, 0, n⟩ := by
  induction word generalizing a with
  | nil =>
    refine ⟨a.backslashes, ?_⟩
    rw [← no_quote]
    exact Reads.nil a
  | cons c word ih =>
    have here := plain c List.mem_cons_self
    simp only [needsQuotes, Bool.or_eq_false_iff, decide_eq_false_iff_not] at here
    obtain ⟨⟨⟨⟨space, tab⟩, -⟩, -⟩, quote⟩ := here
    have pushed : (a.push c).quotes = 0 := by simp [push, quote, quoted, no_quote]
    obtain ⟨n, rest⟩ := ih pushed fun d mem => plain d (List.mem_cons_of_mem c mem)
    have goes_on : a.endsAt c = false := by simp [endsAt, isBlank, space, tab]
    refine ⟨n, ?_⟩
    simpa [push, quote] using Reads.cons goes_on rest

/-- A quoted word is read from its first character on, and gives back the word. -/
theorem reads_quoteChars (pos : Nat) (word : List Char) :
    ∃ a, (Argument.begin pos).Reads (quoteChars word) a ∧ a.quoted = false ∧
      a.word = ofChars pos (quoteChars word) word := by
  by_cases plain : word ≠ [] ∧ word.all (!needsQuotes ·)
  · have each : ∀ c ∈ word, needsQuotes c = false := by simpa using plain.2
    obtain ⟨n, reads⟩ := reads_plain word (a := Argument.begin pos) rfl each
    rw [quoteChars, if_pos plain]
    exact ⟨_, reads, rfl, by simp [Argument.word, Argument.begin]⟩
  · have pushed : (Argument.begin pos).push '"' = ⟨pos, ['"'], [], 1, 0⟩ := by
      simp [push, pushQuote, Argument.begin]
    have opened : (Argument.begin pos).Reads ['"'] ⟨pos, ['"'], [], 1, 0⟩ :=
      Reads.cons rfl (pushed ▸ Reads.nil _)
    rw [quoteChars, if_neg plain]
    exact ⟨_, opened.append (reads_escape word rfl rfl 0), rfl, by simp [Argument.word]⟩

end Argument

theorem isBlank_of_head?_quoteChars (word : List Char) :
    ∃ c cs, quoteChars word = c :: cs ∧ isBlank c = false := by
  by_cases plain : word ≠ [] ∧ word.all (!needsQuotes ·)
  · rw [quoteChars, if_pos plain]
    cases word with
    | nil => exact absurd rfl plain.1
    | cons c cs =>
      refine ⟨c, cs, rfl, ?_⟩
      have here : needsQuotes c = false := by simpa using And.left (by simpa using plain.2)
      simp only [needsQuotes, Bool.or_eq_false_iff] at here
      simp [isBlank, here]
  · rw [quoteChars, if_neg plain]
    exact ⟨'"', _, rfl, rfl⟩

/-- The words behind a word that ends at offset `pos`, where the rest of the line is empty or begins
with a blank. -/
def behind (pos : Nat) : List Char → List Word
  | [] => []
  | _ :: cs => Scanner.between.split (pos + 1) cs

theorem behind_shift (n pos : Nat) (cs : List Char) :
    behind (pos + n) cs = (behind pos cs).map (shift n) := by
  cases cs with
  | nil => rfl
  | cons c cs =>
    rw [behind, behind, Nat.add_right_comm]
    exact Scanner.split_shift n (pos + 1) .between cs

theorem split_inside_of_blank {a : Argument} (closed : a.quoted = false) (pos : Nat)
    {cs : List Char} (apart : ∀ c ∈ cs.head?, isBlank c) :
    (Scanner.inside a).split pos cs = a.word :: behind pos cs := by
  cases cs with
  | nil => rfl
  | cons c cs =>
    have blank : isBlank c := apart c rfl
    have ends : a.endsAt c := by simp [Argument.endsAt, blank, closed]
    simp [Scanner.split_cons, Scanner.emit?, Scanner.next, ends, behind]

/-- Between words a quoted word is read as one word that gives back what was quoted, and what stands
behind it is read as if nothing stood before. -/
theorem split_quoteChars (pos : Nat) (word : List Char) {cs : List Char}
    (apart : ∀ c ∈ cs.head?, isBlank c) :
    Scanner.between.split pos (quoteChars word ++ cs) =
      ofChars pos (quoteChars word) word :: behind (pos + (quoteChars word).length) cs := by
  obtain ⟨c, quoted, begins, no_blank⟩ := isBlank_of_head?_quoteChars word
  obtain ⟨a, reads, closed, word_eq⟩ := Argument.reads_quoteChars pos word
  have opened : Scanner.between.split pos (quoteChars word ++ cs) =
      (Scanner.inside (.begin pos)).split pos (quoteChars word ++ cs) := by
    have goes_on : (Argument.begin pos).endsAt c = false := by simp [Argument.endsAt, no_blank]
    simp [begins, Scanner.split_cons, Scanner.emit?, Scanner.next, no_blank, goes_on]
  rw [opened, reads, split_inside_of_blank closed _ apart, word_eq]

theorem isChain_behind (w : Word) (cs : List Char) :
    (w :: behind w.stop cs).IsChain (fun a b => a.stop < b.start) := by
  cases cs with
  | nil => exact List.isChain_singleton w
  | cons c cs => exact Scanner.isChain_split (Scanner.at_between _) cs (Nat.lt_succ_self _)

/-- A line that has just ended a word takes up a quoted word whole: the words before it stay, the
quoted one gives back what was quoted, and the words behind it follow the place where it ends. -/
theorem splitChars_append_quoteChars {line tail : List Char} (some_chars : line ≠ [])
    (gap : (splitChars line).getLast?.any isEmpty) (apart : ∀ c ∈ tail.head?, isBlank c)
    (word : List Char) :
    splitChars (line ++ (quoteChars word ++ tail)) =
      (splitChars line).dropLast ++
        ofChars line.length (quoteChars word) word ::
          behind (line.length + (quoteChars word).length) tail := by
  have between := after_eq_between some_chars gap
  have ends : (readProgram line).2 ≠ [] := by
    intro nothing
    rw [nothing] at between
    cases between
  have before := splitChars_append ends between [] (emptyAt line.length) [] rfl rfl
  rw [List.append_nil, joinAttached] at before
  have gaps := isChain_behind (ofChars line.length (quoteChars word) word) tail
  rw [stop_ofChars] at gaps
  have read := split_quoteChars line.length word apart
  rw [splitChars_append ends between _ _ _ rfl read, before, List.dropLast_concat,
    joinAttached_of_isChain _ _ gaps]

/-- In every line that has just ended a word, and before every tail that begins with a blank or is
empty, a quoted word is one word that gives back what was quoted. The words before it stay as they
are, and the words behind it know of it by their places only. -/
theorem split_append_quote (line tail : String) (some_chars : line ≠ "")
    (gap : (split line).getLast?.any isEmpty) (apart : ∀ c ∈ tail.toList.head?, isBlank c) :
    ∃ rest : List Word, ∀ word : String,
      split (line ++ quote word ++ tail) =
        (split line).dropLast ++
          ⟨line.length, quote word, word⟩ :: rest.map (shift (quote word).length) := by
  refine ⟨behind line.length tail.toList, fun word => ?_⟩
  have chars : line.toList ≠ [] := by simpa using some_chars
  have whole := splitChars_append_quoteChars chars gap apart word.toList
  rw [behind_shift, String.length_toList] at whole
  have length_quote : (quote word).length = (quoteChars word.toList).length := by simp [quote]
  simpa [split, quote, ofChars, length_quote] using whole

/-- An argument with blanks, quotes and backslashes, put between a quoted word and another one. -/
theorem split_append_quote_hard :
    ("\"p q\" a\\\"b " ≠ "" ∧ (split "\"p q\" a\\\"b ").getLast?.any isEmpty ∧
      ∀ c ∈ "\t\"y".toList.head?, isBlank c) ∧
    ∃ rest : List Word, ∀ word : String,
      split ("\"p q\" a\\\"b " ++ quote word ++ "\t\"y") =
        (split "\"p q\" a\\\"b ").dropLast ++
          ⟨"\"p q\" a\\\"b ".length, quote word, word⟩ :: rest.map (shift (quote word).length) := by
  have some_chars : "\"p q\" a\\\"b " ≠ "" := by decide
  have gap : (split "\"p q\" a\\\"b ").getLast?.any isEmpty := by decide +kernel
  have apart : ∀ c ∈ "\t\"y".toList.head?, isBlank c := by
    have head : "\t\"y".toList.head? = some '\t' := by decide
    rw [head]
    rintro c ⟨rfl⟩
    rfl
  exact ⟨⟨some_chars, gap, apart⟩, split_append_quote _ _ some_chars gap apart⟩

end LineEdit.Word
