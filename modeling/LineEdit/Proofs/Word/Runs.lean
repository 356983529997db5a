import LineEdit.Proofs.Word.Quoting
import Mathlib.Data.List.TakeWhile

/-!
# A line read run by run

The quoting rules speak of runs: of all backslashes that stand together, and of all quotes behind
them. Here an argument is cut into such runs first, and each is resolved at once by arithmetic on
its two lengths and on a flag, which tells whether the text before it leaves a quote open. The
reader of one character at a time counts both lengths as it goes and takes back backslashes that it
has already put down. It finds the same words in every line.

The lemmas go from one run to the runs of an argument, from these to the arguments behind a first
word, and from there to lines.
-/
namespace LineEdit.Word

/-- What is resolved at once in an argument: all backslashes that stand together before a quote with
all quotes that stand together behind them, or any other character. -/
inductive Run where
  | quotes (backslashes count : Nat)
  | plain (c : Char)
deriving DecidableEq, Repr

namespace Run

def written : Run → List Char
  | quotes b k => List.replicate b '\\' ++ List.replicate k '"'
  | plain c => [c]

/-- What a run stands for, where `q` is `1` inside quotes and `0` outside: half of the backslashes,
the quote that an odd one escapes, and every third of the quotes that count. -/
def resolved (q : Nat) : Run → List Char
  | quotes b k =>
    List.replicate (b / 2) '\\' ++ List.replicate (b % 2 + (q + k - b % 2) / 3) '"'
  | plain c => [c]

/-- Whether a quote is open after a run. The quotes that count are taken by threes, and a single one
that is left over opens. -/
def flag (q : Nat) : Run → Nat
  | quotes b k => if (q + k - b % 2) % 3 = 1 then 1 else 0
  | plain _ => q

def isBlank : Run → Bool
  | quotes _ _ => false
  | plain c => Word.isBlank c

def ofChar (c : Char) : Run := if c = '"' then quotes 0 1 else plain c

/-- The runs of a text with one more character before it. -/
def extend (c : Char) : List Run → List Run
  | quotes b k :: rs =>
    if c = '\\' then quotes (b + 1) k :: rs
    else if c = '"' ∧ b = 0 then quotes 0 (k + 1) :: rs
    else ofChar c :: quotes b k :: rs
  | rs => ofChar c :: rs

end Run

def runs : List Char → List Run
  | [] => []
  | c :: cs => Run.extend c (runs cs)

def writtenRuns (rs : List Run) : List Char := rs.flatMap Run.written

def resolvedRuns (q : Nat) : List Run → List Char
  | [] => []
  | r :: rs => r.resolved q ++ resolvedRuns (r.flag q) rs

/-- The runs up to the first blank outside quotes, and those from there on. -/
def cutArgument (q : Nat) : List Run → List Run × List Run
  | [] => ([], [])
  | r :: rs =>
    if r.isBlank ∧ q = 0 then ([], r :: rs)
    else
      let (own, rest) := cutArgument (r.flag q) rs
      (r :: own, rest)

theorem length_cutArgument_le (q : Nat) (rs : List Run) :
    (cutArgument q rs).2.length ≤ rs.length := by
  induction rs generalizing q with
  | nil => exact Nat.le_refl _
  | cons r rs ih =>
    rw [cutArgument]
    split
    · exact Nat.le_refl _
    · exact Nat.le_succ_of_le (ih (r.flag q))

/-- The arguments of the text that these runs are the runs of and that begins at offset `pos`.
Blanks that no argument follows end in an empty word. -/
def argumentsOfRuns (pos : Nat) (rs : List Run) : List Word :=
  let blanks := rs.takeWhile Run.isBlank
  match _behind : rs.dropWhile Run.isBlank with
  | [] => if blanks = [] then [] else [emptyAt (pos + blanks.length)]
  | r :: ahead =>
    let cut := cutArgument (r.flag 0) ahead
    let own := r :: cut.1
    let word := ofChars (pos + blanks.length) (writtenRuns own) (resolvedRuns 0 own)
    word :: argumentsOfRuns word.stop cut.2
termination_by rs.length
decreasing_by
  have shorter := (rs.dropWhile_sublist Run.isBlank).length_le
  have rest := length_cutArgument_le (r.flag 0) ahead
  rw [_behind, List.length_cons] at shorter
  omega

/-- The words with the second joined to the first, if it begins with a backslash and no blank stands
between them. -/
def joinSecond : List Word → List Word
  | a :: b :: ws =>
    if b.written.toList.head? = some '\\' ∧ a.stop = b.start then a.join b :: ws else a :: b :: ws
  | ws => ws

namespace Run

/-- Whether what a run says of itself is so: a run of quotes has one, and no quote stands alone. -/
def Proper : Run → Prop
  | quotes _ k => 0 < k
  | plain c => c ≠ '"'

/-- Nothing of the second run belongs to the first. -/
def Apart : Run → Run → Prop
  | _, plain _ => True
  | quotes _ _, quotes b _ => b ≠ 0
  | plain c, quotes _ _ => c ≠ '\\'

theorem apart_plain (r : Run) (c : Char) : r.Apart (plain c) := by
  cases r <;> trivial

end Run

/-- No run could be longer than it is: no two that stand together belong into one. -/
def Maximal : List Run → Prop
  | [] => True
  | r :: rs => r.Proper ∧ (∀ s ∈ rs.head?, r.Apart s) ∧ Maximal rs

theorem maximal_of_append {rs ss : List Run} (h : Maximal (rs ++ ss)) : Maximal ss := by
  induction rs with
  | nil => exact h
  | cons r rs ih => exact ih h.2.2

theorem writtenRuns_cons (r : Run) (rs : List Run) :
    writtenRuns (r :: rs) = r.written ++ writtenRuns rs := rfl

namespace Run

theorem written_ofChar (c : Char) : (ofChar c).written = [c] := by
  unfold ofChar
  split
  next quote =>
    rw [quote]
    rfl
  next => rfl

theorem proper_ofChar (c : Char) : (ofChar c).Proper := by
  unfold ofChar
  split
  · exact Nat.one_pos
  · assumption

theorem writtenRuns_extend (c : Char) (rs : List Run) :
    writtenRuns (extend c rs) = c :: writtenRuns rs := by
  unfold extend
  split
  · split
    next backslash =>
      rw [backslash]
      rfl
    split
    next quote =>
      rw [quote.1, quote.2]
      rfl
    next => rw [writtenRuns_cons, written_ofChar, List.singleton_append]
  · rw [writtenRuns_cons, written_ofChar, List.singleton_append]

theorem maximal_extend (c : Char) {rs : List Run} (h : Maximal rs) : Maximal (extend c rs) := by
  unfold extend
  split
  next b k rs =>
    obtain ⟨some_quotes, apart, rest⟩ := h
    split
    next backslash =>
      refine ⟨some_quotes, ?_, rest⟩
      rintro (_ | _) mem
      · exact apart _ mem
      · trivial
    split
    next quote =>
      refine ⟨Nat.succ_pos k, ?_, rest⟩
      rintro (_ | _) mem
      · exact apart _ mem
      · trivial
    next backslash quote =>
      refine ⟨proper_ofChar c, ?_, some_quotes, apart, rest⟩
      rintro _ ⟨rfl⟩
      unfold ofChar
      split
      next same => exact fun none_before => quote ⟨same, none_before⟩
      next => exact backslash
  next others =>
    refine ⟨proper_ofChar c, ?_, h⟩
    rintro (_ | _) mem
    · cases rs with
      | nil => cases mem
      | cons r rs =>
        cases mem
        exact absurd rfl (others _ _ _)
    · exact apart_plain _ _

end Run

theorem writtenRuns_runs (cs : List Char) : writtenRuns (runs cs) = cs := by
  induction cs with
  | nil => rfl
  | cons c cs ih => rw [runs, Run.writtenRuns_extend, ih]

theorem maximal_runs (cs : List Char) : Maximal (runs cs) := by
  induction cs with
  | nil => trivial
  | cons c cs ih => exact Run.maximal_extend c ih

namespace Argument

def flag (a : Argument) : Nat := if a.quotes = 1 then 1 else 0

theorem reads_more_backslashes (a : Argument) (n : Nat) :
    a.Reads (List.replicate (n + 1) '\\')
      ⟨a.start, List.replicate (n + 1) '\\' ++ a.written,
        List.replicate (n + 1) '\\' ++ a.resolved, a.flag, a.backslashes + (n + 1)⟩ := by
  induction n with
  | zero =>
    have pushed : a.push '\\' =
        ⟨a.start, '\\' :: a.written, '\\' :: a.resolved, a.flag, a.backslashes + 1⟩ := by
      simp [push, quoted, flag]
    exact Reads.cons rfl (pushed ▸ Reads.nil _)
  | succ n ih =>
    have same : (if a.flag = 1 then 1 else 0) = a.flag := by
      unfold flag
      split <;> rfl
    have one_more := ih.append (Reads.cons (c := '\\') rfl (Reads.nil _))
    rw [← List.replicate_succ'] at one_more
    simpa [push, quoted, same, List.replicate_succ, Nat.add_assoc] using one_more

/-- Quotes with no backslash before them are counted, and every third is literal. -/
theorem reads_more_quotes {a : Argument} (none_before : a.backslashes = 0) (few : a.quotes ≤ 2)
    (n : Nat) :
    a.Reads (List.replicate n '"')
      ⟨a.start, List.replicate n '"' ++ a.written,
        List.replicate ((a.quotes + n) / 3) '"' ++ a.resolved, (a.quotes + n) % 3, 0⟩ := by
  induction n with
  | zero =>
    obtain ⟨start, written, resolved, quotes, backslashes⟩ := a
    obtain rfl : backslashes = 0 := none_before
    have none_literal : (quotes + 0) / 3 = 0 := Nat.div_eq_of_lt (Nat.lt_succ_of_le few)
    have same : (quotes + 0) % 3 = quotes := Nat.mod_eq_of_lt (Nat.lt_succ_of_le few)
    rw [none_literal, same]
    exact Reads.nil _
  | succ n ih =>
    have one_more := ih.append (Reads.cons (c := '"') rfl (Reads.nil _))
    rw [← List.replicate_succ'] at one_more
    by_cases third : (a.quotes + n) % 3 = 2
    · have literal : (a.quotes + (n + 1)) / 3 = (a.quotes + n) / 3 + 1 := by omega
      have none_left : (a.quotes + (n + 1)) % 3 = 0 := by omega
      simpa [push, pushQuote, third, literal, none_left, List.replicate_succ] using one_more
    · have literal : (a.quotes + (n + 1)) / 3 = (a.quotes + n) / 3 := by omega
      have counted : (a.quotes + (n + 1)) % 3 = (a.quotes + n) % 3 + 1 := by omega
      simpa [push, pushQuote, third, literal, counted, List.replicate_succ] using one_more

/-- An argument is ready for the runs behind it: nothing is counted that a run of quotes at their
head would have to know of. -/
def Ready (a : Argument) : List Run → Prop
  | .quotes b _ :: _ => a.backslashes = 0 ∧ (b = 0 → a.quotes ≤ 1)
  | _ => True

theorem endsAt_eq_false {a : Argument} {c : Char} (h : isBlank c = true → a.flag = 1) :
    a.endsAt c = false := by
  rw [endsAt]
  cases blank : isBlank c with
  | false => rfl
  | true =>
    have inside := h blank
    unfold flag at inside
    have quoted : a.quoted = true := by
      split at inside
      · simpa [quoted]
      · omega
    rw [quoted]
    rfl

/-- The backslashes of a run of quotes are put down, and nothing else is counted with them. The
quotes that come next take half of them back. -/
theorem reads_backslashes_of_ready {a : Argument} {n k : Nat} {rs : List Run}
    (ready : a.Ready (.quotes n k :: rs)) :
    ∃ b, a.Reads (List.replicate n '\\') b ∧ b.start = a.start ∧
      b.written = List.replicate n '\\' ++ a.written ∧
      b.resolved = List.replicate n '\\' ++ a.resolved ∧ b.backslashes = n ∧ b.quotes = a.flag := by
  obtain ⟨none_before, few⟩ := ready
  cases n with
  | zero =>
    refine ⟨a, Reads.nil a, rfl, rfl, rfl, none_before, ?_⟩
    have few := few rfl
    unfold flag
    split <;> omega
  | succ n =>
    refine ⟨_, reads_more_backslashes a n, rfl, rfl, rfl, ?_, rfl⟩
    rw [none_before, Nat.zero_add]

theorem reads_quotes {a : Argument} {n k : Nat} {rs : List Run}
    (ready : a.Ready (.quotes n k :: rs)) (some_quotes : 0 < k) :
    a.Reads (Run.quotes n k).written
      ⟨a.start, (Run.quotes n k).written.reverse ++ a.written,
        List.replicate (n % 2 + (a.flag + k - n % 2) / 3) '"' ++
          (List.replicate (n / 2) '\\' ++ a.resolved),
        (a.flag + k - n % 2) % 3, 0⟩ := by
  obtain ⟨b, reads, start, written, resolved, counted, quotes⟩ := reads_backslashes_of_ready ready
  obtain ⟨k, rfl⟩ : ∃ m, k = m + 1 := ⟨k - 1, (Nat.sub_add_cancel some_quotes).symm⟩
  have few : a.flag ≤ 1 := by
    unfold flag
    split <;> omega
  have first := push_quote counted resolved (quotes ▸ few)
  rw [start, written, quotes] at first
  have others := reads_more_quotes (a := b.push '"') (by rw [first]) (by rw [first]; dsimp only; omega) k
  have all := reads.append (Reads.cons (c := '"') rfl others)
  have total : a.flag + 1 - n % 2 + k = a.flag + (k + 1) - n % 2 := by omega
  have written_again (ds : List Char) :
      List.replicate k '"' ++ '"' :: ds = List.replicate (k + 1) '"' ++ ds := by
    rw [List.replicate_succ', List.append_assoc, List.singleton_append]
  simp only [first, total, written_again] at all
  rw [Nat.add_comm (n % 2), ← List.replicate_append_replicate, List.append_assoc, Run.written,
    List.reverse_append, List.reverse_replicate, List.reverse_replicate, List.append_assoc]
  exact all

/-- A run is read as it is resolved, and leaves the argument ready for the runs behind it. Of all
that is counted only an open quote matters between two runs. -/
theorem reads_run {a : Argument} {r : Run} {rs : List Run} (ready : a.Ready (r :: rs))
    (maximal : Maximal (r :: rs)) (goes_on : r.isBlank = true → a.flag = 1) :
    ∃ b, a.Reads r.written b ∧ b.start = a.start ∧ b.written = r.written.reverse ++ a.written ∧
      b.resolved = (r.resolved a.flag).reverse ++ a.resolved ∧ b.flag = r.flag a.flag ∧
      b.Ready rs := by
  obtain ⟨proper, apart, -⟩ := maximal
  cases r with
  | plain c =>
    have no_quote : c ≠ '"' := proper
    have reads : a.Reads [c] (a.push c) := Reads.cons (endsAt_eq_false goes_on) (Reads.nil _)
    refine ⟨a.push c, reads, start_push a c, written_push a c, ?_, ?_, ?_⟩
    · simp [push, no_quote, Run.resolved]
    · simp only [push, if_neg no_quote, flag, quoted, Run.flag, decide_eq_true_eq]
      split <;> rfl
    · cases rs with
      | nil => trivial
      | cons s rs =>
        cases s with
        | plain d => trivial
        | quotes n k =>
          have no_backslash : c ≠ '\\' := apart _ rfl
          simp only [push, if_neg no_quote, if_neg no_backslash, Ready]
          refine ⟨trivial, fun _ => ?_⟩
          split <;> omega
  | quotes n k =>
    refine ⟨_, reads_quotes ready proper, rfl, rfl, ?_, ?_, ?_⟩
    · simp [Run.resolved]
    · rfl
    · cases rs with
      | nil => trivial
      | cons s rs =>
        cases s with
        | plain d => trivial
        | quotes m l =>
          have some_backslashes : m ≠ 0 := apart _ rfl
          exact ⟨rfl, fun none_before => absurd none_before some_backslashes⟩

end Argument

theorem cutArgument_append (q : Nat) (rs : List Run) :
    (cutArgument q rs).1 ++ (cutArgument q rs).2 = rs := by
  induction rs generalizing q with
  | nil => rfl
  | cons r rs ih =>
    rw [cutArgument]
    split
    · rfl
    · exact congrArg (r :: ·) (ih (r.flag q))

theorem writtenRuns_append (rs ss : List Run) :
    writtenRuns (rs ++ ss) = writtenRuns rs ++ writtenRuns ss :=
  List.flatMap_append

/-- The runs of an argument are read up to where it is cut off, which is the end of the text or a
blank outside quotes. -/
theorem reads_cutArgument {a : Argument} {rs : List Run} (ready : a.Ready rs)
    (maximal : Maximal rs) :
    ∃ b, a.Reads (writtenRuns (cutArgument a.flag rs).1) b ∧
      b.word = ofChars a.start (a.written.reverse ++ writtenRuns (cutArgument a.flag rs).1)
        (a.resolved.reverse ++ resolvedRuns a.flag (cutArgument a.flag rs).1) ∧
      ∀ r ∈ (cutArgument a.flag rs).2.head?, r.isBlank = true ∧ b.quoted = false := by
  induction rs generalizing a with
  | nil =>
    refine ⟨a, Argument.Reads.nil a, ?_, nofun⟩
    rw [cutArgument, writtenRuns, resolvedRuns, List.flatMap_nil, List.append_nil, List.append_nil]
    rfl
  | cons r rs ih =>
    rw [cutArgument]
    split
    next ends =>
      refine ⟨a, Argument.Reads.nil a, ?_, ?_⟩
      · rw [writtenRuns, resolvedRuns, List.flatMap_nil, List.append_nil, List.append_nil]
        rfl
      · rintro _ ⟨rfl⟩
        refine ⟨ends.1, ?_⟩
        have closed : a.quotes ≠ 1 := by
          intro opened
          simp [Argument.flag, opened] at ends
        simp [Argument.quoted, closed]
    next goes_on =>
      have inside : r.isBlank = true → a.flag = 1 := by
        intro blank
        have quoted : a.flag ≠ 0 := fun closed => goes_on ⟨blank, closed⟩
        unfold Argument.flag at quoted ⊢
        split at quoted
        · rw [if_pos ‹_›]
        · exact absurd rfl quoted
      obtain ⟨b, first, start, written, resolved, flag, ready'⟩ :=
        Argument.reads_run ready maximal inside
      obtain ⟨d, others, word, stops⟩ := ih ready' maximal.2.2
      rw [flag] at others word stops
      refine ⟨d, ?_, ?_, stops⟩
      · rw [writtenRuns_cons]
        exact first.append others
      · rw [word, start, written, resolved, writtenRuns_cons, resolvedRuns, List.reverse_append,
          List.reverse_append, List.reverse_reverse, List.reverse_reverse, List.append_assoc,
          List.append_assoc]

theorem written_of_isBlank {r : Run} (blank : r.isBlank = true) :
    ∃ c, r.written = [c] ∧ Word.isBlank c = true := by
  cases r with
  | quotes n k => exact absurd blank nofun
  | plain c => exact ⟨c, rfl, blank⟩

/-- Outside an argument, its runs are read as one word, and the rest as from a blank on. -/
theorem split_inside_runs {a : Argument} {rs : List Run} (ready : a.Ready rs)
    (maximal : Maximal rs) (pos : Nat) :
    (Scanner.inside a).split pos (writtenRuns rs) =
      ofChars a.start (a.written.reverse ++ writtenRuns (cutArgument a.flag rs).1)
          (a.resolved.reverse ++ resolvedRuns a.flag (cutArgument a.flag rs).1) ::
        Scanner.fresh.split (pos + (writtenRuns (cutArgument a.flag rs).1).length)
          (writtenRuns (cutArgument a.flag rs).2) := by
  obtain ⟨b, reads, word, stops⟩ := reads_cutArgument ready maximal
  conv_lhs => rw [← cutArgument_append a.flag rs]
  rw [writtenRuns_append, reads, ← word]
  cases rest : (cutArgument a.flag rs).2 with
  | nil => rfl
  | cons r rs =>
    rw [rest] at stops
    obtain ⟨blank, closed⟩ := stops r rfl
    obtain ⟨c, written, blank⟩ := written_of_isBlank blank
    rw [writtenRuns_cons, written, List.singleton_append, split_inside_of_blank closed]
    · simp [behind, Scanner.split_cons, Scanner.emit?, Scanner.next, blank]
    · rintro _ ⟨rfl⟩
      exact blank

theorem split_blanks (pos : Nat) {blanks : List Run} (blank : ∀ r ∈ blanks, r.isBlank = true)
    (cs : List Char) :
    Scanner.between.split pos (writtenRuns blanks ++ cs) =
      Scanner.between.split (pos + blanks.length) cs := by
  induction blanks generalizing pos with
  | nil => rfl
  | cons r rs ih =>
    obtain ⟨c, written, here⟩ := written_of_isBlank (blank r List.mem_cons_self)
    have others := ih (pos + 1) fun s mem => blank s (List.mem_cons_of_mem r mem)
    rw [writtenRuns_cons, written, List.append_assoc, List.singleton_append, Scanner.split_cons,
      List.length_cons, Nat.add_comm rs.length, ← Nat.add_assoc, ← others]
    simp [Scanner.emit?, Scanner.next, here]

theorem split_fresh_blanks (pos : Nat) (blanks : List Run)
    (blank : ∀ r ∈ blanks, r.isBlank = true) (cs : List Char) :
    Scanner.fresh.split pos (writtenRuns blanks ++ cs) =
      (if blanks = [] then Scanner.fresh else Scanner.between).split (pos + blanks.length) cs := by
  cases blanks with
  | nil => rfl
  | cons r rs =>
    obtain ⟨c, written, here⟩ := written_of_isBlank (blank r List.mem_cons_self)
    rw [if_neg (List.cons_ne_nil r rs), ← split_blanks pos blank, writtenRuns_cons, written,
      List.append_assoc, List.singleton_append, Scanner.split_cons, Scanner.split_cons]
    simp [Scanner.emit?, Scanner.next, here]

theorem head_of_isBlank_eq_false {r : Run} (proper : r.Proper) (full : r.isBlank = false) :
    ∃ c cs, r.written = c :: cs ∧ Word.isBlank c = false := by
  cases r with
  | plain c => exact ⟨c, [], rfl, full⟩
  | quotes n k =>
    cases n with
    | succ n => exact ⟨'\\', _, rfl, rfl⟩
    | zero =>
      obtain ⟨k, rfl⟩ : ∃ m, k = m + 1 := ⟨k - 1, (Nat.sub_add_cancel proper).symm⟩
      exact ⟨'"', _, rfl, rfl⟩

theorem split_begin {s : Scanner} (outside : s = .fresh ∨ s = .between) {r : Run}
    (proper : r.Proper) (full : r.isBlank = false) (pos : Nat) (rs : List Run) :
    s.split pos (writtenRuns (r :: rs)) =
      (Scanner.inside (.begin pos)).split pos (writtenRuns (r :: rs)) := by
  obtain ⟨c, cs, written, here⟩ := head_of_isBlank_eq_false proper full
  have goes_on : (Argument.begin pos).endsAt c = false := by simp [Argument.endsAt, here]
  rw [writtenRuns_cons, written, List.cons_append, Scanner.split_cons, Scanner.split_cons]
  rcases outside with rfl | rfl <;> simp [Scanner.emit?, Scanner.next, here, goes_on]

theorem split_runs (pos : Nat) {rs : List Run} (maximal : Maximal rs) :
    Scanner.fresh.split pos (writtenRuns rs) = argumentsOfRuns pos rs := by
  fun_induction argumentsOfRuns pos rs with
  | case1 pos rs blanks ends none =>
    have whole : rs = [] := by
      rw [← rs.takeWhile_append_dropWhile (p := Run.isBlank), ends, List.append_nil]
      exact none
    rw [whole]
    rfl
  | case2 pos rs blanks ends some =>
    have whole : rs = blanks := by
      conv_lhs => rw [← rs.takeWhile_append_dropWhile (p := Run.isBlank), ends, List.append_nil]
    have passed := split_fresh_blanks pos blanks (fun r => List.mem_takeWhile_imp) []
    rw [if_neg some, List.append_nil] at passed
    rw [whole]
    exact passed
  | case3 pos rs blanks r ahead ends cut own word ih =>
    have whole : blanks ++ r :: ahead = rs := by
      rw [← ends]
      exact rs.takeWhile_append_dropWhile
    rw [← whole] at maximal
    have here := maximal_of_append maximal
    have full : r.isBlank = false := by
      have stops := rs.head?_dropWhile_not Run.isBlank
      rw [ends] at stops
      exact stops
    have passed := split_fresh_blanks pos blanks (fun r => List.mem_takeWhile_imp)
      (writtenRuns (r :: ahead))
    have outside : (if blanks = [] then Scanner.fresh else Scanner.between) = .fresh ∨
        (if blanks = [] then Scanner.fresh else Scanner.between) = .between := by
      split
      · exact .inl rfl
      · exact .inr rfl
    have ready : (Argument.begin (pos + blanks.length)).Ready (r :: ahead) := by
      cases r with
      | plain c => trivial
      | quotes n k => exact ⟨rfl, fun _ => Nat.zero_le 1⟩
    have begins : cutArgument 0 (r :: ahead) = (own, cut.2) := by
      rw [cutArgument, if_neg]
      simp [full]
    have rest : Maximal cut.2 := by
      have both := cutArgument_append (r.flag 0) ahead
      exact maximal_of_append (both ▸ here.2.2)
    have stop : word.stop = pos + blanks.length + (writtenRuns own).length := stop_ofChars ..
    have read := split_inside_runs ready here (pos + blanks.length)
    have closed : (Argument.begin (pos + blanks.length)).flag = 0 := rfl
    rw [closed, begins, ← stop, ih rest] at read
    rw [← whole, writtenRuns_append, passed, split_begin outside here.1 full, read]
    rfl

/-- Among words with gaps between them only the first two can be joined, since what is joined has no
gap before it. -/
theorem joinAttached_eq_joinSecond (a : Word) {ws : List Word}
    (gaps : ws.IsChain (fun a b => a.stop < b.start)) :
    joinAttached a ws = joinSecond (a :: ws) := by
  rcases joinAttached_cases a gaps with ⟨loose, alone⟩ | ⟨b, us, rfl, attached, joined⟩
  · rw [alone]
    cases ws with
    | nil => rfl
    | cons b us =>
      have apart := loose b rfl
      rw [joinSecond, if_neg]
      simpa [attaches] using apart
  · rw [joined, joinSecond, if_pos]
    simpa [attaches] using attached

/-- The words of a line are its first word and the arguments that the longest runs of the rest make,
after the second word was joined to the first if it has to be. -/
theorem split_eq_iff_runs (line : String) (ws : List Word) :
    split line = ws ↔
      ∃ first rs, Opens line.toList first (writtenRuns rs) ∧ Maximal rs ∧
        ws = joinSecond (first :: argumentsOfRuns first.stop rs) := by
  have read {first : Word} {rs : List Run} (opens : Opens line.toList first (writtenRuns rs))
      (maximal : Maximal rs) :
      split line = joinSecond (first :: argumentsOfRuns first.stop rs) := by
    have gaps := Scanner.isChain_gap_split (Scanner.at_fresh first.stop) (writtenRuns rs)
    rw [split, splitChars_eq, opens.readProgram_eq, joinAttached_eq_joinSecond first gaps,
      split_runs first.stop maximal]
  constructor
  · rintro rfl
    have opens := opens_readProgram line.toList
    rw [← writtenRuns_runs (readProgram line.toList).2] at opens
    exact ⟨_, _, opens, maximal_runs _, read opens (maximal_runs _)⟩
  · rintro ⟨first, rs, opens, maximal, rfl⟩
    exact read opens maximal

end LineEdit.Word
