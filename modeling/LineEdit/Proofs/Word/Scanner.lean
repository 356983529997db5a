import LineEdit.Word.Split
import Mathlib.Data.List.Chain

/-!
# Reading arguments one character at a time

The reader of arguments as a machine: a state, the word that a character completes, and the state
after it. Reading two texts one after the other is then reading the second from the state that the
first leaves behind, and moving a text along its line moves its words and changes nothing else.
-/
namespace LineEdit.Word

/-- The word `n` characters further on. -/
def shift (n : Nat) (w : Word) : Word := { w with start := w.start + n }

def Argument.shift (n : Nat) (a : Argument) : Argument := { a with start := a.start + n }

@[simp] theorem Argument.quoted_shift (n : Nat) (a : Argument) : (a.shift n).quoted = a.quoted := rfl

@[simp] theorem Argument.endsAt_shift (n : Nat) (a : Argument) (c : Char) :
    (a.shift n).endsAt c = a.endsAt c := rfl

@[simp] theorem Argument.word_shift (n : Nat) (a : Argument) :
    (a.shift n).word = a.word.shift n := rfl

theorem Argument.push_shift (n : Nat) (a : Argument) (c : Char) :
    (a.shift n).push c = (a.push c).shift n := by
  by_cases quote : c = '"'
  · by_cases odd : a.backslashes % 2 = 1
    · simp [push, pushQuote, shift, quote, odd]
    · by_cases third : a.quotes = 2 <;> simp [push, pushQuote, shift, quote, odd, third]
  · have same := a.quoted_shift n
    simp only [push, if_neg quote, same]
    rfl

@[simp] theorem Argument.start_push (a : Argument) (c : Char) : (a.push c).start = a.start := by
  simp only [push, pushQuote]
  split
  · split
    · rfl
    · split <;> rfl
  · rfl

@[simp] theorem Argument.written_push (a : Argument) (c : Char) :
    (a.push c).written = c :: a.written := by
  by_cases quote : c = '"'
  · simp only [push, pushQuote, if_pos quote]
    split
    · rw [quote]
    · split <;> rw [quote]
  · simp only [push, if_neg quote]

/-- Where a reader of arguments is between two characters: directly behind the first word, behind a
blank, or inside an argument. It is the recursion of the reader as a machine, whose runs can be cut
anywhere. -/
inductive Scanner where
  | fresh
  | between
  | inside (a : Argument)

namespace Scanner

def blank : Scanner → Bool
  | between => true
  | _ => false

def argument : Scanner → Option Argument
  | inside a => some a
  | _ => none

def emit? : Scanner → Char → Option Word
  | inside a, c => if a.endsAt c then some a.word else none
  | _, _ => none

/-- The state after the character `c` at offset `pos`. -/
def next (pos : Nat) (c : Char) : Scanner → Scanner
  | inside a => if a.endsAt c then between else inside (a.push c)
  | _ => if isBlank c then between else inside ((Argument.begin pos).push c)

/-- The state after the characters from offset `pos` on. -/
def after (pos : Nat) : Scanner → List Char → Scanner
  | s, [] => s
  | s, c :: cs => after (pos + 1) (s.next pos c) cs

/-- The words that the characters from offset `pos` on complete. -/
def words (pos : Nat) : Scanner → List Char → List Word
  | _, [] => []
  | s, c :: cs => (s.emit? c).toList ++ words (pos + 1) (s.next pos c) cs

def last (pos : Nat) : Scanner → List Word
  | fresh => []
  | between => [emptyAt pos]
  | inside a => [a.word]

theorem after_append (pos : Nat) (s : Scanner) (cs ds : List Char) :
    s.after pos (cs ++ ds) = (s.after pos cs).after (pos + cs.length) ds := by
  induction cs generalizing pos s with
  | nil => rfl
  | cons c cs ih =>
    simp only [List.cons_append, after, List.length_cons, ih]
    rw [Nat.add_assoc, Nat.add_comm 1]

theorem words_append (pos : Nat) (s : Scanner) (cs ds : List Char) :
    s.words pos (cs ++ ds) =
      s.words pos cs ++ (s.after pos cs).words (pos + cs.length) ds := by
  induction cs generalizing pos s with
  | nil => rfl
  | cons c cs ih =>
    simp only [List.cons_append, words, after, List.length_cons, ih, List.append_assoc]
    rw [Nat.add_assoc, Nat.add_comm 1]

/-- The words of the rest of a line, read from offset `pos` on: those that its characters complete
and the one that its end does. -/
def split (pos : Nat) (s : Scanner) (cs : List Char) : List Word :=
  s.words pos cs ++ (s.after pos cs).last (pos + cs.length)

theorem split_append (pos : Nat) (s : Scanner) (cs ds : List Char) :
    s.split pos (cs ++ ds) = s.words pos cs ++ (s.after pos cs).split (pos + cs.length) ds := by
  simp only [split, words_append, after_append, List.length_append, List.append_assoc,
    Nat.add_assoc]

theorem split_cons (pos : Nat) (s : Scanner) (c : Char) (cs : List Char) :
    s.split pos (c :: cs) = (s.emit? c).toList ++ (s.next pos c).split (pos + 1) cs := by
  simpa [words, after] using s.split_append pos [c] cs

/-- The machine reads the arguments of a line. All that follows about words of a line is about the
machine. -/
theorem readArguments_eq_split (pos : Nat) (s : Scanner) (cs : List Char) :
    readArguments pos s.blank s.argument cs = s.split pos cs := by
  induction cs generalizing pos s with
  | nil => cases s <;> rfl
  | cons c cs ih =>
    rw [split_cons, ← ih]
    cases s with
    | inside a =>
      simp only [argument, readArguments, emit?, next]
      split <;> rfl
    | fresh | between =>
      simp only [argument, readArguments, emit?, next]
      split <;> rfl

def shift (n : Nat) : Scanner → Scanner
  | inside a => inside (a.shift n)
  | s => s

theorem next_shift (n pos : Nat) (c : Char) (s : Scanner) :
    (s.shift n).next (pos + n) c = (s.next pos c).shift n := by
  cases s with
  | inside a =>
    by_cases ends : a.endsAt c <;> simp [shift, next, ends, Argument.push_shift]
  | fresh | between =>
    have begins : Argument.begin (pos + n) = (Argument.begin pos).shift n := rfl
    by_cases blank : isBlank c <;> simp [shift, next, blank, begins, Argument.push_shift]

theorem emit?_shift (n : Nat) (c : Char) (s : Scanner) :
    (s.shift n).emit? c = (s.emit? c).map (Word.shift n) := by
  cases s with
  | inside a => by_cases ends : a.endsAt c <;> simp [shift, emit?, ends]
  | fresh | between => rfl

theorem last_shift (n pos : Nat) (s : Scanner) :
    (s.shift n).last (pos + n) = (s.last pos).map (Word.shift n) := by
  cases s <;> rfl

/-- Moved along its line, a text has the same words further on. The places of words are the only
trace of where they were read. -/
theorem split_shift (n pos : Nat) (s : Scanner) (cs : List Char) :
    (s.shift n).split (pos + n) cs = (s.split pos cs).map (Word.shift n) := by
  induction cs generalizing pos s with
  | nil => exact last_shift n pos s
  | cons c cs ih =>
    rw [split_cons, split_cons, emit?_shift, next_shift, Nat.add_right_comm, ih]
    cases s.emit? c <;> rfl

/-- The reader is at offset `pos`: what it has read of an argument reaches up to there, and is not
nothing. -/
def At (pos : Nat) : Scanner → Prop
  | inside a => a.start + a.written.length = pos ∧ a.written ≠ []
  | _ => True

/-- Where the next word begins at the earliest. -/
def start (pos : Nat) : Scanner → Nat
  | inside a => a.start
  | _ => pos

theorem at_fresh (pos : Nat) : fresh.At pos := trivial

theorem at_between (pos : Nat) : between.At pos := trivial

theorem at_next {pos : Nat} {s : Scanner} (here : s.At pos) (c : Char) :
    (s.next pos c).At (pos + 1) := by
  cases s with
  | inside a =>
    by_cases ends : a.endsAt c
    · rw [next, if_pos ends]
      exact at_between _
    · rw [next, if_neg ends]
      refine ⟨?_, by simp⟩
      rw [Argument.start_push, Argument.written_push, List.length_cons, ← Nat.add_assoc, here.1]
  | fresh | between =>
    by_cases blank : isBlank c
    · simp only [next, if_pos blank]
      exact at_between _
    · simp only [next, if_neg blank]
      refine ⟨?_, by simp⟩
      rw [Argument.start_push, Argument.written_push]
      rfl

theorem at_after {pos : Nat} {s : Scanner} (here : s.At pos) (cs : List Char) :
    (s.after pos cs).At (pos + cs.length) := by
  induction cs generalizing pos s with
  | nil => exact here
  | cons c cs ih =>
    rw [after, List.length_cons, Nat.add_comm cs.length, ← Nat.add_assoc]
    exact ih (at_next here c)

theorem stop_word {pos : Nat} {a : Argument} (here : (inside a).At pos) : a.word.stop = pos := by
  rw [← here.1]
  simp [Argument.word]

theorem stop_lt_of_mem_words {pos : Nat} {s : Scanner} (here : s.At pos) (cs : List Char) :
    ∀ w ∈ s.words pos cs, w.stop < pos + cs.length := by
  induction cs generalizing pos s with
  | nil => simp [words]
  | cons c cs ih =>
    intro w mem
    rcases List.mem_append.mp mem with now | later
    · cases s with
      | inside a =>
        by_cases ends : a.endsAt c
        · simp only [emit?, ends, reduceIte, Option.toList_some, List.mem_singleton] at now
          rw [now, stop_word here, List.length_cons]
          omega
        · simp [emit?, ends] at now
      | fresh | between => simp [emit?] at now
    · have := ih (at_next here c) w later
      rw [List.length_cons]
      omega

/-- Between two words that are read, and between them and a word further left, there is a gap, as
the blank that completes a word belongs to none. -/
theorem isChain_split {pos : Nat} {s : Scanner} (here : s.At pos) (cs : List Char) {w : Word}
    (apart : w.stop < s.start pos) :
    (w :: s.split pos cs).IsChain (fun a b => a.stop < b.start) := by
  induction cs generalizing pos s w with
  | nil =>
    cases s with
    | fresh => exact List.isChain_singleton w
    | between => exact List.isChain_pair.mpr apart
    | inside a => exact List.isChain_pair.mpr apart
  | cons c cs ih =>
    rw [split_cons]
    cases s with
    | inside a =>
      by_cases ends : a.endsAt c
      · have after_word : a.word.stop < (between).start (pos + 1) := by
          rw [stop_word here]
          exact Nat.lt_succ_self pos
        simp only [emit?, next, ends, reduceIte, Option.toList_some, List.singleton_append,
          List.isChain_cons_cons]
        exact ⟨apart, ih (at_between _) after_word⟩
      · have goes_on := at_next here c
        simp only [emit?, next, ends, Bool.false_eq_true, reduceIte, Option.toList_none,
          List.nil_append] at goes_on ⊢
        refine ih goes_on ?_
        rw [start, Argument.start_push]
        exact apart
    | fresh | between =>
      by_cases blank : isBlank c
      · simp only [emit?, next, blank, reduceIte, Option.toList_none, List.nil_append]
        exact ih (at_between _) (Nat.lt_succ_of_lt apart)
      · have begins := at_next (at_fresh pos) c
        simp only [emit?, next, blank, Bool.false_eq_true, reduceIte, Option.toList_none,
          List.nil_append] at begins ⊢
        refine ih begins ?_
        rw [start, Argument.start_push]
        exact apart

/-- Between any two words that are read there is a gap. -/
theorem isChain_gap_split {pos : Nat} {s : Scanner} (here : s.At pos) (cs : List Char) :
    (s.split pos cs).IsChain (fun a b => a.stop < b.start) := by
  -- Moved by one place, the words leave room for a word before them.
  have moved : (s.shift 1).At (pos + 1) := by
    cases s with
    | inside a => exact ⟨by simpa [Argument.shift, Nat.add_right_comm] using here.1, here.2⟩
    | fresh | between => trivial
  have first : (emptyAt 0).stop < (s.shift 1).start (pos + 1) := by
    rw [stop_emptyAt]
    cases s <;> exact Nat.succ_pos _
  have chain := (isChain_split moved cs first).tail
  rw [List.tail_cons, split_shift, List.isChain_map] at chain
  refine chain.imp fun a b gap => ?_
  simp only [Word.shift, stop] at gap ⊢
  omega

end Scanner

end LineEdit.Word
