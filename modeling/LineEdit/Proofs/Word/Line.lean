import LineEdit.Proofs.Word.Scanner
import Mathlib.Data.List.TakeWhile

/-!
# A line as its first word and what follows

The first word takes the characters that it is made of and leaves the rest to the reader of
arguments. Only a word that begins right where the one before it ends can be joined to that one, so
the words of two parts of a line with a gap between them are joined part by part.
-/
namespace LineEdit.Word

@[simp] theorem start_readProgram (cs : List Char) : (readProgram cs).1.start = 0 := by
  unfold readProgram
  split
  · dsimp only
    split <;> rfl
  · rfl

/-- A word that is not quoted runs to the first blank. -/
theorem readProgram_of_ne {c : Char} (h : c ≠ '"') (cs : List Char) :
    readProgram (c :: cs) =
      (ofChars 0 ((c :: cs).takeWhile (!isBlank ·)) ((c :: cs).takeWhile (!isBlank ·)),
        (c :: cs).dropWhile (!isBlank ·)) := by
  unfold readProgram
  split
  next same => exact absurd (List.cons.inj same).1 h
  next => rfl

/-- The first word and the characters after it are the line. -/
theorem written_readProgram_append (cs : List Char) :
    (readProgram cs).1.written.toList ++ (readProgram cs).2 = cs := by
  cases cs with
  | nil => rfl
  | cons c cs =>
    by_cases h : c = '"'
    · subst h
      have cut : cs.takeWhile (· ≠ '"') ++ cs.dropWhile (· ≠ '"') = cs :=
        List.takeWhile_append_dropWhile
      simp only [readProgram]
      split
      next closed =>
        rw [closed, List.append_nil] at cut
        simp only [ofChars, String.toList_ofList, List.append_nil, cut]
      next close rest closed =>
        rw [closed] at cut
        simp only [ofChars, String.toList_ofList, List.cons_append, List.append_assoc,
          List.nil_append, cut]
    · rw [readProgram_of_ne h]
      simp [ofChars]

theorem stop_readProgram_add (cs : List Char) :
    (readProgram cs).1.stop + (readProgram cs).2.length = cs.length := by
  have whole := congrArg List.length (written_readProgram_append cs)
  rw [List.length_append, String.length_toList] at whole
  rw [stop, start_readProgram, Nat.zero_add]
  exact whole

theorem takeWhile_append_of_dropWhile {p : Char → Bool} {cs : List Char}
    (ends : cs.dropWhile p ≠ []) (ds : List Char) : (cs ++ ds).takeWhile p = cs.takeWhile p := by
  rw [List.takeWhile_append, if_neg]
  intro whole
  have cut := congrArg List.length (List.takeWhile_append_dropWhile (p := p) (l := cs))
  rw [List.length_append, whole] at cut
  exact ends (List.length_eq_zero_iff.mp (by omega))

theorem dropWhile_append_of_dropWhile {p : Char → Bool} {cs : List Char}
    (ends : cs.dropWhile p ≠ []) (ds : List Char) :
    (cs ++ ds).dropWhile p = cs.dropWhile p ++ ds := by
  rw [List.dropWhile_append, if_neg (by simpa using ends)]

/-- Once something follows the first word, more text only makes that longer. A first word that is
all of the line may still go on. -/
theorem readProgram_append {cs : List Char} (ends : (readProgram cs).2 ≠ []) (ds : List Char) :
    readProgram (cs ++ ds) = ((readProgram cs).1, (readProgram cs).2 ++ ds) := by
  cases cs with
  | nil => exact absurd rfl ends
  | cons c cs =>
    rw [List.cons_append]
    by_cases h : c = '"'
    · subst h
      cases closed : cs.dropWhile (· ≠ '"') with
      | nil => simp only [readProgram, closed, ne_eq, not_true_eq_false] at ends
      | cons close rest =>
        have opened : cs.dropWhile (· ≠ '"') ≠ [] := by
          rw [closed]
          exact List.cons_ne_nil close rest
        have inside := takeWhile_append_of_dropWhile opened ds
        have outside := dropWhile_append_of_dropWhile opened ds
        simp only [readProgram, inside, outside, closed, List.cons_append]
    · rw [readProgram_of_ne h] at ends ⊢
      rw [readProgram_of_ne h, ← List.cons_append, takeWhile_append_of_dropWhile ends,
        dropWhile_append_of_dropWhile ends]

/-- How a line opens: its first word and the characters behind it. A word that no quote opens runs
to the first blank, and a quoted word through the next quote. Without a next quote it is all there
is. -/
inductive Opens : List Char → Word → List Char → Prop
  | plain {name rest : List Char} : name.head? ≠ some '"' → (∀ c ∈ name, isBlank c = false) →
      (∀ c ∈ rest.head?, isBlank c = true) → Opens (name ++ rest) (ofChars 0 name name) rest
  | closed {inside rest : List Char} : '"' ∉ inside →
      Opens ('"' :: inside ++ '"' :: rest) (ofChars 0 ('"' :: inside ++ ['"']) inside) rest
  | unclosed {inside : List Char} : '"' ∉ inside →
      Opens ('"' :: inside) (ofChars 0 ('"' :: inside) inside) []

theorem takeWhile_append_of_head {A : Type} {p : A → Bool} (cs ds : List A)
    (all : ∀ c ∈ cs, p c = true) (stops : ∀ d ∈ ds.head?, p d = false) :
    (cs ++ ds).takeWhile p = cs ∧ (cs ++ ds).dropWhile p = ds := by
  have none_left : ds.takeWhile p = [] ∧ ds.dropWhile p = ds := by
    cases ds with
    | nil => exact ⟨rfl, rfl⟩
    | cons d ds => simp [stops d rfl]
  rw [List.takeWhile_append_of_pos all, List.dropWhile_append_of_pos all, none_left.1, none_left.2,
    List.append_nil]
  exact ⟨rfl, rfl⟩

theorem opens_readProgram (cs : List Char) : Opens cs (readProgram cs).1 (readProgram cs).2 := by
  cases cs with
  | nil => exact @Opens.plain [] [] nofun (by simp) (by simp)
  | cons c cs =>
    by_cases h : c = '"'
    · subst h
      have inside : '"' ∉ cs.takeWhile (· ≠ '"') := by
        intro mem
        simpa using List.mem_takeWhile_imp mem
      have cut : cs.takeWhile (· ≠ '"') ++ cs.dropWhile (· ≠ '"') = cs :=
        List.takeWhile_append_dropWhile
      simp only [readProgram]
      split
      next closed =>
        rw [closed, List.append_nil] at cut
        conv => arg 1; rw [← cut]
        exact .unclosed inside
      next close rest closed =>
        have quote : close = '"' := by
          have stops := cs.head?_dropWhile_not (· ≠ '"')
          rw [closed] at stops
          simpa using stops
        rw [closed, quote] at cut
        conv => arg 1; rw [← cut]
        rw [quote]
        exact .closed inside
    · rw [readProgram_of_ne h]
      have cut : (c :: cs).takeWhile (!isBlank ·) ++ (c :: cs).dropWhile (!isBlank ·) = c :: cs :=
        List.takeWhile_append_dropWhile
      conv => arg 1; rw [← cut]
      refine .plain ?_ ?_ ?_
      · rw [List.takeWhile_cons]
        split
        · simpa using h
        · nofun
      · intro d mem
        simpa using List.mem_takeWhile_imp mem
      · intro d mem
        have stops := (c :: cs).head?_dropWhile_not (!isBlank ·)
        rw [Option.mem_def.mp mem] at stops
        simpa using stops

/-- A line opens in one way only. -/
theorem Opens.readProgram_eq {cs rest : List Char} {w : Word} (h : Opens cs w rest) :
    readProgram cs = (w, rest) := by
  cases h with
  | @plain name _ no_quote full stops =>
    obtain ⟨own, others⟩ := takeWhile_append_of_head (p := (!isBlank ·)) name rest
      (fun c mem => by simp [full c mem]) (fun c mem => by simp [stops c mem])
    cases line : name ++ rest with
    | nil =>
      obtain ⟨rfl, rfl⟩ := List.append_eq_nil_iff.mp line
      rfl
    | cons c cs =>
      rw [line] at own others
      have plain : c ≠ '"' := by
        rintro rfl
        cases name with
        | nil =>
          obtain rfl : rest = '"' :: cs := line
          exact absurd (stops '"' rfl) (by decide)
        | cons d ds => exact no_quote (congrArg some (List.cons.inj line).1)
      rw [readProgram_of_ne plain, own, others]
  | @closed inside _ no_quote =>
    obtain ⟨own, others⟩ := takeWhile_append_of_head (p := (· ≠ '"')) inside
      ('"' :: rest) (fun c mem => by simpa using ne_of_mem_of_not_mem mem no_quote) (by simp)
    simp only [readProgram, List.cons_append, own, others]
  | @unclosed inside no_quote =>
    obtain ⟨own, others⟩ := takeWhile_append_of_head (p := (· ≠ '"')) inside
      [] (fun c mem => by simpa using ne_of_mem_of_not_mem mem no_quote) (by simp)
    rw [List.append_nil] at own others
    simp only [readProgram, own, others]

theorem stop_eq_of_attaches {a b : Word} (h : attaches a b) : a.stop = b.start := by
  simp only [attaches, Bool.and_eq_true, decide_eq_true_eq] at h
  exact h.2

theorem isEmpty_of_attaches {a b : Word} (h : attaches a b) : b.isEmpty = false := by
  simp only [attaches, Bool.and_eq_true, decide_eq_true_eq] at h
  rw [isEmpty, ← Bool.not_eq_true, String.isEmpty_iff]
  intro none
  rw [none] at h
  exact absurd h.1 (by decide)

theorem stop_join {a b : Word} (touch : a.stop = b.start) : (a.join b).stop = b.stop := by
  simp only [join, stop, String.length_append] at touch ⊢
  omega

theorem joinAttached_ne_nil (a : Word) (ws : List Word) : joinAttached a ws ≠ [] := by
  induction ws generalizing a with
  | nil => simp [joinAttached]
  | cons b ws ih =>
    rw [joinAttached]
    split
    · exact ih (a.join b)
    · exact List.cons_ne_nil _ _

theorem joinAttached_append (a : Word) (ws : List Word) (v : Word) (vs : List Word)
    (gap : ∀ u ∈ (a :: ws).getLast?, u.stop ≠ v.start) :
    joinAttached a (ws ++ v :: vs) = joinAttached a ws ++ joinAttached v vs := by
  induction ws generalizing a with
  | nil =>
    have apart : a.stop ≠ v.start := gap a rfl
    have alone : attaches a v = false :=
      Bool.eq_false_iff.mpr fun h => apart (stop_eq_of_attaches h)
    simp [joinAttached, alone]
  | cons b ws ih =>
    simp only [List.cons_append, joinAttached]
    by_cases h : attaches a b
    · rw [if_pos h, if_pos h]
      refine ih (a.join b) ?_
      cases ws with
      | nil => simpa [stop_join (stop_eq_of_attaches h)] using gap
      | cons c ws => simpa [List.getLast?_cons_cons] using gap
    · rw [if_neg h, if_neg h, List.cons_append]
      refine congrArg (a :: ·) (ih b ?_)
      simpa [List.getLast?_cons_cons] using gap

/-- Words with gaps between them stay as they are. -/
theorem joinAttached_of_isChain (a : Word) (ws : List Word)
    (gaps : (a :: ws).IsChain (fun a b => a.stop < b.start)) : joinAttached a ws = a :: ws := by
  induction ws generalizing a with
  | nil => rfl
  | cons b ws ih =>
    rw [List.isChain_cons_cons] at gaps
    have alone : attaches a b = false :=
      Bool.eq_false_iff.mpr fun h => absurd (stop_eq_of_attaches h) (Nat.ne_of_lt gaps.1)
    rw [joinAttached, alone, ih b gaps.2]
    rfl

/-- Before words with gaps between them, a word takes up the first of them or stays alone. -/
theorem joinAttached_cases (a : Word) {ws : List Word}
    (gaps : ws.IsChain (fun a b => a.stop < b.start)) :
    ((∀ b ∈ ws.head?, attaches a b = false) ∧ joinAttached a ws = a :: ws) ∨
      ∃ b us, ws = b :: us ∧ attaches a b = true ∧ joinAttached a ws = a.join b :: us := by
  cases ws with
  | nil => exact .inl ⟨nofun, rfl⟩
  | cons b us =>
    rw [joinAttached]
    split
    next attached =>
      refine .inr ⟨b, us, rfl, attached, joinAttached_of_isChain _ _ ?_⟩
      rw [List.isChain_cons] at gaps ⊢
      rwa [stop_join (stop_eq_of_attaches attached)]
    next loose =>
      refine .inl ⟨?_, by rw [joinAttached_of_isChain b us gaps]⟩
      rintro _ ⟨rfl⟩
      exact eq_false_of_ne_true loose

theorem isEmpty_last_of_joinAttached (a : Word) (ws : List Word)
    (h : (joinAttached a ws).getLast?.any isEmpty) : (a :: ws).getLast?.any isEmpty := by
  induction ws generalizing a with
  | nil => exact h
  | cons b ws ih =>
    rw [List.getLast?_cons_cons]
    rw [joinAttached] at h
    by_cases joined : attaches a b
    · rw [if_pos joined] at h
      have last := ih (a.join b) h
      cases ws with
      | nil =>
        have full := isEmpty_of_attaches joined
        simp_all [isEmpty, join]
      | cons c ws => simpa [List.getLast?_cons_cons] using last
    · rw [if_neg joined] at h
      refine ih b ?_
      cases tail : joinAttached b ws with
      | nil => exact absurd tail (joinAttached_ne_nil b ws)
      | cons c cs => simpa [tail, List.getLast?_cons_cons] using h

theorem splitChars_eq (cs : List Char) :
    splitChars cs = joinAttached (readProgram cs).1
      (Scanner.fresh.split (readProgram cs).1.stop (readProgram cs).2) := by
  rw [← Scanner.readArguments_eq_split]
  rfl

theorem after_ne_fresh (pos : Nat) (s : Scanner) {cs : List Char} (some_read : cs ≠ []) :
    s.after pos cs ≠ .fresh := by
  have next_ne (s : Scanner) (pos : Nat) (c : Char) : s.next pos c ≠ .fresh := by
    cases s <;> simp only [Scanner.next] <;> split <;> simp
  induction cs generalizing pos s with
  | nil => exact absurd rfl some_read
  | cons c cs ih =>
    cases cs with
    | nil => exact next_ne s pos c
    | cons d cs => exact ih (pos + 1) (s.next pos c) (List.cons_ne_nil d cs)

theorem written_ne_empty_of_at {pos : Nat} {a : Argument} (here : (Scanner.inside a).At pos) :
    a.word.isEmpty = false := by
  rw [isEmpty, ← Bool.not_eq_true, String.isEmpty_iff, ← String.toList_eq_nil_iff]
  simpa [Argument.word, ofChars] using here.2

/-- A line that is not empty and whose last word is ends between words. An argument is never empty,
so that the empty word can only come from a blank. -/
theorem after_eq_between {cs : List Char} (some_chars : cs ≠ [])
    (gap : (splitChars cs).getLast?.any isEmpty) :
    Scanner.fresh.after (readProgram cs).1.stop (readProgram cs).2 = .between := by
  rw [splitChars_eq] at gap
  have last := isEmpty_last_of_joinAttached _ _ gap
  have here : (Scanner.fresh.after (readProgram cs).1.stop (readProgram cs).2).At
      ((readProgram cs).1.stop + (readProgram cs).2.length) := Scanner.at_after (Scanner.at_fresh _) _
  cases state : Scanner.fresh.after (readProgram cs).1.stop (readProgram cs).2 with
  | between => rfl
  | inside a =>
    rw [state] at here
    have full := written_ne_empty_of_at here
    rw [Scanner.split, state, Scanner.last, ← List.cons_append, List.getLast?_concat] at last
    simp [full] at last
  | fresh =>
    have nothing : (readProgram cs).2 = [] := by
      by_contra some_rest
      exact after_ne_fresh _ _ some_rest state
    have whole := written_readProgram_append cs
    rw [nothing, List.append_nil] at whole
    rw [nothing] at last
    have empty : (readProgram cs).1.written = "" := by
      simpa [Scanner.split, Scanner.words, Scanner.after, Scanner.last, isEmpty] using last
    rw [empty] at whole
    exact absurd whole.symm some_chars

/-- The words of a line up to the blank that it ends in. -/
def closedWords (cs : List Char) : List Word :=
  joinAttached (readProgram cs).1
    (Scanner.fresh.words (readProgram cs).1.stop (readProgram cs).2)

/-- More text read from between two words leaves the words before alone. A gap stands between the
two parts, over which nothing is joined. -/
theorem splitChars_append {cs : List Char} (ends : (readProgram cs).2 ≠ [])
    (between : Scanner.fresh.after (readProgram cs).1.stop (readProgram cs).2 = .between)
    (ds : List Char) (v : Word) (vs : List Word) (start_eq : v.start = cs.length)
    (more : Scanner.between.split cs.length ds = v :: vs) :
    splitChars (cs ++ ds) = closedWords cs ++ joinAttached v vs := by
  have whole := stop_readProgram_add cs
  have rest_pos := List.length_pos_of_ne_nil ends
  rw [splitChars_eq, readProgram_append ends]
  dsimp only
  rw [Scanner.split_append, between, whole, more]
  refine joinAttached_append _ _ _ _ fun u last => ?_
  rw [start_eq]
  have mem := List.mem_of_getLast? last
  rcases List.mem_cons.mp mem with rfl | mem
  · omega
  · have before := Scanner.stop_lt_of_mem_words (Scanner.at_fresh _) _ u mem
    omega

end LineEdit.Word
