import LineEdit.Proofs.Word.Line
import LineEdit.Text.Offset

/-!
# Words tile their line

The words of a line follow one another from its first character to its last, with nothing but blanks
between them. The reader of arguments keeps this with every character: what it has read of an
argument reaches up to where it is, and so do the blanks behind a word that is done. Only the first
word can touch the next one, where it is quoted, and only the first and the last can be empty. So
each offset of the line belongs to one word, the last that starts at or before it.

The words of the reader tile what it reads; joining the first two keeps this for the whole line, and
offsets are looked up in the tiling of the line.
-/
namespace LineEdit.Word

open Text

/-- The words stand on the characters from offset `pos` on, with blanks between them. Taken
together, words and blanks are all of these characters. -/
inductive Tiles : Nat → List Char → List Word → Prop
  | last {pos : Nat} {cs : List Char} {w : Word} : w.start = pos → w.written.toList = cs →
      Tiles pos cs [w]
  | cons {pos : Nat} {cs gap rest : List Char} {w : Word} {ws : List Word} : w.start = pos →
      w.written.toList ++ (gap ++ rest) = cs → (∀ c ∈ gap, isBlank c = true) →
      Tiles (w.stop + gap.length) rest ws → Tiles pos cs (w :: ws)

namespace Tiles

variable {pos : Nat} {cs : List Char} {ws : List Word}

theorem start_head (h : Tiles pos cs ws) : ∃ w, ws.head? = some w ∧ w.start = pos := by
  cases h with
  | last start written => exact ⟨_, rfl, start⟩
  | cons start written blank rest => exact ⟨_, rfl, start⟩

theorem stop_last (h : Tiles pos cs ws) :
    ∃ w, ws.getLast? = some w ∧ w.stop = pos + cs.length := by
  induction h with
  | @last pos cs w start written =>
    refine ⟨w, rfl, ?_⟩
    rw [stop, start, ← String.length_toList, written]
  | @cons pos cs gap rest w ws start written blank tiles ih =>
    obtain ⟨v, last, stop_eq⟩ := ih
    obtain ⟨u, head, -⟩ := tiles.start_head
    refine ⟨v, ?_, ?_⟩
    · cases ws with
      | nil => simp at head
      | cons x xs => rw [List.getLast?_cons_cons, last]
    · rw [stop_eq, ← written, stop, start, List.length_append, List.length_append,
        String.length_toList]
      omega

theorem stop_le (h : Tiles pos cs ws) : ∀ w ∈ ws, w.stop ≤ pos + cs.length := by
  induction h with
  | @last pos cs w start written =>
    intro v mem
    obtain rfl := List.mem_singleton.mp mem
    rw [stop, start, ← String.length_toList, written]
  | @cons pos cs gap rest w ws start written blank tiles ih =>
    have whole := congrArg List.length written
    rw [List.length_append, List.length_append, String.length_toList] at whole
    rw [stop, start] at ih
    intro v mem
    rcases List.mem_cons.mp mem with rfl | mem
    · rw [stop, start]
      omega
    · have later := ih v mem
      omega

theorem length_through {w : Word} {before : List Char} (start : w.start = pos)
    (length : before.length = pos) : (before ++ w.written.toList).length = w.stop := by
  rw [List.length_append, length, Word.stop, start, String.length_toList]

/-- Behind a text that ends at offset `pos`, each word is what the whole text has at its place. By
induction on the words, with the ones before put to the text. -/
theorem written_eq (h : Tiles pos cs ws) (before : List Char) (length : before.length = pos) :
    ∀ w ∈ ws, w.written.toList = ((before ++ cs).take w.stop).drop w.start := by
  induction h generalizing before with
  | @last pos cs w start written =>
    intro v mem
    obtain rfl := List.mem_singleton.mp mem
    have stop : v.stop = (before ++ cs).length := by
      rw [Word.stop, start, ← String.length_toList, written, List.length_append, length]
    rw [stop, List.take_length, start, ← length, List.drop_left, written]
  | @cons pos cs gap rest w ws start written blank tiles ih =>
    intro v mem
    rcases List.mem_cons.mp mem with rfl | mem
    · have own := length_through start length
      rw [← written, ← List.append_assoc, List.take_left' own, start, ← length, List.drop_left]
    · have further : (before ++ (w.written.toList ++ gap)).length = w.stop + gap.length := by
        rw [← List.append_assoc, List.length_append, length_through start length]
      have later := ih _ further v mem
      rwa [List.append_assoc, List.append_assoc, written] at later

theorem isChain_between (h : Tiles pos cs ws) (before : List Char) (length : before.length = pos) :
    ws.IsChain fun a b => a.stop ≤ b.start ∧
      ∀ c ∈ ((before ++ cs).take b.start).drop a.stop, isBlank c = true := by
  induction h generalizing before with
  | last => exact List.isChain_singleton _
  | @cons pos cs gap rest w ws start written blank tiles ih =>
    have own := length_through start length
    have further : (before ++ (w.written.toList ++ gap)).length = w.stop + gap.length := by
      rw [← List.append_assoc, List.length_append, own]
    have chain := ih _ further
    rw [List.append_assoc, List.append_assoc, written] at chain
    rw [List.isChain_cons]
    refine ⟨?_, chain⟩
    intro b head
    obtain ⟨u, same, begins⟩ := tiles.start_head
    obtain rfl := Option.some.inj (same.symm.trans head)
    refine ⟨by omega, ?_⟩
    have split : before ++ cs = (before ++ w.written.toList) ++ gap ++ rest := by
      simp [← written]
    have both : ((before ++ w.written.toList) ++ gap).length = u.start := by
      rw [List.length_append, own, begins]
    rw [split, List.take_left' both, List.drop_left' own]
    exact blank

theorem join {a b : Word} (h : Tiles pos cs (a :: b :: ws)) (touch : a.stop = b.start) :
    Tiles pos cs (a.join b :: ws) := by
  cases h with
  | @cons _ _ gap rest _ _ start written blank tiles =>
    obtain ⟨u, head, begins⟩ := tiles.start_head
    obtain rfl := Option.some.inj head
    have no_gap : gap = [] := List.length_eq_zero_iff.mp (by omega)
    subst no_gap
    have joined : (a.join b).written.toList = a.written.toList ++ b.written.toList :=
      String.toList_append
    cases tiles with
    | last _ written' =>
      refine .last start ?_
      rw [joined, written', ← written, List.nil_append]
    | @cons _ _ gap' rest' _ _ _ written' blank' tiles' =>
      refine @cons _ _ gap' rest' _ _ start ?_ blank' ?_
      · rw [joined, ← written, ← written', List.nil_append, List.append_assoc]
      · rwa [stop_join touch]

end Tiles

/-- The words of an argument under way tile what is read of it and the rest of the line. Between
words there may be more blanks before the next one. -/
theorem tiles_split (cs : List Char) :
    (∀ pos a, (Scanner.inside a).At pos →
      Tiles a.start (a.written.reverse ++ cs) ((Scanner.inside a).split pos cs)) ∧
    ∀ pos, ∃ gap rest, cs = gap ++ rest ∧ (∀ c ∈ gap, isBlank c = true) ∧
      Tiles (pos + gap.length) rest (Scanner.between.split pos cs) := by
  induction cs with
  | nil =>
    constructor
    · intro pos a here
      refine .last rfl ?_
      simp [Argument.word, ofChars]
    · intro pos
      exact ⟨[], [], rfl, List.forall_mem_nil _, .last rfl rfl⟩
  | cons c cs ih =>
    obtain ⟨inside, between⟩ := ih
    constructor
    · intro pos a here
      rw [Scanner.split_cons]
      cases ends : a.endsAt c with
      | false =>
        have goes_on := Scanner.at_next here c
        simp only [Scanner.emit?, Scanner.next, ends, Bool.false_eq_true, if_false,
          Option.toList_none, List.nil_append] at goes_on ⊢
        have tiles := inside _ _ goes_on
        rw [Argument.start_push, Argument.written_push, List.reverse_cons, List.append_assoc] at tiles
        exact tiles
      | true =>
        obtain ⟨gap, rest, whole, blank, tiles⟩ := between (pos + 1)
        have here_blank : isBlank c = true := by
          simp only [Argument.endsAt, Bool.and_eq_true] at ends
          exact ends.1
        simp only [Scanner.emit?, Scanner.next, ends, if_true, Option.toList_some,
          List.singleton_append]
        refine @Tiles.cons _ _ (c :: gap) rest _ _ rfl ?_ ?_ ?_
        · simp [Argument.word, ofChars, whole]
        · intro d mem
          rcases List.mem_cons.mp mem with rfl | mem
          · exact here_blank
          · exact blank d mem
        · rw [Scanner.stop_word here, List.length_cons, Nat.add_comm gap.length, ← Nat.add_assoc]
          exact tiles
    · intro pos
      rw [Scanner.split_cons]
      cases blank : isBlank c with
      | true =>
        obtain ⟨gap, rest, whole, others, tiles⟩ := between (pos + 1)
        refine ⟨c :: gap, rest, congrArg (c :: ·) whole, ?_, ?_⟩
        · intro d mem
          rcases List.mem_cons.mp mem with rfl | mem
          · exact blank
          · exact others d mem
        · simp only [Scanner.emit?, Scanner.next, blank, if_true, Option.toList_none,
            List.nil_append]
          rw [List.length_cons, Nat.add_comm gap.length, ← Nat.add_assoc]
          exact tiles
      | false =>
        have begins := Scanner.at_next (Scanner.at_between pos) c
        simp only [Scanner.emit?, Scanner.next, blank, Bool.false_eq_true, if_false,
          Option.toList_none, List.nil_append] at begins ⊢
        have tiles := inside _ _ begins
        rw [Argument.start_push, Argument.written_push] at tiles
        exact ⟨[], c :: cs, rfl, List.forall_mem_nil _, tiles⟩

theorem isEmpty_of_mem_words {pos : Nat} {s : Scanner} (here : s.At pos) (cs : List Char) :
    ∀ w ∈ s.words pos cs, w.isEmpty = false := by
  induction cs generalizing pos s with
  | nil => exact List.forall_mem_nil _
  | cons c cs ih =>
    intro w mem
    rcases List.mem_append.mp mem with now | later
    · cases s with
      | inside a =>
        rw [Scanner.emit?] at now
        split at now
        · obtain rfl := List.mem_singleton.mp now
          exact written_ne_empty_of_at here
        · exact absurd now List.not_mem_nil
      | fresh | between => exact absurd now List.not_mem_nil
    · exact ih (Scanner.at_next here c) w later

theorem isEmpty_of_mem_dropLast_split {pos : Nat} {s : Scanner} (here : s.At pos) (cs : List Char) :
    ∀ w ∈ (s.split pos cs).dropLast, w.isEmpty = false := by
  intro w mem
  apply isEmpty_of_mem_words here cs
  rw [Scanner.split] at mem
  cases state : s.after pos cs with
  | fresh =>
    rw [state, Scanner.last, List.append_nil] at mem
    exact List.dropLast_subset _ mem
  | between | inside a =>
    rw [state, Scanner.last, List.dropLast_concat] at mem
    exact mem

/-- The word is quoted, and nothing stands behind the quote that closes it. -/
def ClosedQuote (w : Word) : Prop :=
  ∃ inside, '"' ∉ inside ∧ w.written.toList = '"' :: inside ++ ['"']

theorem Opens.start_eq {cs rest : List Char} {w : Word} (h : Opens cs w rest) : w.start = 0 := by
  cases h <;> rfl

theorem Opens.written_append {cs rest : List Char} {w : Word} (h : Opens cs w rest) :
    w.written.toList ++ rest = cs := by
  cases h <;> simp [ofChars]

theorem lt_start_of_isBlank {c : Char} (blank : isBlank c = true) (pos : Nat) (cs : List Char) :
    ∀ b ∈ (Scanner.fresh.split pos (c :: cs)).head?, pos < b.start := by
  intro b head
  have passed : Scanner.fresh.split pos (c :: cs) = Scanner.between.split (pos + 1) cs := by
    simp [Scanner.split_cons, Scanner.emit?, Scanner.next, blank]
  obtain ⟨gap, rest, -, -, tiles⟩ := (tiles_split cs).2 (pos + 1)
  obtain ⟨u, same, begins⟩ := tiles.start_head
  rw [passed, same] at head
  obtain rfl := Option.some.inj head
  omega

theorem Opens.tiles {cs rest : List Char} {w : Word} (h : Opens cs w rest) :
    Tiles 0 cs (w :: Scanner.fresh.split w.stop rest) := by
  have whole := h.written_append
  cases rest with
  | nil => exact .last h.start_eq (by rwa [List.append_nil] at whole)
  | cons c rest =>
    obtain ⟨gap, others, split, blank, tiles⟩ := (tiles_split (c :: rest)).2 w.stop
    exact .cons h.start_eq (split ▸ whole) blank tiles

/-- An argument touches the first word only behind the quote that closes it. -/
theorem Opens.closedQuote {cs rest : List Char} {w : Word} (h : Opens cs w rest) :
    ∀ b ∈ (Scanner.fresh.split w.stop rest).head?, w.stop = b.start → ClosedQuote w := by
  intro b head touch
  cases h with
  | @plain name _ no_quote full stops =>
    cases rest with
    | nil => exact absurd head nofun
    | cons c rest =>
      have apart := lt_start_of_isBlank (stops c rfl) _ rest b head
      exact absurd touch (Nat.ne_of_lt apart)
  | @closed inside _ no_quote => exact ⟨inside, no_quote, String.toList_ofList⟩
  | unclosed => exact absurd head nofun

/-- How the first word `w` and the others stand on a line. Only the first two can touch, and behind
the first no word but the last is empty. -/
structure Laid (cs : List Char) (w : Word) (ws : List Word) : Prop where
  tiles : Tiles 0 cs (w :: ws)
  gaps : ws.IsChain (fun a b => a.stop < b.start)
  touching : ∀ b ∈ ws.head?, w.stop = b.start →
    ClosedQuote w ∧ b.written.toList.head? ≠ some '\\'
  full : ∀ v ∈ ws.dropLast, v.isEmpty = false

theorem exists_laid (cs : List Char) : ∃ w ws, splitChars cs = w :: ws ∧ Laid cs w ws := by
  have opens := opens_readProgram cs
  have gaps := Scanner.isChain_gap_split (Scanner.at_fresh (readProgram cs).1.stop) (readProgram cs).2
  have tiles := opens.tiles
  have closed := opens.closedQuote
  have full := isEmpty_of_mem_dropLast_split (Scanner.at_fresh (readProgram cs).1.stop)
    (readProgram cs).2
  rw [splitChars_eq]
  generalize Scanner.fresh.split (readProgram cs).1.stop (readProgram cs).2 = ws at *
  rcases joinAttached_cases (readProgram cs).1 gaps with
    ⟨loose, alone⟩ | ⟨b, us, rfl, attached, joined⟩
  · refine ⟨_, ws, alone, tiles, gaps, ?_, full⟩
    intro b head touch
    refine ⟨closed b head touch, ?_⟩
    intro backslash
    have apart := loose b head
    simp [attaches, backslash, touch] at apart
  · have touch := stop_eq_of_attaches attached
    rw [List.isChain_cons] at gaps
    refine ⟨_, us, joined, tiles.join touch, gaps.2, ?_, ?_⟩
    · intro c head meets
      have apart := gaps.1 c head
      rw [stop_join touch] at meets
      exact absurd meets (Nat.ne_of_lt apart)
    · intro v mem
      apply full v
      cases us with
      | nil => exact absurd mem List.not_mem_nil
      | cons u us => exact List.mem_cons_of_mem b mem

theorem isChain_getElem? {R : Word → Word → Prop} {ws : List Word} (h : ws.IsChain R) {i : Nat}
    {a b : Word} (ha : ws[i]? = some a) (hb : ws[i + 1]? = some b) : R a b := by
  obtain ⟨_, rfl⟩ := List.getElem?_eq_some_iff.mp ha
  obtain ⟨inside, rfl⟩ := List.getElem?_eq_some_iff.mp hb
  exact List.isChain_iff_getElem.mp h i inside

/-- How words lie on their line. Between two that follow one another stand blanks, or nothing behind
a quoted first word. Only the first word and the last one can be empty. -/
structure Tiling (line : String) (ws : List Word) : Prop where
  first : ∃ w, ws.head? = some w ∧ w.start = 0
  last : ∃ w, ws.getLast? = some w ∧ w.stop = line.length
  increasing : ws.Pairwise (fun a b => a.start < b.start)
  written : ∀ w ∈ ws, w.written = slice line w.start w.stop
  between : ∀ i a b, ws[i]? = some a → ws[i + 1]? = some b →
    a.stop ≤ b.start ∧ ∀ c ∈ (slice line a.stop b.start).toList, isBlank c = true
  empty : ∀ i w, ws[i]? = some w → w.isEmpty = true → i = 0 ∨ i + 1 = ws.length
  touching : ∀ i a b, ws[i]? = some a → ws[i + 1]? = some b → a.stop = b.start →
    i = 0 ∧ ClosedQuote a ∧ b.written.toList.head? ≠ some '\\'

theorem start_lt_stop_of_closedQuote {w : Word} (h : ClosedQuote w) : w.start < w.stop := by
  obtain ⟨inside, -, written⟩ := h
  have length := congrArg List.length written
  rw [String.length_toList, List.length_append, List.length_cons] at length
  rw [stop]
  omega

theorem Laid.tiling {line : String} {w : Word} {ws : List Word} (h : Laid line.toList w ws) :
    Tiling line (w :: ws) := by
  obtain ⟨tiles, gaps, touching, full⟩ := h
  have chain := tiles.isChain_between [] rfl
  have touches : ∀ i a b, (w :: ws)[i]? = some a → (w :: ws)[i + 1]? = some b →
      a.stop = b.start → i = 0 ∧ ClosedQuote a ∧ b.written.toList.head? ≠ some '\\' := by
    intro i a b ha hb touch
    cases i with
    | zero =>
      obtain rfl : w = a := Option.some.inj ha
      refine ⟨rfl, touching b ?_ touch⟩
      rwa [List.getElem?_cons_succ, ← List.head?_eq_getElem?] at hb
    | succ i =>
      have gap := isChain_getElem? gaps ha hb
      exact absurd touch (Nat.ne_of_lt gap)
  have steps : (w :: ws).IsChain (fun a b => a.start < b.start) := by
    rw [List.isChain_iff_getElem]
    intro i inside
    have ha := List.getElem?_eq_getElem (Nat.lt_of_succ_lt inside)
    have hb := List.getElem?_eq_getElem inside
    have order := (isChain_getElem? chain ha hb).1
    rcases Nat.lt_or_eq_of_le order with apart | touch
    · exact Nat.lt_of_le_of_lt (Nat.le_add_right _ _) apart
    · have full := start_lt_stop_of_closedQuote (touches i _ _ ha hb touch).2.1
      exact Nat.lt_of_lt_of_eq full touch
  constructor
  case first => exact tiles.start_head
  case last =>
    obtain ⟨v, last, stop⟩ := tiles.stop_last
    exact ⟨v, last, by rw [stop, Nat.zero_add, String.length_toList]⟩
  case increasing =>
    have : Trans (fun a b : Word => a.start < b.start) (fun a b : Word => a.start < b.start)
        (fun a b : Word => a.start < b.start) := ⟨Nat.lt_trans⟩
    exact List.isChain_iff_pairwise.mp steps
  case written =>
    intro v mem
    apply String.toList_injective
    rw [toList_slice]
    exact tiles.written_eq [] rfl v mem
  case between =>
    intro i a b ha hb
    rw [toList_slice]
    exact isChain_getElem? chain ha hb
  case empty =>
    intro i v hv empty
    cases i with
    | zero => exact .inl rfl
    | succ i =>
      rw [List.getElem?_cons_succ] at hv
      obtain ⟨inside, same⟩ := List.getElem?_eq_some_iff.mp hv
      right
      rw [List.length_cons]
      by_contra inner
      have mem : v ∈ ws.dropLast := by
        rw [List.mem_iff_getElem]
        refine ⟨i, ?_, ?_⟩
        · rw [List.length_dropLast]
          omega
        · rw [List.getElem_dropLast, same]
      exact absurd empty (by simp [full v mem])
  case touching => exact touches

/-- The offset belongs to word number `i`: it is not before that word, and before the next one. -/
def Covers (ws : List Word) (offset i : Nat) : Prop :=
  ∃ w, ws[i]? = some w ∧ w.start ≤ offset ∧ ∀ next, ws[i + 1]? = some next → offset < next.start

theorem indexAt_eq_none_iff (offset : Nat) (ws : List Word) :
    indexAt offset ws = none ↔ ∀ w ∈ ws, offset < w.start := by
  induction ws with
  | nil => exact ⟨fun _ => nofun, fun _ => rfl⟩
  | cons w ws ih =>
    rw [indexAt, List.forall_mem_cons, ← ih]
    cases indexAt offset ws with
    | some i => simp
    | none => simp

theorem covers_succ_iff (w : Word) (ws : List Word) (offset i : Nat) :
    Covers (w :: ws) offset (i + 1) ↔ Covers ws offset i := Iff.rfl

theorem covers_zero_iff {w : Word} {ws : List Word}
    (increasing : ws.Pairwise (fun a b => a.start < b.start)) (offset : Nat) :
    Covers (w :: ws) offset 0 ↔ w.start ≤ offset ∧ indexAt offset ws = none := by
  rw [indexAt_eq_none_iff]
  constructor
  · rintro ⟨v, same, here, next⟩
    obtain rfl : w = v := Option.some.inj same
    refine ⟨here, ?_⟩
    cases ws with
    | nil => exact nofun
    | cons u us =>
      have before : offset < u.start := next u rfl
      intro v mem
      rcases List.mem_cons.mp mem with rfl | mem
      · exact before
      · exact Nat.lt_trans before (List.rel_of_pairwise_cons increasing mem)
  · rintro ⟨here, behind⟩
    refine ⟨w, rfl, here, ?_⟩
    intro next second
    exact behind next (List.mem_of_getElem? second)

/-- Of words that start further and further right, the word at an offset is the one that the offset
belongs to. -/
theorem indexAt_eq_some_iff {ws : List Word} (increasing : ws.Pairwise (fun a b => a.start < b.start))
    (offset i : Nat) : indexAt offset ws = some i ↔ Covers ws offset i := by
  induction ws generalizing i with
  | nil =>
    constructor
    · exact nofun
    · rintro ⟨w, none, -⟩
      exact absurd none nofun
  | cons w ws ih =>
    have increasing := increasing.of_cons
    have ih := ih increasing
    rw [indexAt]
    cases i with
    | zero =>
      rw [covers_zero_iff increasing]
      cases indexAt offset ws <;> simp
    | succ i =>
      rw [covers_succ_iff, ← ih]
      cases indexAt offset ws with
      | some k => simp
      | none => simp

/-- The words of a line tile it, and each offset belongs to one of them, which is the word that is
found there. -/
theorem tiling_split (line : String) :
    Tiling line (split line) ∧
      ∀ offset, ∃ i, indexAt offset (split line) = some i ∧
        ∀ j, Covers (split line) offset j ↔ j = i := by
  obtain ⟨w, ws, words, laid⟩ := exists_laid line.toList
  have tiling : Tiling line (split line) := by
    rw [split, words]
    exact laid.tiling
  refine ⟨tiling, ?_⟩
  intro offset
  obtain ⟨first, head, start⟩ := tiling.first
  cases found : indexAt offset (split line) with
  | none =>
    have behind := (indexAt_eq_none_iff offset _).mp found first (List.mem_of_head? head)
    omega
  | some i =>
    refine ⟨i, rfl, ?_⟩
    intro j
    rw [← indexAt_eq_some_iff tiling.increasing, found, Option.some_inj, eq_comm]

end LineEdit.Word
