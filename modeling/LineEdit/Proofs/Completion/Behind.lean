import LineEdit.Proofs.Completion.Cycle
import LineEdit.Proofs.Word.Behind

/-!
# Completion behind a separator

Behind a separator, a query is about words of the text there, and shows where they start on the
whole line. Completers to whom that does not matter offer what they would offer anywhere, so that
requests change the text behind the separator as if it stood alone, and leave what stands before it
alone.
-/
namespace LineEdit

open Text Word

namespace Buffer

def behind (lead : String) (b : Buffer) : Buffer :=
  ⟨lead ++ b.text, b.cursor + lead.length, by
    rw [String.length_append, Nat.add_comm]
    exact Nat.add_le_add_left b.cursor_le _⟩

theorem replace_behind (lead : String) (b : Buffer) (start stop : Nat) (new : String) :
    (b.behind lead).replace (start + lead.length) (stop + lead.length) new =
      (b.replace start stop new).behind lead := by
  have first : min (start + lead.length) (lead ++ b.text).length =
      lead.length + min start b.text.length := by
    rw [String.length_append]
    omega
  have last : max (lead.length + min start b.text.length)
      (min (stop + lead.length) (lead ++ b.text).length) =
      lead.length + max (min start b.text.length) (min stop b.text.length) := by
    rw [String.length_append]
    omega
  apply Buffer.ext
  · dsimp only [replace, behind]
    rw [first, last, splice_append]
  · dsimp only [replace, behind]
    rw [first, Nat.add_assoc, Nat.add_comm]

end Buffer

namespace Cycle

def shift (n : Nat) (c : Cycle) : Cycle := { c with start := c.start + n, stop := c.stop + n }

theorem turn_shift (n : Nat) (c : Cycle) (direction : Direction) :
    (c.shift n).turn direction = (c.turn direction).shift n := by
  cases direction with
  | backward => rfl
  | forward => rfl

/-- A candidate that is put in behind a text leaves that alone, as long as the place of the
candidate is counted from the beginning of the whole. -/
theorem apply_behind (lead : String) (c : Cycle) (b : Buffer) :
    (c.shift lead.length).apply (b.behind lead) =
      ((c.apply b).1.shift lead.length, (c.apply b).2.behind lead) := by
  have text : (c.shift lead.length).text = c.text := rfl
  unfold apply
  rw [text]
  refine Prod.ext ?_ (b.replace_behind lead c.start c.stop c.text)
  dsimp only [shift]
  rw [Nat.add_right_comm]

end Cycle

namespace Query

def shift (n : Nat) (q : Query) : Query := { q with words := q.words.map (Word.shift n) }

/-- The second query shows the same as the first, but its words start `d` further on. -/
structure Apart (d : Int) (p q : Query) : Prop where
  words : List.Forall₂ (fun v w => v.written = w.written ∧ v.resolved = w.resolved ∧
    (w.start : Int) = v.start + d) p.words q.words
  index : p.index = q.index
  offset : p.offset = q.offset

theorem apart_shift (m n : Nat) (q : Query) : Apart ((n : Int) - m) (q.shift m) (q.shift n) := by
  constructor
  case words =>
    dsimp only [shift]
    rw [List.forall₂_map_left_iff, List.forall₂_map_right_iff, List.forall₂_same]
    intro w _
    refine ⟨rfl, rfl, ?_⟩
    dsimp only [Word.shift]
    omega
  case index => rfl
  case offset => rfl

/-- The words of a text with a blank before it, with an empty one at the cursor when it stands in
blanks, and the number of the word that the cursor is in. -/
def locateBehind (text : String) (cursor : Nat) : List Word × Nat :=
  let words := wordsBehind text
  match indexAt cursor words with
  | none => (emptyAt cursor :: words, 0)
  | some i =>
    match words[i]? with
    | some w =>
      if w.stop < cursor then
        (words.take (i + 1) ++ emptyAt cursor :: words.drop (i + 1), i + 1)
      else (words, i)
    | none => (words, i)

def behind? (b : Buffer) : Option Query :=
  let (words, index) := locateBehind b.text b.cursor
  (commandAt words index).map fun (command, i) =>
    ⟨command, i, b.cursor - ((command[i]?).getD (Word.emptyAt 0)).start⟩

/-- A text up to a separator and the blank behind that. What stands before the separator ends in a
blank outside quotes. -/
def Leads (lead : String) : Prop :=
  ∃ left sep, EndsBetween left ∧ sep ∈ separators ∧ lead = left ++ sep ++ " "

/-- Where the blank before the words is not, the cursor is at the word it would be at without
them. -/
theorem locate_behind {lead : String} (leads : Leads lead) (text : String) (cursor : Nat) :
    ∃ before w, w.isSeparator = true ∧ locate (lead ++ text) (cursor + lead.length) =
      (before ++ w :: (locateBehind text cursor).1.map (Word.shift lead.length),
        before.length + 1 + (locateBehind text cursor).2) := by
  obtain ⟨left, sep, ends, named, rfl⟩ := leads
  have words := split_behind ends named text
  have stop : Word.stop ⟨left.length, sep, sep⟩ < (left ++ sep ++ " ").length := by
    rw [String.length_append, String.length_append]
    exact Nat.lt_succ_self _
  refine ⟨(split left).dropLast, ⟨left.length, sep, sep⟩, isSeparator_of_mem named _, ?_⟩
  generalize (left ++ sep ++ " ").length = n at *
  generalize (split left).dropLast = before at *
  generalize (⟨left.length, sep, sep⟩ : Word) = w at *
  unfold locate locateBehind
  dsimp only
  rw [words, indexAt_append, indexAt, indexAt_shift]
  cases found : indexAt cursor (wordsBehind text) with
  | none =>
    have starts : w.start ≤ cursor + n := by
      unfold Word.stop at stop
      omega
    dsimp only
    rw [if_pos starts]
    dsimp only [Option.getD_some]
    rw [Nat.add_zero, List.getElem?_append_right (Nat.le_refl _), Nat.sub_self]
    dsimp only [List.getElem?_cons_zero]
    rw [if_pos (by omega), List.take_length_add_append, List.drop_length_add_append,
      List.append_assoc]
    rfl
  | some i =>
    dsimp only [Option.getD_some]
    rw [List.getElem?_append_right (Nat.le_add_right _ _), Nat.add_sub_cancel_left,
      List.getElem?_cons_succ, List.getElem?_map]
    cases (wordsBehind text)[i]? with
    | none =>
      dsimp only [Option.map_none]
      rw [Nat.add_assoc, Nat.add_comm i]
    | some v =>
      have behind : (v.shift n).stop < cursor + n ↔ v.stop < cursor := by
        rw [stop_shift]
        omega
      dsimp only [Option.map_some]
      simp only [behind]
      split
      next =>
        rw [Nat.add_assoc before.length, List.take_length_add_append, List.drop_length_add_append,
          List.append_assoc, List.map_append, List.map_take, List.map_cons, List.map_drop]
        refine Prod.ext rfl ?_
        dsimp only
        omega
      next =>
        rw [Nat.add_assoc, Nat.add_comm i]

theorem getElem?_of_commandAt {ws command : List Word} {index i : Nat}
    (found : commandAt ws index = some (command, i)) : ∃ w, command[i]? = some w := by
  obtain ⟨inside, -⟩ := commandAt_eq_some found
  exact ⟨_, List.getElem?_eq_getElem inside⟩

theorem ofBuffer?_behind {lead : String} (leads : Leads lead) (b : Buffer) :
    ofBuffer? (b.behind lead) = (behind? b).map (shift lead.length) := by
  obtain ⟨before, w, separates, located⟩ := locate_behind leads b.text b.cursor
  unfold ofBuffer? behind?
  dsimp only [Buffer.behind]
  rw [located]
  dsimp only
  rw [commandAt_behind _ _ separates, commandAt_shift]
  cases found : commandAt (locateBehind b.text b.cursor).1 (locateBehind b.text b.cursor).2 with
  | none => rfl
  | some place =>
    obtain ⟨command, i⟩ := place
    obtain ⟨v, inside⟩ := getElem?_of_commandAt found
    simp only [Option.map_some, List.getElem?_map, inside, Option.getD_some, shift, Word.shift]
    rw [Nat.add_sub_add_right]

theorem current_shift_of_behind {b : Buffer} {q : Query} (asks : behind? b = some q) (n : Nat) :
    (q.shift n).current = q.current.shift n := by
  obtain ⟨place, found, rfl⟩ := Option.map_eq_some_iff.mp asks
  obtain ⟨w, inside⟩ := getElem?_of_commandAt found
  simp only [current, shift, List.getElem?_map, inside, Option.map_some, Option.getD_some]

end Query

/-- Where the words of a query start does not matter to the completer: it makes the same offer to
two queries that are the same apart from that. -/
def Completer.Placeless (completer : Completer) : Prop :=
  ∀ d p q, Query.Apart d p q → completer.offer p = completer.offer q

namespace Query

theorem stem_eq (q : Query) : q.stem = (q.word? q.index).getD "" := by
  unfold stem current word?
  cases q.words[q.index]? with
  | none => rfl
  | some w => rfl

theorem Apart.reads {d : Int} {p q : Query} (apart : Apart d p q) :
    p.word? = q.word? ∧ p.command = q.command ∧ p.index = q.index ∧ p.stem = q.stem := by
  have resolved : p.words.map (·.resolved) = q.words.map (·.resolved) := by
    rw [← List.forall₂_eq_eq_eq, List.forall₂_map_left_iff, List.forall₂_map_right_iff]
    exact apart.words.imp fun v w texts => texts.2.1
  have word : p.word? = q.word? := by
    funext i
    unfold word?
    rw [← List.getElem?_map, resolved, List.getElem?_map]
  refine ⟨word, ?_, apart.index, ?_⟩
  · unfold command
    rw [word]
  · rw [stem_eq, stem_eq, word, apart.index]

end Query

/-- To none of the completers of the program do places matter, whatever words they are made for. -/
theorem Completer.placeless_offered :
    (∀ command index words trailingSpace,
      (wordList command index words trailingSpace).Placeless) ∧
    gitCommand.Placeless ∧ gitCheckoutOption.Placeless ∧ shellBuiltin.Placeless ∧
    ∀ names, (environmentVariable names).Placeless := by
  refine ⟨?_, ?_, ?_, ?_, ?_⟩
  · intro _ _ _ _ d p q apart
    obtain ⟨-, command, index, stem⟩ := apart.reads
    dsimp only [wordList]
    rw [command, index, stem]
  · intro d p q apart
    obtain ⟨-, command, index, stem⟩ := apart.reads
    dsimp only [gitCommand]
    rw [command, index, stem]
  · intro d p q apart
    obtain ⟨word, command, index, stem⟩ := apart.reads
    dsimp only [gitCheckoutOption]
    rw [word, command, index, stem]
  · intro d p q apart
    obtain ⟨-, -, index, stem⟩ := apart.reads
    dsimp only [shellBuiltin]
    rw [index, stem]
  · intro _ d p q apart
    obtain ⟨-, command, index, stem⟩ := apart.reads
    dsimp only [environmentVariable]
    rw [command, index, stem]

namespace Completion

theorem firstOffer?_shift {completers : List Completer}
    (placeless : ∀ completer ∈ completers, completer.Placeless) (n : Nat) (q : Query) :
    firstOffer? (q.shift n) completers = firstOffer? q completers := by
  have apart := q.apart_shift 0 n
  have unmoved : q.shift 0 = q := by
    unfold Query.shift Word.shift
    simp
  rw [unmoved] at apart
  unfold firstOffer?
  rw [List.filterMap_congr fun completer mem => (placeless completer mem _ _ _ apart).symm]

def requestBehind (completers : List Completer) (cycle : Option Cycle) (direction : Direction)
    (b : Buffer) : Bool × Option Cycle × Buffer :=
  match cycle with
  | some cycle => (true, some ((cycle.turn direction).apply b).1, ((cycle.turn direction).apply b).2)
  | none =>
    match (Query.behind? b).bind fun q => (firstOffer? q completers).map (begin q · direction) with
    | none => (false, none, b)
    | some cycle => (true, some (cycle.apply b).1, (cycle.apply b).2)

def requestsBehind (completers : List Completer) (cycle : Option Cycle) (b : Buffer) :
    List Direction → List Bool × Option Cycle × Buffer
  | [] => ([], cycle, b)
  | direction :: directions =>
    let (answer, cycle, b) := requestBehind completers cycle direction b
    let (answers, cycle, b) := requestsBehind completers cycle b directions
    (answer :: answers, cycle, b)

variable {c : Completion} {lead : String}

/-- A request changes the text behind a separator only, and as if it stood alone. Cycles are
compared by places within that text. -/
theorem request_behind (leads : Query.Leads lead)
    (placeless : ∀ completer ∈ c.completers, completer.Placeless) {cycle : Option Cycle}
    (active : c.cycle = cycle.map (·.shift lead.length)) (direction : Direction) (b : Buffer) :
    ∃ lookups, c.request direction (b.behind lead) =
      let (answer, cycle, b) := requestBehind c.completers cycle direction b
      (answer, { c with lookups, cycle := cycle.map (·.shift lead.length) }, b.behind lead) := by
  cases cycle with
  | some cycle =>
    refine ⟨c.lookups, ?_⟩
    rw [request_of_cycle active, Cycle.turn_shift, Cycle.apply_behind]
    rfl
  | none =>
    have idle : c.cycle = none := active
    have query := Query.ofBuffer?_behind leads b
    unfold requestBehind
    dsimp only
    cases asks : Query.behind? b with
    | none =>
      rw [asks] at query
      have nothing : c.offer? (b.behind lead) = none := by
        unfold offer?
        rw [query]
        rfl
      obtain ⟨lookups, request⟩ := request_of_no_offer idle nothing direction
      refine ⟨lookups, ?_⟩
      rw [request, idle]
      rfl
    | some q =>
      rw [asks] at query
      obtain ⟨lookups, request⟩ := request_of_query idle query direction
      rw [firstOffer?_shift placeless] at request
      refine ⟨lookups, ?_⟩
      rw [request, Option.bind_some]
      cases firstOffer? q c.completers with
      | none =>
        dsimp only [Option.map_none]
        rw [idle]
      | some offer =>
        have moved : begin (q.shift lead.length) offer direction =
            (begin q offer direction).shift lead.length := by
          unfold begin
          rw [Query.current_shift_of_behind asks, Word.stop_shift]
          rfl
        dsimp only [Option.map_some]
        rw [moved, Cycle.apply_behind]

theorem requests_behind (leads : Query.Leads lead)
    (placeless : ∀ completer ∈ c.completers, completer.Placeless) {cycle : Option Cycle}
    (active : c.cycle = cycle.map (·.shift lead.length)) (directions : List Direction) (b : Buffer) :
    ∃ c', c.requests (b.behind lead) directions =
      ((requestsBehind c.completers cycle b directions).1, c',
        (requestsBehind c.completers cycle b directions).2.2.behind lead) := by
  induction directions generalizing c cycle b with
  | nil => exact ⟨c, rfl⟩
  | cons direction directions ih =>
    obtain ⟨lookups, request⟩ := request_behind leads placeless active direction b
    obtain ⟨c', rest⟩ := ih (c := { c with lookups, cycle :=
      (requestBehind c.completers cycle direction b).2.1.map (·.shift lead.length) }) placeless rfl
      (requestBehind c.completers cycle direction b).2.2
    refine ⟨c', ?_⟩
    rw [requests, request]
    dsimp only
    rw [rest]
    rfl

/-- Behind any text that ends in a blank outside quotes, and a separator, a query shows the same
words but for where they start on the line, which differs by as much as the texts before them do.
With completers to whom that does not matter, requests are answered alike and change what stands
behind the separator, and the place of the cursor in it, alike. -/
theorem requests_behind_separator {left left' sep : String} (ends : EndsBetween left)
    (ends' : EndsBetween left') (named : sep ∈ separators) (b : Buffer) :
    Option.Rel (Query.Apart ((left'.length : Int) - left.length))
      (Query.ofBuffer? (b.behind (left ++ sep ++ " ")))
      (Query.ofBuffer? (b.behind (left' ++ sep ++ " "))) ∧
    ∀ c : Completion, c.cycle = none → (∀ completer ∈ c.completers, completer.Placeless) →
      ∀ directions, ∃ (answers : List Bool) (d d' : Completion) (after : Buffer),
        c.requests (b.behind (left ++ sep ++ " ")) directions =
          (answers, d, after.behind (left ++ sep ++ " ")) ∧
        c.requests (b.behind (left' ++ sep ++ " ")) directions =
          (answers, d', after.behind (left' ++ sep ++ " ")) := by
  have leads : Query.Leads (left ++ sep ++ " ") := ⟨left, sep, ends, named, rfl⟩
  have leads' : Query.Leads (left' ++ sep ++ " ") := ⟨left', sep, ends', named, rfl⟩
  constructor
  · have difference : ((left' ++ sep ++ " ").length : Int) - (left ++ sep ++ " ").length =
        (left'.length : Int) - left.length := by
      simp only [String.length_append]
      omega
    rw [Query.ofBuffer?_behind leads, Query.ofBuffer?_behind leads', ← difference]
    cases Query.behind? b with
    | none => exact .none
    | some q => exact .some (q.apart_shift _ _)
  · intro c idle placeless directions
    have active (lead : String) : c.cycle = (none : Option Cycle).map (·.shift lead.length) := idle
    obtain ⟨d, run⟩ := requests_behind leads placeless (active _) directions b
    obtain ⟨d', run'⟩ := requests_behind leads' placeless (active _) directions b
    exact ⟨_, d, d', _, run, run'⟩

def gitOnly : Completion := ⟨[Completer.gitCommand], none, []⟩

/-- Behind a line with a separator of its own, one of them quoted, and behind a short line. -/
theorem requests_behind_separator_git :
    (EndsBetween "\"a && b\" c & d " ∧ EndsBetween "x " ∧ "&&" ∈ separators ∧
      gitOnly.cycle = none ∧ ∀ completer ∈ gitOnly.completers, completer.Placeless) ∧
    ∃ d d' after,
      gitOnly.requests ((Buffer.ofText "git  co").behind "\"a && b\" c & d && ")
        [.forward] = ([true], d, Buffer.behind "\"a && b\" c & d && " after) ∧
      gitOnly.requests ((Buffer.ofText "git  co").behind "x && ") [.forward] =
        ([true], d', Buffer.behind "x && " after) ∧
      after.text = "git  commit " := by
  have ends : EndsBetween "\"a && b\" c & d " := by decide +kernel
  have ends' : EndsBetween "x " := by decide +kernel
  have named : "&&" ∈ separators := List.mem_cons_self
  have placeless : ∀ completer ∈ gitOnly.completers, completer.Placeless := by
    intro completer mem
    obtain rfl := List.mem_singleton.mp mem
    exact Completer.placeless_offered.2.1
  refine ⟨⟨ends, ends', named, rfl, placeless⟩, ?_⟩
  obtain ⟨-, alike⟩ := requests_behind_separator ends ends' named (Buffer.ofText "git  co")
  obtain ⟨answers, d, d', after, run, run'⟩ := alike gitOnly rfl placeless [.forward]
  have answered : (gitOnly.requests ((Buffer.ofText "git  co").behind "x && ") [.forward]).1 =
      [true] := by decide +kernel
  have text : (gitOnly.requests ((Buffer.ofText "git  co").behind "x && ") [.forward]).2.2.text =
      "x && " ++ "git  commit " := by decide +kernel
  have lead : "x " ++ "&&" ++ " " = "x && " := by decide
  rw [lead] at run'
  rw [run'] at answered text
  subst answered
  exact ⟨d, d', after, run, run', (String.append_right_inj "x && ").mp text⟩

end Completion

end LineEdit
