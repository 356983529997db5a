import LineEdit.Completion
import LineEdit.Proofs.Completion.Place

/-!
# Going round the candidates

A cycle holds the place of the word that it completes: what stands before that word and what stands
behind it. Every request puts another candidate into the place and moves the end of the place to the
end of the candidate, so that the texts on both sides stay, however long the candidates are. Which
candidate stands there after some requests depends only on how many of them went forward and how
many backward.
-/
namespace LineEdit

open Text

namespace Direction

def net (directions : List Direction) : Int :=
  directions.count .forward - directions.count .backward

theorem net_cons (direction : Direction) (directions : List Direction) :
    net (direction :: directions) = direction.step + net directions := by
  unfold net
  rw [List.count_cons, List.count_cons]
  cases direction with
  | backward =>
    change ((directions.count .forward + 0 : Nat) : Int) - ((directions.count .backward + 1 : Nat) : Int)
      = -1 + _
    omega
  | forward =>
    change ((directions.count .forward + 1 : Nat) : Int) - ((directions.count .backward + 0 : Nat) : Int)
      = 1 + _
    omega

end Direction

namespace Cycle

/-- The candidate of a cycle stands between two texts, with the cursor behind it. This is what every
request keeps: the texts stay and the end of the place is moved. -/
structure Stands (c : Cycle) (before after : String) (b : Buffer) : Prop where
  text : b.text = before ++ c.text ++ after
  cursor : b.cursor = (before ++ c.text).length
  start : c.start = before.length
  stop : c.stop = (before ++ c.text).length
  index_lt : c.index < c.candidates.length

variable {c : Cycle} {b : Buffer} {before after : String}

theorem Stands.bounds (stands : Stands c before after b) :
    c.start ≤ c.stop ∧ c.stop ≤ b.length ∧ b.cursor = c.stop := by
  obtain ⟨text, cursor, start, stop, -⟩ := stands
  have length : b.length = (before ++ c.text).length + after.length := by
    rw [← String.length_append, ← text]
    rfl
  rw [String.length_append] at stop length
  refine ⟨by omega, by omega, ?_⟩
  rw [cursor, stop, String.length_append]

theorem Stands.slice_eq (stands : Stands c before after b) :
    slice b.text c.start c.stop = c.text := by
  rw [stands.text, stands.start, stands.stop]
  exact slice_between before c.text after

theorem text_apply (c : Cycle) (b : Buffer) : (c.apply b).1.text = c.text := by
  unfold text apply
  rfl

theorem apply_keeps (c : Cycle) (b : Buffer) :
    (c.apply b).1.start = c.start ∧ (c.apply b).1.candidates = c.candidates ∧
      (c.apply b).1.index = c.index ∧ (c.apply b).1.trailingSpace = c.trailingSpace := by
  unfold apply
  exact ⟨rfl, rfl, rfl, rfl⟩

/-- A candidate takes the place of whatever stands there. -/
theorem stands_apply {old : String} (text : b.text = before ++ old ++ after)
    (start : c.start = before.length) (stop : c.stop = (before ++ old).length)
    (index_lt : c.index < c.candidates.length) :
    Stands (c.apply b).1 before after (c.apply b).2 := by
  obtain ⟨replaced, cursor⟩ := Buffer.replace_between text c.text
  rw [← start, ← stop] at replaced cursor
  obtain ⟨same, candidates, index, -⟩ := c.apply_keeps b
  constructor
  case text =>
    rw [text_apply]
    exact replaced
  case cursor =>
    rw [text_apply]
    exact cursor
  case start => exact same.trans start
  case stop =>
    rw [text_apply, String.length_append, ← start]
    rfl
  case index_lt =>
    rw [candidates, index]
    exact index_lt

theorem index_turn_lt (index_lt : c.index < c.candidates.length) (direction : Direction) :
    (c.turn direction).index < (c.turn direction).candidates.length := by
  have some_candidates : 0 < c.candidates.length := Nat.zero_lt_of_lt index_lt
  unfold turn
  cases direction with
  | backward => exact Nat.mod_lt _ some_candidates
  | forward => exact Nat.mod_lt _ some_candidates

/-- A turn is a step modulo the number of candidates. In whole numbers backward is a step of minus
one, so that many turns add up. -/
theorem index_turn (some_candidates : 0 < c.candidates.length) (direction : Direction) :
    ((c.turn direction).index : Int) = (c.index + direction.step) % c.candidates.length := by
  unfold turn
  cases direction with
  | forward => exact Int.natCast_emod _ _
  | backward =>
    have whole : ((c.index + c.candidates.length - 1 : Nat) : Int) =
        c.index + Direction.backward.step + c.candidates.length := by
      rw [Direction.step]
      omega
    dsimp only
    rw [Int.natCast_emod, whole, Int.add_emod_right]

theorem turn_keeps (c : Cycle) (direction : Direction) :
    (c.turn direction).start = c.start ∧ (c.turn direction).stop = c.stop ∧
      (c.turn direction).candidates = c.candidates ∧
      (c.turn direction).trailingSpace = c.trailingSpace := by
  cases direction with
  | backward => exact ⟨rfl, rfl, rfl, rfl⟩
  | forward => exact ⟨rfl, rfl, rfl, rfl⟩

theorem Stands.turn (stands : Stands c before after b) (direction : Direction) :
    Stands ((c.turn direction).apply b).1 before after ((c.turn direction).apply b).2 := by
  obtain ⟨start, stop, -, -⟩ := c.turn_keeps direction
  apply stands_apply stands.text
  · exact start.trans stands.start
  · exact stop.trans stands.stop
  · exact index_turn_lt stands.index_lt direction

end Cycle

namespace Buffer

/-- The text before the word at the cursor. -/
def beforeWord (b : Buffer) : String := slice b.text 0 b.word.start

def afterWord (b : Buffer) : String := slice b.text b.word.stop b.length

theorem length_beforeWord (b : Buffer) : b.beforeWord.length = b.word.start := by
  obtain ⟨starts, inside, ends⟩ := b.word_bounds
  have bounded : b.word.start ≤ b.text.length := Nat.le_trans starts b.cursor_le
  rw [beforeWord, length_slice, Nat.min_eq_left bounded, Nat.sub_zero]

theorem exists_text_eq (b : Buffer) : ∃ old : String,
    b.text = b.beforeWord ++ old ++ b.afterWord ∧ (b.beforeWord ++ old).length = b.word.stop := by
  obtain ⟨starts, inside, ends⟩ := b.word_bounds
  have ordered : b.word.start ≤ b.word.stop := Nat.le_trans starts inside
  refine ⟨slice b.text b.word.start b.word.stop, ?_, ?_⟩
  · rw [beforeWord, slice_append_slice _ (Nat.zero_le _) ordered, afterWord,
      slice_append_slice _ (Nat.zero_le _) ends]
    exact (slice_zero_length b.text).symm
  · rw [beforeWord, slice_append_slice _ (Nat.zero_le _) ordered, length_slice, Nat.sub_zero]
    exact Nat.min_eq_left ends

end Buffer

def Offer.shown (offer : Offer) (candidate : String) : String :=
  Word.quote candidate ++ (if offer.trailingSpace then " " else "")

namespace Completion

def firstOffer? (q : Query) (completers : List Completer) : Option Offer :=
  (completers.filterMap (·.offer q)).find? (·.candidates ≠ [])

theorem consult_fst (q : Query) (completers : List Completer) :
    (consult q completers).1 = firstOffer? q completers := by
  induction completers with
  | nil => rfl
  | cons completer completers ih =>
    unfold firstOffer? at ih ⊢
    rw [consult, List.filterMap_cons]
    cases asked : completer.offer q with
    | none => exact ih
    | some offer =>
      obtain ⟨candidates, trailingSpace⟩ := offer
      cases candidates with
      | nil => exact ih
      | cons candidate candidates => rfl

def Declines (q : Query) (completer : Completer) : Prop :=
  ∀ offer, completer.offer q = some offer → offer.candidates = []

theorem firstOffer?_eq_none_iff (q : Query) (completers : List Completer) :
    firstOffer? q completers = none ↔ ∀ completer ∈ completers, Declines q completer := by
  unfold firstOffer? Declines
  rw [List.find?_eq_none]
  constructor
  · intro nothing completer mem offer asked
    simpa using nothing offer (List.mem_filterMap.mpr ⟨completer, mem, asked⟩)
  · intro declines offer mem
    obtain ⟨completer, mem, asked⟩ := List.mem_filterMap.mp mem
    simpa using declines completer mem offer asked

def offer? (c : Completion) (b : Buffer) : Option Offer :=
  (Query.ofBuffer? b).bind fun q => firstOffer? q c.completers

theorem offer?_eq_none_iff (c : Completion) (b : Buffer) :
    c.offer? b = none ↔ b.word.isSeparator = true ∨
      ∃ q, Query.ofBuffer? b = some q ∧ ∀ completer ∈ c.completers, Declines q completer := by
  unfold offer?
  rcases Query.ofBuffer?_cases b with ⟨separates, nothing⟩ | ⟨plain, q, asks, -⟩
  · rw [nothing]
    exact ⟨fun _ => .inl separates, fun _ => rfl⟩
  · rw [asks, Option.bind_some, firstOffer?_eq_none_iff, plain]
    constructor
    · exact fun declines => .inr ⟨q, rfl, declines⟩
    · intro h
      rcases h with separates | ⟨p, same, declines⟩
      · exact absurd separates nofun
      · obtain rfl := Option.some.inj same
        exact declines

/-- One request after another, with all the answers and what the last one leaves. -/
def requests (c : Completion) (b : Buffer) : List Direction → List Bool × Completion × Buffer
  | [] => ([], c, b)
  | direction :: directions =>
    let (answer, c, b) := c.request direction b
    let (answers, c, b) := requests c b directions
    (answer :: answers, c, b)

variable {c : Completion} {b : Buffer}

theorem request_of_cycle {cycle : Cycle} (active : c.cycle = some cycle) (direction : Direction) :
    c.request direction b = (true, { c with cycle := some ((cycle.turn direction).apply b).1 },
      ((cycle.turn direction).apply b).2) := by
  unfold request
  rw [active]

/-- The first request puts the question to the completers. -/
theorem request_of_query {q : Query} (idle : c.cycle = none) (asks : Query.ofBuffer? b = some q)
    (direction : Direction) : ∃ lookups, c.request direction b =
      match firstOffer? q c.completers with
      | none => (false, { c with lookups }, b)
      | some offer =>
        (true, { c with lookups, cycle := some ((begin q offer direction).apply b).1 },
          ((begin q offer direction).apply b).2) := by
  obtain ⟨completers, cycle, lookups⟩ := c
  obtain rfl : cycle = none := idle
  refine ⟨lookups ++ [⟨q, (consult q completers).2⟩], ?_⟩
  rw [← consult_fst]
  cases found : (consult q completers).1 with
  | none =>
    unfold request
    dsimp only
    rw [asks]
    dsimp only
    rw [found]
  | some offer =>
    unfold request
    dsimp only
    rw [asks]
    dsimp only
    rw [found]

/-- Without an offer a request changes nothing but the record of lookups. That is so on a separator,
where nobody is asked, and where all completers decline. -/
theorem request_of_no_offer (idle : c.cycle = none) (nothing : c.offer? b = none)
    (direction : Direction) : ∃ lookups, c.request direction b = (false, { c with lookups }, b) := by
  unfold offer? at nothing
  cases asks : Query.ofBuffer? b with
  | none =>
    obtain ⟨completers, cycle, lookups⟩ := c
    obtain rfl : cycle = none := idle
    refine ⟨lookups, ?_⟩
    unfold request
    dsimp only
    rw [asks]
  | some q =>
    rw [asks, Option.bind_some] at nothing
    have request := request_of_query idle asks direction
    rw [nothing] at request
    exact request

/-- An offer begins a cycle that stands in the place of the word at the cursor. -/
theorem request_of_offer {offer : Offer} (idle : c.cycle = none) (offered : c.offer? b = some offer)
    (direction : Direction) : ∃ lookups cycle b',
      c.request direction b = (true, { c with lookups, cycle := some cycle }, b') ∧
      cycle.Stands b.beforeWord b.afterWord b' ∧ cycle.candidates = offer.candidates ∧
      cycle.trailingSpace = offer.trailingSpace ∧
      cycle.index = match direction with
        | .forward => 0
        | .backward => offer.candidates.length - 1 := by
  obtain ⟨q, asks, found⟩ := Option.bind_eq_some_iff.mp offered
  have some_candidates : offer.candidates ≠ [] := by simpa using List.find?_some found
  have length := List.length_pos_of_ne_nil some_candidates
  have same := Query.current_eq_word asks
  obtain ⟨lookups, request⟩ := request_of_query idle asks direction
  obtain ⟨old, text, stop⟩ := b.exists_text_eq
  rw [found] at request
  obtain ⟨-, candidates, index, trailingSpace⟩ := (begin q offer direction).apply_keeps b
  refine ⟨lookups, _, _, request, ?_, candidates, trailingSpace, index⟩
  apply Cycle.stands_apply text
  · rw [b.length_beforeWord, ← same]
    rfl
  · rw [stop, ← same]
    rfl
  · cases direction with
    | backward => exact Nat.sub_lt length Nat.zero_lt_one
    | forward => exact length

/-- Requests that go on with a cycle keep its place, and each is one step. The induction is on the
requests; the texts on both sides are the same in every step, only the candidate differs. -/
theorem requests_of_cycle {cycle : Cycle} {before after : String} (active : c.cycle = some cycle)
    (stands : cycle.Stands before after b) (directions : List Direction) : ∃ cycle' b',
      c.requests b directions =
        (directions.map fun _ => true, { c with cycle := some cycle' }, b') ∧
      cycle'.Stands before after b' ∧ cycle'.candidates = cycle.candidates ∧
      cycle'.trailingSpace = cycle.trailingSpace ∧
      (cycle'.index : Int) = (cycle.index + Direction.net directions) % cycle.candidates.length := by
  induction directions generalizing c b cycle with
  | nil =>
    refine ⟨cycle, b, ?_, stands, rfl, rfl, ?_⟩
    · rw [← active]
      rfl
    · have index_lt := stands.index_lt
      rw [Direction.net, List.count_nil, List.count_nil, Int.sub_self, Int.add_zero,
        Int.emod_eq_of_lt (by omega) (by omega)]
  | cons direction directions ih =>
    obtain ⟨-, -, sameCandidates, sameSpace⟩ := cycle.turn_keeps direction
    obtain ⟨-, candidates, turned, trailingSpace⟩ := (cycle.turn direction).apply_keeps b
    rw [sameCandidates] at candidates
    rw [sameSpace] at trailingSpace
    have step := Cycle.index_turn (Nat.zero_lt_of_lt stands.index_lt) direction
    have request := request_of_cycle (b := b) active direction
    obtain ⟨cycle', b', rest, stands', candidates', trailingSpace', index⟩ :=
      ih (c := { c with cycle := some ((cycle.turn direction).apply b).1 }) rfl
        (stands.turn direction)
    refine ⟨cycle', b', ?_, stands', candidates'.trans candidates,
      trailingSpace'.trans trailingSpace, ?_⟩
    · rw [requests, request]
      dsimp only
      rw [rest]
      rfl
    · rw [index, candidates, turned, step, Int.emod_add_emod, Direction.net_cons, Int.add_assoc]

/-- As long as no cycle is under way, a request is refused and changes nothing when the cursor is on
a separator or no completer has a candidate. Otherwise the first completer that has some is taken at
its word: after one request or more, a candidate stands in the place of the word at the cursor, with
the cursor behind it, and the text before and behind that word is as it was. Which candidate it is,
depends on the first request and on how many of the others went forward and backward. -/
theorem requests_closed_form (idle : c.cycle = none) :
    (c.offer? b = none ↔ b.word.isSeparator = true ∨
      ∃ q, Query.ofBuffer? b = some q ∧ ∀ completer ∈ c.completers, Declines q completer) ∧
    (∀ q, Query.ofBuffer? b = some q → q.current = b.word) ∧
    (c.offer? b = none → ∀ direction, ∃ lookups,
      c.request direction b = (false, { c with lookups }, b)) ∧
    ∀ offer, c.offer? b = some offer → ∀ first directions, ∃ (c' : Completion) (b' : Buffer)
        (k : Nat) (candidate : String),
      c.requests b (first :: directions) = ((first :: directions).map fun _ => true, c', b') ∧
      (k : Int) = ((match first with
        | .forward => 0
        | .backward => (offer.candidates.length : Int) - 1) +
          (directions.count .forward - directions.count .backward)) % offer.candidates.length ∧
      offer.candidates[k]? = some candidate ∧
      b'.text = b.beforeWord ++ offer.shown candidate ++ b.afterWord ∧
      b'.cursor = (b.beforeWord ++ offer.shown candidate).length := by
  refine ⟨c.offer?_eq_none_iff b, fun q => Query.current_eq_word, request_of_no_offer idle, ?_⟩
  intro offer offered first directions
  obtain ⟨lookups, cycle, b₁, request, stands, candidates, trailingSpace, index⟩ :=
    request_of_offer idle offered first
  obtain ⟨cycle', b', rest, stands', candidates', trailingSpace', index'⟩ :=
    requests_of_cycle (c := { c with lookups, cycle := some cycle }) rfl stands directions
  have same : cycle'.candidates = offer.candidates := candidates'.trans candidates
  have inside := stands'.index_lt
  rw [same] at inside
  have length : 1 ≤ offer.candidates.length := Nat.one_le_of_lt inside
  have here : offer.candidates[cycle'.index]? = some offer.candidates[cycle'.index] :=
    List.getElem?_eq_getElem inside
  have text : cycle'.text = offer.shown offer.candidates[cycle'.index] := by
    rw [Cycle.text, same, here, trailingSpace', trailingSpace]
    rfl
  refine ⟨{ c with lookups, cycle := some cycle' }, b', cycle'.index,
    offer.candidates[cycle'.index], ?_, ?_, here, ?_, ?_⟩
  · rw [requests, request]
    dsimp only
    rw [rest]
    rfl
  · rw [index', index, candidates]
    cases first with
    | backward =>
      rw [Int.natCast_sub length]
      rfl
    | forward => rfl
  · rw [stands'.text, text]
  · rw [stands'.cursor, text]

def letters : Completion where
  completers :=
    [⟨"silent", fun _ => some ⟨[], false⟩⟩, ⟨"letters", fun _ => some ⟨["a b", "c", "d"], true⟩⟩]
  cycle := none
  lookups := []

/-- The cursor stands in blanks. One request goes backward and two forward. -/
theorem requests_closed_form_letters :
    letters.cycle = none ∧ ∃ c' b',
      letters.requests ((Buffer.ofText "x  y").moveTo 2) [.backward, .forward, .forward] =
        ([true, true, true], c', b') ∧ b'.text = "x c  y" ∧ b'.cursor = 4 := by
  have offered : letters.offer? ((Buffer.ofText "x  y").moveTo 2) =
      some ⟨["a b", "c", "d"], true⟩ := by decide +kernel
  have place : ((Buffer.ofText "x  y").moveTo 2).beforeWord = "x " ∧
      ((Buffer.ofText "x  y").moveTo 2).afterWord = " y" := by decide +kernel
  obtain ⟨-, -, -, goes⟩ :=
    requests_closed_form (c := letters) (b := (Buffer.ofText "x  y").moveTo 2) rfl
  obtain ⟨c', b', k, candidate, requests, index, here, text, cursor⟩ :=
    goes _ offered .backward [.forward, .forward]
  obtain rfl : k = 1 := Int.ofNat.inj index
  obtain rfl : "c" = candidate := Option.some.inj here
  rw [place.1] at text cursor
  rw [place.2] at text
  refine ⟨rfl, c', b', requests, text.trans ?_, cursor.trans ?_⟩
  · decide +kernel
  · decide +kernel

end Completion

end LineEdit
