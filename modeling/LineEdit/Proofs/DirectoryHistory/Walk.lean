import LineEdit.Proofs.DirectoryHistory.Conservation

/-!
# A walk goes along a list that stays

A walk begins on the directory known last, which it puts at the end of the list if it begins there.
From then on the list stays as it is: a walk that comes back to the end puts a directory there that
is there already, and editing that goes on finds the directory it knows. So the walk is a matter of
its place alone, which every step moves by one and no step moves off the list.

The host here makes every change that it is asked for.

Places and the answers of a walk are described on whole numbers first, without a history; what is
seen of a history is then compared with them, step by step.
-/
namespace LineEdit.DirectoryHistory

/-- The list that a walk goes along, which is the one that its first step prepares. It stays the
same along the walk. -/
def trail (h : DirectoryHistory) : List Path :=
  if h.dirs.length ≤ h.position + 1 then others h.dirs h.lastKnown ++ [h.lastKnown] else h.dirs

def outset (h : DirectoryHistory) : Nat :=
  if h.dirs.length ≤ h.position + 1 then h.trail.length - 1 else h.position

theorem prepared_eq (h : DirectoryHistory) : h.prepared = ⟨h.trail, h.outset, h.lastKnown⟩ := by
  unfold prepared outset trail
  by_cases at_end : h.dirs.length ≤ h.position + 1
  · rw [if_pos at_end, if_pos at_end, if_pos at_end, commit_eq, List.length_append,
      List.length_singleton, Nat.add_sub_cancel]
  · rw [if_neg at_end, if_neg at_end, if_neg at_end]

theorem others_concat {dirs : List Path} {dir : Path} (unlisted : ¬Listed dirs dir) :
    others (dirs ++ [dir]) dir = dirs := by
  have different : ∀ d ∈ dirs, ¬decide (d.Same dir) = true := by
    intro d mem same
    exact unlisted ⟨d, mem, of_decide_eq_true same⟩
  rw [others, List.eraseP_append_right _ different]
  change dirs ++ others [dir] dir = dirs
  rw [others_cons_of_same (.refl dir), List.append_nil]

variable {h : DirectoryHistory}

/-- At the end of the list, the directory known last is put where it is already. -/
theorem commit_eq_self (distinct : h.dirs.Pairwise fun a b => ¬a.Same b)
    (here : h.dirs[h.position]? = some h.lastKnown) (at_end : h.dirs.length ≤ h.position + 1) :
    h.commit = h := by
  obtain ⟨dirs, position, lastKnown⟩ := h
  dsimp only at distinct here at_end
  obtain ⟨inside, found⟩ := List.getElem?_eq_some_iff.mp here
  obtain ⟨front, rfl⟩ : ∃ front, dirs = front ++ [lastKnown] := by
    refine ⟨dirs.take position, ?_⟩
    rw [← found, List.take_append_getElem, List.take_of_length_le at_end]
  have place : front.length = position := by
    rw [List.length_append, List.length_singleton] at inside at_end
    omega
  have unlisted : ¬Listed front lastKnown := by
    rintro ⟨d, mem, same⟩
    exact (List.pairwise_append.mp distinct).2.2 d mem lastKnown (List.mem_singleton_self _) same
  rw [commit_eq]
  dsimp only
  rw [others_concat unlisted, place]

theorem prepared_eq_self (distinct : h.dirs.Pairwise fun a b => ¬a.Same b)
    (here : h.dirs[h.position]? = some h.lastKnown) : h.prepared = h := by
  unfold prepared
  split
  next at_end => exact commit_eq_self distinct here at_end
  next => rfl

/-- On a history that accounts for what was seen, a walk begins on the directory known last, and its
list has no directory twice. -/
theorem Accounts.trail {seen : List Path} (accounts : Accounts seen h) :
    (h.trail.Pairwise fun a b => ¬a.Same b) ∧ h.trail[h.outset]? = some h.lastKnown := by
  obtain ⟨prepared, here⟩ := accounts.prepared
  have distinct := prepared.distinct
  rw [prepared_eq] at distinct here
  exact ⟨distinct, here⟩

/-- The place one step on, or the same place at an end of a list of `n` places. -/
def stride (n : Nat) (place : Int) (direction : Direction) : Int :=
  max 0 (min (place + direction.step) (n - 1))

def strides (n : Nat) (place : Int) (directions : List Direction) : Int :=
  directions.foldl (stride n) place

/-- For each step whether it leads to another place. A step at an end that leads outside of the list
does not. -/
def moves (n : Nat) (place : Int) : List Direction → List Bool
  | [] => []
  | direction :: directions =>
    decide (stride n place direction ≠ place) :: moves n (stride n place direction) directions

theorem neighbour_eq (inside : h.position < h.dirs.length) (direction : Direction) :
    (h.neighbour direction : Int) = stride h.dirs.length h.position direction := by
  unfold stride neighbour
  cases direction with
  | backward =>
    dsimp only [Direction.step]
    omega
  | forward =>
    dsimp only [Direction.step]
    omega

variable {n k : Nat} {place : Int}

theorem strides_backward (low : (k : Int) ≤ place) (high : place < n) :
    strides n place (List.replicate k .backward) = place - k := by
  induction k generalizing place with
  | zero => exact (Int.sub_zero place).symm
  | succ k ih =>
    have step : stride n place .backward = place - 1 := by
      unfold stride
      dsimp only [Direction.step]
      omega
    rw [List.replicate_succ, strides, List.foldl_cons, step, ← strides, ih (by omega) (by omega)]
    omega

theorem strides_forward (low : 0 ≤ place) (high : place + k < n) :
    strides n place (List.replicate k .forward) = place + k := by
  induction k generalizing place with
  | zero => exact (Int.add_zero place).symm
  | succ k ih =>
    have step : stride n place .forward = place + 1 := by
      unfold stride
      dsimp only [Direction.step]
      omega
    rw [List.replicate_succ, strides, List.foldl_cons, step, ← strides, ih (by omega) (by omega)]
    omega

theorem strides_back_and_forth (low : (k : Int) ≤ place) (high : place < n) :
    strides n place (List.replicate k .backward ++ List.replicate k .forward) = place := by
  have back := strides_backward low high
  have forth : strides n (place - k) (List.replicate k .forward) = place - k + k :=
    strides_forward (by omega) (by omega)
  unfold strides at back forth ⊢
  rw [List.foldl_append, back, forth]
  omega

theorem le_of_moves_backward (low : 0 ≤ place) (high : place < n)
    (all : moves n place (List.replicate k .backward) = List.replicate k true) :
    (k : Int) ≤ place := by
  induction k generalizing place with
  | zero => exact low
  | succ k ih =>
    rw [List.replicate_succ, List.replicate_succ, moves, List.cons.injEq, decide_eq_true_eq] at all
    obtain ⟨moved, rest⟩ := all
    have step : 0 ≤ stride n place .backward ∧ stride n place .backward < n ∧
        (stride n place .backward = place ∨ stride n place .backward = place - 1) := by
      unfold stride
      dsimp only [Direction.step]
      omega
    have fewer := ih step.1 step.2.1 rest
    omega

variable {W : Type} [WorkingDirectory W]

/-- What a request to walk is answered, none for other events, and what is seen after it. -/
structure Sight where
  answer : Option Bool
  lastKnown : Path
  current : Path
deriving DecidableEq, Repr

def Event.answer? (state : DirectoryHistory × W) : Event W → Option Bool
  | elsewhere _ => none
  | resume => none
  | navigate direction => some (state.1.navigate direction state.2).1

def Event.sight (state : DirectoryHistory × W) (event : Event W) : Sight where
  answer := event.answer? state
  lastKnown := (event.apply state).1.lastKnown
  current := WorkingDirectory.current (event.apply state).2

def sights (state : DirectoryHistory × W) : List (Event W) → List Sight
  | [] => []
  | event :: events => event.sight state :: sights (event.apply state) events

def answers (state : DirectoryHistory × W) (events : List (Event W)) : List Bool :=
  (sights state events).filterMap (·.answer)

theorem answers_cons (state : DirectoryHistory × W) (event : Event W) (events : List (Event W)) :
    answers state (event :: events) =
      (event.answer? state).toList ++ answers (event.apply state) events := by
  unfold answers
  rw [sights, List.filterMap_cons]
  cases answer : event.answer? state with
  | none => rw [show (event.sight state).answer = none from answer]; rfl
  | some b => rw [show (event.sight state).answer = some b from answer]; rfl

/-- These hosts change to every directory that they are asked for. -/
def Obliging (hosts : W → Prop) : Prop :=
  ∀ host dir, hosts host → ∃ next, WorkingDirectory.change host dir = (true, next) ∧
    (WorkingDirectory.current next).Same dir ∧ hosts next

theorem obliging_shell : Obliging fun shell : ShellDirectory => shell.refused = [] := by
  intro shell dir none_refused
  refine ⟨{ shell with requests := shell.requests ++ [dir], here := dir }, ?_, .refl dir,
    none_refused⟩
  change shell.request dir = _
  unfold ShellDirectory.request
  rw [none_refused]
  rfl

/-- A walk along a list, at some place of it. The host is at the directory of that place, so that to
go on with editing there changes nothing. -/
structure Walking (hosts : W → Prop) (list : List Path) (place : Int)
    (state : DirectoryHistory × W) : Prop where
  dirs : state.1.dirs = list
  place : (state.1.position : Int) = place
  here : list[state.1.position]? = some state.1.lastKnown
  home : (WorkingDirectory.current state.2).Same state.1.lastKnown
  ready : hosts state.2

variable {hosts : W → Prop} {host : W} {list : List Path}

theorem walking_navigate (obliging : Obliging hosts)
    (begun : Walking hosts list place (h.prepared, host)) (direction : Direction) :
    (h.navigate direction host).1 = decide (stride list.length place direction ≠ place) ∧
      Walking hosts list (stride list.length place direction) (h.navigate direction host).2 := by
  obtain ⟨dirs, at_place, here, home, ready⟩ := begun
  subst dirs at_place
  dsimp only at here home ready ⊢
  obtain ⟨inside, -⟩ := List.getElem?_eq_some_iff.mp here
  have target := neighbour_eq inside direction
  rw [← target]
  unfold navigate
  dsimp only
  by_cases stays : h.prepared.neighbour direction = h.prepared.position
  · rw [if_pos stays, stays]
    exact ⟨(decide_eq_false (not_not.mpr rfl)).symm, rfl, rfl, here, home, ready⟩
  · have within : h.prepared.neighbour direction < h.prepared.dirs.length := by
      unfold stride at target
      omega
    obtain ⟨next, changed, there, still⟩ :=
      obliging host h.prepared.dirs[h.prepared.neighbour direction] ready
    rw [if_neg stays, List.getElem?_eq_getElem within]
    dsimp only
    rw [changed]
    refine ⟨(decide_eq_true ?_).symm, rfl, rfl, List.getElem?_eq_getElem within, there, still⟩
    exact fun same => stays (Int.ofNat.inj same)

def Event.ofStep : Option Direction → Event W
  | some direction => navigate direction
  | none => resume

/-- Once begun, a walk is a matter of its place. The induction is on the steps, with a step that is
none where editing goes on. -/
theorem Walking.steps (obliging : Obliging hosts) (distinct : list.Pairwise fun a b => ¬a.Same b)
    {state : DirectoryHistory × W} (walking : Walking hosts list place state)
    (steps : List (Option Direction)) :
    Walking hosts list (strides list.length place (steps.filterMap id))
        (after state (steps.map Event.ofStep)) ∧
      answers state (steps.map Event.ofStep) = moves list.length place (steps.filterMap id) := by
  induction steps generalizing state place with
  | nil => exact ⟨walking, rfl⟩
  | cons step steps ih =>
    rw [List.map_cons, answers_cons, after, List.foldl_cons]
    cases step with
    | none =>
      have known : Event.apply state (.ofStep none) = state :=
        Prod.ext (if_pos walking.home) rfl
      rw [known]
      exact ih walking
    | some direction =>
      have begun : state.1.prepared = state.1 := by
        refine prepared_eq_self ?_ ?_
        · rw [walking.dirs]
          exact distinct
        · rw [walking.dirs]
          exact walking.here
      have same : Walking hosts list place (state.1.prepared, state.2) := by
        rw [begun]
        exact walking
      obtain ⟨answer, on⟩ := walking_navigate obliging same direction
      obtain ⟨rest, answers⟩ := ih on
      refine ⟨rest, ?_⟩
      change (state.1.navigate direction state.2).1 :: _ = _
      rw [answer]
      exact congrArg (_ :: ·) answers

theorem walking_steps (obliging : Obliging hosts) (distinct : list.Pairwise fun a b => ¬a.Same b)
    (begun : Walking hosts list place (h.prepared, host)) (first : Direction)
    (later : List (Option Direction)) :
    Walking hosts list (strides list.length place (first :: later.filterMap id))
        (after (h, host) ((some first :: later).map Event.ofStep)) ∧
      answers (h, host) ((some first :: later).map Event.ofStep) =
        moves list.length place (first :: later.filterMap id) := by
  obtain ⟨answer, on⟩ := walking_navigate obliging begun first
  obtain ⟨walked, answers⟩ := on.steps obliging distinct later
  refine ⟨walked, ?_⟩
  rw [List.map_cons, answers_cons]
  change (h.navigate first host).1 :: _ = _
  rw [answer]
  exact congrArg (_ :: ·) answers

/-- From any state that a history can be in, with the host where it is known to be, a walk goes
along one list: after each of its steps the place on the list is where the steps lead that do not
leave it, a step is answered by whether it led to another place, and the host is at the directory of
the place. As many steps forward as there were steps back before, all of which led to another place,
end where the walk began. -/
theorem walk_of_reachable (obliging : Obliging hosts) {dir : Path} {before : List (Event W)}
    {start here : W} (reached : after (startingAt dir, start) before = (h, here))
    (ready : hosts here) (home : (WorkingDirectory.current here).Same h.lastKnown) :
    (∀ (first : Direction) (later : List (Option Direction)),
      let steps := (some first :: later).map Event.ofStep
      let directions := first :: later.filterMap id
      let state := after (h, here) steps
      state.1.dirs = h.trail ∧
      (state.1.position : Int) = strides h.trail.length h.outset directions ∧
      answers (h, here) steps = moves h.trail.length h.outset directions ∧
      h.trail[state.1.position]? = some state.1.lastKnown ∧
      (WorkingDirectory.current state.2).Same state.1.lastKnown) ∧
    ∀ k : Nat,
      answers (h, here) (List.replicate k (.navigate .backward)) = List.replicate k true →
      (WorkingDirectory.current (after (h, here) (List.replicate k (.navigate .backward) ++
        List.replicate k (.navigate .forward))).2).Same (WorkingDirectory.current here) := by
  have accounts := Accounts.after (startingAt dir, start) (accounts_startingAt dir) before
  rw [reached] at accounts
  obtain ⟨distinct, at_place⟩ : _ ∧ h.trail[h.outset]? = _ := accounts.trail
  have begun : Walking hosts h.trail h.outset (h.prepared, here) := by
    rw [prepared_eq]
    exact ⟨rfl, rfl, at_place, home, ready⟩
  constructor
  · intro first later
    obtain ⟨walking, answers⟩ := walking_steps obliging distinct begun first later
    exact ⟨walking.dirs, walking.place, answers, walking.here, walking.home⟩
  · intro k all
    cases k with
    | zero => exact .refl _
    | succ k =>
      have back : (List.replicate k (some Direction.backward)).filterMap id =
          List.replicate k .backward := List.filterMap_replicate_of_some rfl
      have forth : (List.replicate (k + 1) (some Direction.forward)).filterMap id =
          List.replicate (k + 1) .forward := List.filterMap_replicate_of_some rfl
      obtain ⟨-, answers⟩ :=
        walking_steps obliging distinct begun .backward (List.replicate k (some .backward))
      obtain ⟨returned, -⟩ := walking_steps obliging distinct begun .backward
        (List.replicate k (some .backward) ++ List.replicate (k + 1) (some .forward))
      rw [back, ← List.replicate_succ, ← List.replicate_succ, List.map_replicate] at answers
      have inside := Int.ofNat_lt.mpr (List.getElem?_eq_some_iff.mp at_place).1
      have low := le_of_moves_backward (Int.natCast_nonneg _) inside (answers.symm.trans all)
      rw [List.filterMap_append, back, forth, ← List.cons_append, ← List.replicate_succ,
        strides_back_and_forth low inside, ← List.cons_append, ← List.replicate_succ,
        List.map_append, List.map_replicate, List.map_replicate] at returned
      have same := returned.here
      rw [Int.ofNat.inj returned.place, at_place] at same
      refine returned.home.trans ?_
      rw [← Option.some.inj same]
      exact home.symm

def toured : DirectoryHistory × ShellDirectory :=
  after (startingAt ⟨"/a"⟩, .standingIn ⟨"/a"⟩)
    [.elsewhere (.standingIn ⟨"/b"⟩), .resume, .elsewhere (.standingIn ⟨"/c"⟩), .resume]

/-- A walk back to the first directory, where it stays once, and on to the second. -/
theorem walk_of_reachable_toured :
    (toured.2.refused = [] ∧ toured.2.here.Same toured.1.lastKnown) ∧
    let steps := [some .backward, none, some .backward, some .backward, some .forward]
    let state := after toured (steps.map .ofStep)
    state.1.dirs = [⟨"/a"⟩, ⟨"/b"⟩, ⟨"/c"⟩] ∧ (state.1.position : Int) = 1 ∧
    answers toured (steps.map .ofStep) = [true, true, false, true] ∧
    state.2.here.Same state.1.lastKnown := by
  have ready : toured.2.refused = [] := rfl
  have home : toured.2.here.Same toured.1.lastKnown := rfl
  obtain ⟨walks, -⟩ := walk_of_reachable obliging_shell (h := toured.1) rfl ready home
  obtain ⟨dirs, position, answers, -, there⟩ :=
    walks .backward [none, some .backward, some .backward, some .forward]
  refine ⟨⟨ready, home⟩, dirs.trans ?_, position.trans ?_, answers.trans ?_, there⟩
  · decide +kernel
  · decide +kernel
  · decide +kernel

end LineEdit.DirectoryHistory
