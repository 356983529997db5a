import LineEdit.Proofs.DirectoryHistory.Walk
import Mathlib.Data.List.Destutter

/-!
# The way back

As long as nobody walks, a history stands at the end of its list, and the list has the directories
that were left, each where it was left last. To go back from there begins with the directory that
was left last and ends with the one that was left first, since the list without the directory worked
in is just what is before the place where the walk begins.
-/
namespace LineEdit.DirectoryHistory

abbrev Apart (a b : Path) : Prop := ¬a.Same b

theorem forall_apart_pwFilter (dir : Path) (dirs : List Path) :
    (∀ d ∈ dirs.pwFilter Apart, Apart dir d) ↔ ∀ d ∈ dirs, Apart dir d := by
  apply List.forall_mem_pwFilter
  intro a b c apart
  by_cases same : a.Same b
  · exact .inr fun again => apart (same.trans again)
  · exact .inl same

/-- What comes last takes the place of what is the same before it. To leave a directory does just
this to the list. -/
theorem pwFilter_concat (dirs : List Path) (dir : Path) :
    (dirs ++ [dir]).pwFilter Apart =
      (dirs.pwFilter Apart).filter (fun d => decide (Apart d dir)) ++ [dir] := by
  induction dirs with
  | nil => rfl
  | cons d dirs ih =>
    have stays : (∀ e ∈ (dirs ++ [dir]).pwFilter Apart, Apart d e) ↔
        (∀ e ∈ dirs.pwFilter Apart, Apart d e) ∧ Apart d dir := by
      rw [forall_apart_pwFilter, forall_apart_pwFilter, List.forall_mem_append,
        List.forall_mem_singleton]
    rw [List.cons_append]
    by_cases listed : ∀ e ∈ dirs.pwFilter Apart, Apart d e
    · rw [List.pwFilter_cons_of_pos listed]
      by_cases apart : Apart d dir
      · rw [List.pwFilter_cons_of_pos (stays.mpr ⟨listed, apart⟩), ih,
          List.filter_cons_of_pos (by simpa using apart)]
        rfl
      · rw [List.pwFilter_cons_of_neg fun both => apart (stays.mp both).2, ih,
          List.filter_cons_of_neg (by simpa using apart)]
    · rw [List.pwFilter_cons_of_neg listed,
        List.pwFilter_cons_of_neg fun both => listed (stays.mp both).1, ih]

example : List.pwFilter Apart [⟨"/a"⟩, ⟨"/b"⟩, ⟨"/a/"⟩] = [⟨"/b"⟩, ⟨"/a/"⟩] := by decide +kernel

theorem others_eq_filter {dirs : List Path} (distinct : dirs.Pairwise Apart) (dir : Path) :
    others dirs dir = dirs.filter fun d => decide (Apart d dir) := by
  induction dirs with
  | nil => rfl
  | cons d dirs ih =>
    rw [List.pairwise_cons] at distinct
    by_cases same : d.Same dir
    · have kept : dirs.filter (fun d => decide (Apart d dir)) = dirs := by
        rw [List.filter_eq_self]
        intro e mem
        exact decide_eq_true fun again => distinct.1 e mem (same.trans again.symm)
      rw [others_cons_of_same same, List.filter_cons_of_neg (by simpa using same), kept]
    · rw [others_cons_of_not_same same, List.filter_cons_of_pos (by simpa using same),
        ih distinct.2]

/-- A history at the end of its list, on which are these directories that were left, each once. -/
structure Leaves (left : List Path) (h : DirectoryHistory) : Prop where
  dirs : h.dirs = left.pwFilter Apart
  at_end : h.dirs.length ≤ h.position + 1

theorem Leaves.commit {left : List Path} {h : DirectoryHistory} (leaves : Leaves left h)
    (dir : Path) : Leaves (left ++ [h.lastKnown]) { h.commit with lastKnown := dir } := by
  have distinct : h.dirs.Pairwise Apart := by
    rw [leaves.dirs]
    exact List.pairwise_pwFilter left
  constructor
  case dirs =>
    rw [commit_eq, pwFilter_concat, ← leaves.dirs, others_eq_filter distinct]
  case at_end => exact Nat.le_of_eq (Accounts.length_commit h).symm

variable {W : Type} [WorkingDirectory W] {h : DirectoryHistory} {host : W}

theorem resume_of_same (same : (WorkingDirectory.current host).Same h.lastKnown) :
    Event.apply (h, host) .resume = (h, host) := Prod.ext (if_pos same) rfl

theorem resume_of_apart (news : Apart (WorkingDirectory.current host) h.lastKnown) :
    Event.apply (h, host) .resume =
      ({ h.commit with lastKnown := WorkingDirectory.current host }, host) :=
  Prod.ext (if_neg news) rfl

/-- As long as nobody walks, a directory that another one is seen behind was left. The induction is
on the events, from any history at the end of its list. -/
theorem Leaves.after {left : List Path} {events : List (Event W)} (leaves : Leaves left h)
    (host : W) (still : ∀ direction, .navigate direction ∉ events) :
    ∃ more, (h.lastKnown :: visits (h, host) events).destutter Apart =
        more ++ [(after (h, host) events).1.lastKnown] ∧
      Leaves (left ++ more) (after (h, host) events).1 := by
  induction events generalizing left h host with
  | nil =>
    refine ⟨[], rfl, ?_⟩
    rw [List.append_nil]
    exact leaves
  | cons event events ih =>
    have later : ∀ direction, .navigate direction ∉ events :=
      fun direction mem => still direction (List.mem_cons_of_mem _ mem)
    cases event with
    | elsewhere other => exact ih leaves other later
    | navigate direction => exact absurd List.mem_cons_self (still direction)
    | resume =>
      by_cases same : (WorkingDirectory.current host).Same h.lastKnown
      · have known : ¬Apart h.lastKnown (WorkingDirectory.current host) := not_not.mpr same.symm
        rw [visits, DirectoryHistory.after, List.foldl_cons, resume_of_same same,
          List.destutter_cons_cons, if_neg known]
        exact ih leaves host later
      · have news : Apart h.lastKnown (WorkingDirectory.current host) := fun known => same known.symm
        obtain ⟨more, seen, kept⟩ := ih (leaves.commit _) host later
        rw [visits, DirectoryHistory.after, List.foldl_cons, resume_of_apart same,
          List.destutter_cons_cons, if_pos news]
        refine ⟨h.lastKnown :: more, congrArg (h.lastKnown :: ·) seen, ?_⟩
        rw [List.append_assoc, List.singleton_append] at kept
        exact kept

theorem same_lastKnown_after {events : List (Event W)} (h : DirectoryHistory) (host : W)
    (still : ∀ direction, .navigate direction ∉ events) :
    ∀ d ∈ (h.lastKnown :: visits (h, host) events).getLast?,
      d.Same (DirectoryHistory.after (h, host) events).1.lastKnown := by
  induction events generalizing h host with
  | nil =>
    rintro d ⟨rfl⟩
    exact .refl _
  | cons event events ih =>
    have later : ∀ direction, .navigate direction ∉ events :=
      fun direction mem => still direction (List.mem_cons_of_mem _ mem)
    cases event with
    | elsewhere other => exact ih h other later
    | navigate direction => exact absurd List.mem_cons_self (still direction)
    | resume =>
      by_cases same : (WorkingDirectory.current host).Same h.lastKnown
      · have known := ih h host later
        rw [visits, DirectoryHistory.after, List.foldl_cons, resume_of_same same,
          List.getLast?_cons_cons]
        cases more : visits (h, host) events with
        | nil =>
          rw [more] at known
          rintro d ⟨rfl⟩
          exact same.trans (known _ rfl)
        | cons first others =>
          rw [more, List.getLast?_cons_cons] at known
          rw [List.getLast?_cons_cons]
          exact known
      · rw [visits, DirectoryHistory.after, List.foldl_cons, resume_of_apart same,
          List.getLast?_cons_cons]
        exact ih { h.commit with lastKnown := WorkingDirectory.current host } host later

/-- A walk along a list is at some place of it, or it begins there. The first step and the later
ones need not be told apart in this way. -/
structure Stands (hosts : W → Prop) (list : List Path) (place : Nat)
    (state : DirectoryHistory × W) : Prop where
  dirs : state.1.prepared.dirs = list
  position : state.1.prepared.position = place
  here : list[place]? = some state.1.prepared.lastKnown
  ready : hosts state.2

variable {hosts : W → Prop} {list : List Path} {place k : Nat} {state : DirectoryHistory × W}

theorem lastKnown_prepared (h : DirectoryHistory) : h.prepared.lastKnown = h.lastKnown := by
  rw [prepared_eq]

theorem navigate_of_first (stands : Stands hosts list 0 state) :
    state.1.navigate .backward state.2 = (false, state.1.prepared, state.2) := by
  have stays : state.1.prepared.neighbour .backward = state.1.prepared.position := by
    unfold neighbour
    rw [stands.position]
  unfold navigate
  exact if_pos stays

theorem navigate_of_behind (obliging : Obliging hosts) {dir : Path}
    (stands : Stands hosts list (place + 1) state) (before : list[place]? = some dir) :
    ∃ next, state.1.navigate .backward state.2 = (true, ⟨list, place, dir⟩, next) ∧
      (WorkingDirectory.current next).Same dir ∧ hosts next := by
  obtain ⟨next, changed, there, ready⟩ := obliging state.2 dir stands.ready
  have target : state.1.prepared.neighbour .backward = place := by
    unfold neighbour
    rw [stands.position]
    rfl
  have moves : ¬place = state.1.prepared.position := by
    rw [stands.position]
    omega
  refine ⟨next, ?_, there, ready⟩
  unfold navigate
  dsimp only
  rw [target, if_neg moves, stands.dirs, before]
  dsimp only
  rw [changed]

theorem Stands.back (obliging : Obliging hosts) (distinct : list.Pairwise Apart)
    (stands : Stands hosts list place state) :
    Stands hosts list (place - 1) (Event.apply state (.navigate .backward)) := by
  have known {h : DirectoryHistory} (here : h.dirs[h.position]? = some h.lastKnown)
      (same : h.dirs = list) : h.prepared = h := prepared_eq_self (same ▸ distinct) here
  cases place with
  | zero =>
    have here := stands.here
    rw [← stands.dirs, ← stands.position] at here
    have again := known here stands.dirs
    have step : Event.apply state (.navigate .backward) = (state.1.prepared, state.2) :=
      congrArg Prod.snd (navigate_of_first stands)
    rw [step]
    constructor
    case dirs => rw [again]; exact stands.dirs
    case position => rw [again]; exact stands.position
    case here => rw [again]; exact stands.here
    case ready => exact stands.ready
  | succ place =>
    obtain ⟨inside, -⟩ := List.getElem?_eq_some_iff.mp stands.here
    have before : list[place]? = some list[place] :=
      List.getElem?_eq_getElem (Nat.lt_of_succ_lt inside)
    obtain ⟨next, goes, -, ready⟩ := navigate_of_behind obliging stands before
    have step : Event.apply state (.navigate .backward) = (⟨list, place, list[place]⟩, next) :=
      congrArg Prod.snd goes
    have begun : DirectoryHistory.prepared ⟨list, place, list[place]⟩ = ⟨list, place, list[place]⟩ :=
      known before rfl
    rw [step]
    constructor
    case dirs => exact congrArg (·.dirs) begun
    case position => exact congrArg (·.position) begun
    case here => rw [begun]; exact before
    case ready => exact ready

theorem Stands.backs (obliging : Obliging hosts) (distinct : list.Pairwise Apart)
    (stands : Stands hosts list place state) (k : Nat) :
    Stands hosts list (place - k)
      (DirectoryHistory.after state (List.replicate k (.navigate .backward))) := by
  induction k generalizing state place with
  | zero => exact stands
  | succ k ih =>
    have rest := ih (stands.back obliging distinct)
    rw [Nat.sub_sub, Nat.add_comm] at rest
    exact rest

/-- The directory that a history begins with, and those that are seen since. -/
def seen (dir : Path) (start : W) (events : List (Event W)) : List Path :=
  dir :: visits (startingAt dir, start) events

/-- The directories on the way back, the nearest first: all on the list but the one worked in. -/
def wayBack (h : DirectoryHistory) : List Path :=
  (h.dirs.filter fun d => decide (Apart d h.lastKnown)).reverse

theorem listed_wayBack (h : DirectoryHistory) (dir : Path) :
    Listed h.wayBack dir ↔ Listed (h.lastKnown :: h.dirs) dir ∧ Apart dir h.lastKnown := by
  unfold wayBack
  rw [listed_cons]
  constructor
  · rintro ⟨d, mem, same⟩
    obtain ⟨listed, apart⟩ := List.mem_filter.mp (List.mem_reverse.mp mem)
    exact ⟨.inr ⟨d, listed, same⟩, fun known => of_decide_eq_true apart (same.trans known)⟩
  · rintro ⟨known | ⟨d, listed, same⟩, apart⟩
    · exact absurd known.symm apart
    · refine ⟨d, List.mem_reverse.mpr (List.mem_filter.mpr ⟨listed, ?_⟩), same⟩
      exact decide_eq_true fun known => apart (same.symm.trans known)

/-- Once the directory worked in is on the list, it stands behind the way back. -/
theorem commit_eq_wayBack (distinct : h.dirs.Pairwise Apart) :
    h.commit = ⟨h.wayBack.reverse ++ [h.lastKnown], h.wayBack.length, h.lastKnown⟩ := by
  have front : others h.dirs h.lastKnown = h.wayBack.reverse := by
    rw [others_eq_filter distinct, wayBack, List.reverse_reverse]
  rw [commit_eq, front, List.length_reverse]

omit [WorkingDirectory W] in
theorem stands_wayBack (at_end : h.dirs.length ≤ h.position + 1)
    (distinct : h.dirs.Pairwise Apart) (ready : hosts host) :
    Stands hosts (h.wayBack.reverse ++ [h.lastKnown]) h.wayBack.length (h, host) := by
  have begun : h.prepared = h.commit := if_pos at_end
  rw [commit_eq_wayBack distinct] at begun
  constructor
  case dirs => exact congrArg (·.dirs) begun
  case position => exact congrArg (·.position) begun
  case here =>
    rw [List.getElem?_append_right (Nat.le_of_eq List.length_reverse), List.length_reverse,
      Nat.sub_self, lastKnown_prepared]
    rfl
  case ready => exact ready

/-- As long as nobody walks, the list has the directories that were left, each where it was left
last: of the directories that are seen one after another, those that another one was seen behind. A
walk back from there leads through the directories other than the one worked in, each once and from
the one that was left last to the one that was left first, and stays there however often it is asked
to go on. -/
theorem back_through_departures (obliging : Obliging hosts) {dir : Path}
    {events : List (Event W)} {start here : W} (still : ∀ direction, .navigate direction ∉ events)
    (reached : after (startingAt dir, start) events = (h, here)) (ready : hosts here) :
    (∃ left, (seen dir start events).destutter Apart = left ++ [h.lastKnown] ∧
      h.dirs = left.pwFilter Apart) ∧
    (∀ last ∈ (seen dir start events).getLast?, last.Same h.lastKnown) ∧
    h.wayBack.Pairwise Apart ∧
    (∀ d, Listed h.wayBack d ↔ Listed (seen dir start events) d ∧ Apart d h.lastKnown) ∧
    ∀ k state, after (h, here) (List.replicate k (.navigate .backward)) = state →
      (∀ d, h.wayBack[k]? = some d → ∃ next : DirectoryHistory × W,
        state.1.navigate .backward state.2 = (true, next) ∧ next.1.lastKnown = d ∧
          (WorkingDirectory.current next.2).Same d) ∧
      (h.wayBack[k]? = none → ∃ next : DirectoryHistory,
        state.1.navigate .backward state.2 = (false, next, state.2) ∧
          next.lastKnown = state.1.lastKnown) := by
  have accounts := accounts_after dir start events
  have started : Leaves [] (startingAt dir) := ⟨rfl, Nat.zero_le _⟩
  obtain ⟨left, departed, leaves⟩ := started.after start still
  have last := same_lastKnown_after (startingAt dir) start still
  rw [reached] at accounts departed leaves last
  have apart : h.wayBack.Pairwise Apart := by
    rw [wayBack, List.pairwise_reverse]
    exact (accounts.distinct.filter _).imp fun different same => different same.symm
  refine ⟨⟨left, departed, leaves.dirs⟩, last, apart, ?_, ?_⟩
  · intro d
    rw [listed_wayBack, accounts.complete]
    rfl
  · rintro k state rfl
    have stands := stands_wayBack leaves.at_end accounts.distinct ready
    have distinct := accounts.distinct_commit
    rw [commit_eq_wayBack accounts.distinct] at distinct
    have there := stands.backs obliging distinct k
    constructor
    · intro d on_way
      obtain ⟨inside, -⟩ := List.getElem?_eq_some_iff.mp on_way
      have place : h.wayBack.length - k = h.wayBack.length - 1 - k + 1 := by omega
      have before : (h.wayBack.reverse ++ [h.lastKnown])[h.wayBack.length - 1 - k]? = some d := by
        rw [List.getElem?_append_left (by rw [List.length_reverse]; omega),
          List.getElem?_reverse (by omega), ← on_way]
        congr 1
        omega
      rw [place] at there
      obtain ⟨next, goes, moved, -⟩ := navigate_of_behind obliging there before
      exact ⟨_, goes, rfl, moved⟩
    · intro at_end
      have first : h.wayBack.length - k = 0 :=
        Nat.sub_eq_zero_of_le (List.getElem?_eq_none_iff.mp at_end)
      rw [first] at there
      exact ⟨_, navigate_of_first there, lastKnown_prepared _⟩

def detour : List (Event ShellDirectory) :=
  [.elsewhere (.standingIn ⟨"/b"⟩), .resume, .elsewhere (.standingIn ⟨"/a/"⟩), .resume, .resume,
    .elsewhere (.standingIn ⟨"/c"⟩), .resume, .elsewhere (.standingIn ⟨"/b"⟩), .resume]

def detoured : DirectoryHistory × ShellDirectory :=
  after (startingAt ⟨"/a"⟩, .standingIn ⟨"/a"⟩) detour

/-- Two steps back, and a third one that leads nowhere. -/
theorem back_through_departures_detoured :
    (∀ direction, .navigate direction ∉ detour) ∧ detoured.2.refused = [] ∧
    detoured.1.dirs = [⟨"/b"⟩, ⟨"/a/"⟩, ⟨"/c"⟩] ∧
    (∃ first : DirectoryHistory × ShellDirectory,
      detoured.1.navigate .backward detoured.2 = (true, first) ∧ first.2.here.Same ⟨"/c"⟩) ∧
    (∃ second : DirectoryHistory × ShellDirectory,
      let state := after detoured [.navigate .backward]
      state.1.navigate .backward state.2 = (true, second) ∧ second.2.here.Same ⟨"/a/"⟩) ∧
    ∃ third : DirectoryHistory,
      let state := after detoured [.navigate .backward, .navigate .backward]
      state.1.navigate .backward state.2 = (false, third, state.2) := by
  have still : ∀ direction, .navigate direction ∉ detour := by
    intro direction mem
    simp [detour] at mem
  have ready : detoured.2.refused = [] := rfl
  have way : detoured.1.wayBack = [⟨"/c"⟩, ⟨"/a/"⟩] := by decide +kernel
  have reached : after (startingAt ⟨"/a"⟩, ShellDirectory.standingIn ⟨"/a"⟩) detour =
      (detoured.1, detoured.2) := rfl
  obtain ⟨-, -, -, -, back⟩ := back_through_departures obliging_shell still reached ready
  rw [way] at back
  obtain ⟨first, goes, -, there⟩ := (back 0 _ rfl).1 _ rfl
  obtain ⟨second, goes_on, -, there_then⟩ := (back 1 _ rfl).1 _ rfl
  obtain ⟨third, stays, -⟩ := (back 2 _ rfl).2 rfl
  exact ⟨still, ready, by decide +kernel, ⟨first, goes, there⟩, ⟨second, goes_on, there_then⟩,
    third, stays⟩

end LineEdit.DirectoryHistory
