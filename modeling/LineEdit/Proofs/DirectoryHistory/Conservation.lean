import LineEdit.DirectoryHistory
import Mathlib.Data.List.Basic

/-!
# No directory is lost, and none is listed twice

The directory worked in is not on the list while the walk stands at the list's end; anywhere else
it is the one that the walk stands on. That is what makes a walk safe: it puts the directory known
last on the list when it begins at the end, and finds it there already when it begins anywhere else.
A directory that is put on the list takes the place of an earlier occurrence of it, so that the list
never grows by one that it has.

Between two steps others may change the working directory, and the host may refuse any change.
-/
namespace LineEdit.DirectoryHistory

/-- Some directory on the list is the same as this one. It may be written otherwise there, so that
membership in the list would be too much to ask. -/
def Listed (dirs : List Path) (dir : Path) : Prop := ∃ other ∈ dirs, other.Same dir

variable {dirs : List Path} {dir other : Path}

theorem listed_cons : Listed (dir :: dirs) other ↔ dir.Same other ∨ Listed dirs other := by
  simp only [Listed, List.mem_cons, or_and_right, exists_or, exists_eq_left]

theorem listed_append {more : List Path} :
    Listed (dirs ++ more) other ↔ Listed dirs other ∨ Listed more other := by
  simp only [Listed, List.mem_append, or_and_right, exists_or]

theorem listed_singleton : Listed [dir] other ↔ dir.Same other := by
  simp only [Listed, List.mem_singleton, exists_eq_left]

theorem listed_of_mem (mem : dir ∈ dirs) : Listed dirs dir := ⟨dir, mem, .refl dir⟩

theorem listed_congr (same : dir.Same other) : Listed dirs dir ↔ Listed dirs other := by
  constructor
  · intro h
    obtain ⟨d, mem, here⟩ := h
    exact ⟨d, mem, here.trans same⟩
  · intro h
    obtain ⟨d, mem, here⟩ := h
    exact ⟨d, mem, here.trans same.symm⟩

theorem listed_cons_of_mem (mem : dir ∈ dirs) : Listed (dir :: dirs) other ↔ Listed dirs other := by
  rw [listed_cons]
  constructor
  · intro h
    rcases h with same | listed
    · exact (listed_congr same).mp (listed_of_mem mem)
    · exact listed
  · exact .inr

/-- The list without the first occurrence of a directory, which is what stays before the directory
is put last. -/
def others (dirs : List Path) (dir : Path) : List Path :=
  dirs.eraseP fun d => decide (d.Same dir)

theorem commit_eq (h : DirectoryHistory) :
    h.commit = ⟨others h.dirs h.lastKnown ++ [h.lastKnown], (others h.dirs h.lastKnown).length,
      h.lastKnown⟩ := rfl

theorem others_cons_of_same (same : other.Same dir) : others (other :: dirs) dir = dirs :=
  List.eraseP_cons_of_pos (decide_eq_true same)

theorem others_cons_of_not_same (different : ¬other.Same dir) :
    others (other :: dirs) dir = other :: others dirs dir :=
  List.eraseP_cons_of_neg (by simpa using different)

/-- Only the directory itself goes from the list, and it comes back in the last place. -/
theorem listed_others_or (dirs : List Path) (dir other : Path) :
    Listed (others dirs dir) other ∨ dir.Same other ↔ Listed dirs other ∨ dir.Same other := by
  induction dirs with
  | nil => rfl
  | cons d dirs ih =>
    rw [listed_cons]
    by_cases found : d.Same dir
    · rw [others_cons_of_same found]
      constructor
      · intro h
        rcases h with rest | same
        · exact .inl (.inr rest)
        · exact .inr same
      · intro h
        rcases h with (gone | rest) | same
        · exact .inr (found.symm.trans gone)
        · exact .inl rest
        · exact .inr same
    · rw [others_cons_of_not_same found, listed_cons, or_assoc, ih, or_assoc]

/-- On a list without duplicates the first occurrence is the only one. -/
theorem not_listed_others (distinct : dirs.Pairwise fun a b => ¬a.Same b) (dir : Path) :
    ¬Listed (others dirs dir) dir := by
  induction dirs with
  | nil =>
    intro h
    obtain ⟨d, mem, -⟩ := h
    exact List.not_mem_nil mem
  | cons d dirs ih =>
    rw [List.pairwise_cons] at distinct
    by_cases found : d.Same dir
    · rw [others_cons_of_same found]
      intro h
      obtain ⟨e, mem, same⟩ := h
      exact distinct.1 e mem (found.trans same.symm)
    · rw [others_cons_of_not_same found, listed_cons]
      intro h
      rcases h with same | rest
      · exact found same
      · exact ih distinct.2 rest

/-- The history accounts for the directories `seen`: it has each of them once and no others. The one
known last counts as seen although it need not be on the list yet. Every step of the history keeps
this. -/
structure Accounts (seen : List Path) (h : DirectoryHistory) : Prop where
  distinct : h.dirs.Pairwise fun a b => ¬a.Same b
  position_eq : h.dirs = [] → h.position = 0
  position_lt : h.dirs ≠ [] → h.position < h.dirs.length
  /-- Before the end of the list the walk stands on the directory known last, so that a walk that
  goes on from there does not lose it. -/
  standing : h.position + 1 < h.dirs.length → h.dirs[h.position]? = some h.lastKnown
  complete : ∀ dir, Listed (h.lastKnown :: h.dirs) dir ↔ Listed seen dir

variable {seen : List Path} {h : DirectoryHistory}

theorem accounts_startingAt (dir : Path) : Accounts [dir] (startingAt dir) := by
  constructor
  case distinct => exact List.Pairwise.nil
  case position_eq => exact fun _ => rfl
  case position_lt => exact fun some_dirs => absurd rfl some_dirs
  case standing => exact nofun
  case complete => exact fun _ => Iff.rfl

namespace Accounts

theorem listed_commit (h : DirectoryHistory) (dir : Path) :
    Listed h.commit.dirs dir ↔ Listed (h.lastKnown :: h.dirs) dir := by
  rw [commit_eq, listed_append, listed_singleton, listed_others_or, listed_cons, or_comm]

theorem length_commit (h : DirectoryHistory) : h.commit.position + 1 = h.commit.dirs.length := by
  rw [commit_eq, List.length_append, List.length_singleton]

theorem getElem?_commit (h : DirectoryHistory) :
    h.commit.dirs[h.commit.position]? = some h.lastKnown := by
  rw [commit_eq, List.getElem?_append_right (Nat.le_refl _), Nat.sub_self]
  rfl

theorem distinct_commit (accounts : Accounts seen h) :
    h.commit.dirs.Pairwise fun a b => ¬a.Same b := by
  rw [commit_eq, List.pairwise_append]
  refine ⟨accounts.distinct.sublist List.eraseP_sublist, List.pairwise_singleton _ _, ?_⟩
  intro d mem e last same
  obtain rfl := List.mem_singleton.mp last
  exact not_listed_others accounts.distinct h.lastKnown ⟨d, mem, same⟩

theorem commit (accounts : Accounts seen h) {dir : Path} {more : List Path}
    (complete : ∀ other, dir.Same other ∨ Listed seen other ↔ Listed more other) :
    Accounts more { h.commit with lastKnown := dir } := by
  have length := length_commit h
  constructor
  case distinct => exact accounts.distinct_commit
  case position_eq =>
    intro none
    rw [none] at length
    exact absurd length nofun
  case position_lt =>
    intro _
    dsimp only
    omega
  case standing =>
    intro before_end
    dsimp only at before_end
    omega
  case complete =>
    intro other
    rw [listed_cons, listed_commit, accounts.complete, complete]

theorem prepared (accounts : Accounts seen h) :
    Accounts seen h.prepared ∧ h.prepared.dirs[h.prepared.position]? = some h.prepared.lastKnown := by
  unfold DirectoryHistory.prepared
  split
  next at_end =>
    have known : ∀ other, h.lastKnown.Same other ∨ Listed seen other ↔ Listed seen other := by
      intro other
      rw [← accounts.complete, listed_cons]
      constructor
      · intro known
        rcases known with same | listed
        · exact .inl same
        · exact listed
      · exact .inr
    exact ⟨accounts.commit known, getElem?_commit h⟩
  next before_end => exact ⟨accounts, accounts.standing (by omega)⟩

/-- A walk that stands on the directory known last may go to any other place of the list. -/
theorem stand (accounts : Accounts seen h) (here : h.dirs[h.position]? = some h.lastKnown)
    {target : Nat} (there : h.dirs[target]? = some dir) :
    Accounts seen ⟨h.dirs, target, dir⟩ := by
  obtain ⟨inside, -⟩ := List.getElem?_eq_some_iff.mp there
  constructor
  case distinct => exact accounts.distinct
  case position_eq =>
    intro none
    rw [show h.dirs = [] from none] at inside
    exact absurd inside nofun
  case position_lt => exact fun _ => inside
  case standing => exact fun _ => there
  case complete =>
    intro other
    rw [← accounts.complete, listed_cons_of_mem (List.mem_of_getElem? here),
      listed_cons_of_mem (List.mem_of_getElem? there)]

theorem resume (accounts : Accounts seen h) (current : Path) :
    Accounts (seen ++ [current]) (h.resume current) := by
  have added : ∀ other, current.Same other ∨ Listed seen other ↔
      Listed (seen ++ [current]) other := by
    intro other
    rw [listed_append, listed_singleton, or_comm]
  unfold DirectoryHistory.resume
  split
  next same =>
    obtain ⟨distinct, position_eq, position_lt, standing, complete⟩ := accounts
    refine ⟨distinct, position_eq, position_lt, standing, ?_⟩
    intro other
    rw [← added, ← complete, listed_cons]
    constructor
    · exact .inr
    · intro h
      rcases h with here | known
      · exact .inl (same.symm.trans here)
      · exact known
  next => exact accounts.commit added

end Accounts

variable {W : Type} [WorkingDirectory W]

/-- A walk stays where it begins, or goes to a place of the list. All that is to be known of a walk
for the account follows from these two cases. -/
theorem navigate_cases (h : DirectoryHistory) (direction : Direction) (host : W) :
    (h.navigate direction host).2.1 = h.prepared ∨
      ∃ target dir, h.prepared.dirs[target]? = some dir ∧
        (h.navigate direction host).2.1 = ⟨h.prepared.dirs, target, dir⟩ := by
  unfold navigate
  dsimp only
  split
  next => exact .inl rfl
  next =>
    split
    next => exact .inl rfl
    next dir there =>
      split
      next => exact .inl rfl
      next => exact .inr ⟨_, dir, there, rfl⟩

theorem Accounts.navigate (accounts : Accounts seen h) (direction : Direction) (host : W) :
    Accounts seen (h.navigate direction host).2.1 := by
  obtain ⟨ready, here⟩ := accounts.prepared
  rcases navigate_cases h direction host with stays | ⟨target, dir, there, goes⟩
  · rw [stays]
    exact ready
  · rw [goes]
    exact ready.stand here there

/-- What happens to a history and the host of the working directory: others change that directory,
or what the host refuses, editing goes on, or the user walks. -/
inductive Event (W : Type) where
  | elsewhere (host : W)
  | resume
  | navigate (direction : Direction)

def Event.apply (state : DirectoryHistory × W) : Event W → DirectoryHistory × W
  | elsewhere host => (state.1, host)
  | resume => (state.1.resume (WorkingDirectory.current state.2), state.2)
  | navigate direction => (state.1.navigate direction state.2).2

def after (state : DirectoryHistory × W) (events : List (Event W)) : DirectoryHistory × W :=
  events.foldl Event.apply state

/-- The directories that are seen when editing goes on. -/
def visits (state : DirectoryHistory × W) : List (Event W) → List Path
  | [] => []
  | .resume :: events =>
    WorkingDirectory.current state.2 :: visits (Event.apply state .resume) events
  | event :: events => visits (event.apply state) events

theorem Accounts.after (state : DirectoryHistory × W) (accounts : Accounts seen state.1)
    (events : List (Event W)) : Accounts (seen ++ visits state events) (after state events).1 := by
  induction events generalizing state seen with
  | nil =>
    rw [visits, List.append_nil]
    exact accounts
  | cons event events ih =>
    cases event with
    | elsewhere host => exact ih (state.1, host) accounts
    | resume =>
      rw [visits, ← List.singleton_append, ← List.append_assoc]
      exact ih _ (accounts.resume _)
    | navigate direction =>
      exact ih _ (accounts.navigate direction state.2)

/-- Whatever happens, the history and the directory known last are the directory that it began with
and those that were seen since, and the list has none of them twice. -/
theorem accounts_after (dir : Path) (host : W) (events : List (Event W)) :
    Accounts (dir :: visits (startingAt dir, host) events)
      (after (startingAt dir, host) events).1 :=
  Accounts.after (startingAt dir, host) (accounts_startingAt dir) events

end LineEdit.DirectoryHistory
