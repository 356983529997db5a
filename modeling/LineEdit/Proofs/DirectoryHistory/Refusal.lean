import LineEdit.Proofs.DirectoryHistory.Walk

/-!
# A walk that leads nowhere is forgotten

A walk that ends at once, at an end of the list or because the host refuses, may have put the
directory known last on the list, so that the history is not what it was. But the next walk would
have begun in the same way, and a directory that is left is put on the list only once. Two histories
are taken for alike when they begin the same walk and keep the same list when the directory is left;
events that agree lead from such histories to such histories, and nothing that is seen tells which
of the two it was.

The host here decides on a change by the directories alone, by the one that it is at and the one
that it is asked for. What else it keeps, as the requests that were made, may differ.
-/
namespace LineEdit.DirectoryHistory

variable {W : Type} [WorkingDirectory W]

/-- Where a request leads these hosts, and whether it is refused, is a matter of the directories:
the one worked in and the one that is asked for, and nothing that the host remembers. -/
def Predictable (leads : Path → Path → Option Path) (hosts : W → Prop) : Prop :=
  ∀ host dir, hosts host → ∃ next,
    WorkingDirectory.change host dir = ((leads (WorkingDirectory.current host) dir).isSome, next) ∧
    WorkingDirectory.current next =
      (leads (WorkingDirectory.current host) dir).getD (WorkingDirectory.current host) ∧
    hosts next

def refusing (refused : List Path) (dir : Path) : Option Path :=
  if refused.any fun path => decide (path.Same dir) then none else some dir

theorem predictable_shell (refused : List Path) :
    Predictable (fun _ => refusing refused) fun shell : ShellDirectory => shell.refused = refused := by
  intro shell dir refuses
  subst refuses
  have asked : WorkingDirectory.change shell dir = shell.request dir := rfl
  rw [asked]
  unfold ShellDirectory.request refusing
  dsimp only
  split
  next => exact ⟨_, rfl, rfl, rfl⟩
  next => exact ⟨_, rfl, rfl, rfl⟩

variable {leads : Path → Path → Option Path} {hosts : W → Prop} {direction : Direction}

/-- A step of a walk that has begun: whether it leads elsewhere, the history then, and the place of
the host. -/
def stepped (leads : Path → Path → Option Path) (h : DirectoryHistory) (direction : Direction)
    (here : Path) : Bool × DirectoryHistory × Path :=
  let target := h.neighbour direction
  if target = h.position then (false, h, here)
  else
    match h.dirs[target]? with
    | none => (false, h, here)
    | some dir =>
      match leads here dir with
      | none => (false, h, here)
      | some there => (true, ⟨h.dirs, target, dir⟩, there)

theorem stepped_eq_of_false {h : DirectoryHistory} {here : Path}
    (failed : (stepped leads h direction here).1 = false) :
    stepped leads h direction here = (false, h, here) := by
  unfold stepped at failed ⊢
  dsimp only at failed ⊢
  by_cases stays : h.neighbour direction = h.position
  · rw [if_pos stays]
  · rw [if_neg stays] at failed ⊢
    cases listed : h.dirs[h.neighbour direction]? with
    | none => rfl
    | some dir =>
      rw [listed] at failed
      dsimp only at failed ⊢
      cases led : leads here dir with
      | none => rfl
      | some there =>
        rw [led] at failed
        exact absurd failed nofun

/-- All that a host adds to a step is where it is, and what it keeps for itself. The rest is
`stepped`, which knows no host. -/
theorem navigate_eq_stepped (predictable : Predictable leads hosts) (h : DirectoryHistory)
    (direction : Direction) {host : W} (ready : hosts host) :
    ∃ next, h.navigate direction host =
        ((stepped leads h.prepared direction (WorkingDirectory.current host)).1,
          (stepped leads h.prepared direction (WorkingDirectory.current host)).2.1, next) ∧
      WorkingDirectory.current next =
        (stepped leads h.prepared direction (WorkingDirectory.current host)).2.2 ∧
      hosts next := by
  unfold navigate stepped
  dsimp only
  by_cases stays : h.prepared.neighbour direction = h.prepared.position
  · rw [if_pos stays, if_pos stays]
    exact ⟨host, rfl, rfl, ready⟩
  · rw [if_neg stays, if_neg stays]
    cases h.prepared.dirs[h.prepared.neighbour direction]? with
    | none => exact ⟨host, rfl, rfl, ready⟩
    | some dir =>
      obtain ⟨next, changed, there, still⟩ := predictable host dir ready
      refine ⟨next, ?_, ?_, still⟩
      · dsimp only
        rw [changed]
        cases leads (WorkingDirectory.current host) dir with
        | none => rfl
        | some _ => rfl
      · rw [there]
        dsimp only
        cases leads (WorkingDirectory.current host) dir with
        | none => rfl
        | some _ => rfl

/-- The two begin the same walk, and keep the same list when the directory is left. More cannot be
asked, since a walk that leads nowhere may have put the current directory on the list. -/
structure Alike (a b : DirectoryHistory) : Prop where
  prepared : a.prepared = b.prepared
  commit : a.commit = b.commit

theorem Alike.refl (h : DirectoryHistory) : Alike h h := ⟨rfl, rfl⟩

variable {a b h : DirectoryHistory}

theorem Alike.lastKnown (alike : Alike a b) : a.lastKnown = b.lastKnown :=
  congrArg (·.lastKnown) alike.commit

theorem Alike.resume (alike : Alike a b) (current : Path) :
    Alike (a.resume current) (b.resume current) := by
  unfold DirectoryHistory.resume
  rw [alike.lastKnown, alike.commit]
  split
  next => exact alike
  next => exact .refl _

theorem alike_prepared {seen : List Path} (accounts : Accounts seen h) : Alike h h.prepared := by
  obtain ⟨begun, here⟩ := accounts.prepared
  constructor
  case prepared => exact (prepared_eq_self begun.distinct here).symm
  case commit =>
    by_cases at_end : h.position + 1 ≥ h.dirs.length
    · have committed : h.prepared = h.commit := if_pos at_end
      rw [committed] at begun ⊢
      exact (commit_eq_self begun.distinct (Accounts.getElem?_commit h)
        (Nat.le_of_eq (Accounts.length_commit h).symm)).symm
    · rw [show h.prepared = h from if_neg at_end]

/-- The same thing happens, apart from what a host keeps for itself. -/
inductive Event.Agrees (hosts : W → Prop) : Event W → Event W → Prop
  | elsewhere {host host' : W} : hosts host → hosts host' →
      WorkingDirectory.current host = WorkingDirectory.current host' →
      Agrees hosts (elsewhere host) (elsewhere host')
  | resume : Agrees hosts resume resume
  | navigate (direction : Direction) : Agrees hosts (navigate direction) (navigate direction)

/-- Two states whose histories are alike, with hosts at one place. What happens to both alike keeps
this, and nothing that is seen tells the two apart. -/
structure Agree (hosts : W → Prop) (s t : DirectoryHistory × W) : Prop where
  alike : Alike s.1 t.1
  current : WorkingDirectory.current s.2 = WorkingDirectory.current t.2
  left : hosts s.2
  right : hosts t.2

variable {s t : DirectoryHistory × W}

theorem Agree.navigate (predictable : Predictable leads hosts) (agree : Agree hosts s t)
    (direction : Direction) :
    (s.1.navigate direction s.2).1 = (t.1.navigate direction t.2).1 ∧
      Agree hosts (s.1.navigate direction s.2).2 (t.1.navigate direction t.2).2 := by
  obtain ⟨next, stepped, there, ready⟩ :=
    navigate_eq_stepped predictable s.1 direction agree.left
  obtain ⟨next', stepped', there', ready'⟩ :=
    navigate_eq_stepped predictable t.1 direction agree.right
  rw [← agree.alike.prepared, ← agree.current] at stepped' there'
  rw [stepped, stepped']
  exact ⟨rfl, .refl _, there.trans there'.symm, ready, ready'⟩

theorem Agree.apply (predictable : Predictable leads hosts) (agree : Agree hosts s t)
    {event event' : Event W} (agrees : event.Agrees hosts event') :
    event.answer? s = event'.answer? t ∧ Agree hosts (event.apply s) (event'.apply t) := by
  cases agrees with
  | elsewhere ready ready' same => exact ⟨rfl, agree.alike, same, ready, ready'⟩
  | resume =>
    refine ⟨rfl, ?_, agree.current, agree.left, agree.right⟩
    dsimp only [Event.apply]
    rw [← agree.current]
    exact agree.alike.resume _
  | navigate direction =>
    obtain ⟨answer, on⟩ := agree.navigate predictable direction
    exact ⟨congrArg some answer, on⟩

theorem Agree.sight (predictable : Predictable leads hosts) (agree : Agree hosts s t)
    {event event' : Event W} (agrees : event.Agrees hosts event') :
    event.sight s = event'.sight t := by
  obtain ⟨answer, on⟩ := agree.apply predictable agrees
  unfold Event.sight
  rw [answer, on.alike.lastKnown, on.current]

theorem Agree.sights (predictable : Predictable leads hosts) (agree : Agree hosts s t)
    {events events' : List (Event W)} (same : List.Forall₂ (Event.Agrees hosts) events events') :
    sights s events = sights t events' := by
  induction same generalizing s t with
  | nil => rfl
  | cons first _ ih =>
    rw [DirectoryHistory.sights, DirectoryHistory.sights, agree.sight predictable first]
    exact congrArg _ (ih (agree.apply predictable first).2)

/-- A walk that does not lead elsewhere leaves a state that agrees with the one before. -/
theorem agree_of_failed (predictable : Predictable leads hosts) {seen : List Path}
    (accounts : Accounts seen h) {host : W} (ready : hosts host)
    (failed : (h.navigate direction host).1 = false) :
    Agree hosts (h, host) (h.navigate direction host).2 := by
  obtain ⟨next, walked, there, still⟩ := navigate_eq_stepped predictable h direction ready
  rw [walked] at failed ⊢
  have stays := stepped_eq_of_false failed
  rw [stays] at there ⊢
  exact ⟨alike_prepared accounts, there.symm, ready, still⟩

/-- Where a history can be and a walk does not lead elsewhere, the host and the directory known last
are where they were, and whatever happens from then on is seen as it would be without that walk: the
answers, the directory known last and the place of the host. -/
theorem sights_eq_of_failed (predictable : Predictable leads hosts) {dir : Path} {start here : W}
    {before : List (Event W)} (reached : after (startingAt dir, start) before = (h, here))
    (ready : hosts here) (failed : (h.navigate direction here).1 = false) :
    let left := (h.navigate direction here).2
    (WorkingDirectory.current left.2 = WorkingDirectory.current here ∧
      left.1.lastKnown = h.lastKnown) ∧
    ∀ events events' : List (Event W), List.Forall₂ (Event.Agrees hosts) events events' →
      sights (h, here) events = sights left events' := by
  have accounts := Accounts.after (startingAt dir, start) (accounts_startingAt dir) before
  rw [reached] at accounts
  have agree := agree_of_failed predictable accounts ready failed
  refine ⟨⟨agree.current.symm, agree.alike.lastKnown.symm⟩, ?_⟩
  intro events events' same
  exact agree.sights predictable same

def stranded : DirectoryHistory × ShellDirectory :=
  after (startingAt ⟨"/a"⟩, .standingIn ⟨"/a"⟩)
    [.elsewhere ⟨⟨"/b"⟩, [⟨"/a"⟩], []⟩, .resume]

/-- The walk back is refused. It has put the second directory on the list, and it was asked for the
first, but neither the shell that is sent elsewhere after it nor the walks from there tell so. -/
theorem sights_eq_of_failed_stranded :
    (stranded.1.navigate .backward stranded.2).1 = false ∧
    (stranded.1.navigate .backward stranded.2).2.1 ≠ stranded.1 ∧
    (let left := (stranded.1.navigate .backward stranded.2).2
    left.2.here = stranded.2.here ∧ left.1.lastKnown = stranded.1.lastKnown ∧
    sights stranded [.elsewhere (stranded.2.leaveFor ⟨"/c"⟩), .resume, .navigate .backward] =
      sights left [.elsewhere (left.2.leaveFor ⟨"/c"⟩), .resume, .navigate .backward]) := by
  have failed : (stranded.1.navigate .backward stranded.2).1 = false := by decide +kernel
  have refuses : stranded.2.refused = [⟨"/a"⟩] := rfl
  obtain ⟨⟨there, known⟩, unseen⟩ :=
    sights_eq_of_failed (predictable_shell [⟨"/a"⟩]) (h := stranded.1) rfl refuses failed
  refine ⟨failed, by decide +kernel, there, known, unseen _ _ ?_⟩
  refine .cons (.elsewhere ?_ ?_ rfl) (.cons .resume (.cons (.navigate _) .nil))
  · rfl
  · decide +kernel

end LineEdit.DirectoryHistory
