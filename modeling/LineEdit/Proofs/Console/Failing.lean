import LineEdit.Console.Faulty
import LineEdit.Proofs.Console.Screen

/-!
# A screen whose operations may fail

An operation that fails leaves the screen alone. A sequence of operations that fails may have done
some of them, so that little is known of it but which cells it can have changed. One that succeeds
has done to the screen what it does to a screen that does not fail.
-/
namespace LineEdit

namespace Attempt

variable {S T A B : Type} {view : S → T}

/-- The attempt does what the other does to what is seen of the state, or it fails and nothing is
seen of it. -/
def Follows (view : S → T) (act : Attempt S A) (sound : Attempt T A) : Prop :=
  ∀ s, ((act.exec s).1 = (sound.exec (view s)).1 ∧
      view (act.exec s).2 = (sound.exec (view s)).2) ∨
    (∃ e, (act.exec s).1 = .error e) ∧ view (act.exec s).2 = view s

theorem follows_pure (a : A) : Follows view (pure a) (pure a) := fun _ => .inl ⟨rfl, rfl⟩

/-- What becomes of an attempt that would succeed if it did what the other does. -/
theorem Follows.cases {act : Attempt S A} {sound : Attempt T A} (follows : Follows view act sound)
    {s : S} {a : A} {t : T} (run : sound.exec (view s) = (.ok a, t)) :
    (∃ s', act.exec s = (.ok a, s') ∧ view s' = t) ∨
      ∃ e s', act.exec s = (.error e, s') ∧ view s' = view s := by
  rcases follows s with ⟨result, seen⟩ | ⟨⟨e, failed⟩, seen⟩
  · rw [run] at result seen
    exact .inl ⟨(act.exec s).2, Prod.ext result rfl, seen⟩
  · exact .inr ⟨e, (act.exec s).2, Prod.ext failed rfl, seen⟩

/-- What becomes of an attempt that would fail if it did what the other does: it fails too, perhaps
for a reason of its own, and perhaps before anything is seen of it. -/
theorem Follows.fails {act : Attempt S A} {sound : Attempt T A} (follows : Follows view act sound)
    {s : S} {e : ConsoleError} {t : T} (run : sound.exec (view s) = (.error e, t)) :
    ∃ e' s', act.exec s = (.error e', s') ∧ (view s' = t ∨ view s' = view s) := by
  rcases follows s with ⟨result, seen⟩ | ⟨⟨e', failed⟩, seen⟩
  · rw [run] at result seen
    exact ⟨e, (act.exec s).2, Prod.ext result rfl, .inl seen⟩
  · exact ⟨e', (act.exec s).2, Prod.ext failed rfl, .inr seen⟩

/-- What is done to a result without a failure can be done to it behind either attempt. -/
theorem Follows.bind {act : Attempt S A} {sound : Attempt T A} {next : A → Attempt S B}
    {next' : A → Attempt T B} (first : Follows view act sound)
    (second : ∀ a s, ((next a).exec s).1 = ((next' a).exec (view s)).1 ∧
      view ((next a).exec s).2 = ((next' a).exec (view s)).2) :
    Follows view (act >>= next) (sound >>= next') := by
  intro s
  rw [exec_bind, exec_bind]
  rcases first s with ⟨result, seen⟩ | ⟨⟨e, failed⟩, seen⟩
  · left
    cases run : act.exec s with
    | mk r s' =>
      cases run' : sound.exec (view s) with
      | mk r' t =>
        rw [run, run'] at result seen
        obtain rfl : r = r' := result
        obtain rfl : view s' = t := seen
        cases r with
        | error e => exact ⟨rfl, rfl⟩
        | ok a => exact second a s'
  · right
    rw [show act.exec s = (.error e, (act.exec s).2) from Prod.ext failed rfl]
    exact ⟨⟨e, rfl⟩, seen⟩

/-- Where the attempt succeeds, it does what the other does to what is seen of the state. Nothing is
said about an attempt that fails. -/
def Refines (view : S → T) (act : Attempt S A) (sound : Attempt T A) : Prop :=
  ∀ s a, (act.exec s).1 = .ok a → sound.exec (view s) = (.ok a, view (act.exec s).2)

theorem Follows.refines {act : Attempt S A} {sound : Attempt T A} (follows : Follows view act sound) :
    Refines view act sound := by
  intro s a succeeds
  rcases follows s with ⟨result, seen⟩ | ⟨⟨e, failed⟩, -⟩
  · exact Prod.ext (result.symm.trans succeeds) seen.symm
  · exact absurd (failed.symm.trans succeeds) nofun

theorem Refines.bind {act : Attempt S A} {sound : Attempt T A} {next : A → Attempt S B}
    {next' : A → Attempt T B} (first : Refines view act sound)
    (second : ∀ a, Refines view (next a) (next' a)) :
    Refines view (act >>= next) (sound >>= next') := by
  intro s b succeeds
  obtain ⟨a, s', run, rest⟩ := exec_bind_eq_ok (Prod.ext succeeds rfl)
  have here := first s a (congrArg Prod.fst run)
  have there := second a s' b (congrArg Prod.fst rest)
  rw [run] at here
  rw [rest] at there
  exact (exec_bind_of_ok here).trans there

theorem refines_forM {items : List A} {act : A → Attempt S PUnit} {sound : A → Attempt T PUnit}
    (each : ∀ a, Refines view (act a) (sound a)) :
    Refines view (items.forM act) (items.forM sound) := by
  induction items with
  | nil => exact (follows_pure _).refines
  | cons a items ih =>
    simp only [List.forM_eq_forM] at ih ⊢
    rw [List.forM_cons, List.forM_cons]
    exact (each a).bind fun _ => ih

end Attempt

open Attempt

namespace Screen

/-- The second screen is the first one, apart from cells of the region and the cursor. It has not
scrolled either. -/
structure SameBut (region : Nat → Nat → Prop) (s t : Screen) : Prop where
  width : t.width = s.width
  height : t.height = s.height
  scrolled : t.scrolled = s.scrolled
  cells : ∀ x y, ¬region x y → t.cell? x y = s.cell? x y

variable {region : Nat → Nat → Prop} {s t u : Screen}

theorem SameBut.refl (region : Nat → Nat → Prop) (s : Screen) : SameBut region s s :=
  ⟨rfl, rfl, rfl, fun _ _ _ => rfl⟩

theorem SameBut.trans (first : SameBut region s t) (second : SameBut region t u) :
    SameBut region s u where
  width := second.width.trans first.width
  height := second.height.trans first.height
  scrolled := second.scrolled.trans first.scrolled
  cells x y outside := (second.cells x y outside).trans (first.cells x y outside)

theorem SameBut.mono {wider : Nat → Nat → Prop} (same : SameBut region s t)
    (inside : ∀ x y, region x y → wider x y) : SameBut wider s t where
  width := same.width
  height := same.height
  scrolled := same.scrolled
  cells x y outside := same.cells x y fun mem => outside (inside x y mem)

theorem sameBut_withCursor (s : Screen) (cell : UInt16 × UInt16) :
    SameBut region s (s.withCursor cell) :=
  ⟨rfl, rfl, rfl, fun _ _ _ => rfl⟩

theorem sameBut_inked (s : Screen) {ink : Ink} (inside : ∀ x y, ¬region x y → ink x y = none) :
    SameBut region s (s.inked ink) := by
  refine ⟨rfl, rfl, rfl, ?_⟩
  intro x y outside
  rw [cell?_inked, inside x y outside]
  cases s.cell? x y with
  | none => rfl
  | some c => rfl

end Screen

open Screen

namespace Faulty

variable {A B : Type}

abbrev screen (c : Faulty Screen) : Screen := c.inner

theorem follows_guarded (operation : Operation) (act : Attempt Screen A)
    (record : Except ConsoleError A → List Stroke) :
    Follows screen (guarded operation act record) act := by
  intro c
  obtain ⟨inner, fault, strokes⟩ := c
  cases fault with
  | none => exact .inl ⟨rfl, rfl⟩
  | some f =>
    obtain ⟨chosen, skip, error⟩ := f
    unfold guarded exec
    dsimp only [ExceptT.mk, ExceptT.run, StateT.run]
    by_cases other : chosen ≠ operation
    · rw [if_pos other]
      exact .inl ⟨rfl, rfl⟩
    · rw [if_neg other]
      cases skip with
      | zero => exact .inr ⟨⟨error, rfl⟩, rfl⟩
      | succ skip => exact .inl ⟨rfl, rfl⟩

/-- Whatever becomes of the attempt, it changes no cells but those of the region. -/
def Confined (region : Nat → Nat → Prop) (act : Attempt (Faulty Screen) A) : Prop :=
  ∀ c, SameBut region c.screen (act.exec c).2.screen

variable {region : Nat → Nat → Prop}

theorem confined_pure (a : A) : Confined region (pure a) := fun c => .refl region c.screen

theorem Confined.of_follows {act : Attempt (Faulty Screen) A} {sound : Attempt Screen A}
    (follows : Follows screen act sound) (inside : ∀ s, SameBut region s (sound.exec s).2) :
    Confined region act := by
  intro c
  rcases follows c with ⟨-, seen⟩ | ⟨-, seen⟩
  · rw [seen]
    exact inside c.screen
  · rw [seen]
    exact .refl region c.screen

theorem Confined.bind {act : Attempt (Faulty Screen) A} {next : A → Attempt (Faulty Screen) B}
    (first : Confined region act) (second : ∀ a, Confined region (next a)) :
    Confined region (act >>= next) := by
  intro c
  rw [exec_bind]
  have here := first c
  cases run : act.exec c with
  | mk result d =>
    rw [run] at here
    cases result with
    | error e => exact here
    | ok a => exact here.trans (second a d)

theorem confined_forM {items : List A} {act : A → Attempt (Faulty Screen) PUnit}
    (each : ∀ a ∈ items, Confined region (act a)) : Confined region (items.forM act) := by
  induction items with
  | nil => exact confined_pure _
  | cons a items ih =>
    rw [List.forM_eq_forM] at ih ⊢
    rw [List.forM_cons]
    exact (each a List.mem_cons_self).bind fun _ =>
      ih fun b mem => each b (List.mem_cons_of_mem a mem)

end Faulty

end LineEdit
