import LineEdit.Console.Faulty
import LineEdit.Proofs.Attempt

/-!
# What a console is given

A console that keeps a record, and has no fault, does what the console in it does. Its record grows
by what was done to it, so that a property of every stroke of a run is one of the strokes of its
parts.
-/
namespace LineEdit

namespace Attempt

variable {S T A B : Type} {embed : T → List Stroke → S} {kind : Stroke → Prop} {t u : T}

/-- From a state with a record, the attempt does what the other does from the state alone, and adds
only strokes of some kind to the record. -/
def Records (embed : T → List Stroke → S) (kind : Stroke → Prop) (act : Attempt S A)
    (plain : Attempt T A) (t : T) : Prop :=
  ∀ strokes, ∃ more,
    act.exec (embed t strokes) = ((plain.exec t).1, embed (plain.exec t).2 (strokes ++ more)) ∧
      ∀ stroke ∈ more, kind stroke

theorem records_pure (a : A) : Records embed kind (pure a) (pure a) t := by
  intro strokes
  refine ⟨[], ?_, nofun⟩
  rw [List.append_nil]
  rfl

theorem records_modify {f : S → S} {g : T → T}
    (same : ∀ strokes, f (embed t strokes) = embed (g t) strokes) :
    Records embed kind (modify f) (modify g) t := by
  intro strokes
  refine ⟨[], ?_, nofun⟩
  rw [List.append_nil, exec_modify, exec_modify, same]

/-- What is done behind an attempt that succeeds is recorded behind it. The second attempt is needed
only for states that the first one leads to. -/
theorem Records.bind {act : Attempt S A} {plain : Attempt T A} {next : A → Attempt S B}
    {next' : A → Attempt T B} (first : Records embed kind act plain t)
    (second : ∀ a u, plain.exec t = (.ok a, u) → Records embed kind (next a) (next' a) u) :
    Records embed kind (act >>= next) (plain >>= next') t := by
  intro strokes
  obtain ⟨more, ran, kinds⟩ := first strokes
  cases run : plain.exec t with
  | mk result u =>
    rw [run] at ran
    cases result with
    | error e =>
      refine ⟨more, ?_, kinds⟩
      rw [exec_bind_of_error ran, exec_bind_of_error run]
    | ok a =>
      obtain ⟨rest, ran', kinds'⟩ := second a u run (strokes ++ more)
      refine ⟨more ++ rest, ?_, ?_⟩
      · rw [exec_bind_of_ok ran, exec_bind_of_ok run, ran', List.append_assoc]
      · intro stroke mem
        rcases List.mem_append.mp mem with mem | mem
        · exact kinds stroke mem
        · exact kinds' stroke mem

theorem Records.bind_of_ok {act : Attempt S A} {plain : Attempt T A} {next : A → Attempt S B}
    {next' : A → Attempt T B} {a : A} (first : Records embed kind act plain t)
    (run : plain.exec t = (.ok a, u)) (second : Records embed kind (next a) (next' a) u) :
    Records embed kind (act >>= next) (plain >>= next') t := by
  refine first.bind ?_
  intro b v run'
  obtain ⟨⟨rfl⟩, rfl⟩ := Prod.mk.inj (run.symm.trans run')
  exact second

/-- What is decided by the state is not decided by the record. -/
theorem records_get {next : S → Attempt S B} {next' : T → Attempt T B}
    (same : ∀ strokes, next (embed t strokes) = next (embed t []))
    (rest : Records embed kind (next (embed t [])) (next' t) t) :
    Records embed kind (get >>= next) (get >>= next') t := by
  intro strokes
  obtain ⟨more, ran, kinds⟩ := rest strokes
  refine ⟨more, ?_, kinds⟩
  rw [exec_bind_of_ok (exec_get _), exec_bind_of_ok (exec_get _), same, ran]

theorem records_forM {items : List A} {act : A → Attempt S PUnit} {plain : A → Attempt T PUnit}
    (each : ∀ a ∈ items, ∀ t, Records embed kind (act a) (plain a) t) :
    Records embed kind (items.forM act) (items.forM plain) t := by
  induction items generalizing t with
  | nil => exact records_pure _
  | cons a items ih =>
    simp only [List.forM_eq_forM] at ih ⊢
    rw [List.forM_cons, List.forM_cons]
    exact (each a List.mem_cons_self t).bind fun _ _ _ =>
      ih fun b mem => each b (List.mem_cons_of_mem a mem)

end Attempt

open Attempt

namespace Faulty

variable {C A : Type}

/-- A console without a fault, and what was done to it so far. -/
def recording (inner : C) (strokes : List Stroke) : Faulty C := ⟨inner, none, strokes⟩

theorem records_guarded {kind : Stroke → Prop} {act : Attempt C A}
    {record : Except ConsoleError A → List Stroke} (operation : Operation) (t : C)
    (kinds : ∀ stroke ∈ record (act.exec t).1, kind stroke) :
    Records recording kind (guarded operation act record) act t := by
  intro strokes
  exact ⟨_, rfl, kinds⟩

end Faulty

end LineEdit
