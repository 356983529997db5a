import LineEdit.Console

/-!
# What an attempt makes of a state

An attempt takes a state to a result and a state. One attempt after another runs the second from the
state that the first leaves, unless the first has failed; it then stops there, with whatever state
the failure left.
-/
namespace LineEdit.Attempt

variable {S T A B : Type}

/-- The result of an attempt from a state, and the state it leaves. -/
def exec (act : Attempt S A) (s : S) : Except ConsoleError A × S := act.run.run s

@[simp] theorem exec_pure (a : A) (s : S) : (pure a : Attempt S A).exec s = (.ok a, s) := rfl

@[simp] theorem exec_get (s : S) : (get : Attempt S S).exec s = (.ok s, s) := rfl

@[simp] theorem exec_set (s t : S) : (set t : Attempt S PUnit).exec s = (.ok ⟨⟩, t) := rfl

@[simp] theorem exec_modify (f : S → S) (s : S) :
    (modify f : Attempt S PUnit).exec s = (.ok ⟨⟩, f s) := rfl

theorem exec_bind (act : Attempt S A) (next : A → Attempt S B) (s : S) :
    (act >>= next).exec s =
      match act.exec s with
      | (.ok a, t) => (next a).exec t
      | (.error e, t) => (.error e, t) := by
  change (ExceptT.bindCont next (act.exec s).1).run (act.exec s).2 = _
  rcases act.exec s with ⟨_ | _, _⟩ <;> rfl

/-- After an attempt that succeeds the next one goes on from its state. -/
theorem exec_bind_of_ok {act : Attempt S A} {next : A → Attempt S B} {s t : S} {a : A}
    (h : act.exec s = (.ok a, t)) : (act >>= next).exec s = (next a).exec t := by
  rw [exec_bind, h]

theorem exec_bind_of_error {act : Attempt S A} {next : A → Attempt S B} {s t : S}
    {e : ConsoleError} (h : act.exec s = (.error e, t)) :
    (act >>= next).exec s = (.error e, t) := by
  rw [exec_bind, h]

/-- A sequence that succeeds is made of attempts that do. A run of the editor is taken apart with
this, one attempt at a time. -/
theorem exec_bind_eq_ok {act : Attempt S A} {next : A → Attempt S B} {s u : S} {b : B}
    (h : (act >>= next).exec s = (.ok b, u)) :
    ∃ a t, act.exec s = (.ok a, t) ∧ (next a).exec t = (.ok b, u) := by
  rw [exec_bind] at h
  cases run : act.exec s with
  | mk r t =>
    rw [run] at h
    cases r with
    | error e => exact absurd (congrArg Prod.fst h) nofun
    | ok a => exact ⟨a, t, rfl, h⟩

/-- An attempt on a part of the state puts the part back, whether it succeeds or fails, so that what
a failure left there is not lost. -/
@[simp] theorem exec_on (part : S → T) (put : T → S → S) (act : Attempt T A) (s : S) :
    (Attempt.on part put act).exec s =
      ((act.exec (part s)).1, put (act.exec (part s)).2 s) := rfl

end LineEdit.Attempt
