namespace Coroscript

/-! Steps over a state that may fail. A step that fails leaves the state as it
was when it failed: what it did before is not undone. -/

/-- A step from a state to a result and the state after it. -/
def Action (ε σ α : Type) : Type :=
  σ → Except ε α × σ

namespace Action

variable {ε σ α β : Type}

def pure (a : α) : Action ε σ α :=
  fun s => (.ok a, s)

def bind (first : Action ε σ α) (next : α → Action ε σ β) : Action ε σ β :=
  fun s =>
    match first s with
    | (.ok a, after) => next a after
    | (.error e, after) => (.error e, after)

instance : Monad (Action ε σ) where
  pure := Action.pure
  bind := Action.bind

def fail (error : ε) : Action ε σ α :=
  fun s => (.error error, s)

def get : Action ε σ σ :=
  fun s => (.ok s, s)

def modify (change : σ → σ) : Action ε σ Unit :=
  fun s => (.ok (), change s)

/-- Reads a value off the state. -/
def gets (view : σ → α) : Action ε σ α :=
  fun s => (.ok (view s), s)

/-- A result that was computed without the state. -/
def ofExcept (result : Except ε α) : Action ε σ α :=
  fun s => (result, s)

@[simp] theorem pure_apply (a : α) (s : σ) :
    (Pure.pure a : Action ε σ α) s = (.ok a, s) :=
  rfl

theorem bind_apply (first : Action ε σ α) (next : α → Action ε σ β) (s : σ) :
    (first >>= next) s =
      match first s with
      | (.ok a, after) => next a after
      | (.error e, after) => (.error e, after) :=
  rfl

@[simp] theorem fail_apply (error : ε) (s : σ) :
    (fail error : Action ε σ α) s = (.error error, s) :=
  rfl

@[simp] theorem gets_apply (view : σ → α) (s : σ) :
    (gets view : Action ε σ α) s = (.ok (view s), s) :=
  rfl

@[simp] theorem modify_apply (change : σ → σ) (s : σ) :
    (modify change : Action ε σ Unit) s = (.ok (), change s) :=
  rfl

theorem bind_eq_ok_iff {first : Action ε σ α} {next : α → Action ε σ β} {s after : σ} {b : β} :
    (first >>= next) s = (.ok b, after) ↔
      ∃ a middle, first s = (.ok a, middle) ∧ next a middle = (.ok b, after) := by
  rw [bind_apply]
  constructor
  · intro h
    cases hfirst : first s with
    | mk result middle =>
        cases result with
        | ok a => exact ⟨a, middle, rfl, by simpa [hfirst] using h⟩
        | error e => simp [hfirst] at h
  · rintro ⟨a, middle, hfirst, hnext⟩
    simp [hfirst, hnext]

theorem bind_of_ok {first : Action ε σ α} {next : α → Action ε σ β} {s middle : σ} {a : α}
    (hfirst : first s = (.ok a, middle)) : (first >>= next) s = next a middle := by
  rw [bind_apply, hfirst]

theorem pure_eq_ok_iff {a b : α} {s after : σ} :
    (Pure.pure a : Action ε σ α) s = (.ok b, after) ↔ a = b ∧ s = after := by
  rw [pure_apply, Prod.mk.injEq, Except.ok.injEq]

theorem id_map (step : Action ε σ α) : id <$> step = step := by
  funext s
  show Action.bind step _ s = _
  unfold Action.bind
  cases hstep : step s with
  | mk result after => cases result <;> rfl

theorem bind_assoc {γ : Type} (first : Action ε σ α) (next : α → Action ε σ β)
    (last : β → Action ε σ γ) :
    first >>= next >>= last = first >>= fun a => next a >>= last := by
  funext s
  simp only [bind_apply]
  cases hfirst : first s with
  | mk result after => cases result <;> rfl

instance : LawfulMonad (Action ε σ) :=
  LawfulMonad.mk' (Action ε σ) id_map (fun _ _ => rfl) bind_assoc

end Action

end Coroscript
