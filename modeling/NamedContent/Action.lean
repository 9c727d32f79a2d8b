/-! # Actions

An action works on a state. It succeeds with a value or fails with an error, and leaves a state
behind in either case, so that what a failed action has already done stays done.

* `Action`: the type, with its monad
* `Action.fail`, `Action.ofExcept`, `Action.mapError`: errors
* `Action.get`, `Action.modify`, `Action.focus`: the state
-/

namespace NamedContent

/-- An action on a state `σ` with errors `ε` and values `α`. -/
def Action (σ ε α : Type) : Type := σ → Except ε α × σ

namespace Action

variable {σ τ ε ε' α β : Type}

instance : Monad (Action σ ε) where
  pure a := fun s => (.ok a, s)
  bind x f := fun s =>
    match x s with
    | (.ok a, s) => f a s
    | (.error e, s) => (.error e, s)

/-- Fails and leaves the state alone. -/
def fail (e : ε) : Action σ ε α := fun s => (.error e, s)

/-- Succeeds or fails as a result does. -/
def ofExcept (r : Except ε α) : Action σ ε α := fun s => (r, s)

/-- The same action with its error put into other words. -/
def mapError (f : ε → ε') (x : Action σ ε α) : Action σ ε' α := fun s =>
  match x s with
  | (.ok a, s) => (.ok a, s)
  | (.error e, s) => (.error (f e), s)

/-- The result of an action, as a value; such an action does not fail. -/
def attempt (x : Action σ ε α) : Action σ ε' (Except ε α) := fun s =>
  match x s with
  | (r, s) => (.ok r, s)

/-- The state. -/
def get : Action σ ε σ := fun s => (.ok s, s)

/-- Changes the state. -/
def modify (f : σ → σ) : Action σ ε Unit := fun s => (.ok (), f s)

/-- An action on a part of the state. -/
def focus (view : τ → σ) (update : σ → τ → τ) (x : Action σ ε α) : Action τ ε α := fun t =>
  match x (view t) with
  | (r, s) => (r, update s t)

/-! ## Running -/

/-- Nothing happens, and the value is returned. -/
@[simp] theorem pure_run (a : α) (s : σ) : (pure a : Action σ ε α) s = (.ok a, s) := rfl

/-- The second action goes on from where the first one ends, unless that fails. -/
theorem bind_run (x : Action σ ε α) (f : α → Action σ ε β) (s : σ) :
    (x >>= f) s =
      match x s with
      | (.ok a, s) => f a s
      | (.error e, s) => (.error e, s) := rfl

/-- Nothing happens but the failure. -/
@[simp] theorem fail_run (e : ε) (s : σ) : (fail e : Action σ ε α) s = (.error e, s) := rfl

/-- A result is returned as it is. -/
@[simp] theorem ofExcept_run (r : Except ε α) (s : σ) :
    (ofExcept r : Action σ ε α) s = (r, s) := rfl

/-- The state is returned and stays. -/
@[simp] theorem get_run (s : σ) : (get : Action σ ε σ) s = (.ok s, s) := rfl

/-- The state changes, and nothing is returned. -/
@[simp] theorem modify_run (f : σ → σ) (s : σ) :
    (modify f : Action σ ε Unit) s = (.ok (), f s) := rfl

end Action

end NamedContent
