import Mathlib.Data.List.Forall2
import NamedContent.Action

/-! # Actions that cannot tell states apart

A relation on states says which of them are alike. An action respects it when it gives the same
result from states that are alike and leaves states behind that are alike again. Two actions on
states of different kinds may be related in the same way. What is put together from such actions is
such an action.

* `mapError_ok`, `mapError_error`: results in other words
* `bind_eq_ok_iff`, `bind_eq_error_iff`: when a computation of two steps succeeds, and when it fails
* `mapM_eq_ok_iff`, `mapM_eq_error_iff`: the same for a computation of each element of a list
* `Action.Relates`: two actions, with `Action.Relates.bind`
* `Action.Respects`: one action
* `Action.Respects.bind`, `Action.Respects.attempt`, `Action.Respects.focus`: putting together -/

namespace NamedContent

/-- A value is the same in other words. -/
theorem mapError_ok {ε ε' α : Type} (f : ε → ε') (a : α) :
    (Except.ok a : Except ε α).mapError f = .ok a := rfl

/-- An error is put into other words. -/
theorem mapError_error {ε ε' α : Type} (f : ε → ε') (e : ε) :
    (Except.error e : Except ε α).mapError f = .error (f e) := rfl

/-- A result in other words is a value just when it is that value itself. -/
theorem mapError_eq_ok_iff {ε ε' α : Type} {f : ε → ε'} {x : Except ε α} {a : α} :
    x.mapError f = .ok a ↔ x = .ok a := by
  cases x <;> simp [mapError_ok, mapError_error]

/-- A result in other words is an error just when it is an error for which those words stand. -/
theorem mapError_eq_error_iff {ε ε' α : Type} {f : ε → ε'} {x : Except ε α} {e' : ε'} :
    x.mapError f = .error e' ↔ ∃ e, x = .error e ∧ f e = e' := by
  cases x <;> simp [mapError_ok, mapError_error]

/-- One computation after another succeeds when both do. -/
theorem bind_eq_ok_iff {ε α β : Type} {x : Except ε α} {f : α → Except ε β} {b : β} :
    (x >>= f) = .ok b ↔ ∃ a, x = .ok a ∧ f a = .ok b := by
  cases x <;> simp [bind, Except.bind]

/-- One computation after another fails when the first does, or the second after it. -/
theorem bind_eq_error_iff {ε α β : Type} {x : Except ε α} {f : α → Except ε β} {e : ε} :
    (x >>= f) = .error e ↔ x = .error e ∨ ∃ a, x = .ok a ∧ f a = .error e := by
  cases x <;> simp [bind, Except.bind]

/-- Computing a value for each element of a list succeeds when it does for each. -/
theorem mapM_eq_ok_iff {ε α β : Type} {f : α → Except ε β} {xs : List α} {ys : List β} :
    xs.mapM f = .ok ys ↔ List.Forall₂ (fun x y => f x = .ok y) xs ys := by
  induction xs generalizing ys with
  | nil =>
    rw [List.mapM_nil, List.forall₂_nil_left_iff]
    exact ⟨fun h => (Except.ok.inj h).symm, fun h => h ▸ rfl⟩
  | cons x rest ih =>
    rw [List.mapM_cons, bind_eq_ok_iff, List.forall₂_cons_left_iff]
    refine exists_congr fun y => ?_
    rw [bind_eq_ok_iff]
    constructor
    · rintro ⟨hx, tail, hrest, htail⟩
      exact ⟨tail, hx, ih.1 hrest, (Except.ok.inj htail).symm⟩
    · rintro ⟨tail, hx, hrest, rfl⟩
      exact ⟨hx, tail, ih.2 hrest, rfl⟩

/-- Computing a value for each element of a list fails at the first element for which it does. -/
theorem mapM_eq_error_iff {ε α β : Type} {f : α → Except ε β} {xs : List α} {e : ε} :
    xs.mapM f = .error e ↔ ∃ front x rest, xs = front ++ x :: rest
      ∧ (∀ y ∈ front, ∃ b, f y = .ok b) ∧ f x = .error e := by
  induction xs with
  | nil => exact ⟨nofun, fun ⟨front, x, rest, h, _⟩ => by simp at h⟩
  | cons x xs ih =>
    rw [List.mapM_cons, bind_eq_error_iff]
    constructor
    · rintro (hx | ⟨b, hx, h⟩)
      · exact ⟨[], x, xs, rfl, nofun, hx⟩
      · obtain h | ⟨tail, -, h⟩ := bind_eq_error_iff.1 h
        · obtain ⟨front, y, rest, rfl, hfront, hy⟩ := ih.1 h
          exact ⟨x :: front, y, rest, rfl, List.forall_mem_cons.2 ⟨⟨b, hx⟩, hfront⟩, hy⟩
        · exact nomatch h
    · rintro ⟨_ | ⟨z, front⟩, y, rest, h, hfront, hy⟩ <;> cases h
      · exact .inl hy
      · obtain ⟨⟨b, hb⟩, hfront⟩ := List.forall_mem_cons.1 hfront
        have hrest := ih.2 ⟨front, y, rest, rfl, hfront, hy⟩
        exact .inr ⟨b, hb, bind_eq_error_iff.2 (.inl hrest)⟩

/-- Computing a value for each element gives the list of those values. -/
theorem mapM_eq_ok {ε α β : Type} {f : α → Except ε β} {g : α → β} {xs : List α}
    (h : ∀ x ∈ xs, f x = .ok (g x)) : xs.mapM f = .ok (xs.map g) := by
  rw [mapM_eq_ok_iff, List.forall₂_map_right_iff, List.forall₂_same]
  exact h

/-- What is known of the value of each element holds of all values in the list of them. -/
theorem of_mapM_eq_ok {ε α β : Type} {f : α → Except ε β} {g : α → β} {P : β → Prop} {xs : List α}
    {ys : List β} (h : xs.mapM f = .ok ys) (hf : ∀ x y, f x = .ok y → y = g x ∧ P y) :
    ys = xs.map g ∧ ∀ y ∈ ys, P y := by
  induction mapM_eq_ok_iff.1 h with
  | nil => exact ⟨rfl, nofun⟩
  | cons hx hrest ih =>
    obtain ⟨hy, hP⟩ := hf _ _ hx
    obtain ⟨hys, hall⟩ := ih (mapM_eq_ok_iff.2 hrest)
    exact ⟨congrArg₂ List.cons hy hys, List.forall_mem_cons.2 ⟨hP, hall⟩⟩

namespace Action

variable {σ σ' τ ε ε' α β : Type}

/-! ## Two actions -/

section Relates

variable {R : σ → σ' → Prop}

/-- Whether two actions have the same result from states that are related, and leave states behind
that are related again. -/
def Relates (R : σ → σ' → Prop) (x : Action σ ε α) (y : Action σ' ε α) : Prop :=
  ∀ s t, R s t → (x s).1 = (y t).1 ∧ R (x s).2 (y t).2

namespace Relates

/-- A value is the same from all states. -/
theorem pure (a : α) : (Pure.pure a : Action σ ε α).Relates R (Pure.pure a) := fun _ _ h => ⟨rfl, h⟩

/-- A failure is the same from all states. -/
theorem fail (e : ε) : (Action.fail e : Action σ ε α).Relates R (Action.fail e) :=
  fun _ _ h => ⟨rfl, h⟩

/-- A result is the same from all states. -/
theorem ofExcept (r : Except ε α) :
    (Action.ofExcept r : Action σ ε α).Relates R (Action.ofExcept r) := fun _ _ h => ⟨rfl, h⟩

/-- **One action after another**: the second ones start with the same value from states that are
related. -/
theorem bind {x : Action σ ε α} {y : Action σ' ε α} {f : α → Action σ ε β} {g : α → Action σ' ε β}
    (hx : x.Relates R y) (hf : ∀ a, (f a).Relates R (g a)) : (x >>= f).Relates R (y >>= g) := by
  intro s t h
  obtain ⟨hresult, hstate⟩ := hx s t h
  rw [bind_run, bind_run]
  rcases hs : x s with ⟨r, s'⟩
  rcases ht : y t with ⟨r', t'⟩
  rw [hs, ht] at hresult hstate
  obtain rfl : r = r' := hresult
  cases r with
  | ok a => exact hf a s' t' hstate
  | error e => exact ⟨rfl, hstate⟩

/-- Errors are put into another form on both sides. -/
theorem mapError {x : Action σ ε α} {y : Action σ' ε α} (hx : x.Relates R y) (f : ε → ε') :
    (Action.mapError f x).Relates R (Action.mapError f y) := by
  intro s t h
  obtain ⟨hresult, hstate⟩ := hx s t h
  rw [Action.mapError, Action.mapError]
  rcases hs : x s with ⟨r, s'⟩
  rcases ht : y t with ⟨r', t'⟩
  rw [hs, ht] at hresult hstate
  obtain rfl : r = r' := hresult
  cases r with
  | ok a => exact ⟨rfl, hstate⟩
  | error e => exact ⟨rfl, hstate⟩

end Relates

end Relates

/-! ## One action -/

variable {R : σ → σ → Prop}

/-- Whether an action cannot tell apart states that are alike. -/
def Respects (R : σ → σ → Prop) (x : Action σ ε α) : Prop :=
  ∀ s t, R s t → (x s).1 = (x t).1 ∧ R (x s).2 (x t).2

namespace Respects

/-- No action tells a state from itself. -/
theorem of_eq (x : Action σ ε α) : x.Respects Eq := by
  rintro s _ rfl
  exact ⟨rfl, rfl⟩

/-- A value tells no states apart. -/
theorem pure (a : α) : (Pure.pure a : Action σ ε α).Respects R := Relates.pure a

/-- A failure tells no states apart. -/
theorem fail (e : ε) : (Action.fail e : Action σ ε α).Respects R := Relates.fail e

/-- A result tells no states apart. -/
theorem ofExcept (r : Except ε α) : (Action.ofExcept r : Action σ ε α).Respects R :=
  Relates.ofExcept r

/-- A change tells no states apart if it keeps them alike. -/
theorem modify {f : σ → σ} (hf : ∀ s t, R s t → R (f s) (f t)) :
    (Action.modify f : Action σ ε Unit).Respects R :=
  fun s t h => ⟨rfl, hf s t h⟩

/-- Two actions that tell no states apart do not when one follows the other. -/
theorem bind {x : Action σ ε α} {f : α → Action σ ε β} (hx : x.Respects R)
    (hf : ∀ a, (f a).Respects R) : (x >>= f).Respects R :=
  Relates.bind hx hf

/-- Another form of the errors tells no states apart. -/
theorem mapError {x : Action σ ε α} (hx : x.Respects R) (f : ε → ε') :
    (Action.mapError f x).Respects R :=
  Relates.mapError hx f

/-- An action whose failure is caught tells no states apart. -/
theorem attempt {x : Action σ ε α} (hx : x.Respects R) :
    (Action.attempt x : Action σ ε' (Except ε α)).Respects R := by
  intro s t h
  obtain ⟨hresult, hstate⟩ := hx s t h
  exact ⟨congrArg Except.ok hresult, hstate⟩

/-- An action on a part of the state, when the parts of states that are alike are so too. -/
theorem focus {x : Action σ ε α} (hx : x.Respects R) {Q : τ → τ → Prop} {view : τ → σ}
    {update : σ → τ → τ} (hview : ∀ p q, Q p q → R (view p) (view q))
    (hupdate : ∀ p q s t, Q p q → R s t → Q (update s p) (update t q)) :
    (Action.focus view update x).Respects Q := by
  intro p q h
  obtain ⟨hresult, hstate⟩ := hx _ _ (hview p q h)
  exact ⟨hresult, hupdate p q _ _ h hstate⟩

end Respects

/-- An action whose value is put into another form. -/
theorem bind_pure_run (x : Action σ ε α) (f : α → β) (s : σ) :
    (x >>= fun a => Pure.pure (f a)) s = ((x s).1.map f, (x s).2) := by
  rw [bind_run]
  rcases x s with ⟨_ | _, _⟩ <;> rfl

/-- An action whose value is dropped fails when it does, and leaves behind what it does. -/
theorem error_of_drop {x : Action σ ε α} {s : σ} {e : ε}
    (h : ((x >>= fun _ => Pure.pure ()) s).1 = .error e) :
    (x s).1 = .error e ∧ ((x >>= fun _ => Pure.pure ()) s).2 = (x s).2 := by
  rw [bind_run] at h ⊢
  generalize x s = left at h ⊢
  obtain ⟨result, t⟩ := left
  cases result with
  | ok a => exact absurd h (by simp)
  | error e => exact ⟨congrArg Except.error (Except.error.inj h), rfl⟩

end Action

end NamedContent
