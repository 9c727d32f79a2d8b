import NamedContent.Proofs.Action

/-! # What actions find when they succeed, and how they fail

From states with a property an action may find nothing but values with another one, and leave only
states with the first property behind. What is put together from such actions is such an action: it
is enough to follow the values from one action to the next. In the same way an action may fail with
errors of some kind only.

* `Action.Ensures`, `Action.FailsWith`: the two properties
* `Action.Ensures.bind`, `Action.exists_of_bind_eq_ok`, `Action.FailsWith.bind`: one action after
  another -/

namespace NamedContent.Action

variable {σ ε ε' α β : Type} {Inv : σ → Prop} {Q : α → Prop} {Q' : β → Prop}

/-- Whether an action keeps a property of states, and finds only values with another property when
it succeeds. -/
def Ensures (Inv : σ → Prop) (Q : α → Prop) (x : Action σ ε α) : Prop :=
  ∀ s, Inv s → Inv (x s).2 ∧ ∀ a, (x s).1 = .ok a → Q a

/-- Two actions in a row succeed when both do. -/
theorem exists_of_bind_eq_ok {x : Action σ ε α} {f : α → Action σ ε β} {s s' : σ} {b : β}
    (h : (x >>= f) s = (.ok b, s')) : ∃ a t, x s = (.ok a, t) ∧ f a t = (.ok b, s') := by
  rw [bind_run] at h
  rcases hx : x s with ⟨e | a, t⟩
  · rw [hx] at h
    cases h
  · rw [hx] at h
    exact ⟨a, t, rfl, h⟩

namespace Ensures

/-- A value is returned of which the property holds. -/
theorem pure {a : α} (h : Q a) : (Pure.pure a : Action σ ε α).Ensures Inv Q := by
  intro s hs
  refine ⟨hs, fun b hb => ?_⟩
  cases hb
  exact h

/-- A failure returns no value. -/
theorem fail (e : ε) : (Action.fail e : Action σ ε α).Ensures Inv Q := by
  intro s hs
  refine ⟨hs, fun b hb => ?_⟩
  cases hb

/-- **One action after another**: the second starts with a value that the first may find. -/
theorem bind {x : Action σ ε α} {f : α → Action σ ε β} (hx : x.Ensures Inv Q)
    (hf : ∀ a, Q a → (f a).Ensures Inv Q') : (x >>= f).Ensures Inv Q' := by
  intro s hs
  obtain ⟨hinv, hfound⟩ := hx s hs
  rw [bind_run]
  rcases hrun : x s with ⟨e | a, t⟩ <;> rw [hrun] at hinv hfound
  · refine ⟨hinv, fun b hb => ?_⟩
    cases hb
  · exact hf a (hfound a rfl) t hinv

/-- Another form of the errors does not matter to the value. -/
theorem mapError {x : Action σ ε α} (hx : x.Ensures Inv Q) (f : ε → ε') :
    (Action.mapError f x).Ensures Inv Q := by
  intro s hs
  obtain ⟨hinv, hfound⟩ := hx s hs
  rw [Action.mapError]
  rcases hrun : x s with ⟨e | a, t⟩ <;> rw [hrun] at hinv hfound
  · refine ⟨hinv, fun b hb => ?_⟩
    cases hb
  · refine ⟨hinv, fun b hb => ?_⟩
    cases hb
    exact hfound a rfl

end Ensures

/-- Whether an action fails with errors that have a property only. -/
def FailsWith (P : ε → Prop) (x : Action σ ε α) : Prop := ∀ s e, (x s).1 = .error e → P e

namespace FailsWith

variable {P : ε → Prop} {P' : ε' → Prop}

/-- A value is no error. -/
theorem pure (a : α) : (Pure.pure a : Action σ ε α).FailsWith P := nofun

/-- A failure has its error, of which the property holds. -/
theorem fail {e : ε} (h : P e) : (Action.fail e : Action σ ε α).FailsWith P := by
  intro s e' he
  obtain rfl : e = e' := Except.error.inj he
  exact h

/-- **One action after another** fails as one of the two. -/
theorem bind {x : Action σ ε α} {f : α → Action σ ε β} (hx : x.FailsWith P)
    (hf : ∀ a, (f a).FailsWith P) : (x >>= f).FailsWith P := by
  intro s e he
  have hfirst := hx s e
  rw [bind_run] at he
  rcases hrun : x s with ⟨e' | a, t⟩ <;> rw [hrun] at hfirst he
  · obtain rfl : e' = e := Except.error.inj he
    exact hfirst rfl
  · exact hf a t e he

/-- Errors in other words say what they are made to say. -/
theorem mapError {f : ε → ε'} (h : ∀ e, P' (f e)) (x : Action σ ε α) :
    (Action.mapError f x).FailsWith P' := by
  intro s e he
  rw [Action.mapError] at he
  rcases hrun : x s with ⟨e' | a, t⟩ <;> rw [hrun] at he
  · obtain rfl : f e' = e := Except.error.inj he
    exact h e'
  · cases he

end FailsWith

end NamedContent.Action
