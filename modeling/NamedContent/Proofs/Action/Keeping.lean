import Mathlib.Order.Defs.Unbundled
import NamedContent.Proofs.Action

/-! # What actions leave as it was

An action keeps a preorder on states when the state it leaves behind always stands above the one
before: the same in some part, say, or no earlier. Some actions do so at least whenever they fail.
What is put together from actions that keep a preorder keeps it, and it is enough that the last of
them does when it fails.

* `Action.Keeps`, `Action.FailsKeeping`: the two properties
* `Action.Keeps.bind`, `Action.FailsKeeping.bind`: one action after another -/

namespace NamedContent

namespace Action

variable {σ τ ε ε' α β : Type} {R : σ → σ → Prop}

/-- Whether an action leaves every state above itself. -/
def Keeps (R : σ → σ → Prop) (x : Action σ ε α) : Prop := ∀ s, R s (x s).2

/-- Whether an action leaves every state above itself from which it fails. -/
def FailsKeeping (R : σ → σ → Prop) (x : Action σ ε α) : Prop :=
  ∀ s e, (x s).1 = .error e → R s (x s).2

namespace Keeps

section Refl

variable [Std.Refl R]

/-- A value leaves the state as it was. -/
theorem pure (a : α) : (Pure.pure a : Action σ ε α).Keeps R := fun s => Std.Refl.refl s

/-- A failure leaves the state as it was. -/
theorem fail (e : ε) : (Action.fail e : Action σ ε α).Keeps R := fun s => Std.Refl.refl s

/-- A result leaves the state as it was. -/
theorem ofExcept (r : Except ε α) : (Action.ofExcept r : Action σ ε α).Keeps R :=
  fun s => Std.Refl.refl s

/-- Looking at the state leaves it as it was. -/
theorem get : (Action.get : Action σ ε σ).Keeps R := fun s => Std.Refl.refl s

end Refl

/-- A change keeps a relation if it holds between each state and the changed one. -/
theorem modify {f : σ → σ} (hf : ∀ s, R s (f s)) : (Action.modify f : Action σ ε Unit).Keeps R := hf

/-- **One action after another** keeps what both keep. -/
theorem bind [IsTrans σ R] {x : Action σ ε α} {f : α → Action σ ε β} (hx : x.Keeps R)
    (hf : ∀ a, (f a).Keeps R) : (x >>= f).Keeps R := by
  intro s
  have hfirst := hx s
  rw [bind_run]
  rcases hs : x s with ⟨_ | a, t⟩ <;> rw [hs] at hfirst
  · exact hfirst
  · exact IsTrans.trans _ _ _ hfirst (hf a t)

/-- What is kept implies what is weaker. -/
theorem mono {Q : σ → σ → Prop} {x : Action σ ε α} (hx : x.Keeps R) (h : ∀ s t, R s t → Q s t) :
    x.Keeps Q := fun s => h s _ (hx s)

/-- Another form of the errors changes no state. -/
theorem mapError {x : Action σ ε α} (hx : x.Keeps R) (f : ε → ε') :
    (Action.mapError f x).Keeps R := by
  intro s
  have hleft := hx s
  rw [Action.mapError]
  rcases hs : x s with ⟨_ | a, t⟩ <;> rw [hs] at hleft <;> exact hleft

/-- Catching a failure changes no state. -/
theorem attempt {x : Action σ ε α} (hx : x.Keeps R) :
    (Action.attempt x : Action σ ε' (Except ε α)).Keeps R := hx

/-- An action on a part of the state. -/
theorem focus {x : Action σ ε α} (hx : x.Keeps R) {Q : τ → τ → Prop} {view : τ → σ}
    {update : σ → τ → τ} (hupdate : ∀ p s, R (view p) s → Q p (update s p)) :
    (Action.focus view update x).Keeps Q :=
  fun p => hupdate p _ (hx (view p))

/-- One action for each element of a list. -/
theorem forM [IsPreorder σ R] {xs : List β} {f : β → Action σ ε PUnit}
    (hf : ∀ b ∈ xs, (f b).Keeps R) : (xs.forM f).Keeps R := by
  induction xs with
  | nil => exact pure _
  | cons b rest ih =>
    exact (hf b List.mem_cons_self).bind fun _ => ih fun c hc => hf c (List.mem_cons_of_mem b hc)

/-- An action that keeps a preorder does not tell states apart that it has been run to. -/
theorem respects [IsTrans σ R] {x : Action σ ε α} (hx : x.Keeps R) (s : σ) :
    x.Respects fun t u => t = u ∧ R s t := by
  rintro t _ ⟨rfl, h⟩
  exact ⟨rfl, rfl, IsTrans.trans _ _ _ h (hx t)⟩

/-- An action keeps a relation if whatever states it comes to have it to the first one. -/
theorem of_respects [Std.Refl R] {x : Action σ ε α}
    (hx : ∀ s, x.Respects fun t u => t = u ∧ R s t) : x.Keeps R :=
  fun s => (hx s s s ⟨rfl, Std.Refl.refl s⟩).2.2

/-- What an action keeps it keeps when it fails. -/
theorem failsKeeping {x : Action σ ε α} (hx : x.Keeps R) : x.FailsKeeping R := fun s _ _ => hx s

end Keeps

/-- An action that never fails keeps whatever one likes when it fails. -/
theorem FailsKeeping.of_ok {x : Action σ ε α} (hx : ∀ s, ∃ a, (x s).1 = .ok a) :
    x.FailsKeeping R := by
  intro s e herror
  obtain ⟨a, hok⟩ := hx s
  exact absurd (hok.symm.trans herror) (by simp)

/-- **One action after another**, the first of which keeps the preorder anyway. -/
theorem FailsKeeping.bind [IsTrans σ R] {x : Action σ ε α} {f : α → Action σ ε β}
    (hx : x.Keeps R) (hf : ∀ a, (f a).FailsKeeping R) : (x >>= f).FailsKeeping R := by
  intro s e herror
  have hfirst := hx s
  rw [bind_run] at herror ⊢
  rcases hs : x s with ⟨_ | a, t⟩
  · rwa [hs] at hfirst
  · rw [hs] at herror hfirst
    exact IsTrans.trans _ _ _ hfirst (hf a t e herror)

end Action

/-- A run through a list stays above its start when every step does. -/
theorem foldl_keeps {σ : Type} {β : Type u} {R : σ → σ → Prop} [IsPreorder σ R] {f : σ → β → σ}
    (hf : ∀ s b, R s (f s b)) (xs : List β) (s : σ) : R s (xs.foldl f s) := by
  induction xs generalizing s with
  | nil => exact Std.Refl.refl s
  | cons b rest ih => exact IsTrans.trans _ _ _ (hf s b) (ih (f s b))

end NamedContent
