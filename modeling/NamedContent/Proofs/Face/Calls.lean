import NamedContent.Face.Retry
import NamedContent.Proofs.Action

/-! # Calls with their attempts

Whatever befalls the attempts of a call, at most one of them reaches the forwarder, and it is the
last. So a call leaves behind what one attempt leaves behind, or nothing at all.

* `retry_ends`: how a call ends
* `retry_matches`: a call does not tell states apart that no attempt tells apart -/

namespace NamedContent

variable {σ α : Type} {x : Nat → Action σ TransportError α} {s t : σ}

/-- Whether a call fails with the state as it was, or ends as an attempt that reaches the
forwarder. -/
def Outcome.Ends (x : Nat → Action σ TransportError α) (s : σ) (o : Outcome σ α) : Prop :=
  (∃ e, o.result = .error e ∧ o.state = s)
    ∨ ∃ elapsed, o.result = (x elapsed s).1.mapError FaceError.transport
        ∧ o.state = (x elapsed s).2

/-- An attempt that reaches the forwarder ends the call. -/
theorem reach_eq (x : Nat → Action σ TransportError α) (elapsed : Nat) (cancelled : Bool)
    (rest : List Attempt) (s : σ) :
    reach x elapsed cancelled rest s
      = ⟨(x elapsed s).1.mapError FaceError.transport, (x elapsed s).2, cancelled, 1, rest⟩ := by
  rw [reach]
  rcases x elapsed s with ⟨_ | _, _⟩ <;> rfl

/-- **How a call ends**: what its interrupted attempts leave behind is nothing. -/
theorem retry_ends (policy : RetryPolicy) (operation : Operation)
    (x : Nat → Action σ TransportError α) (schedule : List Attempt) (number : UInt32)
    (elapsed : Nat) (cancelled : Bool) (s : σ) :
    (retry policy operation x schedule number elapsed cancelled s).Ends x s := by
  induction schedule generalizing number elapsed cancelled with
  | nil =>
    cases cancelled with
    | true => exact .inl ⟨_, rfl, rfl⟩
    | false =>
      rw [retry, reach_eq]
      exact .inr ⟨elapsed, rfl, rfl⟩
  | cons attempt rest ih =>
    cases cancelled with
    | true => exact .inl ⟨_, rfl, rfl⟩
    | false =>
      rw [retry]
      split
      · rw [reach_eq]
        exact .inr ⟨elapsed, rfl, rfl⟩
      · split
        · -- an interrupted attempt has left the state as it was, and is made again
          exact ih (number + 1) (elapsed + attempt.elapsed) attempt.cancels
        · exact .inl ⟨_, rfl, rfl⟩
      · exact .inl ⟨_, rfl, rfl⟩

/-- Whether two calls end in the same way, with states that are alike. -/
structure Outcome.Matches (R : σ → σ → Prop) (o p : Outcome σ α) : Prop where
  result : o.result = p.result
  state : R o.state p.state
  cancelled : o.cancelled = p.cancelled
  schedule : o.schedule = p.schedule

/-- **A call from states that are alike** ends in the same way if every attempt does. -/
theorem retry_matches {R : σ → σ → Prop} (hx : ∀ elapsed, (x elapsed).Respects R)
    (policy : RetryPolicy) (operation : Operation) (schedule : List Attempt) (number : UInt32)
    (elapsed : Nat) (cancelled : Bool) (h : R s t) :
    (retry policy operation x schedule number elapsed cancelled s).Matches R
      (retry policy operation x schedule number elapsed cancelled t) := by
  have hreach : ∀ elapsed cancelled rest,
      (reach x elapsed cancelled rest s).Matches R (reach x elapsed cancelled rest t) := by
    intro elapsed cancelled rest
    obtain ⟨hresult, hstate⟩ := hx elapsed s t h
    rw [reach_eq, reach_eq]
    exact ⟨congrArg (Except.mapError FaceError.transport) hresult, hstate, rfl, rfl⟩
  induction schedule generalizing number elapsed cancelled with
  | nil =>
    cases cancelled with
    | true => exact ⟨rfl, h, rfl, rfl⟩
    | false => exact hreach elapsed false []
  | cons attempt rest ih =>
    cases cancelled with
    | true => exact ⟨rfl, h, rfl, rfl⟩
    | false =>
      rw [retry, retry]
      split
      · exact hreach elapsed attempt.cancels rest
      · split
        · -- an interruption leaves both states as they were
          obtain ⟨hresult, hstate, hcancelled, hschedule⟩ :=
            ih (number + 1) (elapsed + attempt.elapsed) attempt.cancels
          exact ⟨hresult, hstate, hcancelled, hschedule⟩
        · exact ⟨rfl, h, rfl, rfl⟩
      · exact ⟨rfl, h, rfl, rfl⟩

end NamedContent
