import NamedContent.Action
import NamedContent.Config.Basic
import NamedContent.Forwarder.Basic

/-! # Calls that are made again

An application reaches the forwarder through a face. A call that is interrupted is made again until
it ends otherwise, its policy allows no further attempt, or the face is cancelled. What befalls the
attempts is given as a list; beyond its end every attempt reaches the forwarder.

* `Attempt`: what befalls one attempt
* `FaceError`: why a call fails
* `retry`: a call with its attempts
-/

namespace NamedContent

/-- What befalls one attempt of a call. -/
structure Attempt where
  /-- The error that ends the attempt; without one it reaches the forwarder. -/
  failure : Option TransportError := none
  /-- Whether the face is cancelled during the attempt. -/
  cancels : Bool := false
  /-- How many milliseconds the attempt takes. -/
  elapsed : Nat := 0
  deriving DecidableEq, Inhabited

/-- The operations of a face. -/
inductive Operation where
  /-- Publishing an object. -/
  | put
  /-- Fetching an object. -/
  | get
  /-- Setting a filter. -/
  | registerFilter
  /-- Taking a filter away. -/
  | unregisterFilter
  /-- Expressing a standing interest. -/
  | expressInterest
  /-- Taking a standing interest back. -/
  | cancelInterest
  deriving DecidableEq, Repr

/-- The name of an operation in messages. -/
def Operation.text : Operation → String
  | .put => "put"
  | .get => "get"
  | .registerFilter => "register_filter"
  | .unregisterFilter => "unregister_filter"
  | .expressInterest => "express_interest"
  | .cancelInterest => "cancel_interest"

/-- Why a call through a face fails. -/
inductive FaceError where
  /-- The network failed. -/
  | transport (cause : TransportError)
  /-- The face was cancelled. -/
  | cancelled
  /-- Every attempt allowed was interrupted. -/
  | retriesExhausted (operation : Operation) (attempts : UInt32)
  deriving DecidableEq, Repr

/-- The wording of an error. -/
def FaceError.message : FaceError → String
  | .transport cause => "transport error: " ++ cause.message
  | .cancelled => "exchange cancelled"
  | .retriesExhausted operation attempts =>
    operation.text ++ " still interrupted after " ++ toString attempts.toNat ++ " attempts"

/-- How a call ended. -/
structure Outcome (σ α : Type) where
  /-- The result. -/
  result : Except FaceError α
  /-- The state that the call left behind. -/
  state : σ
  /-- Whether the face is cancelled now. -/
  cancelled : Bool
  /-- How many attempts were made. -/
  calls : Nat
  /-- What befalls the attempts of later calls. -/
  schedule : List Attempt

/-- An outcome with one more attempt before it. -/
def Outcome.counted {σ α : Type} (o : Outcome σ α) : Outcome σ α := { o with calls := o.calls + 1 }

/-- An attempt that reaches the forwarder ends the call. -/
def reach {σ α : Type} (call : Nat → Action σ TransportError α) (elapsed : Nat) (cancelled : Bool)
    (rest : List Attempt) (s : σ) : Outcome σ α :=
  match call elapsed s with
  | (.ok a, s) => ⟨.ok a, s, cancelled, 1, rest⟩
  | (.error e, s) => ⟨.error (.transport e), s, cancelled, 1, rest⟩

/-- Makes a call, beginning with the attempt of a number. Before every attempt it is seen whether
the face is cancelled; after an interrupted one, whether the policy allows another. The call is
told how much time the attempts before took. -/
def retry {σ α : Type} (policy : RetryPolicy) (operation : Operation)
    (call : Nat → Action σ TransportError α) :
    (schedule : List Attempt) → (number : UInt32) → (elapsed : Nat) → (cancelled : Bool) → σ →
      Outcome σ α
  | schedule, _, _, true, s => ⟨.error .cancelled, s, true, 0, schedule⟩
  | [], _, elapsed, false, s => reach call elapsed false [] s
  | attempt :: rest, number, elapsed, false, s =>
    match attempt.failure with
    | none => reach call elapsed attempt.cancels rest s
    | some .interrupted =>
      if policy.allows (number + 1) then
        (retry policy operation call rest (number + 1) (elapsed + attempt.elapsed) attempt.cancels
          s).counted
      else ⟨.error (.retriesExhausted operation number), s, attempt.cancels, 1, rest⟩
    | some e => ⟨.error (.transport e), s, attempt.cancels, 1, rest⟩

end NamedContent
