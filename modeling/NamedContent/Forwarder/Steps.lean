import NamedContent.Forwarder.Network

/-! # Steps of the forwarder

The applications of a forwarder take its steps in any order. A step is indivisible, so that what
every step keeps is kept however the applications interleave.

* `NetworkStep`: a step of any application
* `NetworkReply`: what the application learns from it
* `Network.take`: the network after a step
-/

namespace NamedContent

/-- A step of an application at the forwarder. -/
inductive NetworkStep where
  /-- An object arrives. -/
  | put (object : ContentObject)
  /-- A get starts, and waits if there is nothing for it yet and it may. -/
  | beginGet (interest : Interest) (wait : Bool)
  /-- A waiting get looks for its result. -/
  | wake (id : Nat)
  /-- The deadline of a waiting get passes. -/
  | expire (id : Nat)
  /-- The forwarder is shut down. -/
  | close
  /-- A filter is set. -/
  | setFilter (filter : InterestFilter)
  /-- A filter is taken away. -/
  | cancelFilter (filter : InterestFilter)
  /-- A standing interest is expressed. -/
  | express (standing : StandingInterest)
  /-- A standing interest is taken back. -/
  | cancelInterest (standing : StandingInterest)
  /-- A listener takes its first interest. -/
  | takeInterest (listener : ListenerId)
  /-- A listener takes its first object. -/
  | takeObject (listener : ListenerId)

/-- What an application learns from its step. -/
inductive NetworkReply where
  /-- The step is done. -/
  | done
  /-- The step is refused. -/
  | refused (cause : TransportError)
  /-- The get has started. -/
  | started (start : GetStart)
  /-- The get has no result yet. -/
  | waiting
  /-- The get has ended; without an object, it gave up. -/
  | ended (found : Option ContentObject)
  /-- The listener has taken an interest, if there was one. -/
  | interest (first : Option Interest)
  /-- The listener has taken an object, if there was one. -/
  | object (first : Option ContentObject)

namespace NetworkReply

/-- The reply to an action, whose value is put into a reply by `value`. -/
def ofAction {α : Type} (value : α → NetworkReply) (x : Action Network TransportError α)
    (n : Network) : NetworkReply × Network :=
  match x n with
  | (.ok a, n) => (value a, n)
  | (.error e, n) => (.refused e, n)

end NetworkReply

namespace Network

open NetworkReply (ofAction)

/-- The network after a step, and what the application learns. -/
def take (n : Network) : NetworkStep → NetworkReply × Network
  | .put o => ofAction (fun _ => .done) (put o) n
  | .beginGet i wait => ofAction .started (beginGet i wait) n
  | .wake id =>
    match n.wake id with
    | (none, n) => (.waiting, n)
    | (some (.ok o), n) => (.ended (some o), n)
    | (some (.error e), n) => (.refused e, n)
  | .expire id => ofAction .ended (expire id) n
  | .close => (.done, { n with forwarder := n.forwarder.close })
  | .setFilter g => ofAction (fun _ => .done) (setFilter g) n
  | .cancelFilter g => ofAction (fun _ => .done) (cancelFilter g) n
  | .express s => ofAction (fun _ => .done) (express s) n
  | .cancelInterest s => ofAction (fun _ => .done) (cancelInterest s) n
  | .takeInterest l => ofAction .interest (takeInterest l) n
  | .takeObject l => ofAction .object (takeObject l) n

end Network

end NamedContent
