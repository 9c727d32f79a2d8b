import NamedContent.Node.Waiting

/-! # Calls through a face

An application reaches the forwarder through its face, whose policy says how often an interrupted
call is made again.

* `Node.call`: a call with its attempts
* `Node.put`, `Node.get`, `Node.register`, `Node.express`: the operations of a face
-/

namespace NamedContent.Node

/-- A call through a face, made again while it is interrupted. -/
def call {α : Type} (id : OwnerId) (operation : Operation)
    (x : Nat → Action Node TransportError α) : Action Node FaceError α := fun s =>
  let f := s.face id
  let o := retry f.retry operation x s.schedule 1 0 f.cancelled s
  let s := if o.cancelled then o.state.cancelFace id else o.state
  (o.result, { s with schedule := o.schedule, calls := s.calls + o.calls })

/-- Publishes an object. -/
def put (id : OwnerId) (o : ContentObject) : Action Node FaceError Unit :=
  call id .put fun _ => onNetwork (Network.put o)

/-- Fetches an object. Attempts made again wait for what is left of the time only. -/
def get (id : OwnerId) (i : Interest) (timeout : Option Nat) :
    Action Node FaceError (Option ContentObject) :=
  call id .get fun elapsed => fetch i (timeout.map (· - elapsed))

/-- Sets a filter. -/
def register (id : OwnerId) (root : Name) (listener : ListenerId) : Action Node FaceError Unit :=
  call id .registerFilter fun _ => onNetwork (Network.setFilter ⟨id, root, listener⟩)

/-- Takes a filter away. -/
def unregister (id : OwnerId) (root : Name) (listener : ListenerId) :
    Action Node FaceError Unit :=
  call id .unregisterFilter fun _ => onNetwork (Network.cancelFilter ⟨id, root, listener⟩)

/-- Expresses a standing interest. -/
def express (id : OwnerId) (i : Interest) (listener : ListenerId) :
    Action Node FaceError Unit :=
  call id .expressInterest fun _ => do
    onNetwork (Network.express ⟨id, i, listener⟩)
    Action.modify settle

/-- Takes a standing interest back. -/
def cancelInterest (id : OwnerId) (i : Interest) (listener : ListenerId) :
    Action Node FaceError Unit :=
  call id .cancelInterest fun _ => onNetwork (Network.cancelInterest ⟨id, i, listener⟩)

end NamedContent.Node
