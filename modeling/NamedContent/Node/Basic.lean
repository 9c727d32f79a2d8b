import NamedContent.Face.Retry
import NamedContent.Flow.Controller
import NamedContent.Forwarder.Network
import NamedContent.Table

/-! # The node

A node is one forwarder with the faces and flow controllers on it, and with the gets that go on in
the background. Flow controllers answer interests at once: every controller handles what it has
been passed before anything else happens.

* `Node`: the state
* `Node.settle`: every controller handles its interests
-/

namespace NamedContent

/-- An application's handle on the forwarder. -/
structure Face where
  /-- How often interrupted calls are made again. -/
  retry : RetryPolicy := {}
  /-- Whether the face is cancelled. -/
  cancelled : Bool := false
  deriving DecidableEq, Inhabited

/-- The identity of a flow controller. -/
structure ControllerId where
  /-- The number of the controller. -/
  id : Nat
  deriving DecidableEq, Inhabited, Repr

/-- A flow controller on a face. -/
structure Controller where
  /-- The face through which objects go out. -/
  face : OwnerId
  /-- The queue into which interests come. -/
  listener : ListenerId
  /-- What the controller keeps. -/
  flow : FlowControl

/-- The identity of a get in the background. -/
structure GetId where
  /-- The number of the get. -/
  id : Nat
  deriving DecidableEq, Inhabited, Repr

/-- A get in the background. -/
inductive BackgroundGet where
  /-- It waits at the forwarder under a number, until a time if it has a deadline. -/
  | waiting (id : Nat) (deadline : Option Nat)
  /-- It has its result. -/
  | ended (result : Except TransportError (Option ContentObject))

/-- The forwarder and what is attached to it. -/
structure Node where
  /-- The forwarder with its listeners. -/
  network : Network
  /-- The faces. -/
  faces : Table OwnerId Face
  /-- The flow controllers. -/
  controllers : Table ControllerId Controller
  /-- What befalls the next attempts of the applications' calls. -/
  schedule : List Attempt
  /-- How many attempts the applications have made. -/
  calls : Nat
  /-- What the clock reads. -/
  clock : Timestamp
  /-- The last time that was minted. -/
  lastMinted : Timestamp
  /-- The number of the next face, queue, controller or get. -/
  nextId : Nat
  /-- The gets in the background. -/
  gets : Table GetId BackgroundGet := []
  /-- How many milliseconds the applications have waited. -/
  time : Nat := 0

namespace Node

/-- A node with an open forwarder and nothing attached. -/
def new (capacity : Nat) (clock : Timestamp) : Node :=
  { network := .new capacity, faces := [], controllers := [], schedule := [], calls := 0, clock,
    lastMinted := ⟨0⟩, nextId := 1 }

/-! ## Attached parts -/

/-- A number that is not in use. -/
def fresh (s : Node) : Nat × Node := (s.nextId, { s with nextId := s.nextId + 1 })

/-- The face with an identity. -/
def face (s : Node) (id : OwnerId) : Face := (s.faces.lookup id).getD {}

/-- The node with a face changed. -/
def setFace (s : Node) (id : OwnerId) (f : Face) : Node :=
  { s with faces := s.faces.insert id f }

/-- The node with a face cancelled. -/
def cancelFace (s : Node) (id : OwnerId) : Node :=
  s.setFace id { s.face id with cancelled := true }

/-- A new face with a policy. -/
def openFace {ε : Type} (retry : RetryPolicy) : Action Node ε OwnerId := fun s =>
  match s.fresh with
  | (n, s) => (.ok ⟨n⟩, s.setFace ⟨n⟩ { retry })

/-- The controller with an identity. -/
def controller? (s : Node) (id : ControllerId) : Option Controller := s.controllers.lookup id

/-- The node with the state of a controller changed. -/
def setFlow (s : Node) (id : ControllerId) (flow : FlowControl) : Node :=
  { s with controllers := s.controllers.map fun (k, c) =>
      if k = id then (k, { c with flow }) else (k, c) }

/-- The next time: what the clock reads, or later than any time minted before. -/
def mint {ε : Type} : Action Node ε Timestamp := fun s =>
  let t := Timestamp.mint s.clock s.lastMinted
  (.ok t, { s with lastMinted := t })

/-- An action on the network alone. -/
def onNetwork {ε α : Type} (x : Action Network ε α) : Action Node ε α :=
  Action.focus Node.network (fun n s => { s with network := n }) x

/-! ## Responding -/

/-- An object goes out in answer to an interest. A failure loses it. The schedule of what befalls
calls and the policies of faces are for the calls that applications make. Those that a controller
makes when it answers are left out here: they reach the forwarder at once, unless the face is
cancelled. How they may fail is the subject of `LiveController`. -/
def emit (s : Node) (id : OwnerId) (o : ContentObject) : Node :=
  if (s.face id).cancelled then s else { s with network := (Network.put o s.network).2 }

/-- A controller handles one interest. -/
def respond (id : ControllerId) (s : Node) (i : Interest) : Node :=
  match s.controller? id with
  | none => s
  | some c =>
    match c.flow.receive i with
    | (none, flow) => s.setFlow id flow
    | (some o, flow) => (s.setFlow id flow).emit c.face o

/-- A controller handles the interests that it has been passed. -/
def drain (s : Node) (entry : ControllerId × Controller) : Node :=
  let listener := entry.2.listener
  let waiting := s.network.interests.waiting listener
  let network := { s.network with interests := s.network.interests.drained listener }
  waiting.foldl (respond entry.1) { s with network }

/-- Every controller handles the interests that it has been passed. Nothing they let out brings
them new ones. -/
def settle (s : Node) : Node := s.controllers.foldl drain s

end Node

end NamedContent
