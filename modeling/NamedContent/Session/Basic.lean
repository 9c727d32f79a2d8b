import NamedContent.Object.Basic

/-! # Sessions

A session is a node whose parts are called by names of an application's choice. It is driven by
commands, one after another. What the flow controllers do in the background is done before a
command ends, and gets that were started and have their result by then take it.

* `Session`: the node and the tables of its parts
* `Session.perform`: a command from beginning to end
* `Session.owner`, `Session.interestQueue`, `Session.objectQueue`: parts made on first use
* `Session.startGet`, `Session.joinGet`: gets that wait while commands go on
* `Session.openFace`, `Session.openFlow`, `Session.connect`, `Session.addObject`: making parts
* `Session.face`, `Session.flow`, `Session.client`, `Session.object`: parts that must exist
-/

namespace NamedContent

/-- Why a command fails. -/
inductive SessionError where
  /-- There is no part of that name. -/
  | unknown (key : String)
  /-- The forwarder refuses or is shut down. -/
  | transport (cause : TransportError)
  /-- A call through a face failed. -/
  | face (cause : FaceError)
  /-- Publishing failed. -/
  | flow (cause : FlowError)
  /-- Reading failed. -/
  | read (cause : ReadError)
  /-- An operation of an object failed. -/
  | object (cause : ObjectError)
  /-- A configuration is refused. -/
  | config (cause : ConfigError)

/-- The wording of an error. -/
def SessionError.message : SessionError → String
  | .unknown key => "unknown: " ++ key
  | .transport cause => cause.message
  | .face cause => cause.message
  | .flow cause => cause.message
  | .read cause => cause.message
  | .object cause => cause.message
  | .config cause => cause.message

/-- The node and the tables of its parts. -/
structure Session where
  /-- The node. -/
  node : Node
  /-- Handles that are used without a face. -/
  owners : Table String OwnerId := []
  /-- Queues for interests. -/
  interestQueues : Table String ListenerId := []
  /-- Queues for objects. -/
  objectQueues : Table String ListenerId := []
  /-- The faces. -/
  faces : Table String OwnerId := []
  /-- The flow controllers, each with its face. -/
  flows : Table String (OwnerId × ControllerId) := []
  /-- The clients. -/
  clients : Table String Client := []
  /-- The versioned objects. -/
  objects : Table String (VersionedObject Note) := []
  /-- The gets that were started. -/
  gets : Table String GetId := []
  /-- The times of the versions that were minted for objects, the first one first. -/
  minted : List Timestamp := []

namespace Session

/-- How many calls a read makes before it gives up. -/
def readLimit : Nat := 1000000

/-- A session on an open forwarder. -/
def new (capacity : Nat) (clock : Timestamp) : Session := { node := .new capacity clock }

/-- A command that may fail. -/
abbrev Command (ε α : Type) := Action Session ε α

/-- An action on the node. -/
def onNode {ε ε' α : Type} (failure : ε → ε') (x : Action Node ε α) : Command ε' α :=
  Action.mapError failure (Action.focus Session.node (fun node s => { s with node }) x)

/-- An action on the network. -/
def onNetwork {α : Type} (x : Action Network TransportError α) : Command SessionError α :=
  onNode .transport (Node.onNetwork x)

/-- Changes the network. -/
def changeNetwork {ε : Type} (f : Network → Network) : Command ε Unit :=
  onNode id (Node.onNetwork (Action.modify f))

/-! ## Performing commands -/

/-- How far the clock moves on with every command: one second. -/
def pace : UInt64 := 4096

/-- A command from beginning to end. The schedule says what befalls the attempts of its calls; what
it leaves over is dropped with the next command. -/
def perform {ε α : Type} (schedule : List Attempt) (x : Command ε α) : Command ε α := fun s =>
  let clock : Timestamp := ⟨s.node.clock.ticks + pace⟩
  match x { s with node := { s.node with schedule, calls := 0, clock } } with
  | (r, s) => (r, { s with node := s.node.settle.attendAll })

/-! ## Parts made on first use -/

/-- A number that is not in use. -/
def fresh {ε : Type} : Command ε Nat := fun s =>
  match s.node.fresh with
  | (n, node) => (.ok n, { s with node })

/-- The handle of a name. -/
def owner {ε : Type} (key : String) : Command ε OwnerId := do
  match (← Action.get).owners.lookup key with
  | some a => return a
  | none => do
    let a : OwnerId := ⟨← fresh⟩
    Action.modify fun s => { s with owners := s.owners.insert key a }
    return a

/-- The queue for interests of a name. -/
def interestQueue {ε : Type} (key : String) : Command ε ListenerId := do
  match (← Action.get).interestQueues.lookup key with
  | some a => return a
  | none => do
    let a : ListenerId := ⟨← fresh⟩
    Action.modify fun s => { s with interestQueues := s.interestQueues.insert key a }
    return a

/-- The queue for objects of a name. -/
def objectQueue {ε : Type} (key : String) : Command ε ListenerId := do
  match (← Action.get).objectQueues.lookup key with
  | some a => return a
  | none => do
    let a : ListenerId := ⟨← fresh⟩
    Action.modify fun s => { s with objectQueues := s.objectQueues.insert key a }
    return a

/-! ## Parts that must exist -/

/-- A value that a table must have. -/
def require {α : Type} (table : Session → Table String α) (key : String) :
    Command SessionError α := do
  match (table (← Action.get)).lookup key with
  | some a => return a
  | none => Action.fail (.unknown key)

/-- The face of a name. -/
def face (key : String) : Command SessionError OwnerId := require faces key

/-- The flow controller of a name, with its face. -/
def flow (key : String) : Command SessionError (OwnerId × ControllerId) := require flows key

/-- The client of a name. -/
def client (key : String) : Command SessionError Client := require clients key

/-- The versioned object of a name. -/
def object (key : String) : Command SessionError (VersionedObject Note) := require objects key

/-! ## The forwarder itself -/

/-- Fills the store: under a standing interest for everything every object is admitted. The interest
goes out before the objects are made, and stays when the command fails. Tells how many objects the
store has then. -/
def seed {ε : Type} (failure : SessionError → ε) (make : Command ε (List ContentObject)) :
    Command ε Nat := do
  let all : StandingInterest := ⟨⟨← fresh⟩, .below .root, ⟨← fresh⟩⟩
  Action.mapError failure (onNetwork (Network.express all))
  let objects ← make
  objects.forM fun o => Action.mapError failure (onNetwork (Network.put o))
  Action.mapError failure (onNetwork (Network.cancelInterest all))
  return (← Action.get).node.network.forwarder.store.size

/-- Starts a get under a name. One of the same name goes on without it. -/
def startGet {ε : Type} (key : String) (i : Interest) (timeout : Option Nat) :
    Command ε Unit := do
  let id ← onNode id (Node.startGet i timeout)
  Action.modify fun s => { s with gets := s.gets.insert key id }

/-- Ends a get that was started. -/
def joinGet (key : String) : Command SessionError (Option ContentObject) := do
  let id ← require gets key
  Action.modify fun s => { s with gets := s.gets.erase key }
  onNode .transport (Node.joinGet id)

/-! ## Faces -/

/-- Makes a face, unless the network is out of reach. -/
def openFace (key : String) (retry : RetryPolicy) (failure : Option TransportError) :
    Command SessionError Unit := do
  if let some e := failure then Action.fail (.face (.transport e))
  let a ← onNode id (Node.openFace retry)
  Action.modify fun s => { s with faces := s.faces.insert key a }

/-- Cancels a face. -/
def cancelFace {ε : Type} (a : OwnerId) : Command ε Unit :=
  onNode id (Action.modify (·.cancelFace a))

/-- A call through a face. -/
def callFace {α : Type} (key : String) (x : OwnerId → Action Node FaceError α) :
    Command SessionError α := do
  onNode .face (x (← face key))

/-! ## Flow controllers -/

/-- Ends the flow controller of a name, if there is one. -/
def closeFlow {ε : Type} (key : String) : Command ε Unit := do
  match (← Action.get).flows.lookup key with
  | none => return
  | some (_, c) => do
    onNode id (Node.closeController c)
    Action.modify fun s => { s with flows := s.flows.erase key }

/-- Makes a flow controller on a face of its own. One of the same name is ended. -/
def openFlow {ε : Type} (key : String) (retry : RetryPolicy) (limits : FlowLimits) :
    Command ε Unit := do
  let a ← onNode id (Node.openFace retry)
  let c ← onNode id (Node.openController a limits)
  closeFlow key
  Action.modify fun s => { s with flows := s.flows.insert key (a, c) }

/-- A call of a flow controller. -/
def callFlow {α : Type} (key : String) (x : ControllerId → Action Node FlowError α) :
    Command SessionError α := do
  onNode .flow (x (← flow key).2)

/-- The state of the flow controller of a name. -/
def flowControl? (s : Session) (key : String) : Option FlowControl :=
  ((s.flows.lookup key).bind fun p => s.node.controller? p.2).map (·.flow)

/-! ## Clients -/

/-- Makes a client. -/
def connect (key : String) (signer : Signer) (config : Config) : Command SessionError Client := do
  let c ← onNode .config (Client.connect signer config readLimit)
  Action.modify fun s => { s with clients := s.clients.insert key c }
  return c

/-- Reads through a client. -/
def readWith {α : Type} (key : String) (x : Stream.Reader Node → Action Node ReadError α) :
    Command SessionError α := do
  onNode .read (x (← client key).reader)

/-! ## Versioned objects -/

/-- Ends the object of a name, if there is one. -/
def dropObject {ε : Type} (key : String) : Command ε Unit := do
  match (← Action.get).objects.lookup key with
  | none => return
  | some o => do
    onNode id o.dispose
    Action.modify fun s => { s with objects := s.objects.erase key }

/-- Keeps a new object under a name. One of the same name is ended. -/
def addObject (key : String) (make : Action Node ObjectError (VersionedObject Note)) :
    Command SessionError Unit := do
  let o ← onNode .object make
  dropObject key
  Action.modify fun s => { s with objects := s.objects.insert key o }

/-- Changes the value of an object and tells what it is then. -/
def changeObject (key : String) (f : VersionedObject Note → VersionedObject Note) :
    Command SessionError (Option Note) := do
  let o := f (← object key)
  Action.modify fun s => { s with objects := s.objects.insert key o }
  return o.copy.data

/-- An operation of an object, which leaves its state behind whether it fails or not. -/
def callObject {α : Type} (key : String) (x : VersionedObject.Op Note ObjectError α) :
    Command SessionError α := do
  let o ← object key
  fun s =>
    match x (o, s.node) with
    | (r, o, node) =>
      (r.mapError .object, { s with node, objects := s.objects.insert key o })

/-- An operation that publishes an object; the version that it minted is noted. -/
def publishObject {α : Type} (key : String) (x : VersionedObject.Op Note ObjectError α) :
    Command SessionError α := do
  let before := (← Action.get).node.lastMinted
  let a ← callObject key x
  Action.modify fun s =>
    if s.node.lastMinted = before then s
    else { s with minted := s.minted ++ [s.node.lastMinted] }
  return a

end Session

end NamedContent
