import NamedContent.Object.WorkingCopy
import NamedContent.Payload.Basic
import NamedContent.Node.Client

/-! # Versioned objects

A versioned object is a value of an application that lives under a name. Saving publishes it as a
new version, updating fetches the latest version or a given one, and a tombstone says that nothing
is there any more.

* `VersionedObject`: the state, with `VersionedObject.state` and `VersionedObject.version?`
* `VersionedObject.update`, `VersionedObject.updateTo`, `VersionedObject.updateFrom`: fetching
* `VersionedObject.save`, `VersionedObject.saveTo`: publishing
* `VersionedObject.saveAsGone`, `VersionedObject.saveRootAsGone`: tombstones
* `ObjectError`: why an operation fails
-/

namespace NamedContent

/-- Why an operation on an object fails. -/
inductive ObjectError where
  /-- The object has no name. -/
  | unnamed
  /-- A single version cannot be declared gone. -/
  | alreadyVersioned (name : Name)
  /-- There is no value to save. -/
  | noValue
  /-- The value could not be turned into bytes or back. -/
  | marshal (cause : PayloadError)
  /-- The stream could not be read. -/
  | read (cause : ReadError)
  /-- The value could not be published. -/
  | flow (cause : FlowError)
  deriving DecidableEq

/-- The wording of an error. -/
def ObjectError.message : ObjectError → String
  | .unnamed => "cannot retrieve or save without a name"
  | .alreadyVersioned name => "cannot save past versions as gone: " ++ name.toUri
  | .noValue => "no value to save"
  | .marshal cause => "marshal error: " ++ cause.message
  | .read cause => "read error: " ++ cause.message
  | .flow cause => "flow error: " ++ cause.message

/-- Whether the operation was not to be called, whatever the network does. -/
def ObjectError.isUsage : ObjectError → Bool
  | .unnamed => true
  | .alreadyVersioned _ => true
  | .noValue => true
  | _ => false

/-- How an object stands to what is published. -/
inductive ObjectState where
  /-- Nothing is fetched or saved yet. -/
  | unbound
  /-- The value is the one fetched or saved last. -/
  | clean
  /-- The value has changed since. -/
  | dirty
  /-- The last thing fetched or saved was a tombstone. -/
  | gone
  deriving DecidableEq, Repr

/-- The state of an object. -/
structure VersionedObject (α : Type) where
  /-- The context it works in. -/
  client : Client
  /-- The flow controller it publishes through. -/
  controller : ControllerId
  /-- The value. -/
  copy : WorkingCopy α
  /-- The name it is remembered or bound under. -/
  name : Option Name
  /-- Whether something was fetched or saved under the name. -/
  bound : Bool
  /-- Whether the last thing fetched or saved was a tombstone. -/
  isGone : Bool

namespace VersionedObject

variable {α : Type}

/-! ## Views -/

/-- The time of the version that the object is bound to. -/
def version? (o : VersionedObject α) : Option Timestamp :=
  if o.bound then o.name.bind (·.versionTime.toOption) else none

/-- How the object stands to what is published. -/
def state (o : VersionedObject α) : ObjectState :=
  if o.isGone then .gone
  else if o.copy.dirty then .dirty
  else if o.bound then .clean
  else .unbound

/-- The names that the object may publish under. -/
def namespaces (o : VersionedObject α) (s : Node) : List Name :=
  match s.controller? o.controller with
  | none => []
  | some c => c.flow.namespaces.toList

/-- Whether two objects have the same value and the same name. -/
def agrees [DecidableEq α] (a b : VersionedObject α) : Bool :=
  decide (a.copy.data = b.copy.data ∧ a.name = b.name)

/-! ## Actions -/

/-- An action of an object in a node. -/
abbrev Op (α ε β : Type) := Action (VersionedObject α × Node) ε β

/-- An action on the node alone. -/
def onNode {ε β : Type} (x : Action Node ε β) : Op α ε β :=
  Action.focus Prod.snd (fun s p => (p.1, s)) x

/-- Changes the object. -/
def change {ε : Type} (f : VersionedObject α → VersionedObject α) : Op α ε Unit :=
  Action.modify fun p => (f p.1, p.2)

/-- The object. -/
def self {ε : Type} : Op α ε (VersionedObject α) := fun p => (.ok p.1, p)

/-- The name, which there must be. -/
def requireName : Op α ObjectError Name := do
  match (← self).name with
  | some name => return name
  | none => Action.fail .unnamed

/-- The name itself if it carries a version, else with a new version. -/
def target {ε : Type} (name : Name) : Op α ε Name := do
  if name.isVersioned then return name
  return name.withVersion (← onNode Node.mint)

/-- Adds a namespace to the object's flow controller. -/
def addNamespace (root : Name) : Op α ObjectError Unit := do
  let o ← self
  Action.mapError ObjectError.flow (onNode (Node.addNamespace o.controller root))

/-- The object is bound to a name. -/
def bindTo (o : VersionedObject α) (name : Name) (isGone : Bool) : VersionedObject α :=
  { o with name := some name, bound := true, isGone }

/-! ## Making objects -/

/-- An object with a value and a name, either of which may be absent. -/
def create {ε : Type} (client : Client) (name : Option Name) (copy : WorkingCopy α) :
    Action Node ε (VersionedObject α) := do
  let controller ← Node.openController client.face client.flowLimits
  return ⟨client, controller, copy, name, false, false⟩

/-- Ends an object. -/
def dispose {ε : Type} (o : VersionedObject α) : Action Node ε Unit :=
  Node.closeController o.controller

/-! ## Fetching -/

/-- Takes over what was read. A tombstone binds the object without a new value. -/
def absorb (codec : PayloadCodec α) (read : Except ReadError StreamContent) :
    Op α ObjectError Unit := do
  match read with
  | .ok stream => do
    let data ← Action.ofExcept ((codec.decode stream.content).mapError ObjectError.marshal)
    addNamespace stream.name
    change fun o => { o with copy := o.copy.replaceClean data }.bindTo stream.name false
  | .error (.gone name) => change fun o => { o with copy := o.copy.markClean }.bindTo name true
  | .error e => Action.fail (.read e)

/-- Fetches the stream with a name: that version if the name carries one, else the latest. -/
def updateTo (codec : PayloadCodec α) (name : Name) : Op α ObjectError Unit := do
  let o ← self
  absorb codec (← Action.attempt (onNode (o.client.reader.read name)))

/-- Fetches the latest version of the object's name. -/
def update (codec : PayloadCodec α) : Op α ObjectError Unit := do
  let name ← requireName
  updateTo codec name.versionRoot

/-- Fetches the stream that an object belongs to. -/
def updateFrom (codec : PayloadCodec α) (first : ContentObject) : Op α ObjectError Unit := do
  let o ← self
  absorb codec (← Action.attempt (onNode (o.client.reader.readFrom first)))

/-! ## Publishing -/

/-- The time of a save under a name. -/
def savedAt {ε : Type} (name : Name) : Op α ε Timestamp := do
  match name.versionTime with
  | .ok t => return t
  | .error _ => return (← Action.get).2.clock

/-- Publishes the value under a name, as a new version unless the name carries one. Tells whether
there was anything to publish. -/
def saveTo (codec : PayloadCodec α) (name : Name) : Op α ObjectError Bool := do
  let o ← self
  if !o.copy.dirty then return false
  match o.copy.data with
  | none => Action.fail .noValue
  | some data => do
    let payload ← Action.ofExcept ((codec.encode data).mapError ObjectError.marshal)
    let full ← target name
    addNamespace name.versionRoot
    let now := (← Action.get).2.clock
    let objects ← Action.ofExcept
      ((Stream.objects o.client.config o.client.signer now full payload .data).mapError
        fun e => ObjectError.flow (.signing e))
    Action.mapError ObjectError.flow (onNode (Node.publishAll o.controller objects))
    let time ← savedAt full
    change fun o => { o with copy := o.copy.markSaved time }.bindTo full false
    return true

/-- Publishes the value as a new version of the object's name. -/
def save (codec : PayloadCodec α) : Op α ObjectError Bool := do
  let name ← requireName
  saveTo codec name.versionRoot

/-- Publishes a tombstone as a new version of a name. -/
def saveAsGone (name : Name) : Op α ObjectError Unit := do
  let o ← self
  if name.isVersioned then Action.fail (.alreadyVersioned name)
  else do
    let full ← target name
    let now := (← Action.get).2.clock
    let tombstone ← Action.ofExcept
      ((Stream.tombstone o.client.config o.client.signer now full).mapError
        fun e => ObjectError.flow (.signing e))
    addNamespace name
    Action.mapError ObjectError.flow (onNode (Node.publish o.controller tombstone))
    let time ← savedAt full
    change fun o => { o with copy := o.copy.markSaved time }.bindTo full true

/-- Publishes a tombstone as a new version of the object's name. -/
def saveRootAsGone : Op α ObjectError Unit := do
  let name ← requireName
  saveAsGone name.versionRoot

/-! ## Changing the value -/

/-- Replaces the value. -/
def set (o : VersionedObject α) (a : α) : VersionedObject α := { o with copy := o.copy.set a }

/-- Changes the value, if there is one. -/
def modify (o : VersionedObject α) (f : α → α) : VersionedObject α :=
  { o with copy := o.copy.modify f }

/-- An object from one that is already fetched, with the rest of its stream. One that cannot be
read is ended again. -/
def ofContent (codec : PayloadCodec α) (client : Client) (first : ContentObject) :
    Action Node ObjectError (VersionedObject α) := fun s =>
  match create client none WorkingCopy.empty s with
  | (.error e, s) => (.error e, s)
  | (.ok o, s) =>
    match updateFrom codec first (o, s) with
    | (.ok _, o, s) => (.ok o, s)
    | (.error e, o, s) => (.error e, (@dispose α Empty o s).2)

end VersionedObject

end NamedContent
