import NamedContent.Signing.Basic
import NamedContent.Node.Call

/-! # Publishing through flow controllers

The namespaces of a controller are filters of its face on the forwarder; the objects that it lets
out go through that face.

* `FlowError`: why publishing fails
* `Node.openController`, `Node.closeController`: the life of a controller
* `Node.addNamespace`, `Node.removeNamespace`: its namespaces
* `Node.publish`, `Node.publishAll`: objects
-/

namespace NamedContent

/-- Why publishing fails. -/
inductive FlowError where
  /-- The name lies in no namespace. -/
  | outsideNamespace (name : Name)
  /-- A call failed. -/
  | face (cause : FaceError)
  /-- An object could not be signed. -/
  | signing (cause : SigningError)
  /-- An object breaks a rule. -/
  | codec (cause : FormatError)
  deriving DecidableEq

/-- The wording of an error. -/
def FlowError.message : FlowError → String
  | .outsideNamespace name => name.toUri ++ " is outside every registered namespace"
  | .face cause => "exchange error: " ++ cause.message
  | .signing cause => "signing error: " ++ cause.message
  | .codec cause => "codec error: " ++ cause.message

namespace Node

/-- A new controller on a face. -/
def openController {ε : Type} (face : OwnerId) (limits : FlowLimits) :
    Action Node ε ControllerId := fun s =>
  match s.fresh with
  | (n, s) =>
    let c : Controller := ⟨face, ⟨n⟩, .new limits⟩
    (.ok ⟨n⟩, { s with controllers := s.controllers ++ [(⟨n⟩, c)] })

/-- An action on a controller that must exist; without it there is nothing to do. -/
def withController {ε : Type} (id : ControllerId) (x : Controller → Action Node ε Unit) :
    Action Node ε Unit := fun s =>
  match s.controller? id with
  | none => (.ok (), s)
  | some c => x c s

/-- Changes the state of a controller. -/
def changeFlow {ε : Type} (id : ControllerId) (f : FlowControl → FlowControl) :
    Action Node ε Unit :=
  withController id fun c => Action.modify fun s => s.setFlow id (f c.flow)

/-! ## Namespaces -/

/-- Adds a namespace. When its filter cannot be set, the namespace is taken away again. -/
def addNamespace (id : ControllerId) (root : Name) : Action Node FlowError Unit :=
  withController id fun c => do
    if c.flow.namespaces.contains root then return
    changeFlow id (·.addNamespace root)
    match ← Action.attempt (register c.face root c.listener) with
    | .ok _ => return
    | .error e => do
      changeFlow id (·.removeNamespace root)
      Action.fail (.face e)

/-- Takes a namespace away, and then its filter. -/
def removeNamespace (id : ControllerId) (root : Name) : Action Node FlowError Unit :=
  withController id fun c => do
    if !c.flow.namespaces.contains root then return
    changeFlow id (·.removeNamespace root)
    Action.mapError FlowError.face (unregister c.face root c.listener)

/-- Ends a controller. Its filters are taken away as far as the network allows. -/
def closeController {ε : Type} (id : ControllerId) : Action Node ε Unit :=
  withController id fun c => do
    c.flow.namespaces.toList.forM fun root => do
      discard (Action.attempt (unregister c.face root c.listener))
    Action.modify fun s => { s with controllers := s.controllers.erase id }

/-! ## Objects -/

/-- Puts an object into a controller. If it answers a held interest, it goes out at once. -/
def publish (id : ControllerId) (o : ContentObject) : Action Node FlowError Unit := do
  Action.ofExcept (o.validate.mapError FlowError.codec)
  withController id fun c => do
    if !c.flow.covers o.name then Action.fail (.outsideNamespace o.name)
    match c.flow.accept o with
    | (none, flow) => Action.modify (·.setFlow id flow)
    | (some _, flow) => do
      Action.modify (·.setFlow id flow)
      Action.mapError FlowError.face (put c.face o)

/-- Puts objects into a controller in order, up to the first that fails. -/
def publishAll (id : ControllerId) (objects : List ContentObject) : Action Node FlowError Unit :=
  objects.forM (publish id)

end Node

end NamedContent
