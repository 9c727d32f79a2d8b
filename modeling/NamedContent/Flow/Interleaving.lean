import NamedContent.Flow.Controller
import NamedContent.Forwarder.Steps

/-! # A flow controller among other applications

A flow controller works at the forwarder at the same time as others: its responder handles the
interests in its queue, and objects are put into it. Choosing an object and handing it to the
forwarder are two steps, between which the others may take theirs. A call of the controller may
fail without reaching the forwarder.

* `LiveController`: a network, a flow controller on it, and the objects chosen but not yet out
* `LiveController.Step`: a step of the controller or of another application
* `LiveController.take`, `LiveController.run`: the state after a step and after a run
-/

namespace NamedContent

/-- A flow controller at work on a network. -/
structure LiveController where
  /-- The forwarder with its listeners. -/
  network : Network
  /-- The handle under which the controller calls the forwarder. -/
  owner : OwnerId
  /-- The queue into which interests come. -/
  listener : ListenerId
  /-- What the controller keeps. -/
  flow : FlowControl
  /-- The objects chosen to be let out that are still on their way. -/
  inFlight : List ContentObject

namespace LiveController

/-- A step of the controller or of another application. -/
inductive Step where
  /-- Another application takes a step at the forwarder. -/
  | network (step : NetworkStep)
  /-- The responder handles the first interest in the queue. -/
  | handle
  /-- An object is put into the controller. -/
  | accept (object : ContentObject)
  /-- The object on its way at a position is handed to the forwarder, or the call fails. -/
  | emit (position : Nat) (reaches : Bool)
  /-- A namespace is added, or its call fails. -/
  | addNamespace (root : Name) (reaches : Bool)
  /-- A namespace is taken away; its call may fail. -/
  | removeNamespace (root : Name) (reaches : Bool)

/-- A controller at work on a network without anything on its way. -/
def start (network : Network) (owner : OwnerId) (listener : ListenerId) (limits : FlowLimits) :
    LiveController :=
  ⟨network, owner, listener, .new limits, []⟩

/-- The filter for a namespace of the controller. -/
def filter (c : LiveController) (root : Name) : InterestFilter := ⟨c.owner, root, c.listener⟩

/-- The responder handles the first interest in the queue. -/
def handle (c : LiveController) : LiveController :=
  match c.network.interests.next c.listener with
  | (none, _) => c
  | (some i, interests) =>
    match c.flow.receive i with
    | (found, flow) =>
      { c with
        network := { c.network with interests }
        flow
        inFlight := c.inFlight ++ found.toList }

/-- An object is put into the controller, which refuses one that breaks a rule or lies in no
namespace. -/
def accept (c : LiveController) (o : ContentObject) : LiveController :=
  if o.Valid ∧ c.flow.covers o.name then
    match c.flow.accept o with
    | (none, flow) => { c with flow }
    | (some _, flow) => { c with flow, inFlight := c.inFlight ++ [o] }
  else c

/-- The object on its way at a position is handed to the forwarder; a call that fails loses it. -/
def emit (c : LiveController) (position : Nat) (reaches : Bool) : LiveController :=
  match c.inFlight[position]? with
  | none => c
  | some o =>
    let c := { c with inFlight := c.inFlight.eraseIdx position }
    if reaches then { c with network := (Network.put o c.network).2 } else c

/-- A namespace is added. When the call fails, nothing changes. -/
def addNamespace (c : LiveController) (root : Name) (reaches : Bool) : LiveController :=
  if c.flow.namespaces.contains root ∨ !reaches then c
  else
    match Network.setFilter (c.filter root) c.network with
    | (.ok _, network) => { c with network, flow := c.flow.addNamespace root }
    | (.error _, _) => c

/-- A namespace is taken away. When the call fails, its filter stays. -/
def removeNamespace (c : LiveController) (root : Name) (reaches : Bool) : LiveController :=
  if c.flow.namespaces.contains root then
    let c := { c with flow := c.flow.removeNamespace root }
    if reaches then
      { c with network := (Network.cancelFilter (c.filter root) c.network).2 }
    else c
  else c

/-- The state after a step. -/
def take (c : LiveController) : Step → LiveController
  | .network step => { c with network := (c.network.take step).2 }
  | .handle => c.handle
  | .accept o => c.accept o
  | .emit position reaches => c.emit position reaches
  | .addNamespace root reaches => c.addNamespace root reaches
  | .removeNamespace root reaches => c.removeNamespace root reaches

/-- The state after the steps of a run. -/
def run (steps : List Step) (c : LiveController) : LiveController := steps.foldl take c

/-- No steps change nothing. -/
@[simp] theorem run_nil (c : LiveController) : run [] c = c := rfl

/-- The first step is taken first. -/
@[simp] theorem run_cons (step : Step) (rest : List Step) (c : LiveController) :
    run (step :: rest) c = run rest (c.take step) := rfl

/-- A run goes on with more steps from where it ends. -/
theorem run_append (first rest : List Step) (c : LiveController) :
    run (first ++ rest) c = run rest (run first c) :=
  List.foldl_append

end LiveController

end NamedContent
