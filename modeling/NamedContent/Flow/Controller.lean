import NamedContent.Forwarder.Basic
import NamedContent.OrderedSet

/-! # Flow control

A flow controller lets objects out only in answer to interests. It keeps the objects put under its
namespaces, answers interests from them, and holds the interests that nothing answers yet for later
objects. The oldest objects and the oldest held interests give way to new ones.

* `FlowControl`: the state, with `FlowLimits`
* `FlowControl.receive`: an interest arrives
* `FlowControl.accept`: an object is put
-/

namespace NamedContent

/-- How much a flow controller keeps. -/
structure FlowLimits where
  /-- The number of objects. -/
  bufferCapacity : Nat := 4096
  /-- The number of held interests. -/
  maxHeld : Nat := 1024
  deriving DecidableEq, Inhabited

/-- The state of a flow controller. -/
structure FlowControl where
  /-- How much it keeps. -/
  limits : FlowLimits
  /-- The names it may publish under. -/
  namespaces : OrderedSet Name
  /-- The objects by name. -/
  buffer : List (Name × ContentObject)
  /-- The names of the objects, the oldest first. -/
  arrivals : List Name
  /-- The interests that nothing has answered yet, the oldest first. -/
  held : List Interest

namespace FlowControl

/-- A controller without namespaces, objects and interests. -/
def new (limits : FlowLimits) : FlowControl := ⟨limits, .empty, [], [], []⟩

/-! ## Interests -/

/-- The list with an interest added behind; one in front gives way when the list is full. -/
def holdIn (limit : Nat) (held : List Interest) (i : Interest) : List Interest :=
  (if limit ≤ held.length then held.drop 1 else held) ++ [i]

/-- An interest arrives. The preferred object that answers it is to be let out; without one the
interest is held. -/
def receive (i : Interest) (c : FlowControl) : Option ContentObject × FlowControl :=
  match i.select (c.buffer.map (·.2)) with
  | some o => (some o, c)
  | none => (none, { c with held := holdIn c.limits.maxHeld c.held i })

/-! ## Objects -/

/-- Whether a name lies in one of the namespaces. -/
def covers (c : FlowControl) (name : Name) : Bool :=
  c.namespaces.toList.any fun root => root.isPrefixOf name

/-- The controller with an object in its buffer. One that replaces an object of its name takes over
that object's age. -/
def keep (o : ContentObject) (c : FlowControl) : FlowControl :=
  if c.buffer.any (·.1 = o.name) then
    { c with buffer := c.buffer.map fun (n, p) => if n = o.name then (n, o) else (n, p) }
  else { c with buffer := c.buffer ++ [(o.name, o)], arrivals := c.arrivals ++ [o.name] }

/-- The controller without its oldest objects beyond its capacity. -/
def evict (c : FlowControl) : FlowControl :=
  let gone := c.arrivals.take (c.arrivals.length - c.limits.bufferCapacity)
  { c with
    buffer := c.buffer.filter fun (n, _) => !gone.contains n
    arrivals := c.arrivals.drop (c.arrivals.length - c.limits.bufferCapacity) }

/-- An object is kept. The oldest held interest that it answers, if there is one, is used up, and
the object is to be let out for it. -/
def accept (o : ContentObject) (c : FlowControl) : Option Interest × FlowControl :=
  let c := (c.keep o).evict
  match c.held.find? (·.accepts o) with
  | none => (none, c)
  | some i => (some i, { c with held := c.held.erase i })

/-! ## Namespaces -/

/-- The controller with a namespace added. -/
def addNamespace (root : Name) (c : FlowControl) : FlowControl :=
  { c with namespaces := c.namespaces.insert root }

/-- The controller with a namespace taken away. -/
def removeNamespace (root : Name) (c : FlowControl) : FlowControl :=
  { c with namespaces := c.namespaces.erase root }

/-- The readable form for diagnostics. -/
def debugText (c : FlowControl) : String :=
  "FlowController \x7b namespaces: ["
    ++ String.intercalate ", " (c.namespaces.toList.map Name.debugText)
    ++ "], buffered: " ++ toString c.buffer.length ++ " \x7d"

end FlowControl

end NamedContent
