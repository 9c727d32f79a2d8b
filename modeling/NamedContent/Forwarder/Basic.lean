import NamedContent.Forwarder.Store

/-! # The forwarder

The forwarder matches objects with interests. It keeps a content store, the gets that wait for an
object, standing interests whose listeners get every matching object, and the filters through which
publishers learn of interests. An object is admitted only when it answers something.

Every operation is one indivisible step. What it hands to listeners is returned as a list of
deliveries.

* `Forwarder`: the state
* `Forwarder.put`: an object arrives
* `Forwarder.beginGet`, `Forwarder.wake`, `Forwarder.expire`: the three steps of a get
* `Forwarder.setFilter`, `Forwarder.express`: registrations, with their cancellation
* `TransportError`: why an operation fails
-/

namespace NamedContent

/-- The identity of an application's handle on the forwarder, part of every registration. -/
structure OwnerId where
  /-- The number of the handle. -/
  id : Nat
  deriving DecidableEq, Inhabited, Repr

/-- The identity of a delivery queue. -/
structure ListenerId where
  /-- The number of the queue. -/
  id : Nat
  deriving DecidableEq, Inhabited, Repr

/-- Why an operation on the network fails. -/
inductive TransportError where
  /-- The call was cut short and may be made again. -/
  | interrupted
  /-- The forwarder is shut down. -/
  | closed
  /-- The object or interest is refused. -/
  | codec (cause : FormatError)
  /-- The connection to the forwarder failed. -/
  | io (text : String)
  deriving DecidableEq, Repr

/-- The wording of an error. -/
def TransportError.message : TransportError → String
  | .interrupted => "operation interrupted"
  | .closed => "network access closed"
  | .codec cause => "codec error: " ++ cause.message
  | .io text => "i/o error: " ++ text

/-! ## State -/

/-- A get that waits for an object. -/
structure PendingGet where
  /-- The number of the get. -/
  id : Nat
  /-- What it asks for. -/
  interest : Interest
  /-- The object that answers it, until it is taken. -/
  answer : Option ContentObject
  deriving DecidableEq

/-- Whether a get waits for the object and has no answer yet. -/
def PendingGet.wants (p : PendingGet) (o : ContentObject) : Bool :=
  p.answer.isNone && p.interest.accepts o

/-- A standing interest. -/
structure StandingInterest where
  /-- Who expressed it. -/
  owner : OwnerId
  /-- What it asks for. -/
  interest : Interest
  /-- Where matching objects go. -/
  listener : ListenerId
  deriving DecidableEq

/-- An interest filter. -/
structure InterestFilter where
  /-- Who set it. -/
  owner : OwnerId
  /-- The name that leads the names of the interests it passes on. -/
  root : Name
  /-- Where those interests go. -/
  listener : ListenerId
  deriving DecidableEq

/-- The state of the forwarder. -/
structure Forwarder where
  /-- Whether it is shut down. -/
  closed : Bool
  /-- The content store. -/
  store : ContentStore
  /-- The gets that wait. -/
  pending : List PendingGet
  /-- The standing interests. -/
  standing : List StandingInterest
  /-- The interest filters. -/
  filters : List InterestFilter
  /-- The number of the next get that waits. -/
  nextId : Nat
  deriving DecidableEq

/-- What a step hands to a listener. -/
inductive Delivery where
  /-- An interest for a publisher. -/
  | interest (listener : ListenerId) (interest : Interest)
  /-- An object for a subscriber. -/
  | object (listener : ListenerId) (object : ContentObject)
  deriving DecidableEq

/-- How a get starts. -/
inductive GetStart where
  /-- The store has an object. -/
  | found (object : ContentObject)
  /-- The store has none, and the get does not wait. -/
  | absent
  /-- The get waits under a number. -/
  | waiting (id : Nat)
  deriving DecidableEq

namespace Forwarder

/-- An open forwarder without registrations. -/
def new (capacity : Nat) : Forwarder := ⟨false, .empty capacity, [], [], [], 0⟩

/-- Fails when the forwarder is shut down. -/
def ensureOpen (f : Forwarder) : Except TransportError Unit :=
  if f.closed then .error .closed else .ok ()

/-- Shuts the forwarder down. -/
def close (f : Forwarder) : Forwarder := { f with closed := true }

/-! ## Objects -/

/-- The deliveries of an object to the standing interests that it matches. -/
def deliveriesOf (f : Forwarder) (o : ContentObject) : List Delivery :=
  (f.standing.filter fun s => s.interest.accepts o).map fun s => .object s.listener o

/-- An object arrives. It answers every waiting get that it matches and has no answer yet, goes to
the listener of every standing interest that it matches, and is stored if there was any of them. -/
def put (o : ContentObject) (f : Forwarder) :
    Except TransportError (Forwarder × List Delivery) := do
  f.ensureOpen
  let digest ← o.digest.mapError .codec
  let deliveries := f.deliveriesOf o
  if deliveries.isEmpty && !f.pending.any (·.wants o) then return (f, [])
  return ({ f with
    pending := f.pending.map fun p => if p.wants o then { p with answer := some o } else p
    store := f.store.insert ⟨⟨o.name, digest⟩, o⟩ }, deliveries)

/-! ## Gets -/

/-- The deliveries of an interest to the filters whose name leads the interest's. -/
def dispatch (f : Forwarder) (i : Interest) : List Delivery :=
  (f.filters.filter fun g => g.root.isPrefixOf i.name).map fun g => .interest g.listener i

/-- A get starts: it is answered from the store, or waits while the interest goes to the filters.
One that may not wait is neither registered nor passed on. -/
def beginGet (i : Interest) (wait : Bool) (f : Forwarder) :
    Except TransportError (GetStart × Forwarder × List Delivery) := do
  f.ensureOpen
  i.validate.mapError .codec
  match f.store.lookup i with
  | (some o, store) => return (.found o, { f with store }, [])
  | (none, _) =>
    if !wait then return (.absent, f, [])
    return (.waiting f.nextId,
      { f with pending := f.pending ++ [⟨f.nextId, i, none⟩], nextId := f.nextId + 1 },
      f.dispatch i)

/-- The forwarder without a waiting get. -/
def forget (id : Nat) (f : Forwarder) : Forwarder :=
  { f with pending := f.pending.filter (·.id ≠ id) }

/-- The answer of a waiting get. -/
def answer? (id : Nat) (f : Forwarder) : Option ContentObject :=
  (f.pending.find? (·.id = id)).bind (·.answer)

/-- A waiting get looks for its result: its answer if there is one, else the error of a forwarder
that is shut down. With a result it waits no longer. -/
def wake (id : Nat) (f : Forwarder) :
    Option (Except TransportError ContentObject) × Forwarder :=
  match f.answer? id with
  | some o => (some (.ok o), f.forget id)
  | none => if f.closed then (some (.error .closed), f.forget id) else (none, f)

/-- The deadline of a waiting get passes: it still takes a result that is there, and otherwise
gives up. -/
def expire (id : Nat) (f : Forwarder) :
    Except TransportError (Option ContentObject) × Forwarder :=
  match f.wake id with
  | (some (.ok o), f) => (.ok (some o), f)
  | (some (.error e), f) => (.error e, f)
  | (none, f) => (.ok none, f.forget id)

/-! ## Filters -/

/-- Sets a filter; one that is set already stays as it is. -/
def setFilter (g : InterestFilter) (f : Forwarder) : Except TransportError Forwarder := do
  f.ensureOpen
  if g ∈ f.filters then return f
  return { f with filters := f.filters ++ [g] }

/-- Takes a filter away. -/
def cancelFilter (g : InterestFilter) (f : Forwarder) : Except TransportError Forwarder := do
  f.ensureOpen
  return { f with filters := f.filters.filter (· ≠ g) }

/-! ## Standing interests -/

/-- Expresses a standing interest; one that is expressed already stays as it is. A stored object
that matches goes to the listener at once, and the interest to the filters. -/
def express (s : StandingInterest) (f : Forwarder) :
    Except TransportError (Forwarder × List Delivery) := do
  f.ensureOpen
  s.interest.validate.mapError .codec
  if s ∈ f.standing then return (f, [])
  let (hit, store) := f.store.lookup s.interest
  return ({ f with standing := f.standing ++ [s], store },
    (hit.map fun o => Delivery.object s.listener o).toList ++ f.dispatch s.interest)

/-- Takes a standing interest back. -/
def cancelInterest (s : StandingInterest) (f : Forwarder) : Except TransportError Forwarder := do
  f.ensureOpen
  return { f with standing := f.standing.filter (· ≠ s) }

end Forwarder

end NamedContent
