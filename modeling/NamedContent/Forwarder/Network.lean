import NamedContent.Action
import NamedContent.Forwarder.Basic

/-! # The forwarder with its listeners

The network is the forwarder together with what its listeners have not taken yet. Interests and
objects wait in separate mail.

* `Mail`: queued items by listener
* `Network`: the forwarder and the mail
* `Network.put`, `Network.beginGet`, `Network.express`: the forwarder's steps with their deliveries
* `Network.takeInterests`, `Network.takeObjects`: what listeners take
-/

namespace NamedContent

/-- Queued items with their listeners, in the order of their arrival. -/
abbrev Mail (α : Type) := List (ListenerId × α)

namespace Mail

variable {α : Type}

/-- The mail with an item added for a listener. -/
def deliver (m : Mail α) (l : ListenerId) (item : α) : Mail α := m ++ [(l, item)]

/-- What waits for a listener, in order. -/
def waiting (m : Mail α) (l : ListenerId) : List α := (m.filter (·.1 = l)).map (·.2)

/-- The mail after a listener has taken everything. -/
def drained (m : Mail α) (l : ListenerId) : Mail α := m.filter (·.1 ≠ l)

/-- The first item for a listener, and the mail without it. -/
def next (m : Mail α) (l : ListenerId) : Option α × Mail α :=
  match m with
  | [] => (none, [])
  | (k, item) :: rest =>
    if k = l then (some item, rest)
    else match next rest l with
      | (found, rest) => (found, (k, item) :: rest)

/-- An item that is delivered is the last to wait for its listener. -/
@[simp] theorem waiting_deliver_self (m : Mail α) (l : ListenerId) (item : α) :
    (m.deliver l item).waiting l = m.waiting l ++ [item] := by
  simp [deliver, waiting]

/-- What waits for another listener is as before. -/
theorem waiting_deliver_of_ne (m : Mail α) {k l : ListenerId} (h : k ≠ l) (item : α) :
    (m.deliver k item).waiting l = m.waiting l := by
  simp [deliver, waiting, h]

/-- Nothing waits for a listener that has taken everything. -/
@[simp] theorem waiting_drained (m : Mail α) (l : ListenerId) : (m.drained l).waiting l = [] := by
  simp [drained, waiting, List.filter_filter]

end Mail

/-- The forwarder and the mail of its listeners. -/
structure Network where
  /-- The forwarder. -/
  forwarder : Forwarder
  /-- Interests on their way to publishers. -/
  interests : Mail Interest
  /-- Objects on their way to subscribers. -/
  objects : Mail ContentObject

namespace Network

/-- A network with an open forwarder and no mail. -/
def new (capacity : Nat) : Network := ⟨.new capacity, [], []⟩

/-- The network with one delivery made. -/
def post (n : Network) : Delivery → Network
  | .interest l i => { n with interests := n.interests.deliver l i }
  | .object l o => { n with objects := n.objects.deliver l o }

/-- The network with a new state of the forwarder and the deliveries of its last step. -/
def after (n : Network) (f : Forwarder) (deliveries : List Delivery) : Network :=
  deliveries.foldl post { n with forwarder := f }

/-- An object arrives. -/
def put (o : ContentObject) : Action Network TransportError Unit := fun n =>
  match n.forwarder.put o with
  | .ok (f, deliveries) => (.ok (), n.after f deliveries)
  | .error e => (.error e, n)

/-- A get starts. -/
def beginGet (i : Interest) (wait : Bool) : Action Network TransportError GetStart := fun n =>
  match n.forwarder.beginGet i wait with
  | .ok (start, f, deliveries) => (.ok start, n.after f deliveries)
  | .error e => (.error e, n)

/-- A waiting get looks for its result. -/
def wake (id : Nat) (n : Network) : Option (Except TransportError ContentObject) × Network :=
  match n.forwarder.wake id with
  | (result, f) => (result, { n with forwarder := f })

/-- The deadline of a waiting get passes. -/
def expire (id : Nat) : Action Network TransportError (Option ContentObject) := fun n =>
  match n.forwarder.expire id with
  | (result, f) => (result, { n with forwarder := f })

/-- The forwarder takes a step that delivers nothing. -/
def step (change : Forwarder → Except TransportError Forwarder) :
    Action Network TransportError Unit := fun n =>
  match change n.forwarder with
  | .ok f => (.ok (), { n with forwarder := f })
  | .error e => (.error e, n)

/-- Sets a filter. -/
def setFilter (g : InterestFilter) : Action Network TransportError Unit :=
  step (Forwarder.setFilter g)

/-- Takes a filter away. -/
def cancelFilter (g : InterestFilter) : Action Network TransportError Unit :=
  step (Forwarder.cancelFilter g)

/-- Expresses a standing interest. -/
def express (s : StandingInterest) : Action Network TransportError Unit := fun n =>
  match n.forwarder.express s with
  | .ok (f, deliveries) => (.ok (), n.after f deliveries)
  | .error e => (.error e, n)

/-- Takes a standing interest back. -/
def cancelInterest (s : StandingInterest) : Action Network TransportError Unit :=
  step (Forwarder.cancelInterest s)

/-! ## Listeners -/

/-- A listener takes all its interests. -/
def takeInterests {ε : Type} (l : ListenerId) : Action Network ε (List Interest) := fun n =>
  (.ok (n.interests.waiting l), { n with interests := n.interests.drained l })

/-- A listener takes its first interest. -/
def takeInterest {ε : Type} (l : ListenerId) : Action Network ε (Option Interest) := fun n =>
  match n.interests.next l with
  | (i, interests) => (.ok i, { n with interests })

/-- A listener takes all its objects. -/
def takeObjects {ε : Type} (l : ListenerId) : Action Network ε (List ContentObject) := fun n =>
  (.ok (n.objects.waiting l), { n with objects := n.objects.drained l })

/-- A listener takes its first object. -/
def takeObject {ε : Type} (l : ListenerId) : Action Network ε (Option ContentObject) := fun n =>
  match n.objects.next l with
  | (o, objects) => (.ok o, { n with objects })

end Network

end NamedContent
