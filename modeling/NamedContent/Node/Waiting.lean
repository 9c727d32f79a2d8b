import NamedContent.Node.Basic

/-! # Waiting

An application that waits lets time pass, and nothing else comes of it: the flow controllers have
answered before, and other applications do nothing meanwhile. What happens are the ends of gets in
the background, which take their results and give up at their deadlines.

* `Node.pass`: time passes
* `Node.fetch`: a get from beginning to end
* `Node.startGet`, `Node.joinGet`: a get in the background
* `Node.nextObject`: the next object for a listener
-/

namespace NamedContent.Node

/-! ## Gets in the background -/

/-- A get in the background takes its result if there is one, and gives up once its deadline is
there. -/
def attend (s : Node) (entry : GetId × BackgroundGet) : Node :=
  match entry.2 with
  | .ended _ => s
  | .waiting id deadline =>
    if deadline.any (· ≤ s.time) then
      match Network.expire id s.network with
      | (result, network) => { s with network, gets := s.gets.insert entry.1 (.ended result) }
    else
      match s.network.wake id with
      | (none, _) => s
      | (some result, network) =>
        { s with network, gets := s.gets.insert entry.1 (.ended (result.map some)) }

/-- Every get in the background takes its result or gives up, if it can. -/
def attendAll (s : Node) : Node := s.gets.foldl attend s

/-- Some milliseconds pass. -/
def pass (s : Node) (milliseconds : Nat) : Node :=
  attendAll { s with time := s.time + milliseconds }

/-- A get that waits under a number takes its result, or waits in vain for it. -/
def await (id : Nat) (timeout : Option Nat) :
    Action Node TransportError (Option ContentObject) := fun s =>
  match s.network.wake id with
  | (some result, network) => (result.map some, { s with network })
  | (none, _) => onNetwork (Network.expire id) (s.pass (timeout.getD 0))

/-- A get from beginning to end. Without an answer from the store or a controller it gives up. -/
def fetch (i : Interest) (timeout : Option Nat) :
    Action Node TransportError (Option ContentObject) := do
  match ← onNetwork (Network.beginGet i (timeout != some 0)) with
  | .found o => return some o
  | .absent => return none
  | .waiting id => do
    Action.modify settle
    await id timeout

/-- Starts a get that goes on in the background. -/
def startGet {ε : Type} (i : Interest) (timeout : Option Nat) : Action Node ε GetId := do
  let start ← Action.attempt (onNetwork (Network.beginGet i (timeout != some 0)))
  fun s =>
    let get : BackgroundGet := match start with
      | .ok (.found o) => .ended (.ok (some o))
      | .ok .absent => .ended (.ok none)
      | .ok (.waiting id) => .waiting id (timeout.map (s.time + ·))
      | .error e => .ended (.error e)
    match s.fresh with
    | (n, s) => (.ok ⟨n⟩, { s with gets := s.gets.insert ⟨n⟩ get })

/-- Ends a get in the background. One that has no result yet is waited for up to its deadline. -/
def joinGet (id : GetId) : Action Node TransportError (Option ContentObject) := fun s =>
  let rest := { s with gets := s.gets.erase id }
  match s.gets.lookup id with
  | none => (.ok none, s)
  | some (.ended result) => (result, rest)
  | some (.waiting n deadline) => await n (deadline.map (· - s.time)) rest

/-! ## Listeners -/

/-- A listener takes its first object. Without one it waits in vain. -/
def nextObject {ε : Type} (l : ListenerId) (timeout : Nat) :
    Action Node ε (Option ContentObject) := do
  match ← onNetwork (Network.takeObject l) with
  | some o => return some o
  | none => do
    Action.modify (pass · timeout)
    return none

end NamedContent.Node
