import NamedContent.Proofs.Action
import NamedContent.Proofs.Node.Parts

/-! # Nodes that go on alike

Responding, waiting and getting look at the network, the controllers, the gets in the background,
the time, and which faces are cancelled. A relation between nodes that have all of these in common,
and that the same change of either kind on both sides keeps, is kept by them. What else tells the
nodes apart does not matter: it is neither asked for nor touched.

* `Node.Twins`: such a relation
* `Node.Twins.settle`, `Node.Twins.pass`: responding and waiting keep it
* `Node.Twins.fetch`: so do gets, which find the same on both sides -/

namespace NamedContent.Node

/-- Whether a relation between nodes is one that responding, waiting and getting do not see
through: related nodes have in common what is looked at, and the same change keeps them related. -/
class Twins (R : Node → Node → Prop) : Prop where
  /-- The networks are the same. -/
  network {s t : Node} : R s t → s.network = t.network
  /-- The controllers have the same queues, in the same order. -/
  queues {s t : Node} : R s t → s.queues = t.queues
  /-- The controllers are the same. -/
  controllers {s t : Node} : R s t → ∀ id, s.controller? id = t.controller? id
  /-- The same faces are cancelled. -/
  cancelled {s t : Node} : R s t → ∀ id, (s.face id).cancelled = (t.face id).cancelled
  /-- The gets in the background are the same. -/
  gets {s t : Node} : R s t → s.gets = t.gets
  /-- The same time has passed. -/
  time {s t : Node} : R s t → s.time = t.time
  /-- A controller of both may change. -/
  setFlow {s t : Node} (h : R s t) (id : ControllerId) (flow : FlowControl) :
    R (s.setFlow id flow) (t.setFlow id flow)
  /-- The network, the gets in the background and the time of both may become others. -/
  update {s t : Node} (h : R s t) (network : Network) (gets : Table GetId BackgroundGet)
    (time : Nat) : R { s with network, gets, time } { t with network, gets, time }

namespace Twins

variable {R : Node → Node → Prop} [Twins R] {s t : Node}

/-- The network of both may become another. -/
theorem setNetwork (h : R s t) (n : Network) :
    R { s with network := n } { t with network := n } := by
  simpa only [gets h, time h] using update h n t.gets t.time

/-! ## Responding -/

/-- An object goes out through a face of both. -/
theorem emit (h : R s t) (id : OwnerId) (o : ContentObject) : R (s.emit id o) (t.emit id o) := by
  rw [Node.emit, Node.emit, cancelled h, network h]
  split
  · exact h
  · exact setNetwork h _

/-- A controller of both handles an interest. -/
theorem respond (h : R s t) (id : ControllerId) (i : Interest) :
    R (Node.respond id s i) (Node.respond id t i) := by
  rw [Node.respond, Node.respond, controllers h]
  cases t.controller? id with
  | none => exact h
  | some c =>
    cases hreceive : c.flow.receive i with
    | mk found flow =>
      simp only [hreceive]
      cases found with
      | none => exact setFlow h id flow
      | some o => exact emit (setFlow h id flow) c.face o

/-- **All controllers of both respond.** -/
theorem settle (h : R s t) : R s.settle t.settle := by
  rw [settle_eq, settle_eq, queues h]
  -- both handle the same queues, and the same interests wait in each of them
  refine List.foldl_rel h fun q _ s t h => ?_
  rw [drainQueue, drainQueue, network h]
  exact List.foldl_rel (setNetwork h _) fun i _ s t h => respond h q.1 i

/-! ## Waiting -/

/-- A get in the background of both takes its result or gives up. -/
theorem attend (h : R s t) (entry : GetId × BackgroundGet) :
    R (s.attend entry) (t.attend entry) := by
  obtain ⟨id, get⟩ := entry
  cases get with
  | ended result => exact h
  | waiting n deadline =>
    rw [Node.attend, Node.attend]
    simp only [network h, time h, gets h]
    split
    · exact update h ..
    · split
      · exact h
      · exact update h ..

/-- Time passes for both. -/
theorem pass (h : R s t) (milliseconds : Nat) : R (s.pass milliseconds) (t.pass milliseconds) := by
  rw [Node.pass, Node.pass, attendAll, attendAll, gets h, time h, network h]
  exact List.foldl_rel (update h ..) fun entry _ s t h => attend h entry

/-! ## Getting -/

/-- What an action on the network returns depends on the network alone. -/
theorem onNetwork {ε α : Type} (x : Action Network ε α) : (Node.onNetwork x).Respects R :=
  (Action.Respects.of_eq x).focus (fun _ _ h => network h) fun _ _ _ _ h hn => hn ▸ setNetwork h _

/-- A get waits for its result. -/
theorem await (id : Nat) (timeout : Option Nat) : (Node.await id timeout).Respects R := by
  intro s t h
  rw [Node.await, Node.await, network h]
  rcases t.network.wake id with ⟨_ | result, n⟩
  · exact onNetwork _ _ _ (pass h _)
  · exact ⟨rfl, setNetwork h n⟩

/-- **A get from beginning to end** finds the same on both sides. -/
theorem fetch (i : Interest) (timeout : Option Nat) : (Node.fetch i timeout).Respects R := by
  refine (onNetwork _).bind fun start => ?_
  cases start with
  | found o => exact .pure _
  | absent => exact .pure _
  | waiting id => exact Action.Respects.bind (.modify fun _ _ => settle) fun _ => await id timeout

end Twins

end NamedContent.Node
