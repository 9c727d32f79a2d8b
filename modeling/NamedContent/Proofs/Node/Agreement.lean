import NamedContent.Node.Client
import NamedContent.Proofs.Face.Calls
import NamedContent.Proofs.Node.Twins
import NamedContent.Proofs.Stream.Respecting

/-! # Nodes that readers cannot tell apart

Reading depends on the network, on what the controllers keep, and on what befalls the calls. It does
not depend on the times minted or the number of calls made before: two nodes that differ in those
only give a reader the same results ever after.

* `Node.Agrees`: the same network and controllers, `Node.Alike`: the same calls besides
* `Node.get_respects`, `Node.addNamespace_respects`: the calls of a reader keep nodes alike -/

namespace NamedContent

/-- Whether two nodes have the same network, controllers, clock and gets in the background. -/
structure Node.Agrees (s t : Node) : Prop where
  network : s.network = t.network
  queues : s.queues = t.queues
  controllers : ∀ id, s.controller? id = t.controller? id
  clock : s.clock = t.clock
  gets : s.gets = t.gets
  time : s.time = t.time

/-- Whether two nodes agree, and the same befalls their calls. -/
structure Node.Alike (s t : Node) : Prop extends s.Agrees t where
  faces : ∀ id, s.face id = t.face id
  schedule : s.schedule = t.schedule

namespace Node

variable {s t u : Node}

namespace Agrees

/-- A node agrees with itself. -/
theorem refl (s : Node) : s.Agrees s := ⟨rfl, rfl, fun _ => rfl, rfl, rfl, rfl⟩

/-- A node agrees with those that a node it agrees with agrees with. -/
theorem trans (h : s.Agrees t) (h' : t.Agrees u) : s.Agrees u where
  network := h.network.trans h'.network
  queues := h.queues.trans h'.queues
  controllers id := (h.controllers id).trans (h'.controllers id)
  clock := h.clock.trans h'.clock
  gets := h.gets.trans h'.gets
  time := h.time.trans h'.time

/-- The network of both is another. -/
theorem setNetwork (h : s.Agrees t) (n : Network) :
    ({ s with network := n } : Node).Agrees { t with network := n } :=
  { h with network := rfl }

/-- A controller of both changes. -/
theorem setFlow (h : s.Agrees t) (id : ControllerId) (flow : FlowControl) :
    (s.setFlow id flow).Agrees (t.setFlow id flow) where
  network := h.network
  queues := by rw [queues_setFlow, queues_setFlow, h.queues]
  controllers other := by rw [controller?_setFlow, controller?_setFlow, h.controllers]
  clock := h.clock
  gets := h.gets
  time := h.time

/-- Nodes that agree are alike when the same befalls their calls from now on. -/
theorem alike (h : s.Agrees t) (faces : Table OwnerId Face) (schedule : List Attempt) :
    ({ s with faces, schedule } : Node).Alike { t with faces, schedule } where
  toAgrees := { h with }
  faces _ := rfl
  schedule := rfl

end Agrees

namespace Alike

/-- A face of both is cancelled. -/
theorem cancelFace (h : s.Alike t) (id : OwnerId) : (s.cancelFace id).Alike (t.cancelFace id) := by
  refine { h with faces := fun other => ?_ }
  show ((s.faces.insert id _).lookup other).getD {} = ((t.faces.insert id _).lookup other).getD {}
  by_cases hid : other = id
  · subst hid
    rw [Table.lookup_insert_self, Table.lookup_insert_self, h.faces other]
  · rw [Table.lookup_insert_of_ne _ hid, Table.lookup_insert_of_ne _ hid]
    exact h.faces other

end Alike

/-- What becomes of nodes that are alike is the same. -/
instance : Twins Alike where
  network h := h.network
  queues h := h.queues
  controllers h := h.controllers
  cancelled h id := congrArg Face.cancelled (h.faces id)
  gets h := h.gets
  time h := h.time
  setFlow h id flow := { h with toAgrees := h.toAgrees.setFlow id flow }
  update h _ _ _ := { h with network := rfl, gets := rfl, time := rfl }

/-! ## Calls -/

/-- A call through a face, whatever befalls it. -/
theorem call_respects {α : Type} {x : Nat → Action Node TransportError α}
    (hx : ∀ elapsed, (x elapsed).Respects Alike) (id : OwnerId) (operation : Operation) :
    (call id operation x).Respects Alike := by
  intro s t h
  obtain ⟨hresult, hstate, hcancelled, hschedule⟩ := retry_matches hx (s.face id).retry operation
    s.schedule 1 0 (s.face id).cancelled h
  rw [call, call]
  -- the policy, what befalls the attempts and the cancellation are the same for both
  simp only [← h.faces, ← h.schedule]
  refine ⟨hresult, ?_⟩
  rw [hcancelled, hschedule]
  split
  · exact { hstate.cancelFace id with schedule := rfl }
  · exact { hstate with schedule := rfl }

/-- **A get through a face.** -/
theorem get_respects (face : OwnerId) (i : Interest) (timeout : Option Nat) :
    (get face i timeout).Respects Alike :=
  call_respects (fun _ => Twins.fetch i _) face .get

/-- What is done with a controller. -/
theorem withController_respects {ε : Type} {x : Controller → Action Node ε Unit}
    (hx : ∀ c, (x c).Respects Alike) (id : ControllerId) :
    (withController id x).Respects Alike := by
  intro s t h
  rw [withController, withController, h.controllers]
  cases t.controller? id with
  | none => exact ⟨rfl, h⟩
  | some c => exact hx c s t h

/-- A change of a controller. -/
theorem changeFlow_respects {ε : Type} (id : ControllerId) (f : FlowControl → FlowControl) :
    (changeFlow (ε := ε) id f).Respects Alike :=
  withController_respects (fun c => .modify fun _ _ h => Twins.setFlow h id (f c.flow)) id

/-- **A namespace is added**, or taken away again when its filter cannot be set. -/
theorem addNamespace_respects (id : ControllerId) (root : Name) :
    (addNamespace id root).Respects Alike := by
  refine withController_respects (fun c => ?_) id
  split
  · exact .pure _
  · refine (changeFlow_respects id _).bind fun _ => ?_
    refine Action.Respects.bind (.attempt (call_respects (fun _ => Twins.onNetwork _) _ _))
      fun result => ?_
    cases result with
    | ok _ => exact .pure _
    | error e => exact (changeFlow_respects id _).bind fun _ => .fail _

end Node

/-- **A client's reader** cannot tell nodes apart that are alike. -/
theorem Client.read_respects (client : Client) (name : Name) :
    (client.reader.read name).Respects Node.Alike :=
  Stream.Reader.read_respects (fun i _ => Node.get_respects client.face i _) name

end NamedContent
