import Mathlib.Data.List.Nodup
import NamedContent.Proofs.Flow.Traces
import NamedContent.Proofs.Node.Changes
import NamedContent.Proofs.Node.Namespaces

/-! # The controllers of a node at work

The calls on a node are made one after the other, and all controllers respond in between. To one of
the controllers every call is a run of its own steps and of steps that others take, in one of the
orders that are possible. So what holds after every run of a controller holds in every node.

* `Node.live`: a controller of a node at work
* `Node.live_publish`, `Node.live_addNamespace`, `Node.live_removeNamespace`: calls on it
* `Node.drainQueue_eq`, `Node.follows_settle`: the controllers respond, turn after turn
* `NodeCall.live_run_openController`: all calls on a node from the one that opens a controller -/

namespace NamedContent

/-! ## Taking interests one by one -/

namespace Node

variable {s t : Node} {id : ControllerId} {c : Controller}

/-- A node whose mail holds other interests. -/
def setInterests (s : Node) (interests : Mail Interest) : Node :=
  { s with network := { s.network with interests } }

/-- Letting an object out does not touch the interests in the mail. -/
theorem emit_setInterests (s : Node) (interests : Mail Interest) (face : OwnerId)
    (o : ContentObject) :
    (s.setInterests interests).emit face o = (s.emit face o).setInterests interests := by
  have hface : (s.setInterests interests).face face = s.face face := rfl
  rw [emit, emit, hface]
  split
  · rfl
  · exact congrArg (fun network => { s with network }) (Network.put_setInterests o s.network _)

/-- Responding does not touch the interests in the mail. -/
theorem respond_setInterests (id : ControllerId) (s : Node) (interests : Mail Interest)
    (i : Interest) :
    respond id (s.setInterests interests) i = (respond id s i).setInterests interests := by
  have hsame : (s.setInterests interests).controller? id = s.controller? id := rfl
  rw [respond, respond, hsame]
  cases s.controller? id with
  | none => rfl
  | some c =>
    cases hreceive : c.flow.receive i with
    | mk found flow =>
      simp only [hreceive]
      cases found with
      | none => rfl
      | some o => exact emit_setInterests (s.setFlow id flow) interests c.face o

/-- A controller handles the first interest in a queue. -/
def turn (q : ControllerId × ListenerId) (s : Node) (i : Interest) : Node :=
  respond q.1 (s.setInterests (s.network.interests.next q.2).2) i

/-- **A controller handles its queue** in turns, one for each interest. -/
theorem drainQueue_eq (s : Node) (q : ControllerId × ListenerId) :
    s.drainQueue q = (s.network.interests.waiting q.2).foldl (turn q) s := by
  generalize hwaiting : s.network.interests.waiting q.2 = waiting
  induction waiting generalizing s with
  | nil =>
    rw [drainQueue, hwaiting, Mail.drained_eq_self hwaiting]
    rfl
  | cons i rest ih =>
    have hturn : turn q s i = (respond q.1 s i).setInterests (s.network.interests.next q.2).2 :=
      respond_setInterests ..
    have hrest : (turn q s i).network.interests.waiting q.2 = rest := by
      rw [hturn]
      exact (Mail.next_eq ..).2.trans (congrArg List.tail hwaiting)
    have hdrained : (turn q s i).network.interests.drained q.2
        = s.network.interests.drained q.2 := by
      rw [hturn]
      exact Mail.drained_next ..
    -- the first interest is handled before or after the others are taken out of the mail
    calc s.drainQueue q
        = rest.foldl (respond q.1)
            (respond q.1 (s.setInterests (s.network.interests.drained q.2)) i) := by
          rw [drainQueue, hwaiting]
          rfl
      _ = rest.foldl (respond q.1)
            ((turn q s i).setInterests (s.network.interests.drained q.2)) := by
          rw [respond_setInterests, hturn]
          rfl
      _ = (turn q s i).drainQueue q := by
          rw [drainQueue, hrest, hdrained]
          rfl
      _ = rest.foldl (turn q) (turn q s i) := ih _ hrest

/-! ## One controller among the others -/

/-- A controller of a node at work, with nothing on its way. -/
def live (s : Node) (id : ControllerId) : Option LiveController :=
  (s.controller? id).map fun c => ⟨s.network, c.face, c.listener, c.flow, []⟩

/-- Whether a controller of a node has come from how it was in another node by steps of a kind. -/
def Follows (P : LiveController.Step → Prop) (id : ControllerId) (s t : Node) : Prop :=
  ∃ steps : List LiveController.Step, (∀ step ∈ steps, P step)
    ∧ t.live id = (s.live id).map (LiveController.run steps)

/-- A controller at work is seen with its network. -/
theorem live_eq (hc : s.controller? id = some c) :
    s.live id = some ⟨s.network, c.face, c.listener, c.flow, []⟩ := by
  rw [live, hc]
  rfl

/-- Nodes that agree have the same controllers at work. -/
theorem Agrees.live (h : s.Agrees t) (id : ControllerId) : s.live id = t.live id := by
  rw [Node.live, Node.live, h.controllers, h.network]

/-- When the network changes, each controller sees the new one. -/
theorem live_setNetwork (s : Node) (network : Network) :
    ({ s with network } : Node).live id = (s.live id).map fun c => { c with network } := by
  rw [live, live, Option.map_map]
  rfl

/-- A step at the forwarder is a step of each controller. -/
theorem live_network (s : Node) (id : ControllerId) (step : NetworkStep) :
    (s.live id).map (fun c => { c with network := (s.network.take step).2 })
      = (s.live id).map (LiveController.run [.network step]) := by
  cases hc : s.controller? id with
  | none => simp [live, hc]
  | some c => simp [live_eq hc, LiveController.take]

/-- A controller that is changed is at work in its new state. -/
theorem live_setFlow (hc : s.controller? id = some c) (flow : FlowControl) (network : Network) :
    ({ s.setFlow id flow with network } : Node).live id
      = some ⟨network, c.face, c.listener, flow, []⟩ := by
  have hset : ({ s.setFlow id flow with network } : Node).controller? id
      = some { c with flow } := by
    refine (controller?_setFlow s id id flow).trans ?_
    rw [hc]
    simp
  exact live_eq hset

/-- A controller is at work as before when another one is changed. -/
theorem live_setFlow_of_ne {other : ControllerId} (h : id ≠ other) (s : Node)
    (flow : FlowControl) : (s.setFlow other flow).live id = s.live id := by
  have hset : (s.setFlow other flow).controller? id = s.controller? id := by
    rw [controller?_setFlow]
    cases s.controller? id <;> simp [h]
  rw [live, live, hset]
  rfl

namespace Follows

variable {P : LiveController.Step → Prop}

/-- A controller that stays as it is follows in no steps. -/
theorem of_live_eq (h : t.live id = s.live id) : Follows P id s t :=
  ⟨[], List.forall_mem_nil _, by rw [h]; cases s.live id <;> rfl⟩

/-- A controller follows from itself. -/
theorem refl (s : Node) : Follows P id s s := of_live_eq rfl

/-- Steps that follow other steps are taken after them. -/
theorem trans {u : Node} (h : Follows P id s t) (h' : Follows P id t u) : Follows P id s u := by
  obtain ⟨first, hfirst, hs⟩ := h
  obtain ⟨rest, hrest, ht⟩ := h'
  refine ⟨first ++ rest, List.forall_mem_append.2 ⟨hfirst, hrest⟩, ?_⟩
  rw [ht, hs, Option.map_map]
  exact congrArg (Option.map · _) (funext fun c => (LiveController.run_append first rest c).symm)

/-- A step of another application at the forwarder. -/
theorem network (step : NetworkStep) (hstep : P (.network step))
    (ht : t.live id = (s.live id).map fun c => { c with network := (s.network.take step).2 }) :
    Follows P id s t :=
  ⟨[.network step], by simpa using hstep, ht.trans (live_network ..)⟩

end Follows

/-! ## Calls on a controller -/

/-- An object that breaks a rule or lies in no namespace leaves a node as it was. -/
theorem publish_refused (hc : s.controller? id = some c) {o : ContentObject}
    (h : ¬ (o.Valid ∧ c.flow.covers o.name = true)) : (publish id o s).2 = s := by
  cases hvalid : o.validate with
  | error e => simp [publish, hvalid, mapError_error, Action.bind_run]
  | ok u =>
    have hcovers : c.flow.covers o.name = false :=
      Bool.eq_false_iff.2 fun hcovers => h ⟨(o.validate_eq_ok_iff).1 hvalid, hcovers⟩
    simp [publish, hvalid, hcovers, mapError_ok, Action.bind_run, withController, hc]

/-- Nothing is put into a controller that is not there. -/
theorem publish_of_none (hc : s.controller? id = none) (o : ContentObject) :
    (publish id o s).2 = s := by
  cases hvalid : o.validate <;>
    simp [publish, hvalid, mapError_ok, mapError_error, Action.bind_run, withController, hc]

/-- **Putting an object** into a controller is to take it and to let it out if it is chosen. -/
theorem live_publish (id : ControllerId) (o : ContentObject) (s : Node) :
    ∃ reaches, (publish id o s).2.live id
      = (s.live id).map (LiveController.run [.accept o, .emit 0 reaches]) := by
  cases hc : s.controller? id with
  | none =>
    refine ⟨true, ?_⟩
    rw [publish_of_none hc, live, hc]
    rfl
  | some c =>
    rw [live_eq hc]
    by_cases hadmits : o.Valid ∧ c.flow.covers o.name = true
    · cases haccept : c.flow.accept o with
      | mk used flow =>
        obtain ⟨-, hagrees⟩ | ⟨cause, -, -, hagrees⟩ :=
          publish_cases ((o.validate_eq_ok_iff).2 hadmits.1) hc hadmits.2
        · -- if nothing is chosen, there is nothing to let out
          refine ⟨true, ?_⟩
          rw [hagrees.live, released, hc]
          simp only [haccept]
          cases used with
          | none =>
            refine (live_setFlow hc flow s.network).trans ?_
            simp [LiveController.take, LiveController.accept, LiveController.emit, hadmits, haccept]
          | some i =>
            refine (live_setFlow hc flow _).trans ?_
            simp [LiveController.take, LiveController.accept, LiveController.emit, hadmits, haccept]
        · -- the call has failed: the object was chosen and is lost on its way
          refine ⟨false, ?_⟩
          rw [hagrees.live, retained, hc]
          refine (live_setFlow hc _ s.network).trans ?_
          cases used <;>
            simp [LiveController.take, LiveController.accept, LiveController.emit, hadmits, haccept]
    · refine ⟨true, ?_⟩
      rw [publish_refused hc hadmits, live_eq hc]
      simp [LiveController.take, LiveController.accept, LiveController.emit, hadmits]

/-- **Adding a namespace** is a step that reaches the forwarder or does not. -/
theorem live_addNamespace (id : ControllerId) (root : Name) (s : Node) :
    ∃ reaches, (addNamespace id root s).2.live id
      = (s.live id).map (LiveController.run [.addNamespace root reaches]) := by
  obtain ⟨-, hset, hagrees⟩ | ⟨cause, -, hagrees⟩ := addNamespace_cases s id root
  · refine ⟨true, ?_⟩
    rw [hagrees.live, opened]
    cases hc : s.controller? id with
    | none =>
      rw [live, hc]
      rfl
    | some c =>
      by_cases hroot : root ∈ c.flow.namespaces
      · simp [live_eq hc, hroot, LiveController.take, LiveController.addNamespace]
      · -- the namespace is new, so its filter was set
        have hok := (hset c hc).resolve_left hroot
        simp only [OrderedSet.contains_iff, hroot, if_false, live_eq hc]
        refine (live_setFlow hc _ _).trans ?_
        cases hfilter : Network.setFilter ⟨c.face, root, c.listener⟩ s.network with
        | mk result network =>
          rw [hfilter] at hok
          obtain rfl : result = .ok () := hok
          simp [LiveController.take, LiveController.addNamespace, LiveController.filter, hroot,
            hfilter]
  · refine ⟨false, ?_⟩
    rw [hagrees.live]
    cases s.live id with
    | none => rfl
    | some c => simp [LiveController.take, LiveController.addNamespace]

/-- **Taking a namespace away** is a step that reaches the forwarder or does not. -/
theorem live_removeNamespace (id : ControllerId) (root : Name) (s : Node) :
    ∃ reaches, (removeNamespace id root s).2.live id
      = (s.live id).map (LiveController.run [.removeNamespace root reaches]) := by
  cases hc : s.controller? id with
  | none =>
    refine ⟨true, ?_⟩
    rw [removeNamespace, withController, hc, live, hc]
    rfl
  | some c =>
    rw [live_eq hc]
    obtain ⟨hroot, hsame⟩ | ⟨hroot, ⟨-, hagrees⟩ | ⟨cause, -, hagrees⟩⟩ :=
      removeNamespace_cases hc root
    · refine ⟨true, ?_⟩
      rw [hsame, live_eq hc]
      simp [LiveController.take, LiveController.removeNamespace, hroot]
    · refine ⟨true, ?_⟩
      rw [hagrees.live]
      refine (live_setFlow hc _ _).trans ?_
      simp [LiveController.take, LiveController.removeNamespace, LiveController.filter, hroot]
    · refine ⟨false, ?_⟩
      rw [hagrees.live]
      refine (live_setFlow hc _ s.network).trans ?_
      simp [LiveController.take, LiveController.removeNamespace, hroot]

/-! ## Responding -/

/-- The steps of controllers that respond. -/
def Responding : LiveController.Step → Prop
  | .handle | .emit _ _ | .network (.put _) | .network (.takeInterest _) => True
  | _ => False

/-- A turn takes the first interest out of the queue. -/
theorem waiting_turn (s : Node) (q : ControllerId × ListenerId) (i : Interest) :
    (turn q s i).network.interests.waiting q.2 = (s.network.interests.waiting q.2).tail := by
  rw [turn, respond_setInterests]
  exact (Mail.next_eq ..).2

/-- Every controller stays with its queue. -/
theorem queues_turn (s : Node) (q : ControllerId × ListenerId) (i : Interest) :
    (turn q s i).queues = s.queues :=
  (steady_of_responds (respond_responds q.1 _ i)).queues

/-- The controllers stay with their queues when one of them handles its own. -/
theorem queues_drainQueue (s : Node) (q : ControllerId × ListenerId) :
    (s.drainQueue q).queues = s.queues :=
  (steady_of_responds (drainQueue_responds s q)).queues

/-- The controllers stay with their queues when all of them respond. -/
theorem queues_settle (s : Node) : s.settle.queues = s.queues :=
  (steady_of_responds (settle_responds s)).queues

/-- **A turn of the controller itself** is to handle an interest and to let out what is chosen. -/
theorem live_turn (hc : s.controller? id = some c) {i : Interest}
    (hfirst : (s.network.interests.waiting c.listener).head? = some i) :
    ∃ reaches, (turn (id, c.listener) s i).live id
      = (s.live id).map (LiveController.run [.handle, .emit 0 reaches]) := by
  let s' := s.setInterests (s.network.interests.next c.listener).2
  have hc' : s'.controller? id = some c := hc
  have hnext := Mail.next_of_head? hfirst
  rw [live_eq hc]
  show ∃ reaches, (respond id s' i).live id = _
  rw [respond, hc']
  cases hreceive : c.flow.receive i with
  | mk found flow =>
    have hhandle : LiveController.handle ⟨s.network, c.face, c.listener, c.flow, []⟩
        = ⟨s'.network, c.face, c.listener, flow, found.toList⟩ := by
      rw [LiveController.handle, hnext]
      simp only [hreceive]
      rfl
    have hrun (reaches : Bool) :
        LiveController.run [.handle, .emit 0 reaches] ⟨s.network, c.face, c.listener, c.flow, []⟩
          = LiveController.emit ⟨s'.network, c.face, c.listener, flow, found.toList⟩ 0 reaches := by
      rw [← hhandle]
      rfl
    simp only [hreceive, Option.map_some, hrun]
    -- what is let out reaches the forwarder unless the face is cancelled
    cases found with
    | none => exact ⟨true, live_setFlow hc' flow s'.network⟩
    | some o =>
      by_cases hcancelled : ((s'.setFlow id flow).face c.face).cancelled = true
      · refine ⟨false, ?_⟩
        simp only [emit, if_pos hcancelled]
        exact live_setFlow hc' flow s'.network
      · refine ⟨true, ?_⟩
        simp only [emit, if_neg hcancelled]
        exact live_setFlow hc' flow _

/-- **A turn of another controller**: somebody else takes an interest, and may bring an object. -/
theorem follows_turn_of_ne {q : ControllerId × ListenerId} (h : id ≠ q.1) (s : Node)
    (i : Interest) : Follows Responding id s (turn q s i) := by
  let s' := s.setInterests (s.network.interests.next q.2).2
  have htaken : Follows Responding id s s' :=
    .network (.takeInterest q.2) trivial (live_setNetwork s _)
  -- the interest goes to the other controller, which alone changes
  refine htaken.trans ?_
  show Follows Responding id s' (respond q.1 s' i)
  rw [respond]
  cases s'.controller? q.1 with
  | none => exact .refl s'
  | some d =>
    cases hreceive : d.flow.receive i with
    | mk found flow =>
      simp only [hreceive]
      have hset : Follows Responding id s' (s'.setFlow q.1 flow) :=
        .of_live_eq (live_setFlow_of_ne h s' flow)
      cases found with
      | none => exact hset
      | some o =>
        -- a buffered answer goes out, unless the face is cancelled
        simp only [emit]
        split
        · exact hset
        · refine hset.trans (.network (.put o) trivial ?_)
          rw [Network.take, Network.ofAction_snd]
          exact live_setNetwork ..

/-- The controllers have identities of their own. -/
def Distinct (s : Node) : Prop := (s.queues.map (·.1)).Nodup

/-- Whether controllers have identities of their own is a matter of the queues alone. -/
theorem Distinct.congr (h : s.Distinct) (hqueues : t.queues = s.queues) : t.Distinct := by
  rwa [Distinct, hqueues]

/-- A queue under the identity of a controller is its own. -/
theorem Distinct.eq_listener (h : s.Distinct) (hc : s.controller? id = some c)
    {q : ControllerId × ListenerId} (hq : q ∈ s.queues) (hid : q.1 = id) : q.2 = c.listener :=
  congrArg Prod.snd (List.inj_on_of_nodup_map h hq (mem_queues hc) hid)

/-- A controller that is opened has an identity of its own if its number was not in use. -/
theorem Distinct.openController {ε : Type} (h : s.Distinct)
    (hfresh : s.controller? ⟨s.nextId⟩ = none) (face : OwnerId) (limits : FlowLimits) :
    (Node.openController (ε := ε) face limits s).2.Distinct := by
  have hqueues : (Node.openController (ε := ε) face limits s).2.queues
      = s.queues ++ [(⟨s.nextId⟩, ⟨s.nextId⟩)] := List.map_append
  have hunused : ∀ key ∈ s.queues.map (·.1), key ≠ ⟨s.nextId⟩ := by
    intro key hmem
    obtain ⟨q, hq, rfl⟩ := List.mem_map.1 hmem
    obtain ⟨entry, hentry, rfl⟩ := List.mem_map.1 hq
    have hne := List.lookup_eq_none_iff.1 hfresh entry hentry
    exact Ne.symm (by simpa using hne)
  rw [Distinct, hqueues, List.map_append]
  refine List.nodup_append.2 ⟨h, List.nodup_singleton _, fun key hmem last hlast => ?_⟩
  rw [List.mem_singleton.1 hlast]
  exact hunused key hmem

/-- **A controller handles its queue**, turn after turn. By induction on what waits in it. -/
theorem follows_drainQueue {q : ControllerId × ListenerId} (hq : q ∈ s.queues)
    (hdistinct : s.Distinct) (id : ControllerId) : Follows Responding id s (s.drainQueue q) := by
  rw [drainQueue_eq]
  generalize hwaiting : s.network.interests.waiting q.2 = waiting
  induction waiting generalizing s with
  | nil => exact .refl s
  | cons i rest ih =>
    have hqueues := queues_turn s q i
    refine .trans ?_ (ih (hqueues ▸ hq) (hdistinct.congr hqueues)
      ((waiting_turn s q i).trans (congrArg List.tail hwaiting)))
    by_cases hid : id = q.1
    · -- it is the controller's own turn, and so its own queue
      cases hc : s.controller? id with
      | none =>
        have hsame : turn q s i = s.setInterests (s.network.interests.next q.2).2 := by
          have hnone : (s.setInterests (s.network.interests.next q.2).2).controller? q.1 = none :=
            hid ▸ hc
          rw [turn, respond, hnone]
        exact hsame ▸ .network (.takeInterest q.2) trivial (live_setNetwork s _)
      | some c =>
        have hlistener := hdistinct.eq_listener hc hq hid.symm
        obtain ⟨reaches, hturn⟩ := live_turn (i := i) hc (by rw [← hlistener, hwaiting]; rfl)
        refine ⟨_, ?_, (congrArg (fun q => (turn q s i).live id) ?_).trans hturn⟩
        · simp [Responding]
        · exact Prod.ext hid.symm hlistener
    · exact follows_turn_of_ne hid s i

/-- **All controllers respond**, one after the other. -/
theorem follows_settle (hdistinct : s.Distinct) (id : ControllerId) :
    Follows Responding id s s.settle := by
  have hall (qs : List (ControllerId × ListenerId)) (t : Node) (hdistinct : t.Distinct)
      (hqs : ∀ q ∈ qs, q ∈ t.queues) : Follows Responding id t (qs.foldl drainQueue t) := by
    induction qs generalizing t with
    | nil => exact .refl t
    | cons q rest ih =>
      have hqueues := queues_drainQueue t q
      exact (follows_drainQueue (hqs q List.mem_cons_self) hdistinct id).trans
        (ih _ (hdistinct.congr hqueues) fun q' hq' =>
          hqueues ▸ hqs q' (List.mem_cons_of_mem q hq'))
  rw [settle_eq]
  exact hall s.queues s hdistinct fun _ hq => hq

/-! ## Calls on other controllers -/

/-- The steps of other applications. -/
def Elsewhere : LiveController.Step → Prop
  | .network _ => True
  | _ => False

/-- Whether a node has come from another by a change of one controller and at most one step at the
forwarder. -/
def Changes (id : ControllerId) (s t : Node) : Prop :=
  t.Agrees s ∨ ∃ flow network,
    (network = s.network ∨ ∃ step : NetworkStep, network = (s.network.take step).2)
      ∧ t.Agrees { s.setFlow id flow with network }

/-- To another controller the change is a step at the forwarder. -/
theorem Changes.follows {other : ControllerId} (h : Changes other s t) (hne : id ≠ other) :
    Follows Elsewhere id s t := by
  obtain h | ⟨flow, network, hnetwork, h⟩ := h
  · exact .of_live_eq (h.live id)
  · -- the other controller's state is out of sight
    have ht := (h.live id).trans (live_setNetwork (s.setFlow other flow) network)
    rw [live_setFlow_of_ne hne] at ht
    obtain rfl | ⟨step, rfl⟩ := hnetwork
    · exact .of_live_eq (ht.trans (live_setNetwork s s.network).symm)
    · exact .network step trivial ht

/-- Putting an object changes one controller, and may bring the object to the forwarder. -/
theorem changes_publish (id : ControllerId) (o : ContentObject) (s : Node) :
    Changes id s (publish id o s).2 := by
  cases hc : s.controller? id with
  | none =>
    rw [publish_of_none hc]
    exact .inl (.refl s)
  | some c =>
    by_cases hadmits : o.Valid ∧ c.flow.covers o.name = true
    · obtain ⟨-, hagrees⟩ | ⟨cause, -, -, hagrees⟩ :=
        publish_cases ((o.validate_eq_ok_iff).2 hadmits.1) hc hadmits.2
      · rw [released, hc] at hagrees
        cases haccept : c.flow.accept o with
        | mk used flow =>
          simp only [haccept] at hagrees
          cases used with
          | none => exact .inr ⟨flow, s.network, .inl rfl, hagrees⟩
          | some i =>
            exact .inr ⟨flow, _, .inr ⟨.put o, (Network.ofAction_snd ..).symm⟩, hagrees⟩
      · rw [retained, hc] at hagrees
        exact .inr ⟨_, s.network, .inl rfl, hagrees⟩
    · rw [publish_refused hc hadmits]
      exact .inl (.refl s)

/-- Adding a namespace changes one controller, and may set a filter. -/
theorem changes_addNamespace (id : ControllerId) (root : Name) (s : Node) :
    Changes id s (addNamespace id root s).2 := by
  obtain ⟨-, -, hagrees⟩ | ⟨cause, -, hagrees⟩ := addNamespace_cases s id root
  · rw [opened] at hagrees
    cases hc : s.controller? id with
    | none =>
      rw [hc] at hagrees
      exact .inl hagrees
    | some c =>
      simp only [hc] at hagrees
      split at hagrees
      · exact .inl hagrees
      · exact .inr ⟨_, _, .inr ⟨.setFilter ⟨c.face, root, c.listener⟩,
          (Network.ofAction_snd ..).symm⟩, hagrees⟩
  · exact .inl hagrees

/-- Taking a namespace away changes one controller, and may take a filter away. -/
theorem changes_removeNamespace (id : ControllerId) (root : Name) (s : Node) :
    Changes id s (removeNamespace id root s).2 := by
  cases hc : s.controller? id with
  | none =>
    rw [removeNamespace, withController, hc]
    exact .inl (.refl s)
  | some c =>
    obtain ⟨-, hsame⟩ | ⟨-, ⟨-, hagrees⟩ | ⟨cause, -, hagrees⟩⟩ := removeNamespace_cases hc root
    · exact .inl (hsame ▸ .refl s)
    · exact .inr ⟨_, _, .inr ⟨.cancelFilter ⟨c.face, root, c.listener⟩,
        (Network.ofAction_snd ..).symm⟩, hagrees⟩
    · exact .inr ⟨_, s.network, .inl rfl, hagrees⟩

end Node

/-! ## Runs of a node -/

/-- What may happen to a node with its controllers. -/
inductive NodeCall where
  /-- An object is put into a controller. -/
  | publish (id : ControllerId) (object : ContentObject)
  /-- A namespace is added to a controller. -/
  | addNamespace (id : ControllerId) (root : Name)
  /-- A namespace of a controller is taken away. -/
  | removeNamespace (id : ControllerId) (root : Name)
  /-- All controllers respond. -/
  | settle
  /-- Another application takes a step at the forwarder. -/
  | network (step : NetworkStep)

namespace NodeCall

variable {s : Node}

/-- A node after a call. -/
def make (s : Node) : NodeCall → Node
  | .publish id o => (Node.publish id o s).2
  | .addNamespace id root => (Node.addNamespace id root s).2
  | .removeNamespace id root => (Node.removeNamespace id root s).2
  | .settle => s.settle
  | .network step => { s with network := (s.network.take step).2 }

/-- Whether a call is made up of steps of one of the controllers and of others. -/
def MadeUpOf (id : ControllerId) (steps : List LiveController.Step) : NodeCall → Prop
  | .publish other o =>
    if other = id then ∃ reaches, steps = [.accept o, .emit 0 reaches]
    else ∀ step ∈ steps, Node.Elsewhere step
  | .addNamespace other root =>
    if other = id then ∃ reaches, steps = [.addNamespace root reaches]
    else ∀ step ∈ steps, Node.Elsewhere step
  | .removeNamespace other root =>
    if other = id then ∃ reaches, steps = [.removeNamespace root reaches]
    else ∀ step ∈ steps, Node.Elsewhere step
  | .settle => ∀ step ∈ steps, Node.Responding step
  | .network step => steps = [.network step]

/-- Every call leaves every controller with its queue. -/
theorem queues_make (s : Node) (call : NodeCall) : (make s call).queues = s.queues := by
  cases call with
  | publish id o => exact (Node.steady_of_works (Node.publish_works id o s)).queues
  | addNamespace id root => exact (Node.addNamespace_steady id root s).queues
  | removeNamespace id root =>
      exact (Node.steady_of_works (Node.removeNamespace_works id root s)).queues
  | settle => exact Node.queues_settle s
  | network step => rfl

/-- **Every call on a node** is a run of each of its controllers. -/
theorem live_make (hdistinct : s.Distinct) (id : ControllerId) (call : NodeCall) :
    ∃ steps, call.MadeUpOf id steps
      ∧ (make s call).live id = (s.live id).map (LiveController.run steps) := by
  cases call with
  | publish other o =>
    by_cases hid : other = id
    · subst hid
      obtain ⟨reaches, h⟩ := Node.live_publish other o s
      exact ⟨_, (if_pos rfl).mpr ⟨reaches, rfl⟩, h⟩
    · obtain ⟨steps, hsteps, h⟩ := (Node.changes_publish other o s).follows (Ne.symm hid)
      exact ⟨steps, (if_neg hid).mpr hsteps, h⟩
  | addNamespace other root =>
    by_cases hid : other = id
    · subst hid
      obtain ⟨reaches, h⟩ := Node.live_addNamespace other root s
      exact ⟨_, (if_pos rfl).mpr ⟨reaches, rfl⟩, h⟩
    · obtain ⟨steps, hsteps, h⟩ := (Node.changes_addNamespace other root s).follows (Ne.symm hid)
      exact ⟨steps, (if_neg hid).mpr hsteps, h⟩
  | removeNamespace other root =>
    by_cases hid : other = id
    · subst hid
      obtain ⟨reaches, h⟩ := Node.live_removeNamespace other root s
      exact ⟨_, (if_pos rfl).mpr ⟨reaches, rfl⟩, h⟩
    · obtain ⟨steps, hsteps, h⟩ :=
        (Node.changes_removeNamespace other root s).follows (Ne.symm hid)
      exact ⟨steps, (if_neg hid).mpr hsteps, h⟩
  | settle => exact Node.follows_settle hdistinct id
  | network step =>
    exact ⟨_, rfl, (Node.live_setNetwork s _).trans (Node.live_network s id step)⟩

/-- **Calls on a node**, one after the other, are a run of each of its controllers. By induction on
the calls, none of which brings or takes a controller. -/
theorem live_run (hdistinct : s.Distinct) (id : ControllerId) (calls : List NodeCall) :
    ∃ parts, List.Forall₂ (MadeUpOf id) parts calls
      ∧ (calls.foldl make s).live id = (s.live id).map (LiveController.run parts.flatten) := by
  induction calls generalizing s with
  | nil =>
    refine ⟨[], .nil, ?_⟩
    rw [List.foldl_nil]
    cases s.live id <;> rfl
  | cons call rest ih =>
    obtain ⟨steps, hsteps, hfirst⟩ := live_make hdistinct id call
    obtain ⟨parts, hparts, hrest⟩ := ih (hdistinct.congr (queues_make s call))
    refine ⟨steps :: parts, .cons hsteps hparts, hrest.trans ?_⟩
    rw [hfirst, Option.map_map]
    exact congrArg (Option.map · _)
      (funext fun c => (LiveController.run_append steps parts.flatten c).symm)

/-- **Whatever calls are made on a node after a controller was opened**, the controller is as after
a run among other applications. -/
theorem live_run_openController {ε : Type} (hdistinct : s.Distinct)
    (hfresh : s.controller? ⟨s.nextId⟩ = none) (face : OwnerId) (limits : FlowLimits)
    (calls : List NodeCall) :
    ∃ parts, List.Forall₂ (MadeUpOf ⟨s.nextId⟩) parts calls
      ∧ (calls.foldl make (Node.openController (ε := ε) face limits s).2).live ⟨s.nextId⟩
        = some (LiveController.run parts.flatten
            (LiveController.start s.network face ⟨s.nextId⟩ limits)) := by
  have hopened := Node.controller?_openController (ε := ε) hfresh face limits
  obtain ⟨parts, hparts, h⟩ := live_run
    (hdistinct.openController hfresh face limits) ⟨s.nextId⟩ calls
  refine ⟨parts, hparts, h.trans ?_⟩
  rw [Node.live_eq hopened]
  rfl

end NodeCall

end NamedContent
