import NamedContent.Proofs.Flow.Operations
import NamedContent.Proofs.Node.Agreement

/-! # Publications that are cut short

A publication adds a namespace and then puts objects one after the other. A call that fails leaves
nothing behind in the network, and a namespace whose filter cannot be set is taken away again. But
every object is kept before it goes out: when that fails, it stays with those put before it.

* `Node.opened`, `Node.released`, `Node.retained`: what a node is after each part of a publication
* `Node.addNamespace_cases`, `Node.publish_cases`: each part is done or fails
* `Node.publishAll_error`, `Node.publishBelow_error`: what a publication leaves behind that fails -/

namespace NamedContent

/-! ## Failed steps of the network -/

/-- A put that fails leaves the network as it was. -/
theorem Network.put_error {o : ContentObject} {n : Network} {e : TransportError}
    (h : (Network.put o n).1 = .error e) : (Network.put o n).2 = n := by
  rw [Network.put] at h ⊢
  split at h
  · exact absurd h (by simp)
  · rfl

/-- A step that fails leaves the network as it was. -/
theorem Network.step_error {change : Forwarder → Except TransportError Forwarder} {n : Network}
    {e : TransportError} (h : (Network.step change n).1 = .error e) :
    (Network.step change n).2 = n := by
  rw [Network.step] at h ⊢
  split at h
  · exact absurd h (by simp)
  · rfl

namespace Node

variable {s s' t : Node} {id : ControllerId} {c : Controller} {o : ContentObject}

/-! ## The parts of a publication -/

/-- A node after a namespace was added to a controller and its filter was set. -/
def opened (s : Node) (id : ControllerId) (root : Name) : Node :=
  match s.controller? id with
  | none => s
  | some c =>
    if c.flow.namespaces.contains root then s
    else { s.setFlow id (c.flow.addNamespace root) with
      network := (Network.setFilter ⟨c.face, root, c.listener⟩ s.network).2 }

/-- A node after an object was put into a controller, and went out if it answers an interest that
was held. -/
def released (id : ControllerId) (s : Node) (o : ContentObject) : Node :=
  match s.controller? id with
  | none => s
  | some c =>
    match c.flow.accept o with
    | (none, flow) => s.setFlow id flow
    | (some _, flow) => { s.setFlow id flow with network := (Network.put o s.network).2 }

/-- A node after an object was put into a controller and did not go out. -/
def retained (id : ControllerId) (s : Node) (o : ContentObject) : Node :=
  match s.controller? id with
  | none => s
  | some c => s.setFlow id (c.flow.accept o).2

/-- A node after a publication below a namespace that was cut short when an object was to go out. -/
def cutShort (s : Node) (id : ControllerId) (root : Name) (before : List ContentObject)
    (o : ContentObject) : Node :=
  retained id (before.foldl (released id) (s.opened id root)) o

/-- Whether a controller holds an interest that an object answers. -/
def Awaits (s : Node) (id : ControllerId) (o : ContentObject) : Prop :=
  ∃ c, s.controller? id = some c ∧ ∃ i ∈ c.flow.held, i.accepts o = true

/-- A controller that has let an object out keeps it. -/
theorem controller?_released (hc : s.controller? id = some c) (o : ContentObject) :
    (released id s o).controller? id = some { c with flow := (c.flow.accept o).2 } := by
  have hset : ∀ flow, (s.setFlow id flow).controller? id = some { c with flow } := by
    intro flow
    rw [controller?_setFlow, hc]
    simp
  rw [released, hc]
  cases haccept : c.flow.accept o with
  | mk used flow =>
    simp only [haccept]
    cases used with
    | none => exact hset flow
    | some i => exact hset flow

/-- The controller after a namespace was added holds what it held, and has the namespace. -/
theorem controller?_opened (hc : s.controller? id = some c) (root : Name) :
    ∃ d, (s.opened id root).controller? id = some d ∧ d.flow.held = c.flow.held
      ∧ root ∈ d.flow.namespaces := by
  rw [opened, hc]
  by_cases hroot : c.flow.namespaces.contains root = true
  · simp only [if_pos hroot]
    exact ⟨c, hc, rfl, OrderedSet.contains_iff.1 hroot⟩
  · simp only [if_neg hroot]
    refine ⟨{ c with flow := c.flow.addNamespace root }, ?_, rfl,
      OrderedSet.mem_insert.2 (.inl rfl)⟩
    show (s.setFlow id _).controller? id = _
    rw [controller?_setFlow, hc]
    simp

namespace Agrees

/-- Adding a namespace keeps nodes in agreement. -/
theorem opened (h : s.Agrees t) (id : ControllerId) (root : Name) :
    (s.opened id root).Agrees (t.opened id root) := by
  rw [Node.opened, Node.opened, h.controllers, h.network]
  cases t.controller? id with
  | none => exact h
  | some c =>
    show Agrees (ite _ _ _) (ite _ _ _)
    split
    · exact h
    · exact (h.setFlow id _).setNetwork _

/-- Putting an object keeps nodes in agreement. -/
theorem released (h : s.Agrees t) (id : ControllerId) (o : ContentObject) :
    (released id s o).Agrees (Node.released id t o) := by
  rw [Node.released, Node.released, h.controllers, h.network]
  cases t.controller? id with
  | none => exact h
  | some c =>
    cases haccept : c.flow.accept o with
    | mk used flow =>
      simp only [haccept]
      cases used with
      | none => exact h.setFlow id flow
      | some i => exact (h.setFlow id flow).setNetwork _

/-- Putting an object that does not come to the forwarder keeps nodes in agreement. -/
theorem retained (h : s.Agrees t) (id : ControllerId) (o : ContentObject) :
    (retained id s o).Agrees (Node.retained id t o) := by
  rw [Node.retained, Node.retained, h.controllers]
  cases t.controller? id with
  | none => exact h
  | some c => exact h.setFlow id _

/-- What a call did to its face and to what befalls the calls after it does not matter. -/
theorem ended (h : s.Agrees t) (id : OwnerId) (cancelled : Bool) (schedule : List Attempt)
    (calls : Nat) :
    ({ (if cancelled then s.cancelFace id else s) with schedule, calls } : Node).Agrees t := by
  cases cancelled <;> exact { h with }

end Agrees

/-! ## Calls that are done or fail -/

/-- **A call on the network** is done as the network does it, or fails and leaves nothing behind, if
the network's own failed steps do not. -/
theorem call_cases {x : Action Network TransportError Unit}
    (hx : ∀ n e, (x n).1 = .error e → (x n).2 = n) (face : OwnerId) (operation : Operation)
    (s : Node) :
    ((call face operation (fun _ => onNetwork x) s).1 = .ok () ∧ (x s.network).1 = .ok ()
        ∧ (call face operation (fun _ => onNetwork x) s).2.Agrees
            { s with network := (x s.network).2 })
      ∨ ∃ e, (call face operation (fun _ => onNetwork x) s).1 = .error e
        ∧ (call face operation (fun _ => onNetwork x) s).2.Agrees s := by
  have hends := retry_ends (s.face face).retry operation (fun _ => onNetwork x) s.schedule 1 0
    (s.face face).cancelled s
  rw [call]
  generalize retry (s.face face).retry operation (fun _ => onNetwork x) s.schedule 1 0
    (s.face face).cancelled s = ended at hends ⊢
  rcases hends with ⟨e, hresult, hstate⟩ | ⟨elapsed, hresult, hstate⟩
  · -- no attempt reached the forwarder
    exact .inr ⟨e, hresult, Agrees.ended (hstate ▸ .refl s) ..⟩
  · -- an attempt reached the forwarder, and the call ends as it did
    replace hresult : ended.result = (x s.network).1.mapError FaceError.transport := hresult
    replace hstate : ended.state = { s with network := (x s.network).2 } := hstate
    cases hreached : (x s.network).1 with
    | ok _ =>
      rw [hreached] at hresult
      exact .inl ⟨hresult, rfl, Agrees.ended (hstate ▸ .refl _) ..⟩
    | error e =>
      rw [hreached] at hresult
      rw [hx _ e hreached] at hstate
      exact .inr ⟨_, hresult, Agrees.ended (hstate ▸ .refl s) ..⟩

/-- A change of a controller that is there always succeeds. -/
theorem changeFlow_run {ε : Type} (hc : s.controller? id = some c)
    (f : FlowControl → FlowControl) :
    changeFlow (ε := ε) id f s = (.ok (), s.setFlow id (f c.flow)) := by
  rw [changeFlow, withController, hc]
  rfl

/-- **A namespace is added** and its filter set, or it cannot be set and nothing is left behind. -/
theorem addNamespace_cases (s : Node) (id : ControllerId) (root : Name) :
    ((addNamespace id root s).1 = .ok ()
        ∧ (∀ c, s.controller? id = some c → root ∈ c.flow.namespaces
          ∨ (Network.setFilter ⟨c.face, root, c.listener⟩ s.network).1 = .ok ())
        ∧ (addNamespace id root s).2.Agrees (s.opened id root))
      ∨ ∃ cause, (addNamespace id root s).1 = .error (.face cause)
        ∧ (addNamespace id root s).2.Agrees s := by
  rw [addNamespace, withController, opened]
  cases hc : s.controller? id with
  | none => exact .inl ⟨rfl, by simp, .refl s⟩
  | some c =>
    by_cases hroot : c.flow.namespaces.contains root = true
    · simp only [hroot, if_true]
      refine .inl ⟨rfl, ?_, .refl s⟩
      rintro _ ⟨⟩
      exact .inl (OrderedSet.contains_iff.1 hroot)
    · have hset : (s.setFlow id (c.flow.addNamespace root)).controller? id
          = some { c with flow := c.flow.addNamespace root } := by
        rw [controller?_setFlow, hc]
        simp
      have hcall := call_cases (x := Network.setFilter ⟨c.face, root, c.listener⟩)
        (fun _ _ => Network.step_error) c.face .registerFilter
        (s.setFlow id (c.flow.addNamespace root))
      simp only [hroot, Bool.false_eq_true, if_false, Action.bind_run, changeFlow_run hc,
        Action.attempt, register]
      generalize call c.face .registerFilter _ _ = ended at hcall ⊢
      obtain ⟨result, s'⟩ := ended
      rcases hcall with ⟨hresult, hset, hagrees⟩ | ⟨e, hresult, hagrees⟩
      · obtain rfl : result = .ok () := hresult
        refine .inl ⟨rfl, ?_, hagrees⟩
        rintro _ ⟨⟩
        exact .inr hset
      · obtain rfl : result = .error e := hresult
        refine .inr ⟨e, ?_⟩
        -- the namespace is taken away again, which gives the controller back as it was
        have hc' : s'.controller? id = some { c with flow := c.flow.addNamespace root } :=
          (hagrees.controllers id).trans hset
        have hback := FlowControl.removeNamespace_addNamespace (mt OrderedSet.contains_iff.2 hroot)
        simp only [Action.bind_run, changeFlow_run hc', hback, Action.fail_run, true_and]
        refine (hagrees.setFlow id c.flow).trans ⟨rfl, by simp, fun other => ?_, rfl, rfl, rfl⟩
        rw [controller?_setFlow, controller?_setFlow]
        by_cases hother : other = id
        · subst hother
          simp [hc]
        · simp [hother]

/-- **An object is published**, or it answers an interest that was held and cannot go out; it is
kept all the same. -/
theorem publish_cases (hvalid : o.validate = .ok ()) (hc : s.controller? id = some c)
    (hcovers : c.flow.covers o.name = true) :
    ((publish id o s).1 = .ok () ∧ (publish id o s).2.Agrees (released id s o))
      ∨ ∃ cause, (publish id o s).1 = .error (.face cause)
        ∧ (∃ i ∈ c.flow.held, i.accepts o = true)
        ∧ (publish id o s).2.Agrees (retained id s o) := by
  rw [publish, hvalid, released, retained, hc]
  simp only [mapError_ok, Action.bind_run, Action.ofExcept_run, withController, hc, hcovers,
    Bool.not_true, Bool.false_eq_true, if_false]
  cases haccept : c.flow.accept o with
  | mk used flow =>
    cases used with
    | none => exact .inl ⟨rfl, .refl _⟩
    | some i =>
      have hcall := call_cases (x := Network.put o) (fun _ _ => Network.put_error) c.face .put
        (s.setFlow id flow)
      simp only [Action.bind_run, Action.modify_run, Action.mapError, put]
      generalize call c.face .put _ _ = ended at hcall ⊢
      obtain ⟨result, s'⟩ := ended
      rcases hcall with ⟨hresult, -, hagrees⟩ | ⟨e, hresult, hagrees⟩
      · obtain rfl : result = .ok () := hresult
        exact .inl ⟨rfl, hagrees⟩
      · obtain rfl : result = .error e := hresult
        exact .inr ⟨e, rfl, ⟨i, FlowControl.mem_held_of_accept_eq_some haccept⟩, hagrees⟩

/-! ## Publications that fail -/

/-- **A failed publication of objects**: those before the one that cannot go out are published, and
that one is kept. By induction on the objects, each put into the controller that the ones before
have left. -/
theorem publishAll_error {objects : List ContentObject}
    (hvalid : ∀ o ∈ objects, o.validate = .ok ()) (hc : s.controller? id = some c)
    (hcovers : ∀ o ∈ objects, c.flow.covers o.name = true) {e : FlowError}
    (h : (publishAll id objects s).1 = .error e) :
    ∃ before o rest cause, objects = before ++ o :: rest ∧ e = .face cause
      ∧ (∃ i ∈ c.flow.held, i.accepts o = true)
      ∧ (publishAll id objects s).2.Agrees (retained id (before.foldl (released id) s) o) := by
  induction objects generalizing s c with
  | nil => exact absurd h (by simp [publishAll_nil])
  | cons o rest ih =>
    have hfirst := publish_cases (hvalid o List.mem_cons_self) hc (hcovers o List.mem_cons_self)
    rw [publishAll_cons, Action.bind_run] at h ⊢
    generalize publish id o s = done at hfirst h ⊢
    obtain ⟨result, s₁⟩ := done
    rcases hfirst with ⟨hresult, hagrees⟩ | ⟨cause, hresult, hheld, hagrees⟩
    · obtain rfl : result = .ok () := hresult
      -- the first object is out, and what is held from then on was held before
      have hc₁ := (hagrees.controllers id).trans (controller?_released hc o)
      obtain ⟨before, p, rest', cause, rfl, he, ⟨i, hi, haccepts⟩, hleft⟩ :=
        ih (fun p hp => hvalid p (List.mem_cons_of_mem o hp)) hc₁
          (fun p hp => by
            show FlowControl.covers _ _ = true
            rw [FlowControl.covers, FlowControl.accept_namespaces]
            exact hcovers p (List.mem_cons_of_mem o hp)) h
      refine ⟨o :: before, p, rest', cause, rfl, he,
        ⟨i, FlowControl.mem_held_of_accept hi, haccepts⟩, hleft.trans ?_⟩
      exact Agrees.retained
        (List.foldl_rel hagrees fun q _ s t h => h.released id q) id p
    · obtain rfl : result = .error (.face cause) := hresult
      -- the first object is the one that cannot go out
      exact ⟨[], o, rest, cause, rfl, (Except.error.inj h).symm, hheld, hagrees⟩

/-- Without a controller there is nothing to publish into, and so nothing that fails. -/
theorem publishAll_of_none (hc : s.controller? id = none) {objects : List ContentObject}
    (hvalid : ∀ o ∈ objects, o.validate = .ok ()) : (publishAll id objects s).1 = .ok () := by
  induction objects with
  | nil => rfl
  | cons o rest ih =>
    rw [publishAll_cons, Action.bind_run, publish, hvalid o List.mem_cons_self]
    simp only [mapError_ok, Action.bind_run, Action.ofExcept_run, withController, hc]
    exact ih fun p hp => hvalid p (List.mem_cons_of_mem o hp)

/-- A failed publication of objects below a namespace, from a node to which it was added. -/
theorem publishAll_error_of_opened {root : Name} (hs : s'.Agrees (s.opened id root))
    {objects : List ContentObject} (hvalid : ∀ o ∈ objects, o.validate = .ok ())
    (hbelow : ∀ o ∈ objects, root.isPrefixOf o.name = true) {e : FlowError}
    (h : (publishAll id objects s').1 = .error e) :
    ∃ before o rest cause, objects = before ++ o :: rest ∧ e = .face cause ∧ s.Awaits id o
      ∧ (publishAll id objects s').2.Agrees (s.cutShort id root before o) := by
  cases hc : s.controller? id with
  | none =>
    have hnone : s'.controller? id = none := by
      rw [hs.controllers, opened, hc]
      exact hc
    rw [publishAll_of_none hnone hvalid] at h
    exact absurd h (by simp)
  | some c =>
    obtain ⟨d, hd, hheld, hroot⟩ := controller?_opened hc root
    obtain ⟨before, o, rest, cause, hobjects, he, hawaits, hagrees⟩ :=
      publishAll_error hvalid ((hs.controllers id).trans hd)
        (fun o ho => List.any_eq_true.2 ⟨root, hroot, hbelow o ho⟩) h
    refine ⟨before, o, rest, cause, hobjects, he, ⟨c, hc, hheld ▸ hawaits⟩, hagrees.trans ?_⟩
    exact Agrees.retained (List.foldl_rel hs fun q _ s t h => h.released id q) id o

/-! ## Publications below a namespace -/

/-- Objects are put below a namespace, which is added first. -/
def publishBelow (id : ControllerId) (root : Name) (objects : List ContentObject) :
    Action Node FlowError Unit := do
  addNamespace id root
  publishAll id objects

/-- **A failed publication of valid objects below their namespace**, from a node that agrees with
another one: a call has failed, with which nothing is left behind, or by which the publication was
cut short. -/
theorem publishBelow_error {root : Name} (hs : s'.Agrees s) {objects : List ContentObject}
    (hobjects : ∀ o ∈ objects, o.Valid ∧ root.isPrefixOf o.name = true) {e : FlowError}
    (h : (publishBelow id root objects s').1 = .error e) :
    ∃ cause, e = .face cause
      ∧ ((publishBelow id root objects s').2.Agrees s
        ∨ ∃ before o rest, objects = before ++ o :: rest ∧ s.Awaits id o
          ∧ (publishBelow id root objects s').2.Agrees (s.cutShort id root before o)) := by
  rw [publishBelow, Action.bind_run] at h ⊢
  have hadd := addNamespace_cases s' id root
  rcases hadded : addNamespace id root s' with ⟨cause | _, s₂⟩ <;> rw [hadded] at h hadd
  · obtain ⟨hok, -⟩ | ⟨face, hface, hs₂⟩ := hadd
    · cases hok
    · cases h
      -- the namespace could not be added
      exact ⟨face, Except.error.inj hface, .inl (hs₂.trans hs)⟩
  · obtain ⟨-, -, hs₂⟩ | ⟨face, hface, -⟩ := hadd
    · -- the namespace is there, and an object could not go out
      obtain ⟨before, o, rest, face, heq, he, hawaits, hleft⟩ :=
        publishAll_error_of_opened (hs₂.trans (hs.opened id root))
          (fun o ho => (ContentObject.validate_eq_ok_iff o).2 (hobjects o ho).1)
          (fun o ho => (hobjects o ho).2) h
      exact ⟨face, he, .inr ⟨before, o, rest, heq, hawaits, hleft⟩⟩
    · cases hface

end Node

end NamedContent
