import NamedContent.Proofs.Face.Calls
import NamedContent.Proofs.Node.CutShort
import NamedContent.Proofs.Node.Publishing

/-! # Publications on a node whose calls succeed

The calls of an application succeed while the forwarder is open, its face is not cancelled, and its
policy outlasts the interruptions of every call. A publication then succeeds whenever its objects
are valid and lie below its namespace: no call is left to fail, and nothing is refused.

* `RetryPolicy.Outlasts`: a policy that brings every call to the forwarder
* `Node.Untroubled`: a face all of whose calls succeed
* `Node.exists_publishBelow`: publications that succeed -/

namespace NamedContent

/-! ## Interruptions -/

/-- Whether a policy brings every call to the forwarder, from an attempt of a number on: no call is
interrupted more often than it allows, and none fails otherwise or is cancelled. -/
def RetryPolicy.Outlasts (policy : RetryPolicy) : List Attempt → UInt32 → Prop
  | [], _ => True
  | attempt :: rest, number =>
    attempt.cancels = false
      ∧ match attempt.failure with
        | none => policy.Outlasts rest 1
        | some .interrupted =>
          policy.allows (number + 1) = true ∧ policy.Outlasts rest (number + 1)
        | some _ => False

/-- **A call whose interruptions are outlasted** ends as its last attempt, and leaves a schedule
behind that is outlasted too. By induction on the schedule. -/
theorem retry_of_outlasts {σ α : Type} {policy : RetryPolicy} {schedule : List Attempt}
    {number : UInt32} (h : policy.Outlasts schedule number) (operation : Operation)
    {x : Nat → Action σ TransportError α} {s s' : σ} {a : α}
    (hx : ∀ elapsed, x elapsed s = (.ok a, s')) (elapsed : Nat) :
    ∃ calls rest, retry policy operation x schedule number elapsed false s
      = ⟨.ok a, s', false, calls, rest⟩ ∧ policy.Outlasts rest 1 := by
  induction schedule generalizing number elapsed with
  | nil =>
    rw [retry, reach_eq, hx]
    exact ⟨1, [], rfl, trivial⟩
  | cons attempt rest ih =>
    obtain ⟨hcancels, hrest⟩ := h
    rw [retry]
    cases hfailure : attempt.failure with
    | none =>
      rw [hfailure] at hrest
      rw [reach_eq, hx, hcancels]
      exact ⟨1, rest, rfl, hrest⟩
    | some e =>
      rw [hfailure] at hrest
      cases e with
      | interrupted =>
        -- an interruption, after which the policy allows one more attempt
        obtain ⟨hallows, hrest⟩ := hrest
        obtain ⟨calls, left, heq, hleft⟩ := ih hrest (elapsed + attempt.elapsed)
        simp only [hallows, if_true, hcancels, heq]
        exact ⟨calls + 1, left, rfl, hleft⟩
      | _ => exact hrest.elim

namespace Node

variable {s : Node} {face : OwnerId} {id : ControllerId} {root : Name} {o : ContentObject}
  {units : List ContentObject}

/-! ## Calls that succeed -/

/-- Whether all calls through a face succeed. -/
structure Untroubled (s : Node) (face : OwnerId) : Prop where
  /-- The forwarder is open. -/
  isOpen : s.network.forwarder.closed = false
  /-- The face is not cancelled. -/
  active : (s.face face).cancelled = false
  /-- The policy of the face outlasts what befalls the attempts. -/
  outlasts : (s.face face).retry.Outlasts s.schedule 1

namespace Untroubled

/-- A step that succeeds at the open forwarder succeeds as a call. -/
theorem call (h : s.Untroubled face) (operation : Operation)
    {x : Action Network TransportError Unit} {n : Network} (hx : x s.network = (.ok (), n))
    (hopen : n.forwarder.closed = false) :
    ∃ t, Node.call face operation (fun _ => onNetwork x) s = (.ok (), t) ∧ t.Untroubled face
      ∧ t.controllers = s.controllers := by
  have hattempt : onNetwork x s = (.ok (), { s with network := n }) := by
    simp only [onNetwork, Action.focus, hx]
  obtain ⟨calls, rest, hretry, hrest⟩ := retry_of_outlasts h.outlasts operation
    (x := fun _ => onNetwork x) (fun _ => hattempt) 0
  refine ⟨{ s with network := n, schedule := rest, calls := s.calls + calls }, ?_, ⟨hopen, h.active,
    hrest⟩, rfl⟩
  rw [Node.call]
  simp only [h.active, hretry]
  rfl

/-- A filter is set through a face that is not troubled. -/
theorem register (h : s.Untroubled face) (root : Name) (listener : ListenerId) :
    ∃ t, Node.register face root listener s = (.ok (), t) ∧ t.Untroubled face
      ∧ t.controllers = s.controllers := by
  obtain ⟨filters, hset, -, -⟩ := Forwarder.exists_setFilter_eq_ok h.isOpen ⟨face, root, listener⟩
  refine h.call .registerFilter
    (n := { s.network with forwarder := { s.network.forwarder with filters } }) ?_ h.isOpen
  rw [Network.setFilter, Network.step, hset]

/-- A valid object is published through it. -/
theorem put (h : s.Untroubled face) (hvalid : o.Valid) :
    ∃ t, Node.put face o s = (.ok (), t) ∧ t.Untroubled face
      ∧ t.controllers = s.controllers := by
  have hput := Network.put_eq_ok h.isOpen (ContentObject.digest_eq_ok hvalid)
  refine h.call .put hput ?_
  rw [Network.after_forwarder]
  exact (Forwarder.advances_receive ..).closed.trans h.isOpen

end Untroubled

/-! ## Publications -/

/-- Whether a controller has a namespace, and all its calls succeed. -/
def Ready (s : Node) (id : ControllerId) (root : Name) : Prop :=
  ∃ c, s.controller? id = some c ∧ root ∈ c.flow.namespaces ∧ s.Untroubled c.face

/-- A controller whose calls succeed gets a namespace. -/
theorem exists_addNamespace {c : Controller} (hc : s.controller? id = some c)
    (h : s.Untroubled c.face) (root : Name) :
    ∃ t, addNamespace id root s = (.ok (), t) ∧ t.Ready id root := by
  rw [addNamespace, withController, hc]
  by_cases hcontains : c.flow.namespaces.contains root = true
  · exact ⟨s, by simp [hcontains], c, hc, OrderedSet.contains_iff.1 hcontains, h⟩
  · have hset : (s.setFlow id (c.flow.addNamespace root)).controller? id
        = some { c with flow := c.flow.addNamespace root } := by
      rw [controller?_setFlow, hc]
      simp
    have huntroubled : (s.setFlow id (c.flow.addNamespace root)).Untroubled c.face := { h with }
    obtain ⟨t, hregister, ht, hcontrollers⟩ := huntroubled.register root c.listener
    refine ⟨t, ?_, { c with flow := c.flow.addNamespace root }, ?_,
      OrderedSet.mem_insert.2 (.inl rfl), ht⟩
    · simp only [hcontains, changeFlow, withController, hc, Action.bind_run, Action.modify_run,
        Action.attempt, hregister, if_false, Bool.false_eq_true, Action.pure_run]
    · rw [controller?, hcontrollers]
      exact hset

/-- A valid object below the namespace is put. -/
theorem Ready.publish (h : s.Ready id root) (hvalid : o.Valid)
    (hbelow : root.isPrefixOf o.name = true) :
    ∃ t, Node.publish id o s = (.ok (), t) ∧ t.Ready id root := by
  obtain ⟨c, hc, hroot, huntroubled⟩ := h
  have hcovers : c.flow.covers o.name = true := List.any_eq_true.2 ⟨root, hroot, hbelow⟩
  have hset (flow : FlowControl) : (s.setFlow id flow).controller? id = some { c with flow } := by
    rw [controller?_setFlow, hc]
    simp
  have hkept : root ∈ (c.flow.accept o).2.namespaces := by rwa [FlowControl.accept_namespaces]
  rw [Node.publish, (ContentObject.validate_eq_ok_iff o).2 hvalid]
  simp only [mapError_ok, Action.bind_run, Action.ofExcept_run, withController, hc, hcovers,
    Bool.not_true, Bool.false_eq_true, if_false]
  rcases haccept : c.flow.accept o with ⟨_ | i, flow⟩ <;> rw [haccept] at hkept
  · exact ⟨_, rfl, _, hset flow, hkept, { huntroubled with }⟩
  · -- an interest was held that the object answers, so a call is made
    have huntroubled' : (s.setFlow id flow).Untroubled c.face := { huntroubled with }
    obtain ⟨t, hput, ht, hcontrollers⟩ := huntroubled'.put hvalid
    refine ⟨t, ?_, { c with flow }, ?_, hkept, ht⟩
    · simp only [Action.bind_run, Action.modify_run, Action.mapError, hput]
    · rw [controller?, hcontrollers]
      exact hset flow

/-- Valid objects below the namespace are put, by induction on them. -/
theorem Ready.publishAll (h : s.Ready id root)
    (hunits : ∀ u ∈ units, u.Valid ∧ root.isPrefixOf u.name = true) :
    ∃ t, Node.publishAll id units s = (.ok (), t) := by
  induction units generalizing s with
  | nil => exact ⟨s, rfl⟩
  | cons u rest ih =>
    obtain ⟨hvalid, hbelow⟩ := hunits u List.mem_cons_self
    obtain ⟨s₁, hfirst, hs₁⟩ := h.publish hvalid hbelow
    obtain ⟨t, hrest⟩ := ih hs₁ fun p hp => hunits p (List.mem_cons_of_mem u hp)
    exact ⟨t, by rw [publishAll_cons, Action.bind_run, hfirst]; exact hrest⟩

/-- **A publication of valid objects below their namespace succeeds** where all calls do. -/
theorem exists_publishBelow (h : ∀ c, s.controller? id = some c → s.Untroubled c.face)
    (hunits : ∀ u ∈ units, u.Valid ∧ root.isPrefixOf u.name = true) :
    ∃ t, publishBelow id root units s = (.ok (), t) := by
  rw [publishBelow, Action.bind_run]
  cases hc : s.controller? id with
  | none =>
    rw [addNamespace, withController, hc]
    exact ⟨_, Prod.ext (publishAll_of_none hc fun u hu =>
      (ContentObject.validate_eq_ok_iff u).2 (hunits u hu).1) rfl⟩
  | some c =>
    obtain ⟨s₁, hadd, hready⟩ := exists_addNamespace hc (h c hc) root
    obtain ⟨t, hput⟩ := hready.publishAll hunits
    exact ⟨t, by rw [hadd]; exact hput⟩

end Node

end NamedContent
