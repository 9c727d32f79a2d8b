import Mathlib.Control.Monad.Basic
import NamedContent.Proofs.Forwarder.Registrations
import NamedContent.Proofs.Node.CutShort

/-! # Namespaces and their filters

A flow controller knows its namespaces, and the forwarder knows its filters. Both change in every
call, with a call of the face between the two changes that may fail. A namespace whose filter cannot
be set is taken away again. A namespace is not added again when its filter cannot be taken away:
that filter is left over, no later removal and no end of the controller takes it away, and only
adding the same namespace makes it a namespace's filter again. Apart from filters that are left over
the two agree.

* `Node.namespaces`, `Node.filterRoots`: what the controller and the forwarder know
* `NamespaceCall`: calls on one controller, `NamespaceCall.leftOver`: the filters left over by them
* `NamespaceCall.filterRoots_run`: what calls in any order come to
* `NamespaceCall.removal_leaves_filter`: a removal that fails -/

namespace NamedContent

namespace Node

variable {s t : Node} {id : ControllerId} {c : Controller} {owner : OwnerId} {listener : ListenerId}
  {root : Name} {left : List Name}

/-! ## Both sides -/

/-- The namespaces of a controller. -/
def namespaces (s : Node) (id : ControllerId) : List Name :=
  match s.controller? id with
  | none => []
  | some c => c.flow.namespaces.toList

/-- The names for which the forwarder has a filter of an owner and a queue. -/
def filterRoots (s : Node) (owner : OwnerId) (listener : ListenerId) : List Name :=
  (s.network.forwarder.filters.filter fun g => g.owner = owner ∧ g.listener = listener).map (·.root)

/-- The namespaces of a controller are those that it keeps. -/
theorem namespaces_eq (hc : s.controller? id = some c) :
    s.namespaces id = c.flow.namespaces.toList := by
  rw [namespaces, hc]

/-- A controller that is the same on two nodes has the same namespaces. -/
theorem namespaces_congr (h : s.controller? id = t.controller? id) :
    s.namespaces id = t.namespaces id := by
  rw [namespaces, namespaces, h]

/-- A controller that is changed has the namespaces of its new state. -/
theorem namespaces_setFlow (hc : s.controller? id = some c) (flow : FlowControl) :
    (s.setFlow id flow).namespaces id = flow.namespaces.toList := by
  rw [namespaces, controller?_setFlow, hc]
  simp

/-- A controller with other flow control has the same face and queue. -/
theorem attached_setFlow
    (h : ∃ c, s.controller? id = some c ∧ c.face = owner ∧ c.listener = listener)
    (flow : FlowControl) :
    ∃ c, (s.setFlow id flow).controller? id = some c ∧ c.face = owner ∧ c.listener = listener := by
  obtain ⟨c, hc, hface, hlistener⟩ := h
  rw [controller?_setFlow, hc]
  exact ⟨_, rfl, by simpa using hface, by simpa using hlistener⟩

/-- The roots are those of the filters that are set. -/
theorem mem_filterRoots :
    root ∈ s.filterRoots owner listener
      ↔ (⟨owner, root, listener⟩ : InterestFilter) ∈ s.network.forwarder.filters := by
  simp only [filterRoots, List.mem_map, List.mem_filter, decide_eq_true_iff]
  constructor
  · rintro ⟨⟨_, _, _⟩, ⟨hmem, rfl, rfl⟩, rfl⟩
    exact hmem
  · exact fun hmem => ⟨_, ⟨hmem, rfl, rfl⟩, rfl⟩

/-- Whether a controller on an open forwarder has the filters of its namespaces and, besides, those
that are left over. -/
structure Mirrors (s : Node) (id : ControllerId) (owner : OwnerId) (listener : ListenerId)
    (left : List Name) : Prop where
  isOpen : s.network.forwarder.closed = false
  attached : ∃ c, s.controller? id = some c ∧ c.face = owner ∧ c.listener = listener
  filters : ∀ root, root ∈ s.filterRoots owner listener ↔ root ∈ s.namespaces id ∨ root ∈ left
  apart : ∀ root ∈ left, root ∉ s.namespaces id

/-- A new controller on an open forwarder has neither, when the number of its queue is not in
use. -/
theorem mirrors_openController {ε : Type} (hopen : s.network.forwarder.closed = false)
    (hid : s.controller? ⟨s.nextId⟩ = none)
    (hlistener : ∀ g ∈ s.network.forwarder.filters, g.listener ≠ ⟨s.nextId⟩) (face : OwnerId)
    (limits : FlowLimits) :
    (openController (ε := ε) face limits s).2.Mirrors ⟨s.nextId⟩ face ⟨s.nextId⟩ [] := by
  have hc := controller?_openController (ε := ε) hid face limits
  refine ⟨hopen, ⟨_, hc, rfl, rfl⟩, fun root => ?_, by simp⟩
  rw [namespaces_eq hc, mem_filterRoots]
  refine ⟨fun hmem => absurd rfl (hlistener _ hmem), ?_⟩
  rintro (hmem | hmem) <;> exact absurd hmem List.not_mem_nil

namespace Mirrors

/-- It is the same on nodes that agree. -/
theorem of_agrees (h : t.Mirrors id owner listener left) (hs : s.Agrees t) :
    s.Mirrors id owner listener left := by
  have hnamespaces := namespaces_congr (hs.controllers id)
  have hroots : s.filterRoots owner listener = t.filterRoots owner listener := by
    rw [filterRoots, filterRoots, hs.network]
  exact ⟨hs.network ▸ h.isOpen, hs.controllers id ▸ h.attached, hnamespaces ▸ hroots ▸ h.filters,
    hnamespaces ▸ h.apart⟩

/-- What is left over is what counts. -/
theorem of_mem_iff {left' : List Name} (h : s.Mirrors id owner listener left)
    (hleft : ∀ root, root ∈ left' ↔ root ∈ left) : s.Mirrors id owner listener left' :=
  { h with
    filters := fun root => (h.filters root).trans (or_congr_right (hleft root).symm)
    apart := fun root hroot => h.apart root ((hleft root).1 hroot) }

/-- A namespace comes with its filter, which is not left over from then on. -/
theorem registered (h : s.Mirrors id owner listener left) (hc : s.controller? id = some c)
    (root : Name) :
    ({ s.setFlow id (c.flow.addNamespace root) with
        network := (Network.setFilter ⟨owner, root, listener⟩ s.network).2 } : Node).Mirrors id
      owner listener (left.filter (· ≠ root)) := by
  have hnamespaces : ∀ other, other ∈ (s.setFlow id (c.flow.addNamespace root)).namespaces id
      ↔ other = root ∨ other ∈ s.namespaces id := by
    intro other
    rw [namespaces_setFlow hc, namespaces_eq hc]
    exact OrderedSet.mem_insert
  refine ⟨(Network.closed_setFilter ..).trans h.isOpen, attached_setFlow h.attached _,
    fun other => ?_, fun other hother => ?_⟩
  · show _ ↔ other ∈ (s.setFlow id (c.flow.addNamespace root)).namespaces id ∨ _
    rw [mem_filterRoots, Network.mem_filters_setFilter h.isOpen, ← mem_filterRoots, h.filters,
      hnamespaces, List.mem_filter, decide_eq_true_iff]
    by_cases hother : other = root <;> simp [hother]
  · show other ∉ (s.setFlow id (c.flow.addNamespace root)).namespaces id
    rw [List.mem_filter, decide_eq_true_iff] at hother
    rw [hnamespaces, not_or]
    exact ⟨hother.2, h.apart other hother.1⟩

/-- **A namespace is added** with its filter, or is there already. -/
theorem opened (h : s.Mirrors id owner listener left) (root : Name) :
    (s.opened id root).Mirrors id owner listener (left.filter (· ≠ root)) := by
  obtain ⟨c, hc, rfl, rfl⟩ := h.attached
  rw [Node.opened, hc]
  by_cases hroot : root ∈ c.flow.namespaces
  · simp only [OrderedSet.contains_iff.2 hroot, if_true]
    refine h.of_mem_iff fun other => ?_
    rw [List.mem_filter, decide_eq_true_iff]
    refine and_iff_left_of_imp fun hother heq => h.apart other hother ?_
    rw [heq, namespaces_eq hc]
    exact hroot
  · simp only [mt OrderedSet.contains_iff.1 hroot, Bool.false_eq_true, if_false]
    exact h.registered hc root

/-- A namespace goes without its filter, which is left over from then on. -/
theorem dropped (h : s.Mirrors id owner listener left) (hc : s.controller? id = some c)
    (hroot : root ∈ c.flow.namespaces) :
    (s.setFlow id (c.flow.removeNamespace root)).Mirrors id owner listener (root :: left) := by
  have hnamespaces : ∀ other, other ∈ (s.setFlow id (c.flow.removeNamespace root)).namespaces id
      ↔ other ∈ s.namespaces id ∧ other ≠ root := by
    intro other
    rw [namespaces_setFlow hc, namespaces_eq hc]
    exact OrderedSet.mem_erase
  have hmem : root ∈ s.namespaces id := by
    rw [namespaces_eq hc]
    exact hroot
  refine ⟨h.isOpen, attached_setFlow h.attached _, fun other => ?_, fun other hother => ?_⟩
  · show other ∈ s.filterRoots owner listener ↔ _
    rw [h.filters, hnamespaces, List.mem_cons]
    by_cases hother : other = root <;> simp [hother, hmem]
  · rw [hnamespaces]
    rintro ⟨hmem, hne⟩
    exact h.apart other ((List.mem_cons.1 hother).resolve_left hne) hmem

/-- A filter that is left over is taken away. -/
theorem cancelled (h : s.Mirrors id owner listener (root :: left)) (hroot : root ∉ left) :
    ({ s with network := (Network.cancelFilter ⟨owner, root, listener⟩ s.network).2 } :
      Node).Mirrors id owner listener left where
  isOpen := (Network.closed_cancelFilter ..).trans h.isOpen
  attached := h.attached
  filters other := by
    show _ ↔ other ∈ s.namespaces id ∨ _
    rw [mem_filterRoots, Network.mem_filters_cancelFilter h.isOpen, ← mem_filterRoots, h.filters,
      List.mem_cons]
    have hapart := h.apart root List.mem_cons_self
    by_cases hother : other = root
    · subst hother
      simp [hapart, hroot]
    · simp [hother]
  apart other hother := h.apart other (List.mem_cons_of_mem root hother)

end Mirrors

/-- **A namespace is taken away** with its filter, or the filter stays; without the namespace there
is nothing to do. -/
theorem removeNamespace_cases (hc : s.controller? id = some c) (root : Name) :
    root ∉ c.flow.namespaces ∧ removeNamespace id root s = (.ok (), s)
      ∨ root ∈ c.flow.namespaces
        ∧ ((removeNamespace id root s).1 = .ok ()
            ∧ (removeNamespace id root s).2.Agrees
              { s.setFlow id (c.flow.removeNamespace root) with
                network := (Network.cancelFilter ⟨c.face, root, c.listener⟩ s.network).2 }
          ∨ ∃ cause, (removeNamespace id root s).1 = .error (.face cause)
            ∧ (removeNamespace id root s).2.Agrees
              (s.setFlow id (c.flow.removeNamespace root))) := by
  rw [removeNamespace, withController, hc]
  by_cases hroot : root ∈ c.flow.namespaces
  · -- the namespace goes first, then the call for the filter is made
    have hcall := call_cases (x := Network.cancelFilter ⟨c.face, root, c.listener⟩)
      (fun _ _ => Network.step_error) c.face .unregisterFilter
      (s.setFlow id (c.flow.removeNamespace root))
    refine .inr ⟨hroot, ?_⟩
    simp only [OrderedSet.contains_iff.2 hroot, Bool.not_true, Bool.false_eq_true, if_false,
      Action.bind_run, changeFlow_run hc, Action.mapError, unregister]
    generalize call c.face .unregisterFilter _ _ = ended at hcall ⊢
    obtain ⟨result, s'⟩ := ended
    rcases hcall with ⟨hresult, -, hagrees⟩ | ⟨e, hresult, hagrees⟩
    · obtain rfl : result = .ok () := hresult
      exact .inl ⟨rfl, hagrees⟩
    · obtain rfl : result = .error e := hresult
      exact .inr ⟨e, rfl, hagrees⟩
  · refine .inl ⟨hroot, ?_⟩
    simp only [mt OrderedSet.contains_iff.1 hroot, Bool.not_false, if_true]
    rfl

/-! ## The end of a controller -/

/-- A filter that can be taken away is not there any more, and all others are. -/
theorem unregister_of_ok (hopen : s.network.forwarder.closed = false)
    (hok : (unregister owner root listener s).1 = .ok ()) :
    (unregister owner root listener s).2.network.forwarder.closed = false
      ∧ ∀ other, other ∈ (unregister owner root listener s).2.filterRoots owner listener
        ↔ other ∈ s.filterRoots owner listener ∧ other ≠ root := by
  rcases call_cases (x := Network.cancelFilter ⟨owner, root, listener⟩)
      (fun _ _ => Network.step_error) owner .unregisterFilter s with
    ⟨-, -, hagrees⟩ | ⟨e, hresult, -⟩
  · have hnetwork : (unregister owner root listener s).2.network
        = (Network.cancelFilter ⟨owner, root, listener⟩ s.network).2 := hagrees.network
    rw [hnetwork, Network.closed_cancelFilter]
    refine ⟨hopen, fun other => ?_⟩
    rw [mem_filterRoots, hnetwork, Network.mem_filters_cancelFilter hopen, ← mem_filterRoots]
    simp
  · exact absurd (hok.symm.trans hresult) (by simp)

/-- Filters of an owner and a queue are taken away one after the other. -/
def unregisterAll (owner : OwnerId) (listener : ListenerId) (roots : List Name) :
    Action Node FaceError Unit :=
  roots.forM fun root => unregister owner root listener

/-- **When filters are taken away and every call succeeds**, it does not matter that errors would be
dropped, and none of the filters is left. -/
theorem forM_unregister {ε : Type} {roots : List Name} (hopen : s.network.forwarder.closed = false)
    (hok : (unregisterAll owner listener roots s).1 = .ok ()) :
    ∃ t, (roots.forM fun root => do
        discard (Action.attempt (unregister owner root listener)) : Action Node ε Unit) s
        = (.ok (), t)
      ∧ ∀ root, root ∈ t.filterRoots owner listener
        ↔ root ∈ s.filterRoots owner listener ∧ root ∉ roots := by
  induction roots generalizing s with
  | nil => exact ⟨s, rfl, by simp⟩
  | cons root rest ih =>
    have hsplit : unregisterAll owner listener (root :: rest)
        = unregister owner root listener >>= fun _ => unregisterAll owner listener rest := rfl
    rw [hsplit, Action.bind_run] at hok
    rcases hcall : unregister owner root listener s with ⟨_ | ⟨⟩, s₁⟩
    · rw [hcall] at hok
      exact absurd hok (by simp)
    obtain ⟨hopen₁, hroots₁⟩ := unregister_of_ok hopen (congrArg Prod.fst hcall)
    rw [hcall] at hok hopen₁ hroots₁
    obtain ⟨t, hrest, hroots⟩ := ih hopen₁ hok
    -- a call that succeeds is the same with its errors dropped
    have hdiscard : (discard (Action.attempt (unregister owner root listener)) :
        Action Node ε Unit) s = (.ok (), s₁) := by
      show (Action.attempt (unregister owner root listener) >>= fun _ => pure ()) s = _
      rw [Action.bind_run, Action.attempt, hcall]
      rfl
    refine ⟨t, ?_, fun other => ?_⟩
    · rw [← hrest]
      show (discard (Action.attempt (unregister owner root listener)) >>= fun _ => _ :
        Action Node ε Unit) s = _
      rw [Action.bind_run, hdiscard]
    · rw [hroots, hroots₁, List.mem_cons, not_or, and_assoc]

/-- **The end of a controller whose calls succeed** leaves those filters that are left over. -/
theorem Mirrors.closeController {ε : Type} (h : s.Mirrors id owner listener left)
    (hok : (unregisterAll owner listener (s.namespaces id) s).1 = .ok ()) (root : Name) :
    root ∈ (closeController (ε := ε) id s).2.filterRoots owner listener ↔ root ∈ left := by
  obtain ⟨c, hc, rfl, rfl⟩ := h.attached
  obtain ⟨t, hrun, hroots⟩ := forM_unregister (ε := ε) h.isOpen hok
  have hclose : Node.closeController (ε := ε) id s
      = (.ok (), { t with controllers := t.controllers.erase id }) := by
    rw [namespaces_eq hc] at hrun
    rw [Node.closeController, withController, hc]
    simp only [Action.bind_run, hrun, Action.modify_run]
  rw [hclose]
  show root ∈ t.filterRoots c.face c.listener ↔ _
  rw [hroots, h.filters]
  constructor
  · rintro ⟨hmem | hmem, hnot⟩
    · exact absurd hmem hnot
    · exact hmem
  · exact fun hmem => ⟨.inr hmem, h.apart root hmem⟩

end Node

/-! ## Calls in any order -/

/-- A call that changes the namespaces of a controller. -/
inductive NamespaceCall where
  /-- A namespace is added. -/
  | add (root : Name)
  /-- A namespace is taken away. -/
  | remove (root : Name)
  deriving DecidableEq

namespace NamespaceCall

variable {s : Node} {id : ControllerId} {owner : OwnerId} {listener : ListenerId} {left : List Name}

/-- The call is made. -/
def make (id : ControllerId) : NamespaceCall → Action Node FlowError Unit
  | .add root => Node.addNamespace id root
  | .remove root => Node.removeNamespace id root

/-- The calls are made one after the other, whether they succeed or not: which of them did, and the
node then. -/
def run (id : ControllerId) : List NamespaceCall → Node → List (NamespaceCall × Bool) × Node
  | [], s => ([], s)
  | call :: rest, s =>
    let made := call.make id s
    let done := run id rest made.2
    ((call, made.1.isOk) :: done.1, done.2)

/-- The filters that are left over after a call: a removal that fails leaves one over, and adding
its namespace again takes it back. -/
def leftOverAfter (left : List Name) : NamespaceCall × Bool → List Name
  | (.add root, true) => left.filter (· ≠ root)
  | (.add _, false) => left
  | (.remove _, true) => left
  | (.remove root, false) => root :: left

/-- The filters that are left over by calls that did or did not succeed. -/
def leftOver (history : List (NamespaceCall × Bool)) : List Name := history.foldl leftOverAfter []

/-- Without removals that fail no filter is left over. -/
theorem leftOver_eq_nil {history : List (NamespaceCall × Bool)}
    (h : ∀ root, (remove root, false) ∉ history) : leftOver history = [] := by
  rw [leftOver]
  induction history with
  | nil => rfl
  | cons e rest ih =>
    have hnil : leftOverAfter [] e = [] := by
      obtain ⟨⟨root⟩ | ⟨root⟩, _ | _⟩ := e
      · rfl
      · rfl
      · exact absurd List.mem_cons_self (h root)
      · rfl
    rw [List.foldl_cons, hnil]
    exact ih fun root hmem => h root (List.mem_cons_of_mem e hmem)

/-- Whether a change is made in full, but for a filter left over before. -/
def Complete (s : Node) (id : ControllerId) (owner : OwnerId) (listener : ListenerId)
    (left : List Name) : NamespaceCall → Prop
  | .add root => root ∈ s.namespaces id ∧ root ∈ s.filterRoots owner listener
  | .remove root => root ∉ s.namespaces id ∧ (root ∈ s.filterRoots owner listener ↔ root ∈ left)

/-- **One call** keeps the filters those of the namespaces, and those left over. -/
theorem mirrors_make (h : s.Mirrors id owner listener left) (call : NamespaceCall) :
    (call.make id s).2.Mirrors id owner listener
      (leftOverAfter left (call, (call.make id s).1.isOk)) := by
  cases call with
  | add root =>
    rcases Node.addNamespace_cases s id root with ⟨hresult, -, hagrees⟩ | ⟨cause, hresult, hagrees⟩
    · rw [make, hresult]
      exact (h.opened root).of_agrees hagrees
    · rw [make, hresult]
      -- the entry has been taken back
      exact h.of_agrees hagrees
  | remove root =>
    obtain ⟨c, hc, hface, hlistener⟩ := h.attached
    rcases Node.removeNamespace_cases hc root with
      ⟨hnot, hrun⟩ | ⟨hroot, ⟨hresult, hagrees⟩ | ⟨cause, hresult, hagrees⟩⟩
    · rw [make, hrun]
      exact h
    · rw [make, hresult]
      have hleft : root ∉ left := fun hmem =>
        h.apart root hmem (by rw [Node.namespaces_eq hc]; exact hroot)
      rw [hface, hlistener] at hagrees
      exact ((h.dropped hc hroot).cancelled hleft).of_agrees hagrees
    · rw [make, hresult]
      -- the entry has gone all the same, and its filter is left over
      exact (h.dropped hc hroot).of_agrees hagrees

/-- A call that succeeds makes its change in full. -/
theorem complete_of_ok (h : s.Mirrors id owner listener left) {call : NamespaceCall}
    (hok : (call.make id s).1 = .ok ()) :
    call.Complete (call.make id s).2 id owner listener left := by
  have hafter := mirrors_make h call
  rw [hok] at hafter
  obtain ⟨c, hc, -, -⟩ := h.attached
  cases call with
  | add root =>
    rcases Node.addNamespace_cases s id root with ⟨-, -, hagrees⟩ | ⟨cause, hresult, -⟩
    · obtain ⟨d, hd, -, hmem⟩ := Node.controller?_opened hc root
      have hnamespaces : root ∈ ((add root).make id s).2.namespaces id := by
        rw [make, Node.namespaces_eq ((hagrees.controllers id).trans hd)]
        exact hmem
      exact ⟨hnamespaces, (hafter.filters root).2 (.inl hnamespaces)⟩
    · exact absurd (hok.symm.trans hresult) (by simp)
  | remove root =>
    have hnamespaces : root ∉ ((remove root).make id s).2.namespaces id := by
      rcases Node.removeNamespace_cases hc root with
        ⟨hnot, hrun⟩ | ⟨hroot, ⟨-, hagrees⟩ | ⟨cause, hresult, -⟩⟩
      · rw [make, hrun, Node.namespaces_eq hc]
        exact hnot
      · rw [make, Node.namespaces_congr (hagrees.controllers id)]
        exact (h.dropped hc hroot).apart root List.mem_cons_self
      · exact absurd (hok.symm.trans hresult) (by simp)
    exact ⟨hnamespaces, (hafter.filters root).trans (or_iff_right hnamespaces)⟩

/-- **Calls in any order** keep the filters those of the namespaces, and those left over. By
induction on the calls. -/
theorem mirrors_run (h : s.Mirrors id owner listener left) (calls : List NamespaceCall) :
    (run id calls s).2.Mirrors id owner listener
      ((run id calls s).1.foldl leftOverAfter left) := by
  induction calls generalizing s left with
  | nil => exact h
  | cons call rest ih => exact ih (mirrors_make h call)

/-- **Namespaces and filters after calls in any order**, any of which may fail: the filters are
those of the namespaces and those left over, so that both agree exactly when none is left over, as
without a removal that has failed. A call that is made again and succeeds makes its change in full,
and the end of the controller leaves only what is left over. -/
theorem filterRoots_run (h : s.Mirrors id owner listener []) (calls : List NamespaceCall) :
    let done := run id calls s
    let left := leftOver done.1
    (∀ root, root ∈ done.2.filterRoots owner listener ↔ root ∈ done.2.namespaces id ∨ root ∈ left)
      ∧ ((∀ root, root ∈ done.2.filterRoots owner listener ↔ root ∈ done.2.namespaces id)
        ↔ left = [])
      ∧ ((∀ root, (remove root, false) ∉ done.1) → left = [])
      ∧ (∀ call : NamespaceCall, (call.make id done.2).1 = .ok () →
        call.Complete (call.make id done.2).2 id owner listener left)
      ∧ ((Node.unregisterAll owner listener (done.2.namespaces id) done.2).1 = .ok () →
        ∀ root, root ∈ (Node.closeController (ε := Empty) id done.2).2.filterRoots owner listener
          ↔ root ∈ left) := by
  intro done left
  have hdone : done.2.Mirrors id owner listener left := mirrors_run h calls
  refine ⟨hdone.filters, ⟨fun hall => ?_, fun hnil root => ?_⟩, leftOver_eq_nil,
    fun call hok => complete_of_ok hdone hok, fun hok => hdone.closeController hok⟩
  · -- a filter left over would be one of a namespace
    refine List.eq_nil_iff_forall_not_mem.2 fun root hroot => hdone.apart root hroot ?_
    exact (hall root).1 ((hdone.filters root).2 (.inr hroot))
  · rw [hdone.filters, hnil]
    simp

/-- A namespace whose filter cannot be set at first is added by the second call. -/
theorem filterRoots_run_retried :
    let root : Name := ⟨[⟨[97]⟩]⟩
    let made := Node.openController (ε := Empty) ⟨7⟩ {} (Node.new 8 ⟨0⟩)
    let s : Node := { made.2 with schedule := [{ failure := some .closed }] }
    let done := run ⟨1⟩ [.add root, .add root] s
    done.1 = [(.add root, false), (.add root, true)]
      ∧ leftOver done.1 = []
      ∧ (∀ name, name ∈ done.2.filterRoots ⟨7⟩ ⟨1⟩ ↔ name ∈ done.2.namespaces ⟨1⟩)
      ∧ done.2.namespaces ⟨1⟩ = [root] := by
  intro root made s done
  have hs : s.Mirrors ⟨1⟩ ⟨7⟩ ⟨1⟩ [] :=
    { Node.mirrors_openController (ε := Empty) (s := Node.new 8 ⟨0⟩) rfl rfl (by decide) ⟨7⟩ {}
      with }
  have hhistory : done.1 = [(.add root, false), (.add root, true)] := by decide +kernel
  obtain ⟨-, hmirror, hnil, -⟩ := filterRoots_run hs [.add root, .add root]
  have hleft : leftOver done.1 = [] := hnil (by rw [hhistory]; simp)
  exact ⟨hhistory, hleft, hmirror.2 hleft, by decide +kernel⟩

/-- **A removal that fails leaves its filter over.** The namespace is gone, so that a second removal
succeeds without a call, and neither it nor the end of the controller takes the filter away. -/
theorem removal_leaves_filter :
    let root : Name := ⟨[⟨[97]⟩]⟩
    let made := Node.openController (ε := Empty) ⟨7⟩ {} (Node.new 8 ⟨0⟩)
    let added := (Node.addNamespace ⟨1⟩ root made.2).2
    let s : Node := { added with schedule := [{ failure := some (.io "link down") }] }
    let failed := Node.removeNamespace ⟨1⟩ root s
    let again := Node.removeNamespace ⟨1⟩ root failed.2
    let closed := Node.closeController (ε := Empty) ⟨1⟩ again.2
    (added.namespaces ⟨1⟩ = [root] ∧ added.filterRoots ⟨7⟩ ⟨1⟩ = [root])
      ∧ (failed.1 = .error (.face (.transport (.io "link down")))
        ∧ failed.2.namespaces ⟨1⟩ = [] ∧ failed.2.filterRoots ⟨7⟩ ⟨1⟩ = [root])
      ∧ (again.1 = .ok () ∧ again.2.calls = failed.2.calls
        ∧ again.2.filterRoots ⟨7⟩ ⟨1⟩ = [root])
      ∧ closed.2.filterRoots ⟨7⟩ ⟨1⟩ = [root] := by
  decide +kernel

end NamespaceCall

end NamedContent
