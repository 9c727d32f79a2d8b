import NamedContent.Node.Publishing

/-! # The parts of a node

What an operation of a node does to the faces, the controllers and the network, one part at a time:
a change of one controller leaves the others alone, and a call on a healthy network is its first
attempt.

* `Node.controller?_setFlow`: the controllers after one has changed
* `Node.call_of_healthy`: a call when nothing befalls it -/

namespace NamedContent

/-- What is looked up after the values under one key have changed. -/
theorem Table.lookup_map_key {κ α : Type} [DecidableEq κ] (t : Table κ α) (key other : κ)
    (f : α → α) :
    (t.map fun (k, a) => if k = key then (k, f a) else (k, a)).lookup other
      = (t.lookup other).map fun a => if other = key then f a else a := by
  induction t with
  | nil => rfl
  | cons p rest ih =>
    obtain ⟨k, a⟩ := p
    rw [List.map_cons]
    by_cases hk : k = key
    · by_cases ho : other = k
      · subst ho
        simp [hk]
      · simp only [if_pos hk, List.lookup_cons, beq_eq_false_iff_ne.2 ho, ih]
    · by_cases ho : other = k
      · subst ho
        simp [hk]
      · simp only [if_neg hk, List.lookup_cons, beq_eq_false_iff_ne.2 ho, ih]

/-- What is looked up is in the table. -/
theorem Table.mem_of_lookup {κ α : Type} [DecidableEq κ] {t : Table κ α} {key : κ} {a : α}
    (h : t.lookup key = some a) : (key, a) ∈ t := by
  obtain ⟨front, rest, ht, -⟩ := List.lookup_eq_some_iff.1 h
  rw [ht]
  exact List.mem_append_right _ List.mem_cons_self

namespace Node

variable {s : Node} {id : ControllerId}

/-! ## Controllers -/

/-- Only the controller whose state is set has changed. -/
theorem controller?_setFlow (s : Node) (id other : ControllerId) (flow : FlowControl) :
    (s.setFlow id flow).controller? other
      = (s.controller? other).map fun c => if other = id then { c with flow } else c :=
  Table.lookup_map_key s.controllers id other fun c => { c with flow }

/-- A new controller is found under its number if it was not in use. -/
theorem controller?_openController {ε : Type} (h : s.controller? ⟨s.nextId⟩ = none)
    (face : OwnerId) (limits : FlowLimits) :
    (openController (ε := ε) face limits s).2.controller? ⟨s.nextId⟩
      = some ⟨face, ⟨s.nextId⟩, .new limits⟩ := by
  have hnone : s.controllers.lookup ⟨s.nextId⟩ = none := h
  show (s.controllers ++ [_]).lookup _ = _
  rw [List.lookup_append, hnone]
  simp

/-- The controllers' identities with their queues, in order. -/
def queues (s : Node) : List (ControllerId × ListenerId) :=
  s.controllers.map fun e => (e.1, e.2.listener)

/-- A change of a controller's state leaves all queues as they are. -/
@[simp] theorem queues_setFlow (s : Node) (id : ControllerId) (flow : FlowControl) :
    (s.setFlow id flow).queues = s.queues := by
  rw [queues, setFlow, List.map_map]
  refine List.map_congr_left fun e _ => ?_
  obtain ⟨k, c⟩ := e
  by_cases hk : k = id <;> simp [hk]

/-- A controller has its queue. -/
theorem mem_queues {c : Controller} (h : s.controller? id = some c) :
    (id, c.listener) ∈ s.queues :=
  List.mem_map_of_mem (Table.mem_of_lookup h)

/-- A controller handles all that waits in a queue. -/
def drainQueue (s : Node) (q : ControllerId × ListenerId) : Node :=
  (s.network.interests.waiting q.2).foldl (respond q.1)
    { s with network := { s.network with interests := s.network.interests.drained q.2 } }

/-- All controllers respond by handling their queues. -/
theorem settle_eq (s : Node) : s.settle = s.queues.foldl drainQueue s := by
  rw [settle, queues, List.foldl_map]
  rfl

/-! ## Calls -/

/-- When nothing befalls a call, its first attempt reaches the forwarder and ends it. -/
theorem call_of_healthy {α : Type} {face : OwnerId} (hschedule : s.schedule = [])
    (hface : (s.face face).cancelled = false) (operation : Operation)
    (x : Nat → Action Node TransportError α) :
    call face operation x s
      = ((x 0 s).1.mapError FaceError.transport,
          { (x 0 s).2 with schedule := [], calls := (x 0 s).2.calls + 1 }) := by
  rw [call]
  simp only [hschedule, hface, retry, reach]
  rcases x 0 s with ⟨_ | _, _⟩ <;> rfl

/-! ## Lists of objects -/

/-- Publishing no objects does nothing. -/
theorem publishAll_nil (id : ControllerId) : publishAll id [] = pure () := rfl

/-- The first object is published first. -/
theorem publishAll_cons (id : ControllerId) (o : ContentObject) (rest : List ContentObject) :
    publishAll id (o :: rest) = publish id o >>= fun _ => publishAll id rest := rfl

/-- A single object is published by itself. -/
theorem publishAll_singleton (id : ControllerId) (o : ContentObject) (s : Node) :
    publishAll id [o] s = publish id o s := by
  rw [publishAll_cons, publishAll_nil, Action.bind_run]
  rcases publish id o s with ⟨_ | ⟨⟩, _⟩ <;> rfl

end Node

end NamedContent
