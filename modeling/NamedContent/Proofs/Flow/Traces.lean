import NamedContent.Flow.Interleaving
import NamedContent.Proofs.Flow.Operations
import NamedContent.Proofs.Forwarder.Deliveries

/-! # What is seen of a run

What a controller and its network do in a run is seen step by step: the interests that come to the
controller, the objects that it hands to the forwarder. Beside it stands, for every step of the
controller, what it does to the held interests and to the objects on their way.

* `LiveController.queue`: the interests that wait for the responder
* `LiveController.trace`: what is collected over a run
* `LiveController.delivered`: the interests that come
* `LiveController.handedOut`, `LiveController.failures`: what goes, and what goes in vain
* `LiveController.network_take`: what a step does to the network
* `LiveController.handle_of_select`, `LiveController.handle_of_hold`: a turn of the responder
* `LiveController.accept_of_none`, `LiveController.accept_of_some`: an object is put -/

namespace NamedContent.LiveController

variable {c : LiveController} {steps : List Step} {i : Interest} {o : ContentObject}

/-! ## The queue of the controller -/

/-- A controller keeps its listener in every step. -/
@[simp] theorem take_listener (c : LiveController) (step : Step) :
    (c.take step).listener = c.listener := by
  cases step with
  | network step => rfl
  | handle =>
    -- whatever it does with an interest or an object, the listener is the one it was opened with
    rw [take, handle]
    split <;> rfl
  | accept o =>
    rw [take, accept]
    split
    · split <;> rfl
    · rfl
  | emit position reaches =>
    rw [take, emit]
    split
    · rfl
    · split <;> rfl
  | addNamespace root reaches =>
    rw [take, addNamespace]
    split
    · rfl
    · split <;> rfl
  | removeNamespace root reaches =>
    rw [take, removeNamespace]
    split
    · split <;> rfl
    · rfl

/-- A controller keeps its listener in every run. -/
theorem run_listener (steps : List Step) (c : LiveController) :
    (run steps c).listener = c.listener := by
  induction steps generalizing c with
  | nil => rfl
  | cons step rest ih => rw [run_cons, ih, take_listener]

/-- The interests that wait for the responder, the first one in front. -/
def queue (c : LiveController) : List Interest := c.network.interests.waiting c.listener

/-! ## Traces -/

section Trace

variable {α β : Type} {f : LiveController → Step → List α}

/-- What is collected over a run from each of its steps and the state before it. -/
def trace (f : LiveController → Step → List α) : List Step → LiveController → List α
  | [], _ => []
  | step :: rest, c => f c step ++ trace f rest (c.take step)

/-- No steps leave no trace. -/
@[simp] theorem trace_nil (f : LiveController → Step → List α) (c : LiveController) :
    trace f [] c = [] := rfl

/-- The trace of the first step comes first. -/
@[simp] theorem trace_cons (f : LiveController → Step → List α) (step : Step) (rest : List Step)
    (c : LiveController) : trace f (step :: rest) c = f c step ++ trace f rest (c.take step) := rfl

/-- What is collected comes from a step of the run. -/
theorem mem_trace {a : α} (h : a ∈ trace f steps c) :
    ∃ first step rest, steps = first ++ step :: rest ∧ a ∈ f (run first c) step := by
  induction steps generalizing c with
  | nil => exact absurd h (by simp)
  | cons step rest ih =>
    rcases List.mem_append.1 h with h | h
    · exact ⟨[], step, rest, rfl, h⟩
    · obtain ⟨first, step', rest', rfl, hmem⟩ := ih h
      exact ⟨step :: first, step', rest', rfl, hmem⟩

end Trace

/-- What a step hands to listeners. -/
def deliveries (c : LiveController) : Step → List Delivery
  | .network step => c.network.deliveries step
  | .emit position true =>
    match c.inFlight[position]? with
    | none => []
    | some o => c.network.deliveries (.put o)
  | _ => []

/-- The interests that come to the controller in a step. -/
def arrivals (c : LiveController) (step : Step) : List Interest :=
  (c.deliveries step).filterMap (Delivery.interestFor c.listener)

/-- The interests that come to the controller in a run. -/
def delivered : List Step → LiveController → List Interest := trace arrivals

/-- The object that a step hands to the forwarder, and whether the forwarder takes it. -/
def handing (c : LiveController) : Step → List (ContentObject × Bool)
  | .emit position reaches => c.inFlight[position]?.toList.map fun o =>
      (o, reaches && (Network.put o c.network).1.isOk)
  | _ => []

/-- The objects that the controller hands to the forwarder in a run, and whether it takes them. -/
def attempts : List Step → LiveController → List (ContentObject × Bool) := trace handing

/-- The objects that the controller hands to the forwarder in a run. -/
def handedOut (steps : List Step) (c : LiveController) : List ContentObject :=
  (attempts steps c).map (·.1)

/-- The objects that the controller hands to the forwarder in vain. -/
def failures (steps : List Step) (c : LiveController) : List ContentObject :=
  ((attempts steps c).filter (!·.2)).map (·.1)

/-- What is handed over was on its way. -/
theorem mem_inFlight_of_mem_handing {step : Step} {taken : Bool} (h : (o, taken) ∈ c.handing step) :
    o ∈ c.inFlight := by
  cases step with
  | emit position reaches =>
    obtain ⟨p, hp, heq⟩ := List.mem_map.1 h
    obtain rfl := (Prod.mk.inj heq).1
    exact List.mem_of_getElem? (Option.mem_toList.1 hp)
  | _ => exact absurd h List.not_mem_nil

/-! ## The steps of the controller -/

/-- Without an interest in the queue the responder does nothing. -/
theorem handle_of_none (h : c.queue.head? = none) :
    c.handle = c := by
  rw [handle, Mail.next_of_head? h]

/-- An interest that the buffer answers: the selected object is on its way. -/
theorem handle_of_select (h : c.queue.head? = some i)
    (hselect : i.select c.flow.objects = some o) :
    c.handle = { c with
      network := { c.network with interests := (c.network.interests.next c.listener).2 }
      inFlight := c.inFlight ++ [o] } := by
  rw [handle, Mail.next_of_head? h]
  simp only [FlowControl.receive_eq_some hselect, Option.toList_some]

/-- An interest that the buffer does not answer is held. -/
theorem handle_of_hold (h : c.queue.head? = some i)
    (hselect : i.select c.flow.objects = none) :
    c.handle = { c with
      network := { c.network with interests := (c.network.interests.next c.listener).2 }
      flow := { c.flow with
        held := FlowControl.holdIn c.flow.limits.maxHeld c.flow.held i } } := by
  rw [handle, Mail.next_of_head? h]
  simp only [FlowControl.receive_eq_none hselect, Option.toList_none, List.append_nil]

/-- Whether the controller takes an object. -/
def Admits (c : LiveController) (o : ContentObject) : Prop :=
  o.Valid ∧ c.flow.covers o.name = true

instance (c : LiveController) (o : ContentObject) : Decidable (c.Admits o) :=
  inferInstanceAs (Decidable (_ ∧ _))

/-- An object that the controller does not take changes nothing. -/
theorem accept_of_not_admits (h : ¬ c.Admits o) : c.accept o = c := if_neg h

/-- An object that answers no held interest is kept. -/
theorem accept_of_none (h : c.Admits o) (hfind : c.flow.held.find? (·.accepts o) = none) :
    c.accept o = { c with flow := (c.flow.keep o).evict } := by
  have hadmits : o.Valid ∧ c.flow.covers o.name = true := h
  rw [accept, if_pos hadmits, FlowControl.accept_eq_none hfind]

/-- An object that answers a held interest is kept, and it is on its way for the oldest one, which
is no longer held. -/
theorem accept_of_some (h : c.Admits o) (hfind : c.flow.held.find? (·.accepts o) = some i) :
    c.accept o = { c with
      flow := { (c.flow.keep o).evict with held := c.flow.held.erase i }
      inFlight := c.inFlight ++ [o] } := by
  have hadmits : o.Valid ∧ c.flow.covers o.name = true := h
  rw [accept, if_pos hadmits, FlowControl.accept_eq_some hfind]

/-- Without an object at the position nothing is handed out. -/
theorem emit_of_none {position : Nat} (h : c.inFlight[position]? = none) (reaches : Bool) :
    c.emit position reaches = c := by
  rw [emit, h]

/-- The object at a position is on its way no longer, whether or not the call reaches the
forwarder. -/
theorem emit_of_some {position : Nat} (h : c.inFlight[position]? = some o) (reaches : Bool) :
    c.emit position reaches = { c with
      network := if reaches then (Network.put o c.network).2 else c.network
      inFlight := c.inFlight.eraseIdx position } := by
  rw [emit, h]
  cases reaches <;> rfl

/-- A turn of the responder leaves the forwarder and the namespaces. -/
theorem handle_keeps (c : LiveController) :
    c.handle.network.forwarder = c.network.forwarder ∧ c.handle.owner = c.owner
      ∧ c.handle.flow.namespaces = c.flow.namespaces := by
  cases hhead : c.queue.head? with
  | none =>
    rw [handle_of_none hhead]
    exact ⟨rfl, rfl, rfl⟩
  | some i =>
    cases hselect : i.select c.flow.objects with
    | some o =>
      rw [handle_of_select hhead hselect]
      exact ⟨rfl, rfl, rfl⟩
    | none =>
      rw [handle_of_hold hhead hselect]
      exact ⟨rfl, rfl, rfl⟩

/-- A turn of the responder leaves the mail of subscribers. -/
theorem handle_objects (c : LiveController) : c.handle.network.objects = c.network.objects := by
  rw [handle]
  split <;> rfl

/-- An object that is put leaves the forwarder and the namespaces. -/
theorem accept_keeps (c : LiveController) (o : ContentObject) :
    (c.accept o).network.forwarder = c.network.forwarder ∧ (c.accept o).owner = c.owner
      ∧ (c.accept o).flow.namespaces = c.flow.namespaces := by
  by_cases hadmits : c.Admits o
  · cases hfind : c.flow.held.find? (·.accepts o) with
    | none =>
      rw [accept_of_none hadmits hfind]
      exact ⟨rfl, rfl, by simp⟩
    | some i =>
      rw [accept_of_some hadmits hfind]
      exact ⟨rfl, rfl, by simp⟩
  · rw [accept_of_not_admits hadmits]
    exact ⟨rfl, rfl, rfl⟩

/-- A call on a namespace touches neither objects nor interests. -/
theorem addNamespace_keeps (c : LiveController) (root : Name) (reaches : Bool) :
    (c.addNamespace root reaches).flow.held = c.flow.held
      ∧ (c.addNamespace root reaches).flow.buffer = c.flow.buffer
      ∧ (c.addNamespace root reaches).inFlight = c.inFlight := by
  rw [addNamespace]
  split
  · exact ⟨rfl, rfl, rfl⟩
  · split <;> exact ⟨rfl, rfl, rfl⟩

/-- Taking a namespace away touches nothing that is held, buffered or on its way. -/
theorem removeNamespace_keeps (c : LiveController) (root : Name) (reaches : Bool) :
    (c.removeNamespace root reaches).flow.held = c.flow.held
      ∧ (c.removeNamespace root reaches).flow.buffer = c.flow.buffer
      ∧ (c.removeNamespace root reaches).inFlight = c.inFlight := by
  rw [removeNamespace]
  split
  · split <;> exact ⟨rfl, rfl, rfl⟩
  · exact ⟨rfl, rfl, rfl⟩

/-- A turn of the responder takes the first interest from the queue. -/
theorem queue_handle (c : LiveController) : c.handle.queue = c.queue.tail := by
  have hrest : (c.network.interests.next c.listener).2.waiting c.listener = c.queue.tail :=
    (Mail.next_eq c.network.interests c.listener).2
  cases hhead : c.queue.head? with
  | none =>
    rw [handle_of_none hhead, List.head?_eq_none_iff.1 hhead]
    rfl
  | some i =>
    rw [← hrest]
    cases hselect : i.select c.flow.objects with
    | some o => rw [handle_of_select hhead hselect, queue]
    | none => rw [handle_of_hold hhead hselect, queue]

/-- **What a step of the controller does to the network**, unless it is a turn of the responder:
the forwarder changes and the deliveries are made. -/
theorem network_take {step : Step} (hhandle : step ≠ .handle)
    (hnetwork : ∀ step', step ≠ .network step') :
    ∃ f, (c.take step).network = c.network.after f (c.deliveries step) := by
  cases step with
  | network step => exact absurd rfl (hnetwork step)
  | handle => exact absurd rfl hhandle
  | accept o =>
    refine ⟨c.network.forwarder, ?_⟩
    rw [take, accept]
    split
    · split <;> rfl
    · rfl
  | emit position reaches =>
    rw [take]
    cases h : c.inFlight[position]? with
    | none =>
      refine ⟨c.network.forwarder, ?_⟩
      cases reaches <;> simp only [emit_of_none h, deliveries, h] <;> rfl
    | some o =>
      rw [emit_of_some h]
      cases reaches with
      | false => exact ⟨c.network.forwarder, rfl⟩
      | true =>
        -- bringing an object is no step of a listener
        obtain ⟨k, hk⟩ | ⟨k, hk⟩ | ⟨f, hf⟩ := Network.take_eq_after c.network (.put o)
        · exact absurd hk (by simp)
        · exact absurd hk (by simp)
        · rw [Network.take, Network.ofAction_snd] at hf
          exact ⟨f, by simpa [deliveries, h] using hf⟩
  | addNamespace root reaches =>
    obtain ⟨f, hf⟩ := Network.step_eq_after (Forwarder.setFilter (c.filter root)) c.network
    rw [take, addNamespace]
    split
    · exact ⟨c.network.forwarder, rfl⟩
    · split
      · next h =>
        rw [Network.setFilter] at h
        rw [h] at hf
        exact ⟨f, hf⟩
      · exact ⟨c.network.forwarder, rfl⟩
  | removeNamespace root reaches =>
    rw [take, removeNamespace]
    split
    · split
      · exact Network.step_eq_after ..
      · exact ⟨c.network.forwarder, rfl⟩
    · exact ⟨c.network.forwarder, rfl⟩

/-- **The queue of the controller after a step** that is no turn of the responder: the interests
that the step delivers come behind, unless somebody else takes the first one. -/
theorem queue_take {step : Step} (hhandle : step ≠ .handle)
    (htake : step ≠ .network (.takeInterest c.listener)) :
    (c.take step).queue = c.queue ++ c.arrivals step := by
  rw [queue, take_listener, queue, arrivals]
  by_cases hnetwork : ∃ step', step = .network step'
  · obtain ⟨step', rfl⟩ := hnetwork
    exact Network.waiting_take fun h => htake (h ▸ rfl)
  · obtain ⟨f, hf⟩ := network_take hhandle fun step' h => hnetwork ⟨step', h⟩
    rw [hf]
    exact Network.waiting_after ..

/-- **The mail of a listener after a step**: the objects that the step hands to it come behind,
unless it takes the first one. -/
theorem objects_take {l : ListenerId} {step : Step} (htake : step ≠ .network (.takeObject l)) :
    (c.take step).network.objects.waiting l
      = c.network.objects.waiting l ++ (c.deliveries step).filterMap (Delivery.objectFor l) := by
  by_cases hnetwork : ∃ step', step = .network step'
  · obtain ⟨step', rfl⟩ := hnetwork
    exact Network.objects_take fun h => htake (h ▸ rfl)
  · by_cases hhandle : step = .handle
    · subst hhandle
      rw [take, handle_objects]
      exact (List.append_nil _).symm
    · obtain ⟨f, hf⟩ := network_take hhandle fun step' h => hnetwork ⟨step', h⟩
      rw [hf]
      exact Network.objects_after ..

end NamedContent.LiveController
