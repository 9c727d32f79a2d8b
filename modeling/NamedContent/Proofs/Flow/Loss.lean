import NamedContent.Proofs.Flow.Bookkeeping
import NamedContent.Proofs.Node.CutShort

/-! # Interests that are lost

An interest for which an object is chosen is held no longer, and only then the object is handed
over. When that call fails, the interest is neither answered nor held: it is lost. Otherwise an
interest leaves without an answer only as the oldest one at the limit.

* `LiveController.Ledger.lost`: what was handed over in vain
* `Node.publish_lost`, `Node.publish_unwanted`: a put that fails, and one that answers no interest
* `LiveController.interests_lost`: the main theorem -/

namespace NamedContent

/-! ## Puts that fail -/

namespace Node

variable {s : Node} {id : ControllerId} {c : Controller} {o : ContentObject}

/-- An object that a call could not hand over is valid and lies in a namespace. -/
theorem admitted_of_publish_error (hc : s.controller? id = some c) {cause : FaceError}
    (h : (publish id o s).1 = .error (.face cause)) :
    o.validate = .ok () ∧ c.flow.covers o.name = true := by
  cases hvalid : o.validate with
  | error e => exact absurd h (by simp [publish, hvalid, mapError_error, Action.bind_run])
  | ok u =>
    cases hcovers : c.flow.covers o.name with
    | false =>
      exact absurd h (by
        simp [publish, hvalid, hcovers, mapError_ok, Action.bind_run, withController, hc])
    | true => exact ⟨rfl, rfl⟩

/-- **A put whose call fails** takes the oldest interest that the object answers out of those held,
and nothing goes out. -/
theorem publish_lost (hc : s.controller? id = some c) {cause : FaceError}
    (h : (publish id o s).1 = .error (.face cause)) :
    (publish id o s).2.network = s.network
      ∧ ∃ before i after, c.flow.held = before ++ i :: after ∧ i.accepts o = true
        ∧ (∀ j ∈ before, j.accepts o = false)
        ∧ ∃ flow, (publish id o s).2.controller? id = some { c with flow }
          ∧ flow.held = before ++ after ∧ flow.namespaces = c.flow.namespaces := by
  obtain ⟨hvalid, hcovers⟩ := admitted_of_publish_error hc h
  obtain ⟨hok, -⟩ | ⟨-, -, ⟨j, hj, hjo⟩, hagrees⟩ := publish_cases hvalid hc hcovers
  · exact absurd (hok.symm.trans h) (by simp)
  -- the call comes after the interest was taken out of those held
  have hretained : retained id s o = s.setFlow id (c.flow.accept o).2 := by rw [retained, hc]
  rw [hretained] at hagrees
  refine ⟨hagrees.network, ?_⟩
  cases hfind : c.flow.held.find? (·.accepts o) with
  | none => exact absurd hjo (List.find?_eq_none.1 hfind j hj)
  | some i =>
    obtain ⟨before, after, hheld, herase, haccepts, hbefore⟩ := exists_append_of_find? hfind
    refine ⟨before, i, after, hheld, haccepts, hbefore, (c.flow.accept o).2, ?_, ?_, by simp⟩
    · rw [hagrees.controllers, controller?_setFlow, hc]
      simp
    · rw [FlowControl.accept_eq_some hfind]
      exact herase

/-- An object that answers no held interest goes nowhere. -/
theorem publish_unwanted (hvalid : o.validate = .ok ()) (hc : s.controller? id = some c)
    (hcovers : c.flow.covers o.name = true) (h : ∀ i ∈ c.flow.held, i.accepts o = false) :
    (publish id o s).1 = .ok () ∧ (publish id o s).2.network = s.network := by
  have hfind : c.flow.held.find? (·.accepts o) = none :=
    List.find?_eq_none.2 fun i hi => by simp [h i hi]
  rw [publish, hvalid]
  simp only [mapError_ok, Action.bind_run, Action.ofExcept_run, withController, hc, hcovers,
    Bool.not_true, Bool.false_eq_true, if_false, FlowControl.accept_eq_none hfind]
  exact ⟨rfl, rfl⟩

end Node

namespace LiveController

variable {l : Ledger} {c : LiveController} {e : Emission}

/-! ## Calls that fail -/

namespace Ledger

/-- The objects that the forwarder took. -/
def answered (l : Ledger) : List Emission := (l.handed.filter (·.2)).map (·.1)

/-- The objects that were handed over in vain. -/
def lost (l : Ledger) : List Emission := (l.handed.filter (!·.2)).map (·.1)

/-- What was handed over is answered or lost. -/
theorem handed_perm (l : Ledger) : (l.answered ++ l.lost).Perm (l.handed.map (·.1)) := by
  rw [answered, lost, ← List.map_append]
  exact (List.filter_append_perm _ _).map _

/-- The places where an interest can be, in another order. -/
theorem places_perm (l : Ledger) :
    (l.waiting ++ l.held ++ (l.onTheWay ++ l.answered ++ l.lost).map (·.arrival) ++ l.evicted
      ++ l.diverted).Perm l.places := by
  refine List.perm_iff_count.2 fun a => ?_
  have hhanded := (l.handed_perm.map (·.arrival)).count_eq a
  simp only [places, emissions, List.map_append, List.count_append] at hhanded ⊢
  omega

/-- An object that was chosen stays chosen. -/
theorem mem_emissions_record (h : e ∈ l.emissions) (c : LiveController) (step : Step) :
    e ∈ (l.record c step).emissions := by
  rw [emissions, List.mem_append] at h
  rw [record, receive, emissions, List.mem_append]
  obtain heq | ⟨-, a, -, ⟨o, -, heq⟩ | ⟨-, heq⟩⟩ | ⟨o, a, -, -, -, heq⟩ | ⟨k, r, d, -, hd, heq⟩
    | ⟨-, heq⟩ := l.move_cases c step <;> rw [heq]
  case inr.inr.inr.inl =>
    -- the object handed over passes from one list to the other
    obtain ⟨hlt, rfl⟩ := List.getElem?_eq_some_iff.1 hd
    rw [← (List.getElem_cons_eraseIdx_perm hlt).mem_iff, List.mem_cons] at h
    simp only [hand, List.map_append, List.mem_append, List.map_cons, List.map_nil,
      List.mem_singleton]
    tauto
  case inr.inl.inl => exact h.imp_right (List.mem_append_left _)
  case inr.inr.inl => exact h.imp_right (List.mem_append_left _)
  all_goals exact h

/-- What was let out stays recorded. By induction on the steps. -/
theorem mem_emissions_recordAll (h : e ∈ l.emissions) (steps : List Step) (c : LiveController) :
    e ∈ (l.recordAll steps c).emissions := by
  induction steps generalizing l c with
  | nil => exact h
  | cons step rest ih => exact ih (mem_emissions_record h c step) (c.take step)

/-- An interest for which an object was chosen neither waits nor is held. -/
theorem Accounts.not_mem_of_emission (h : l.Accounts) (he : e ∈ l.emissions) :
    e.arrival ∉ l.waiting ++ l.held := by
  intro hmem
  -- the places of a ledger overlap nowhere, and the interest already has one
  have hnodup := h.nodup.of_map
  have hchosen : e.arrival ∈ l.emissions.map (·.arrival) := List.mem_map_of_mem he
  rw [List.nodup_iff_count_le_one] at hnodup
  have hcount := hnodup e.arrival
  have hpos := List.count_pos_iff.2 hchosen
  have hpos' := List.count_pos_iff.2 hmem
  simp only [Ledger.places, List.count_append] at hcount hpos'
  omega

end Ledger

/-- How interests leave a controller in a run. Its ledger, and that of every run on the way, follows
each interest by its number. -/
structure Losses (steps : List Step) (c : LiveController) : Prop extends Tells steps c where
  /-- Each interest that came is in one place: it waits in the queue, is held, its object is on its
  way or was taken, it is lost, it gave way, or somebody else took it. -/
  places : ((ledger steps c).waiting ++ (ledger steps c).held
    ++ ((ledger steps c).onTheWay ++ (ledger steps c).answered ++ (ledger steps c).lost).map
      (·.arrival)
    ++ (ledger steps c).evicted ++ (ledger steps c).diverted).Perm (ledger steps c).came.zipIdx
  /-- An interest is lost with each object that is handed over in vain, and only so. -/
  lost : (ledger steps c).lost.map (·.object) = failures steps c
  /-- An interest for which an object was chosen is never held again, whatever becomes of the
  call. -/
  spent : ∀ first rest, steps = first ++ rest → ∀ e ∈ (ledger first c).emissions,
    e.arrival ∉ (ledger steps c).waiting ++ (ledger steps c).held
  /-- Only the interest that is held longest gives way, to a new one and at the limit. -/
  evicted : ∀ first step rest, steps = first ++ step :: rest →
    (ledger (first ++ [step]) c).evicted = (ledger first c).evicted
      ∨ step = .handle ∧ (run first c).flow.limits.maxHeld ≤ (ledger first c).held.length
        ∧ ∃ a, (ledger first c).held.head? = some a
          ∧ (ledger (first ++ [step]) c).evicted = (ledger first c).evicted ++ [a]

/-- The ledger tells what was lost. -/
theorem losses_ledger (hheld : c.flow.held = []) (hinFlight : c.inFlight = [])
    (steps : List Step) : Losses steps c := by
  have h := matches_ledger hheld hinFlight steps
  refine ⟨tells_ledger hheld hinFlight steps, (ledger steps c).places_perm.trans h.places, ?_,
    ?_, ?_⟩
  · rw [failures, ← handed_ledger hheld hinFlight, List.filter_map, Ledger.lost, List.map_map,
      List.map_map]
    rfl
  · rintro first rest rfl e he
    refine h.not_mem_of_emission ?_
    rw [ledger_append]
    exact Ledger.mem_emissions_recordAll he rest _
  · rintro first step rest -
    rw [ledger_concat]
    exact Ledger.evicted_record ..

/-- **How interests leave a flow controller.** In every run, whichever calls fail, an interest
leaves without an answer as the oldest one at the limit, or with an object whose call fails. So when
a put reports such a failure, the oldest interest that the object answers is held no longer, and
putting the object again lets it out only if another one is. -/
theorem interests_lost (network : Network) (owner : OwnerId) (listener : ListenerId)
    (limits : FlowLimits) (steps : List Step) :
    Losses steps (start network owner listener limits)
      ∧ ∀ (s : Node) (id : ControllerId) (d : Controller) (o : ContentObject) (cause : FaceError),
        s.controller? id = some d → (Node.publish id o s).1 = .error (.face cause) →
        (Node.publish id o s).2.network = s.network
          ∧ ∃ before i after, d.flow.held = before ++ i :: after ∧ i.accepts o = true
            ∧ (∀ j ∈ before, j.accepts o = false)
            ∧ (∃ flow, (Node.publish id o s).2.controller? id = some { d with flow }
              ∧ flow.held = before ++ after)
            ∧ ((∀ j ∈ after, j.accepts o = false) →
              (Node.publish id o (Node.publish id o s).2).1 = .ok ()
                ∧ (Node.publish id o (Node.publish id o s).2).2.network = s.network) := by
  refine ⟨losses_ledger rfl rfl steps, fun s id d o cause hd hfails => ?_⟩
  obtain ⟨hvalid, hcovers⟩ := Node.admitted_of_publish_error hd hfails
  obtain ⟨hnetwork, before, i, after, hheld, haccepts, hbefore, flow, hflow, hleft, hnamespaces⟩ :=
    Node.publish_lost hd hfails
  refine ⟨hnetwork, before, i, after, hheld, haccepts, hbefore, ⟨flow, hflow, hleft⟩,
    fun hafter => ?_⟩
  have hcovers' : flow.covers o.name = true := by rwa [FlowControl.covers, hnamespaces]
  -- put again, the object meets none that is held and wants it
  have hagain := Node.publish_unwanted hvalid hflow hcovers' (by
    intro j hj
    rw [hleft] at hj
    exact (List.mem_append.1 hj).elim (hbefore j) (hafter j))
  exact ⟨hagain.1, hagain.2.trans hnetwork⟩

/-- Of two interests that an object answers one is lost when its put fails. -/
theorem interests_lost_first :
    let o : ContentObject :=
      ⟨⟨[⟨[97]⟩, ⟨[49]⟩]⟩, ⟨default, ⟨0⟩, .data, none, none⟩, [1], none⟩
    let held : List Interest := [.below ⟨[⟨[97]⟩]⟩, .below .root]
    let d : Controller :=
      ⟨⟨7⟩, ⟨1⟩, { FlowControl.new {} with namespaces := OrderedSet.empty.insert .root, held }⟩
    let s : Node :=
      { Node.new 8 ⟨0⟩ with
        controllers := [(⟨1⟩, d)], schedule := [{ failure := some (.io "link down") }] }
    (Node.publish ⟨1⟩ o s).1 = .error (.face (.transport (.io "link down")))
      ∧ (Node.publish ⟨1⟩ o s).2.network = s.network
      ∧ ∃ before i after, held = before ++ i :: after ∧ i.accepts o = true
        ∧ ∃ flow, (Node.publish ⟨1⟩ o s).2.controller? ⟨1⟩ = some { d with flow }
          ∧ flow.held = before ++ after := by
  intro o held d s
  have hfails : (Node.publish ⟨1⟩ o s).1 = .error (.face (.transport (.io "link down"))) := by
    decide +kernel
  obtain ⟨hnetwork, before, i, after, hheld, haccepts, -, hflow, -⟩ :=
    (interests_lost (.new 8) ⟨7⟩ ⟨1⟩ {} []).2 s ⟨1⟩ d o _ rfl hfails
  exact ⟨hfails, hnetwork, before, i, after, hheld, haccepts, hflow⟩

/-- **A put that fails loses the interest.** A get waits and its interest is held; the put of an
object that answers it fails, and when the object is put again, no call is made and the get still
waits. -/
theorem failed_put_loses_interest :
    let root : Name := ⟨[⟨[97]⟩]⟩
    let i : Interest := .below ⟨[⟨[97]⟩, ⟨[120]⟩]⟩
    let o : ContentObject :=
      ⟨⟨[⟨[97]⟩, ⟨[120]⟩, ⟨[49]⟩]⟩, ⟨default, ⟨0⟩, .data, none, none⟩, [1], none⟩
    let made := Node.openController (ε := Empty) ⟨7⟩ {} (Node.new 8 ⟨0⟩)
    let added := (Node.addNamespace ⟨1⟩ root made.2).2
    let asked := ({ added with network := (Network.beginGet i true added.network).2 } : Node).settle
    let failed := Node.publish ⟨1⟩ o
      { asked with schedule := [{ failure := some (.io "link down") }] }
    let again := Node.publish ⟨1⟩ o failed.2
    (asked.controller? ⟨1⟩).map (·.flow.held) = some [i]
      ∧ i.accepts o = true
      ∧ failed.1 = .error (.face (.transport (.io "link down")))
      ∧ (failed.2.controller? ⟨1⟩).map (·.flow.held) = some []
      ∧ (failed.2.controller? ⟨1⟩).map (·.flow.objects) = some [o]
      ∧ again.1 = .ok ()
      ∧ again.2.calls = failed.2.calls
      ∧ again.2.network.forwarder.pending = [⟨0, i, none⟩] := by
  decide +kernel

end LiveController

end NamedContent
