import Mathlib.Data.List.Induction
import NamedContent.Proofs.Flow.Bookkeeping

/-! # Flow balance

A controller lets an object out only in answer to an interest, and no interest answers for two
objects. Whatever the order of its steps and those of others, and whichever calls fail, the ledger
of the run shows it.

* `LiveController.PutIn`: an object was put into the controller
* `LiveController.flow_balance`: the main theorem -/

namespace NamedContent.LiveController

variable {c : LiveController} {steps : List Step} {o : ContentObject}

/-! ## Objects were put -/

/-- Whether an object was put into the controller in a run, below a namespace that it had then. -/
def PutIn (steps : List Step) (c : LiveController) (o : ContentObject) : Prop :=
  ∃ first rest, steps = first ++ .accept o :: rest ∧ o.Valid
    ∧ ∃ root ∈ (run first c).flow.namespaces, root.isPrefixOf o.name = true

/-- What was put in a run was put when the run goes on. -/
theorem PutIn.append {first : List Step} (h : PutIn first c o) (rest : List Step) :
    PutIn (first ++ rest) c o := by
  obtain ⟨before, after, rfl, hput⟩ := h
  exact ⟨before, after ++ rest, by simp, hput⟩

/-- Whether a controller has an object: it is kept, or on its way. -/
def Has (c : LiveController) (o : ContentObject) : Prop := o ∈ c.flow.objects ∨ o ∈ c.inFlight

/-- What a controller has after a step it had before, or it was put. -/
theorem has_take {step : Step} (h : (c.take step).Has o) :
    c.Has o ∨ step = .accept o ∧ c.Admits o := by
  cases step with
  | network step => exact .inl h
  | handle =>
    rw [take] at h
    cases hhead : c.queue.head? with
    | none =>
      rw [handle_of_none hhead] at h
      exact .inl h
    | some i =>
      cases hselect : i.select c.flow.objects with
      | none =>
        rw [handle_of_hold hhead hselect] at h
        exact .inl h
      | some p =>
        rw [handle_of_select hhead hselect] at h
        have hp := i.answers_select c.flow.objects
        rw [hselect] at hp
        rcases h with h | h
        · exact .inl (.inl h)
        · rcases List.mem_append.1 h with h | h
          · exact .inl (.inr h)
          · rw [List.mem_singleton.1 h]
            exact .inl (.inl hp.1)
  | accept p =>
    -- only here something new comes in
    rw [take] at h
    by_cases hadmits : c.Admits p
    · have kept (hmem : o ∈ (c.flow.keep p).evict.objects) :
          c.Has o ∨ Step.accept p = .accept o ∧ c.Admits o := by
        rcases FlowControl.mem_objects_keep (FlowControl.mem_objects_evict hmem) with rfl | hmem
        · exact .inr ⟨rfl, hadmits⟩
        · exact .inl (.inl hmem)
      cases hfind : c.flow.held.find? (·.accepts p) with
      | none =>
        rw [accept_of_none hadmits hfind] at h
        exact h.elim kept fun h => .inl (.inr h)
      | some i =>
        rw [accept_of_some hadmits hfind] at h
        rcases h with h | h
        · exact kept h
        · rcases List.mem_append.1 h with h | h
          · exact .inl (.inr h)
          · obtain rfl := List.mem_singleton.1 h
            exact .inr ⟨rfl, hadmits⟩
    · rw [accept_of_not_admits hadmits] at h
      exact .inl h
  | emit position reaches =>
    rw [take] at h
    cases ho : c.inFlight[position]? with
    | none =>
      rw [emit_of_none ho] at h
      exact .inl h
    | some p =>
      rw [emit_of_some ho] at h
      exact .inl (h.imp id List.mem_of_mem_eraseIdx)
  | addNamespace root reaches =>
    obtain ⟨-, hbuffer, hinFlight⟩ := addNamespace_keeps c root reaches
    rw [take, Has, FlowControl.objects, hbuffer, hinFlight] at h
    exact .inl h
  | removeNamespace root reaches =>
    obtain ⟨-, hbuffer, hinFlight⟩ := removeNamespace_keeps c root reaches
    rw [take, Has, FlowControl.objects, hbuffer, hinFlight] at h
    exact .inl h

/-- **What a controller has was put into it**, by induction on the run, with the last step split
off. -/
theorem putIn_of_has (hnew : ¬ ∃ o, c.Has o) (steps : List Step) (h : (run steps c).Has o) :
    PutIn steps c o := by
  induction steps using List.reverseRecOn with
  | nil => exact absurd ⟨o, h⟩ hnew
  | append_singleton steps step ih =>
    rw [run_append] at h
    rcases has_take h with h | ⟨rfl, hvalid, hcovers⟩
    · exact (ih h).append [step]
    · obtain ⟨root, hroot, hleading⟩ := List.any_eq_true.1 hcovers
      exact ⟨steps, [], rfl, hvalid, root, hroot, hleading⟩

/-! ## The balance -/

/-- How a run keeps interests and objects in balance. Its ledger, and that of every run on the way,
follows each interest by its number. -/
structure Balance (steps : List Step) (c : LiveController) : Prop extends Tells steps c where
  /-- Each interest that came is in one place: an object was chosen for it, it is held, it waits in
  the queue, it gave way, or somebody else took it. -/
  places : (ledger steps c).places.Perm (ledger steps c).came.zipIdx
  /-- Each object handed over has an interest of its own that it matches, and that came before. -/
  matched : ∃ f : Fin (handedOut steps c).length → Fin (c.queue ++ delivered steps c).length,
    f.Injective
      ∧ (∀ k, (c.queue ++ delivered steps c)[f k].accepts (handedOut steps c)[k] = true)
      ∧ ∀ first step rest, steps = first ++ step :: rest →
        ∀ k, k.1 < (handedOut (first ++ [step]) c).length →
          (f k).1 < (c.queue ++ delivered first c).length
  /-- Only the interest that is held longest gives way, to a new one and at the limit. -/
  evicted : ∀ first step rest, steps = first ++ step :: rest →
    (ledger (first ++ [step]) c).evicted = (ledger first c).evicted
      ∨ step = .handle ∧ (run first c).flow.limits.maxHeld ≤ (ledger first c).held.length
        ∧ ∃ a, (ledger first c).held.head? = some a
          ∧ (ledger (first ++ [step]) c).evicted = (ledger first c).evicted ++ [a]
  /-- An object that is put is chosen for the interest that is held longest of those it matches. -/
  oldest : ∀ first o rest, steps = first ++ .accept o :: rest → (run first c).Admits o →
    ∀ a, (ledger first c).held.find? (·.1.accepts o) = some a →
      (ledger (first ++ [.accept o]) c).held = (ledger first c).held.erase a
        ∧ (ledger (first ++ [.accept o]) c).onTheWay = (ledger first c).onTheWay ++ [⟨a, o⟩]
  /-- Every object handed over was put below a namespace that the controller had then. -/
  putIn : ∀ o ∈ handedOut steps c, PutIn steps c o

/-- **Flow balance.** In every run of a controller among others, whatever the order of the steps and
whichever calls fail, each object that it hands to the forwarder has an interest of its own. -/
theorem flow_balance (network : Network) (owner : OwnerId) (listener : ListenerId)
    (limits : FlowLimits) (steps : List Step) :
    Balance steps (start network owner listener limits) := by
  generalize hc : start network owner listener limits = c
  have hheld : c.flow.held = [] := hc ▸ rfl
  have hinFlight : c.inFlight = [] := hc ▸ rfl
  have hnew : ¬ ∃ o, c.Has o := by
    rintro ⟨o, h | h⟩ <;> subst hc <;> exact absurd h List.not_mem_nil
  refine ⟨tells_ledger hheld hinFlight steps, (matches_ledger hheld hinFlight steps).places,
    exists_interest_of_handed hheld hinFlight steps, ?_, ?_, ?_⟩
  · -- only the oldest interests give way
    rintro first step rest -
    rw [ledger_concat]
    exact Ledger.evicted_record ..
  · -- an object that is put answers the oldest interest that it matches
    rintro first o rest - hadmits a ha
    rw [ledger_concat]
    simp only [Ledger.record, Ledger.receive, Ledger.move, Ledger.accept, if_pos hadmits, ha]
    exact ⟨rfl, rfl⟩
  · -- what is handed over was on its way, and so was put before
    intro o ho
    obtain ⟨⟨o, taken⟩, hattempt, rfl⟩ := List.mem_map.1 ho
    obtain ⟨first, step, rest, rfl, hhanding⟩ := mem_trace hattempt
    exact (putIn_of_has hnew first (.inr (mem_inFlight_of_mem_handing hhanding))).append _

end NamedContent.LiveController
