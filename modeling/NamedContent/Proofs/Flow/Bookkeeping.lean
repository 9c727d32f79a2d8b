import Mathlib.Data.List.Nodup
import NamedContent.Proofs.Flow.Ledger

/-! # The ledger of a run is right

The ledger is written beside a run, and what it says of the controller is so after every step: which
interests wait and which are held, which objects are on their way and which were handed over.

* `LiveController.Ledger.Matches`: the ledger tells of a controller
* `LiveController.matches_ledger`: so it is after every run
* `LiveController.Tells`, `LiveController.tells_ledger`: the ledger tells of the run
* `LiveController.numbers`: the interests for which objects are handed over -/

namespace NamedContent.LiveController

variable {l : Ledger} {c : LiveController} {a : Arrival} {o : ContentObject} {steps : List Step}

namespace Ledger

/-! ## The ledger and the controller -/

/-- Whether a ledger accounts for every interest that came and tells of a controller. -/
structure Matches (l : Ledger) (c : LiveController) : Prop extends l.Accounts where
  /-- The interests in the queue are those that wait. -/
  waiting : l.waiting.map (·.1) = c.queue
  /-- The controller holds the interests that are held. -/
  held : l.held.map (·.1) = c.flow.held
  /-- The objects on their way are those of the controller. -/
  onTheWay : l.onTheWay.map (·.object) = c.inFlight

/-- In an empty ledger everything is accounted for. -/
theorem accounts_empty : Accounts {} := ⟨.refl _, by simp [emissions], .nil⟩

/-- The first entries are those of a controller that holds nothing. -/
theorem matches_opening (hheld : c.flow.held = []) (hinFlight : c.inFlight = []) :
    (opening c).Matches c where
  toAccounts := accounts_empty.receive _
  waiting := by simp [opening, receive]
  held := hheld.symm
  onTheWay := hinFlight.symm

namespace Matches

/-- The first interest in the queue. -/
theorem head?_queue (h : l.Matches c) : c.queue.head? = l.waiting.head?.map (·.1) := by
  rw [← h.waiting, List.head?_map]

/-- The interest that an object is chosen for is the same in the ledger and in the controller. -/
theorem find?_held (h : l.Matches c) (o : ContentObject) :
    c.flow.held.find? (·.accepts o) = (l.held.find? (·.1.accepts o)).map (·.1) := by
  rw [← h.held, List.find?_map]
  rfl

/-- A turn of the responder. -/
theorem handle (h : l.Matches c) : (l.handle c).Matches c.handle := by
  have hqueue := h.head?_queue
  have hrest : l.waiting.tail.map (·.1) = c.handle.queue := by
    rw [queue_handle, ← h.waiting, List.map_tail]
  rw [Ledger.handle]
  cases ha : l.waiting.head? with
  | none =>
    rw [ha] at hqueue
    rwa [handle_of_none hqueue]
  | some a =>
    rw [ha] at hqueue
    cases hselect : a.1.select c.flow.objects with
    | some o =>
      -- the first interest has an answer, which goes on its way with its number
      have haccepts : a.1.accepts o = true := by
        have := a.1.answers_select c.flow.objects
        rw [hselect] at this
        exact this.2
      rw [handle_of_select hqueue hselect] at hrest ⊢
      simp only [hselect]
      exact ⟨h.toAccounts.answer ha haccepts, hrest, h.held, by simp [Ledger.answer, h.onTheWay]⟩
    | none =>
      rw [handle_of_hold hqueue hselect] at hrest ⊢
      simp only [hselect]
      -- it has none, and is held: the ledger and the controller drop the same old ones
      refine ⟨h.toAccounts.hold ha _, hrest, ?_, h.onTheWay⟩
      have hlength : l.held.length = c.flow.held.length := by rw [← h.held, List.length_map]
      simp only [Ledger.hold, FlowControl.holdIn, hlength, ← h.held]
      split <;> simp

/-- An object is put. -/
theorem accept (h : l.Matches c) (o : ContentObject) : (l.accept c o).Matches (c.accept o) := by
  rw [Ledger.accept]
  split
  · next hadmits =>
    have hfind := h.find?_held o
    cases ha : l.held.find? (·.1.accepts o) with
    | none =>
      rw [ha] at hfind
      rw [accept_of_none hadmits hfind]
      exact ⟨h.toAccounts, h.waiting, by simp [h.held], h.onTheWay⟩
    | some a =>
      rw [ha] at hfind
      rw [accept_of_some hadmits hfind]
      obtain ⟨before, after, hheld, herase, haccepts, hbefore⟩ := exists_append_of_find? ha
      refine ⟨h.toAccounts.spend (hheld ▸ by simp) haccepts, h.waiting, ?_,
        by simp [Ledger.spend, h.onTheWay]⟩
      -- no interest before the chosen one is equal to it, since none accepts the object
      have hnot : a.1 ∉ before.map (·.1) := by
        intro hmem
        obtain ⟨b, hb, hab⟩ := List.mem_map.1 hmem
        rw [← hab, hbefore b hb] at haccepts
        exact absurd haccepts (by simp)
      simp only [Ledger.spend, herase, ← h.held]
      rw [hheld, List.map_append, List.map_append, List.map_cons, List.erase_append_right _ hnot,
        List.erase_cons_head]
  · next hadmits => rwa [accept_of_not_admits hadmits]

/-- The ledger's object at a position on the way is that of the controller. -/
theorem getElem?_inFlight (h : l.Matches c) (position : Nat) :
    c.inFlight[position]? = l.onTheWay[position]?.map (·.object) := by
  rw [← h.onTheWay, List.getElem?_map]

/-- An object on its way is handed to the forwarder. -/
theorem emit (h : l.Matches c) (position : Nat) (reaches : Bool) :
    (l.emit c position reaches).Accounts
      ∧ (l.emit c position reaches).waiting = l.waiting
      ∧ (l.emit c position reaches).held.map (·.1) = (c.emit position reaches).flow.held
      ∧ (l.emit c position reaches).onTheWay.map (·.object)
        = (c.emit position reaches).inFlight := by
  have hobject := h.getElem?_inFlight position
  rw [Ledger.emit]
  cases he : l.onTheWay[position]? with
  | none =>
    rw [he] at hobject
    rw [emit_of_none hobject]
    exact ⟨h.toAccounts, rfl, h.held, h.onTheWay⟩
  | some e =>
    rw [he] at hobject
    rw [emit_of_some hobject]
    refine ⟨h.toAccounts.hand he _, rfl, h.held, ?_⟩
    simp only [Ledger.hand, ← h.onTheWay, List.eraseIdx_map]

/-- A step of the run moves the interests that are there; those that it brings come behind. -/
theorem move (h : l.Matches c) (step : Step) :
    (l.move c step).Accounts
      ∧ (l.move c step).waiting.map (·.1) ++ c.arrivals step = (c.take step).queue
      ∧ (l.move c step).held.map (·.1) = (c.take step).flow.held
      ∧ (l.move c step).onTheWay.map (·.object) = (c.take step).inFlight := by
  cases step with
  | handle =>
    have hhandle := h.handle
    exact ⟨hhandle.toAccounts, (List.append_nil _).trans hhandle.waiting, hhandle.held,
      hhandle.onTheWay⟩
  | accept o =>
    have haccept := h.accept o
    exact ⟨haccept.toAccounts, (List.append_nil _).trans haccept.waiting, haccept.held,
      haccept.onTheWay⟩
  | emit position reaches =>
    obtain ⟨haccounts, hwaiting, hheld, honTheWay⟩ := h.emit position reaches
    refine ⟨haccounts, ?_, hheld, honTheWay⟩
    rw [Ledger.move, hwaiting, h.waiting]
    exact (queue_take (by simp) (by simp)).symm
  | addNamespace root reaches =>
    obtain ⟨hheld, -, hinFlight⟩ := addNamespace_keeps c root reaches
    refine ⟨h.toAccounts, ?_, h.held.trans hheld.symm, h.onTheWay.trans hinFlight.symm⟩
    rw [Ledger.move, h.waiting]
    · exact (queue_take (by simp) (by simp)).symm
    all_goals simp
  | removeNamespace root reaches =>
    obtain ⟨hheld, -, hinFlight⟩ := removeNamespace_keeps c root reaches
    refine ⟨h.toAccounts, ?_, h.held.trans hheld.symm, h.onTheWay.trans hinFlight.symm⟩
    rw [Ledger.move, h.waiting]
    · exact (queue_take (by simp) (by simp)).symm
    all_goals simp
  | network step =>
    by_cases htake : step = .takeInterest c.listener
    · -- somebody else takes the first interest
      subst htake
      simp only [Ledger.move, if_pos]
      refine ⟨h.toAccounts.divert, ?_, h.held, h.onTheWay⟩
      have hqueue : (c.take (.network (.takeInterest c.listener))).queue = c.queue.tail :=
        Network.waiting_takeInterest ..
      rw [hqueue, ← h.waiting, ← List.map_tail]
      exact List.append_nil _
    · -- no other step of others touches the interests that are there
      have hmove : l.move c (.network step) = l := by
        cases step with
        | takeInterest k => exact if_neg fun hk : k = c.listener => htake (hk ▸ rfl)
        | _ => rfl
      rw [hmove]
      refine ⟨h.toAccounts, ?_, h.held, h.onTheWay⟩
      rw [h.waiting]
      exact (queue_take (by simp) (mt Step.network.inj htake)).symm

/-- **A step of a run keeps the ledger right.** -/
theorem record (h : l.Matches c) (step : Step) : (l.record c step).Matches (c.take step) := by
  obtain ⟨haccounts, hwaiting, hheld, honTheWay⟩ := h.move step
  refine ⟨haccounts.receive _, ?_, hheld, honTheWay⟩
  rw [Ledger.record, Ledger.receive, List.map_append, List.zipIdx_map_fst, hwaiting]

/-- A ledger goes on with its controller. By induction on the steps. -/
theorem recordAll (h : l.Matches c) (steps : List Step) :
    (l.recordAll steps c).Matches (run steps c) := by
  induction steps generalizing l c with
  | nil => exact h
  | cons step rest ih => exact ih (h.record step)

/-- The ledger's objects are those that the controller hands over. -/
theorem map_handing (h : l.Matches c) (step : Step) :
    (l.handing c step).map (fun e => (e.1.object, e.2)) = c.handing step := by
  cases step with
  | emit position reaches =>
    rw [Ledger.handing, LiveController.handing, h.getElem?_inFlight]
    cases l.onTheWay[position]? <;> rfl
  | _ => rfl

end Matches

/-- A run adds to what came just what was delivered in it. -/
theorem recordAll_came (l : Ledger) (steps : List Step) (c : LiveController) :
    (l.recordAll steps c).came = l.came ++ delivered steps c := by
  induction steps generalizing l c with
  | nil => exact (List.append_nil _).symm
  | cons step rest ih =>
    rw [recordAll, ih, record, receive, move_came, List.append_assoc]
    rfl

/-- What was handed out is never struck out. -/
theorem handed_prefix_recordAll (l : Ledger) (steps : List Step) (c : LiveController) :
    l.handed <+: (l.recordAll steps c).handed := by
  induction steps generalizing l c with
  | nil => exact List.prefix_rfl
  | cons step rest ih =>
    refine .trans ?_ (ih (l.record c step) (c.take step))
    rw [record, receive, move_handed]
    exact List.prefix_append ..

/-- A run adds to what was handed out just what it tried to hand out. -/
theorem Matches.recordAll_handed (h : l.Matches c) (steps : List Step) :
    (l.recordAll steps c).handed.map (fun e => (e.1.object, e.2))
      = l.handed.map (fun e => (e.1.object, e.2)) ++ attempts steps c := by
  induction steps generalizing l c with
  | nil => exact (List.append_nil _).symm
  | cons step rest ih =>
    rw [Ledger.recordAll, ih (h.record step), Ledger.record, Ledger.receive, move_handed,
      List.map_append, h.map_handing, List.append_assoc]
    rfl

end Ledger

/-! ## A whole run -/

/-- **After every run the ledger is right**: it tells of the controller, and each interest that came
has one place in it. -/
theorem matches_ledger (hheld : c.flow.held = []) (hinFlight : c.inFlight = [])
    (steps : List Step) :
    (ledger steps c).Matches (run steps c) :=
  (Ledger.matches_opening hheld hinFlight).recordAll steps

/-- The interests in the ledger of a run are those that came. -/
theorem came_ledger (steps : List Step) (c : LiveController) :
    (ledger steps c).came = c.queue ++ delivered steps c := by
  rw [ledger, Ledger.recordAll_came]
  rfl

/-- The objects in the ledger of a run are those that the controller handed over. -/
theorem handed_ledger (hheld : c.flow.held = []) (hinFlight : c.inFlight = []) (steps : List Step) :
    (ledger steps c).handed.map (fun e => (e.1.object, e.2)) = attempts steps c :=
  (Ledger.matches_opening hheld hinFlight).recordAll_handed steps

/-- What the ledger of a run tells. -/
structure Tells (steps : List Step) (c : LiveController) : Prop where
  /-- It lists the interests that came, -/
  came : (ledger steps c).came = c.queue ++ delivered steps c
  /-- tells which of them wait in the queue -/
  waiting : (ledger steps c).waiting.map (·.1) = (run steps c).queue
  /-- and which ones the controller holds, the oldest first, -/
  held : (ledger steps c).held.map (·.1) = (run steps c).flow.held
  ordered : (ledger steps c).held.Pairwise fun a b => a.2 < b.2
  /-- lists the objects that are on their way -/
  onTheWay : (ledger steps c).onTheWay.map (·.object) = (run steps c).inFlight
  /-- and those that were handed to the forwarder, and whether it took them. -/
  handed : (ledger steps c).handed.map (fun e => (e.1.object, e.2)) = attempts steps c

/-- The numbers that a ledger gives tell what became of each interest. -/
theorem tells_ledger (hheld : c.flow.held = []) (hinFlight : c.inFlight = []) (steps : List Step) :
    Tells steps c :=
  have h := matches_ledger hheld hinFlight steps
  ⟨came_ledger steps c, h.waiting, h.held, (List.pairwise_append.1 h.ordered).1, h.onTheWay,
    handed_ledger hheld hinFlight steps⟩

/-- The numbers of the interests for which a run hands objects over. -/
def numbers (steps : List Step) (c : LiveController) : List Nat :=
  (ledger steps c).handed.map (·.1.arrival.2)

/-- More steps add numbers at the end. -/
theorem numbers_prefix (first rest : List Step) (c : LiveController) :
    numbers first c <+: numbers (first ++ rest) c := by
  rw [numbers, numbers, ledger_append]
  exact (Ledger.handed_prefix_recordAll ..).map _

section Numbers

variable (hheld : c.flow.held = []) (hinFlight : c.inFlight = [])

include hheld hinFlight

/-- There is one number for each object that was handed out. -/
theorem length_numbers (steps : List Step) :
    (numbers steps c).length = (handedOut steps c).length := by
  rw [numbers, handedOut, ← handed_ledger hheld hinFlight]
  simp only [List.length_map]

/-- No number is given twice. -/
theorem nodup_numbers (steps : List Step) : (numbers steps c).Nodup := by
  have hnodup := (matches_ledger hheld hinFlight steps).nodup
  simp only [Ledger.places, Ledger.emissions, List.map_append, List.map_map, List.append_assoc]
    at hnodup
  exact (List.nodup_append.1 hnodup).1

/-- An object matches the interest for which it is handed over. -/
theorem accepts_numbers (steps : List Step) {k n : Nat} (hn : (numbers steps c)[k]? = some n)
    (ho : (handedOut steps c)[k]? = some o) :
    ∃ i, (c.queue ++ delivered steps c)[n]? = some i ∧ i.accepts o = true := by
  have h := matches_ledger hheld hinFlight steps
  rw [numbers, List.getElem?_map, Option.map_eq_some_iff] at hn
  obtain ⟨e, he, rfl⟩ := hn
  rw [handedOut, ← handed_ledger hheld hinFlight, List.map_map, List.getElem?_map, he] at ho
  obtain rfl := Option.some.inj ho
  have hmem : e.1 ∈ (ledger steps c).emissions :=
    List.mem_append_left _ (List.mem_map_of_mem (List.mem_of_getElem? he))
  exact ⟨e.1.arrival.1, came_ledger steps c ▸ h.getElem?_came_of_emission hmem, h.accepts _ hmem⟩

/-- What a step hands over is for an interest that came before. -/
theorem lt_of_mem_numbers {first : List Step} {step : Step} {n : Nat}
    (hn : n ∈ numbers (first ++ [step]) c) : n < (c.queue ++ delivered first c).length := by
  have h := matches_ledger hheld hinFlight first
  obtain ⟨e, he, rfl⟩ := List.mem_map.1 hn
  rw [ledger_concat, Ledger.record, Ledger.receive, Ledger.move_handed] at he
  have hmem : e.1 ∈ (ledger first c).emissions := by
    rcases List.mem_append.1 he with he | he
    · exact List.mem_append_left _ (List.mem_map_of_mem he)
    · exact Ledger.mem_emissions_of_mem_handing he
  rw [← came_ledger]
  exact (List.getElem?_eq_some_iff.1 (h.getElem?_came_of_emission hmem)).1

/-- **Each object handed over has an interest of its own**, that with its number. -/
theorem exists_interest_of_handed (steps : List Step) :
    ∃ f : Fin (handedOut steps c).length → Fin (c.queue ++ delivered steps c).length,
      f.Injective
        ∧ (∀ k, (c.queue ++ delivered steps c)[f k].accepts (handedOut steps c)[k] = true)
        ∧ ∀ first step rest, steps = first ++ step :: rest →
          ∀ k, k.1 < (handedOut (first ++ [step]) c).length →
            (f k).1 < (c.queue ++ delivered first c).length := by
  have hlength := length_numbers hheld hinFlight
  -- the number of an object that was handed over is that of an interest it answers
  have hmatch (k : Fin (handedOut steps c).length) :
      ∃ i, (c.queue ++ delivered steps c)[(numbers steps c).get (k.cast (hlength steps).symm)]?
        = some i ∧ i.accepts (handedOut steps c)[k] = true :=
    accepts_numbers hheld hinFlight (k := k) steps (by simp) (by simp)
  have hlt (k) := (List.getElem?_eq_some_iff.1 (hmatch k).choose_spec.1).1
  refine ⟨fun k => ⟨_, hlt k⟩, fun j k hjk => ?_, fun k => ?_, ?_⟩
  · have hsame := (nodup_numbers hheld hinFlight steps).injective_get (Fin.mk.inj hjk)
    exact Fin.ext (Fin.mk.inj hsame)
  · obtain ⟨i, hi, haccepts⟩ := hmatch k
    rwa [← (List.getElem?_eq_some_iff.1 hi).2] at haccepts
  · -- what was handed over in the first steps has the numbers that it had by then
    rintro first step rest rfl k hk
    have hleading := numbers_prefix (first ++ [step]) rest c
    rw [← List.append_cons] at hleading
    have hk' : k.1 < (numbers (first ++ [step]) c).length := (hlength _).symm ▸ hk
    have hmem := List.getElem_mem hk'
    rw [hleading.getElem hk'] at hmem
    exact lt_of_mem_numbers hheld hinFlight hmem

end Numbers

end NamedContent.LiveController
