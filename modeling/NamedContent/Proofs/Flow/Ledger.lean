import Mathlib.Data.List.Perm.Basic
import NamedContent.Proofs.Flow.Traces

/-! # The ledger of a flow controller

Two interests may be equal, and then the state of a controller does not tell which of them it holds.
A ledger beside a run gives every interest that comes a number and follows it from there: it waits
in the queue, is held, gives way to a new one, or an object is chosen for it, which is on its way to
the forwarder and then handed over.

* `LiveController.Ledger`: what is written down, with `Ledger.record` for one step
* `LiveController.ledger`: the ledger of a run
* `LiveController.Ledger.move_cases`: what a step does with the interests that are there
* `LiveController.Ledger.Accounts`: each interest has one place -/

namespace NamedContent

/-- The first element of a list with a property parts the list. -/
theorem exists_append_of_find? {α : Type} [BEq α] [LawfulBEq α] {p : α → Bool} {xs : List α} {a : α}
    (h : xs.find? p = some a) :
    ∃ before after, xs = before ++ a :: after ∧ xs.erase a = before ++ after ∧ p a = true
      ∧ ∀ b ∈ before, p b = false := by
  obtain ⟨ha, before, after, rfl, hbefore⟩ := List.find?_eq_some_iff_append.1 h
  have hnone : ∀ b ∈ before, p b = false := fun b hb => by simpa using hbefore b hb
  have hnot : a ∉ before := fun hmem => by simp [hnone a hmem] at ha
  refine ⟨before, after, rfl, ?_, ha, hnone⟩
  rw [List.erase_append_right _ hnot, List.erase_cons_head]

namespace LiveController

/-! ## What is written down -/

/-- An interest that came to a controller, with its number. -/
abbrev Arrival := Interest × Nat

/-- An object that was chosen for an interest. -/
structure Emission where
  /-- The interest. -/
  arrival : Arrival
  /-- The object. -/
  object : ContentObject
  deriving DecidableEq

/-- What has become of the interests that came to a controller. -/
structure Ledger where
  /-- The interests in the order of their arrival. -/
  came : List Interest := []
  /-- Those that wait for the responder. -/
  waiting : List Arrival := []
  /-- Those that are held, the oldest first. -/
  held : List Arrival := []
  /-- Those that were held and gave way to new ones. -/
  evicted : List Arrival := []
  /-- Those that somebody else took from the queue. -/
  diverted : List Arrival := []
  /-- The objects chosen for interests that are still on their way. -/
  onTheWay : List Emission := []
  /-- The objects handed to the forwarder, and whether it took them. -/
  handed : List (Emission × Bool) := []

namespace Ledger

/-- The objects that were chosen for interests. -/
def emissions (l : Ledger) : List Emission := l.handed.map (·.1) ++ l.onTheWay

/-- The interests in the places of a ledger. -/
def places (l : Ledger) : List Arrival :=
  l.emissions.map (·.arrival) ++ l.held ++ l.waiting ++ l.evicted ++ l.diverted

/-- Interests come, and wait behind the others. -/
def receive (l : Ledger) (interests : List Interest) : Ledger :=
  { l with
    came := l.came ++ interests
    waiting := l.waiting ++ interests.zipIdx l.came.length }

/-- Somebody else takes the first interest from the queue. -/
def divert (l : Ledger) : Ledger :=
  { l with
    waiting := l.waiting.tail
    diverted := l.diverted ++ l.waiting.head?.toList }

/-- An object is chosen for the first interest in the queue. -/
def answer (l : Ledger) (a : Arrival) (o : ContentObject) : Ledger :=
  { l with
    waiting := l.waiting.tail
    onTheWay := l.onTheWay ++ [⟨a, o⟩] }

/-- The first interest in the queue is held; the oldest one gives way when as many are held as may
be. -/
def hold (l : Ledger) (limit : Nat) (a : Arrival) : Ledger :=
  let leaving := if limit ≤ l.held.length then 1 else 0
  { l with
    waiting := l.waiting.tail
    held := l.held.drop leaving ++ [a]
    evicted := l.evicted ++ l.held.take leaving }

/-- An object is chosen for an interest that was held. -/
def spend (l : Ledger) (a : Arrival) (o : ContentObject) : Ledger :=
  { l with
    held := l.held.erase a
    onTheWay := l.onTheWay ++ [⟨a, o⟩] }

/-- The object on its way at a position is handed to the forwarder, which takes it or not. -/
def hand (l : Ledger) (position : Nat) (e : Emission) (taken : Bool) : Ledger :=
  { l with
    onTheWay := l.onTheWay.eraseIdx position
    handed := l.handed ++ [(e, taken)] }

/-- The responder handles the first interest in the queue. -/
def handle (l : Ledger) (c : LiveController) : Ledger :=
  match l.waiting.head? with
  | none => l
  | some a =>
    match a.1.select c.flow.objects with
    | some o => l.answer a o
    | none => l.hold c.flow.limits.maxHeld a

/-- An object is put into the controller, and chosen for the oldest interest that it answers. -/
def accept (l : Ledger) (c : LiveController) (o : ContentObject) : Ledger :=
  if c.Admits o then
    match l.held.find? (·.1.accepts o) with
    | none => l
    | some a => l.spend a o
  else l

/-- An object on its way is handed to the forwarder, or its call fails. -/
def emit (l : Ledger) (c : LiveController) (position : Nat) (reaches : Bool) : Ledger :=
  match l.onTheWay[position]? with
  | none => l
  | some e => l.hand position e (reaches && (Network.put e.object c.network).1.isOk)

/-- What a step does to the interests that are there. -/
def move (l : Ledger) (c : LiveController) : Step → Ledger
  | .handle => l.handle c
  | .accept o => l.accept c o
  | .emit position reaches => l.emit c position reaches
  | .network (.takeInterest k) => if k = c.listener then l.divert else l
  | _ => l

/-- What is written down of a step. -/
def record (l : Ledger) (c : LiveController) (step : Step) : Ledger :=
  (l.move c step).receive (c.arrivals step)

/-- What is written down of the steps of a run. -/
def recordAll (l : Ledger) : List Step → LiveController → Ledger
  | [], _ => l
  | step :: rest, c => recordAll (l.record c step) rest (c.take step)

/-- The ledger of a controller before a run: the interests that wait for it already have come. -/
def opening (c : LiveController) : Ledger := receive {} c.queue

/-- A ledger is kept through some steps, and then through the others. -/
theorem recordAll_append (l : Ledger) (first rest : List Step) (c : LiveController) :
    l.recordAll (first ++ rest) c = (l.recordAll first c).recordAll rest (run first c) := by
  induction first generalizing l c with
  | nil => rfl
  | cons step first ih => exact ih ..

end Ledger

/-- The ledger of a run. -/
def ledger (steps : List Step) (c : LiveController) : Ledger :=
  (Ledger.opening c).recordAll steps c

/-- The ledger of a run that goes on. -/
theorem ledger_append (first rest : List Step) (c : LiveController) :
    ledger (first ++ rest) c = (ledger first c).recordAll rest (run first c) :=
  Ledger.recordAll_append ..

/-- The ledger of a run with one more step. -/
theorem ledger_concat (steps : List Step) (step : Step) (c : LiveController) :
    ledger (steps ++ [step]) c = (ledger steps c).record (run steps c) step :=
  ledger_append ..

namespace Ledger

variable {l : Ledger} {c : LiveController} {a : Arrival} {o : ContentObject}

/-! ## What a step writes -/

/-- **What a step does with the interests that are there**: nothing, or it passes one of them on. -/
theorem move_cases (l : Ledger) (c : LiveController) (step : Step) :
    l.move c step = l
      ∨ (step = .handle ∧ ∃ a, l.waiting.head? = some a
        ∧ ((∃ o, a.1.select c.flow.objects = some o ∧ l.move c step = l.answer a o)
          ∨ (a.1.select c.flow.objects = none
            ∧ l.move c step = l.hold c.flow.limits.maxHeld a)))
      ∨ (∃ o a, step = .accept o ∧ c.Admits o ∧ l.held.find? (·.1.accepts o) = some a
        ∧ l.move c step = l.spend a o)
      ∨ (∃ position reaches e, step = .emit position reaches ∧ l.onTheWay[position]? = some e
        ∧ l.move c step = l.hand position e (reaches && (Network.put e.object c.network).1.isOk))
      ∨ (step = .network (.takeInterest c.listener) ∧ l.move c step = l.divert) := by
  cases step with
  | handle =>
    rw [move, handle]
    cases ha : l.waiting.head? with
    | none => exact .inl rfl
    | some a =>
      cases hselect : a.1.select c.flow.objects with
      | some o => exact .inr (.inl ⟨rfl, a, rfl, .inl ⟨o, hselect, by simp only [hselect]⟩⟩)
      | none => exact .inr (.inl ⟨rfl, a, rfl, .inr ⟨hselect, by simp only [hselect]⟩⟩)
  | accept o =>
    rw [move, accept]
    split
    · next hadmits =>
      cases ha : l.held.find? (·.1.accepts o) with
      | none => exact .inl rfl
      | some a => exact .inr (.inr (.inl ⟨o, a, rfl, hadmits, ha, rfl⟩))
    · exact .inl rfl
  | emit position reaches =>
    rw [move, emit]
    cases he : l.onTheWay[position]? with
    | none => exact .inl rfl
    | some e => exact .inr (.inr (.inr (.inl ⟨position, reaches, e, rfl, he, rfl⟩)))
  | addNamespace root reaches => exact .inl rfl
  | removeNamespace root reaches => exact .inl rfl
  | network step =>
    cases step with
    | takeInterest k =>
      -- an interest may be taken out of the controller's own queue by somebody else
      by_cases hk : k = c.listener
      · subst hk
        exact .inr (.inr (.inr (.inr ⟨rfl, if_pos rfl⟩)))
      · exact .inl (if_neg hk)
    | _ => exact .inl rfl

/-- The entries for a step of the controller do not touch what came. -/
@[simp] theorem move_came (l : Ledger) (c : LiveController) (step : Step) :
    (l.move c step).came = l.came := by
  obtain h | ⟨-, a, -, ⟨o, -, h⟩ | ⟨-, h⟩⟩ | ⟨o, a, -, -, -, h⟩ | ⟨k, r, e, -, -, h⟩ | ⟨-, h⟩ :=
    move_cases l c step <;> rw [h] <;> rfl

/-- What a step hands over. -/
def handing (l : Ledger) (c : LiveController) : Step → List (Emission × Bool)
  | .emit position reaches => l.onTheWay[position]?.toList.map fun e =>
      (e, reaches && (Network.put e.object c.network).1.isOk)
  | _ => []

/-- What was handed over before stays so. -/
theorem move_handed (l : Ledger) (c : LiveController) (step : Step) :
    (l.move c step).handed = l.handed ++ l.handing c step := by
  obtain h | ⟨rfl, a, -, ⟨o, -, h⟩ | ⟨-, h⟩⟩ | ⟨o, a, rfl, -, -, h⟩ | ⟨k, r, e, rfl, he, h⟩
    | ⟨rfl, h⟩ := move_cases l c step
  case inr.inr.inr.inl => simp [h, hand, handing, he]
  case inl =>
    -- what is not on its way is not handed over
    rw [h]
    cases step with
    | emit position reaches =>
      rw [move, emit] at h
      cases he : l.onTheWay[position]? with
      | none => simp [handing, he]
      | some e =>
        rw [he] at h
        exact absurd (congrArg (·.handed.length) h) (by simp [hand])
    | _ => simp [handing]
  all_goals simp [h, answer, hold, spend, divert, handing]

/-- What is handed out had been let out before. -/
theorem mem_emissions_of_mem_handing {e : Emission × Bool} {step : Step}
    (h : e ∈ l.handing c step) : e.1 ∈ l.emissions := by
  cases step with
  | emit position reaches =>
    obtain ⟨d, hd, rfl⟩ := List.mem_map.1 h
    exact List.mem_append_right _ (List.mem_of_getElem? (Option.mem_toList.1 hd))
  | _ => exact absurd h List.not_mem_nil

/-- Only the interest that is held longest gives way. -/
theorem evicted_record (l : Ledger) (c : LiveController) (step : Step) :
    (l.record c step).evicted = l.evicted
      ∨ step = .handle ∧ c.flow.limits.maxHeld ≤ l.held.length
        ∧ ∃ a, l.held.head? = some a ∧ (l.record c step).evicted = l.evicted ++ [a] := by
  rw [record, receive]
  obtain h | ⟨rfl, a, -, ⟨o, -, h⟩ | ⟨-, h⟩⟩ | ⟨o, a, -, -, -, h⟩ | ⟨k, r, e, -, -, h⟩ | ⟨-, h⟩ :=
    l.move_cases c step
  case inr.inl.inr =>
    rw [h, hold]
    split
    · next hfull =>
      cases hheld : l.held with
      | nil => exact .inl (by simp)
      | cons b rest => exact .inr ⟨rfl, hheld ▸ hfull, b, rfl, by simp⟩
    · exact .inl (by simp)
  all_goals exact .inl (by rw [h] <;> rfl)

/-! ## Each interest in one place -/

/-- Whether every interest that came has one place in a ledger. -/
structure Accounts (l : Ledger) : Prop where
  /-- Each interest is in one place. -/
  places : l.places.Perm l.came.zipIdx
  /-- An object answers the interest that it was chosen for. -/
  accepts : ∀ e ∈ l.emissions, e.arrival.1.accepts e.object = true
  /-- The interests are held in the order of their arrival, and those in the queue came later. -/
  ordered : (l.held ++ l.waiting).Pairwise fun a b => a.2 < b.2

namespace Accounts

/-- An interest has the number of its arrival. -/
theorem getElem?_came (h : l.Accounts) (ha : a ∈ l.places) : l.came[a.2]? = some a.1 :=
  List.mem_zipIdx_iff_getElem?.1 (h.places.mem_iff.1 ha)

/-- An object is chosen for an interest that has come. -/
theorem getElem?_came_of_emission (h : l.Accounts) {e : Emission}
    (he : e ∈ l.emissions) : l.came[e.arrival.2]? = some e.arrival.1 :=
  h.getElem?_came (by simp [Ledger.places, List.mem_map_of_mem he])

/-- The numbers of the interests in a ledger tell them apart. -/
theorem nodup (h : l.Accounts) : (l.places.map (·.2)).Nodup := by
  rw [(h.places.map _).nodup_iff, List.zipIdx_map_snd]
  exact List.nodup_range'

/-- An object is chosen that answers an interest. -/
private theorem accepts_append {es : List Emission}
    (h : ∀ e ∈ es, e.arrival.1.accepts e.object = true)
    (ho : a.1.accepts o = true) : ∀ e ∈ es ++ [⟨a, o⟩], e.arrival.1.accepts e.object = true := by
  intro e he
  rcases List.mem_append.1 he with he | he
  · exact h e he
  · rwa [List.mem_singleton.1 he]

/-- Interests that are delivered wait from then on. -/
theorem receive (h : l.Accounts) (interests : List Interest) : (l.receive interests).Accounts := by
  refine ⟨List.perm_iff_count.2 fun b => ?_, h.accepts, ?_⟩
  · have hplaces := h.places.count_eq b
    simp only [Ledger.receive, Ledger.places, emissions, List.count_append, List.zipIdx_append,
      Nat.zero_add] at hplaces ⊢
    omega
  · rw [Ledger.receive, ← List.append_assoc]
    refine List.pairwise_append.2 ⟨h.ordered, ?_, fun b hb d hd => ?_⟩
    · exact List.pairwise_map.1 (List.zipIdx_map_snd .. ▸ List.pairwise_lt_range')
    · -- what comes now has greater numbers than all that came before
      have hmem : b ∈ l.places := by
        rcases List.mem_append.1 hb with hb | hb <;> simp [Ledger.places, hb]
      exact Nat.lt_of_lt_of_le (List.getElem?_eq_some_iff.1 (h.getElem?_came hmem)).1
        (List.le_snd_of_mem_zipIdx hd)

/-- An interest that somebody else takes is struck off the queue. -/
theorem divert (h : l.Accounts) : l.divert.Accounts := by
  refine ⟨List.perm_iff_count.2 fun b => ?_, h.accepts, ?_⟩
  · have hplaces := h.places.count_eq b
    have hparts : l.waiting.count b = l.waiting.head?.toList.count b + l.waiting.tail.count b := by
      cases l.waiting <;> simp [List.count_cons, Nat.add_comm]
    simp only [Ledger.divert, Ledger.places, emissions, List.count_append] at hplaces ⊢
    omega
  · exact h.ordered.sublist ((List.tail_sublist _).append_left _)

/-- The first interest of the queue is answered at once. -/
theorem answer (h : l.Accounts) (ha : l.waiting.head? = some a) (ho : a.1.accepts o = true) :
    (l.answer a o).Accounts := by
  obtain ⟨rest, hwaiting⟩ := List.head?_eq_some_iff.1 ha
  refine ⟨List.perm_iff_count.2 fun b => ?_, ?_, ?_⟩
  · have hplaces := h.places.count_eq b
    simp only [Ledger.answer, Ledger.places, emissions, hwaiting, List.tail_cons, List.map_append,
      List.map_cons, List.map_nil, List.count_append, List.count_cons, List.count_nil]
      at hplaces ⊢
    omega
  · rw [emissions, Ledger.answer, ← List.append_assoc]
    exact accepts_append h.accepts ho
  · exact h.ordered.sublist ((List.tail_sublist _).append_left _)

/-- The first interest of the queue is held, and the oldest ones may give way. -/
theorem hold (h : l.Accounts) (ha : l.waiting.head? = some a) (limit : Nat) :
    (l.hold limit a).Accounts := by
  obtain ⟨rest, hwaiting⟩ := List.head?_eq_some_iff.1 ha
  rw [Ledger.hold]
  generalize (if limit ≤ l.held.length then 1 else 0) = leaving
  refine ⟨List.perm_iff_count.2 fun b => ?_, h.accepts, ?_⟩
  · have hplaces := h.places.count_eq b
    have hparts := congrArg (List.count b) (List.take_append_drop leaving l.held)
    simp only [Ledger.places, emissions, hwaiting, List.tail_cons, List.count_append,
      List.count_cons, List.count_nil] at hplaces hparts ⊢
    omega
  · -- the interest passes from the front of the queue to the end of those held
    have hordered := h.ordered
    rw [hwaiting] at hordered
    simpa [hwaiting] using hordered.sublist ((List.drop_sublist leaving _).append_right _)

/-- A held interest is used up by an object. -/
theorem spend (h : l.Accounts) (ha : a ∈ l.held) (ho : a.1.accepts o = true) :
    (l.spend a o).Accounts := by
  refine ⟨List.perm_iff_count.2 fun b => ?_, ?_,
    h.ordered.sublist (List.erase_sublist.append_right _)⟩
  · have hplaces := h.places.count_eq b
    have hheld := (List.perm_cons_erase ha).count_eq b
    simp only [Ledger.spend, Ledger.places, emissions, List.map_append, List.map_cons,
      List.map_nil, List.count_append, List.count_cons, List.count_nil] at hplaces hheld ⊢
    omega
  · rw [emissions, Ledger.spend, ← List.append_assoc]
    exact accepts_append h.accepts ho

/-- An object that is on its way is handed out or lost. -/
theorem hand (h : l.Accounts) {position : Nat} {e : Emission}
    (he : l.onTheWay[position]? = some e) (taken : Bool) :
    (l.hand position e taken).Accounts := by
  obtain ⟨hlt, rfl⟩ := List.getElem?_eq_some_iff.1 he
  -- the chosen objects stay the same, in another order
  have hsame : (l.hand position l.onTheWay[position] taken).emissions.Perm l.emissions := by
    simp only [Ledger.hand, emissions, List.map_append, List.map_cons, List.map_nil,
      List.append_assoc, List.singleton_append]
    exact (List.getElem_cons_eraseIdx_perm hlt).append_left _
  refine ⟨.trans ?_ h.places, fun e he => h.accepts e (hsame.mem_iff.1 he), h.ordered⟩
  exact ((((hsame.map _).append_right _).append_right _).append_right _).append_right _

end Accounts

end Ledger

end LiveController

end NamedContent
