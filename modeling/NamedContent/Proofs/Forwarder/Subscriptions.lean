import Mathlib.Data.List.Nodup
import NamedContent.Proofs.Forwarder.Turns

/-! # Standing interests over whole runs

However applications take turns, a standing interest brings its listener the stored object that was
selected when it was expressed, and from then until it is taken back every accepted object that it
matches, each once and in order. What others do with their standing interests makes no difference.

* `Handout`, `Network.handouts`: what is handed out, and on whose account
* `Forwarder.Does.standing`: what becomes of the table of standing interests
* `StandingDelivery`, `standing_delivery`: the main theorem -/

namespace NamedContent

variable {h : List Event} {e : Event} {s s' : StandingInterest} {f f' : Forwarder}
  {step : NetworkStep} {reply : NetworkReply} {handed : List Delivery} {n n' : Network}

/-! ## Handing out objects -/

/-- An object that is handed to a listener. -/
structure Handout where
  /-- The standing interest on whose account it is. -/
  account : StandingInterest
  /-- Whether the object was stored when the standing interest was expressed. -/
  stored : Bool
  /-- The object. -/
  object : ContentObject

/-- What the forwarder hands out. -/
def Forwarder.handouts (f : Forwarder) : Event → List Handout
  | ⟨.put o, .done⟩ => (f.standing.filter (·.interest.accepts o)).map (⟨·, false, o⟩)
  | ⟨.express s, .done⟩ =>
    if s ∈ f.standing then [] else ((f.store.lookup s.interest).1.map (⟨s, true, ·⟩)).toList
  | _ => []

/-- The objects that go to a listener. -/
def broughtTo (l : ListenerId) (out : List Handout) : List ContentObject :=
  (out.filter (·.account.listener = l)).map (·.object)

/-- The objects handed out on account of a standing interest. -/
def accounted (s : StandingInterest) (out : List Handout) : List ContentObject :=
  (out.filter (·.account = s)).map (·.object)

/-- Those of them that had just arrived. -/
def arrived (s : StandingInterest) (out : List Handout) : List ContentObject :=
  accounted s (out.filter (!·.stored))

/-- What is brought to a listener, one part after the other. -/
@[simp] theorem broughtTo_append (l : ListenerId) (out out' : List Handout) :
    broughtTo l (out ++ out') = broughtTo l out ++ broughtTo l out' := by
  simp [broughtTo]

/-- What a standing interest accounts for, one part after the other. -/
@[simp] theorem accounted_append (s : StandingInterest) (out out' : List Handout) :
    accounted s (out ++ out') = accounted s out ++ accounted s out' := by
  simp [accounted]

/-- What arrives for a standing interest, one part after the other. -/
@[simp] theorem arrived_append (s : StandingInterest) (out out' : List Handout) :
    arrived s (out ++ out') = arrived s out ++ arrived s out' := by
  simp [arrived]

/-- What a step hands to a listener is on account of its standing interests. -/
theorem Forwarder.Does.broughtTo_handouts (hdoes : f.Does step reply handed f') (l : ListenerId) :
    handed.filterMap (Delivery.objectFor l) = broughtTo l (f.handouts ⟨step, reply⟩) := by
  cases hdoes with
  | @accepts o d =>
    rw [deliveriesOf_objectFor]
    simp [handouts, broughtTo, List.filter_map, List.filter_filter, Function.comp_def,
      Bool.and_comm]
  | @expresses s hit store hnew hlookup =>
    rw [handouts, if_neg hnew, hlookup]
    cases hit with
    | none => simp [broughtTo]
    | some o => by_cases hl : s.listener = l <;> simp [broughtTo, Delivery.objectFor, hl]
  | repeats hmem => simp [handouts, hmem, broughtTo]
  | begins => simp [handouts, broughtTo]
  | refuses hstep => cases step <;> cases hstep <;> rfl
  | answers hlook | fails hlook => cases step <;> cases hlook <;> rfl
  | filters hstep | collects hstep => cases step <;> cases hstep <;> rfl
  | _ => rfl

/-! ## The table of standing interests -/

/-- The standing interests after an event. -/
def standingAfter (standing : List StandingInterest) : Event → List StandingInterest
  | ⟨.express s, .done⟩ => if s ∈ standing then standing else standing ++ [s]
  | ⟨.cancelInterest s, .done⟩ => standing.filter (· ≠ s)
  | _ => standing

/-- A step changes the standing interests as its event says. -/
theorem Forwarder.Does.standing (hdoes : f.Does step reply handed f') :
    f'.standing = standingAfter f.standing ⟨step, reply⟩ := by
  cases hdoes with
  | @accepts o d => exact receive_standing o d f
  | expresses hnew => rw [standingAfter, if_neg hnew]
  | repeats hmem => rw [standingAfter, if_pos hmem]
  | refuses hstep => cases step <;> cases hstep <;> rfl
  | answers hlook | fails hlook => cases step <;> cases hlook <;> rfl
  | filters hstep | collects hstep => cases step <;> cases hstep <;> rfl
  | _ => rfl

/-- No event makes a standing interest stand twice. -/
theorem nodup_standingAfter {standing : List StandingInterest} (hnodup : standing.Nodup)
    (e : Event) : (standingAfter standing e).Nodup := by
  unfold standingAfter
  split
  · split
    · exact hnodup
    · next hnew =>
      refine List.nodup_append.2 ⟨hnodup, by simp, fun a ha b hb hab => ?_⟩
      exact hnew (List.mem_singleton.1 hb ▸ hab ▸ ha)
  · exact hnodup.filter _
  · exact hnodup

/-- The event of taking a standing interest back. -/
def Event.cancelled (s : StandingInterest) : Event := ⟨.cancelInterest s, .done⟩

/-- The event of expressing a standing interest. -/
def Event.expressed (s : StandingInterest) : Event := ⟨.express s, .done⟩

/-- A standing interest is in the table after it is expressed, and until it is taken back. -/
theorem mem_standingAfter {standing : List StandingInterest} :
    s ∈ standingAfter standing e
      ↔ e = .expressed s ∨ e ≠ .cancelled s ∧ s ∈ standing := by
  unfold standingAfter
  split
  · next s' =>
    -- both outcomes leave the same members behind
    have hmem : s ∈ (if s' ∈ standing then standing else standing ++ [s'])
        ↔ s = s' ∨ s ∈ standing := by
      split
      · next hs' => exact ⟨.inr, fun hs => hs.elim (fun heq => heq ▸ hs') id⟩
      · simp [or_comm]
    simpa [Event.expressed, Event.cancelled, @eq_comm _ s' s] using hmem
  · next s' =>
    have hmem : s ∈ standing.filter (· ≠ s') ↔ s' ≠ s ∧ s ∈ standing := by
      simp [and_comm, @eq_comm _ s s']
    simpa [Event.expressed, Event.cancelled] using hmem
  · next hexpress hcancel =>
    have he : e ≠ .expressed s := hexpress s
    have hc : e ≠ .cancelled s := hcancel s
    simp [he, hc]

/-- Whether a standing interest has been expressed, and not been taken back since. -/
def Registered (h : List Event) (s : StandingInterest) : Prop :=
  ∃ before during, h = before ++ .expressed s :: during ∧ .cancelled s ∉ during

/-- A standing interest is registered if the last event expresses it, or does not cancel it and it
was registered before. -/
theorem registered_concat :
    Registered (h ++ [e]) s ↔ e = .expressed s ∨ e ≠ .cancelled s ∧ Registered h s := by
  constructor
  · rintro ⟨before, during, heq, hduring⟩
    obtain ⟨-, hlast, -⟩ | ⟨during, rfl, rfl⟩ := split_concat heq
    · exact .inl hlast.symm
    · rw [List.mem_append, List.mem_singleton, not_or] at hduring
      exact .inr ⟨Ne.symm hduring.2, before, during, rfl, hduring.1⟩
  · rintro (rfl | ⟨he, before, during, rfl, hduring⟩)
    · exact ⟨h, [], rfl, by simp⟩
    · exact ⟨before, during ++ [e], by simp, by simpa [Ne.symm he] using hduring⟩

/-- The table holds what is registered by the history, once each. -/
theorem Network.standing_interleave (capacity : Nat) (turns : List Turn) :
    (interleave turns (.new capacity)).forwarder.standing.Nodup
      ∧ ∀ s, s ∈ (interleave turns (.new capacity)).forwarder.standing
        ↔ Registered (history turns (.new capacity)) s := by
  refine reachable_induction (P := fun seen n => n.forwarder.standing.Nodup
    ∧ ∀ s, s ∈ n.forwarder.standing ↔ Registered seen s) ⟨.nil, fun s => ?_⟩ ?_ turns
  · simp [Registered, new, Forwarder.new]
  · rintro seen n t ⟨hnodup, hmem⟩
    obtain ⟨table, hperm, hact⟩ | ⟨step, reply, handed, hevents, hdoes, -⟩ := act_cases n t
    · simpa [hact] using ⟨hnodup, hmem⟩
    · rw [hevents, hdoes.standing]
      refine ⟨nodup_standingAfter hnodup _, fun s => ?_⟩
      rw [mem_standingAfter, registered_concat, hmem]

/-! ## What one standing interest brings -/

namespace Forwarder

/-- A standing interest that is registered brings each object that is accepted and matches, once. -/
theorem accounted_of_mem (hnodup : f.standing.Nodup) (hs : s ∈ f.standing) (e : Event) :
    accounted s (f.handouts e) = e.accepted?.toList.filter (s.interest.accepts ·) := by
  unfold handouts
  split
  · next o =>
    have hone : f.standing.filter (· = s) = [s] := by
      rw [List.filter_eq, List.count_eq_one_of_mem hnodup hs]
      rfl
    have hcomm : (f.standing.filter (·.interest.accepts o)).filter (· = s)
        = (f.standing.filter (· = s)).filter (·.interest.accepts o) := List.filter_comm ..
    cases ho : s.interest.accepts o <;>
      simp [accounted, List.filter_map, Function.comp_def, hcomm, hone, ho, Event.accepted?]
  · next s' =>
    -- what it brings is on account of a standing interest that is new
    split
    · rfl
    · next hnew =>
      have hne : s' ≠ s := fun heq => hnew (heq ▸ hs)
      cases (f.store.lookup s'.interest).1 <;> simp [accounted, hne, Event.accepted?]
  · next hput hexpress =>
    rw [Event.accepted?_eq_none fun ⟨o, ho⟩ => hput o ho]
    rfl

/-- A standing interest that is not registered brings nothing. -/
theorem accounted_of_not_mem (hs : s ∉ f.standing) (he : e ≠ .expressed s) :
    accounted s (f.handouts e) = [] := by
  unfold handouts
  split
  · next o =>
    refine List.map_eq_nil_iff.2 (List.filter_eq_nil_iff.2 fun x hx => ?_)
    obtain ⟨s', hs', rfl⟩ := List.mem_map.1 hx
    have hne : s' ≠ s := fun heq => hs (heq ▸ (List.mem_filter.1 hs').1)
    simpa using hne
  · next s' =>
    have hne : s' ≠ s := fun heq => he (heq ▸ rfl)
    split
    · rfl
    · cases (f.store.lookup s'.interest).1 <;> simp [accounted, hne]
  · rfl

/-- A new standing interest brings the stored object that is selected for it. -/
theorem accounted_expressed (hs : s ∉ f.standing) :
    accounted s (f.handouts (.expressed s)) = (f.store.lookup s.interest).1.toList := by
  rw [Event.expressed, handouts, if_neg hs]
  cases (f.store.lookup s.interest).1 <;> simp [accounted]

end Forwarder

namespace Network

/-- What is handed out in turns, in order. -/
def handouts : List Turn → Network → List Handout
  | [], _ => []
  | t :: rest, n => (n.act t).1.flatMap n.forwarder.handouts ++ handouts rest (n.act t).2

/-- **What a turn does to the standing interests** follows from what is seen of it. -/
theorem act_standing (n : Network) (t : Turn) :
    (n.act t).1 = [] ∧ (n.act t).2.forwarder.standing = n.forwarder.standing
      ∨ ∃ e, (n.act t).1 = [e]
        ∧ (n.act t).2.forwarder.standing = standingAfter n.forwarder.standing e := by
  obtain ⟨table, hperm, hact⟩ | ⟨step, reply, handed, hevents, hdoes, -⟩ := act_cases n t
  · rw [hact]
    exact .inl ⟨rfl, rfl⟩
  · exact .inr ⟨⟨step, reply⟩, hevents, hdoes.standing⟩

/-- No turn makes a standing interest stand twice. -/
theorem nodup_act (hnodup : n.forwarder.standing.Nodup) (t : Turn) :
    (n.act t).2.forwarder.standing.Nodup := by
  obtain ⟨-, hstanding⟩ | ⟨e, -, hstanding⟩ := act_standing n t <;> rw [hstanding]
  · exact hnodup
  · exact nodup_standingAfter hnodup e

/-- An interest stands after a turn if it is expressed in it, or stood and is not cancelled. -/
theorem mem_standing_act (n : Network) (t : Turn) :
    s ∈ (n.act t).2.forwarder.standing
      ↔ .expressed s ∈ (n.act t).1 ∨ .cancelled s ∉ (n.act t).1 ∧ s ∈ n.forwarder.standing := by
  obtain ⟨hevents, hstanding⟩ | ⟨e, hevents, hstanding⟩ := act_standing n t
  · simp [hevents, hstanding]
  · rw [hevents, hstanding, mem_standingAfter]
    simp [eq_comm]

/-- While a standing interest is registered, it brings the accepted objects that it matches. -/
theorem accounted_of_mem (hnodup : n.forwarder.standing.Nodup) (hs : s ∈ n.forwarder.standing)
    (turns : List Turn) (hkept : .cancelled s ∉ history turns n) :
    accounted s (handouts turns n)
      = (accepted (history turns n)).filter (s.interest.accepts ·) := by
  induction turns generalizing n with
  | nil => rfl
  | cons t rest ih =>
    rw [history_cons, List.mem_append, not_or] at hkept
    have hmem : s ∈ (n.act t).2.forwarder.standing := (mem_standing_act n t).2 (.inr ⟨hkept.1, hs⟩)
    have hhere : accounted s ((n.act t).1.flatMap n.forwarder.handouts)
        = (accepted (n.act t).1).filter (s.interest.accepts ·) := by
      obtain ⟨hevents, -⟩ | ⟨e, hevents, -⟩ := act_standing n t <;> rw [hevents]
      · rfl
      · simp [Forwarder.accounted_of_mem hnodup hs]
    rw [handouts, history_cons, accounted_append, accepted_append, List.filter_append, hhere,
      ih (nodup_act hnodup t) hmem hkept.2]

/-- While a standing interest is not registered, it brings nothing. -/
theorem accounted_of_not_mem (hs : s ∉ n.forwarder.standing) (turns : List Turn)
    (hidle : .expressed s ∉ history turns n) : accounted s (handouts turns n) = [] := by
  induction turns generalizing n with
  | nil => rfl
  | cons t rest ih =>
    rw [history_cons, List.mem_append, not_or] at hidle
    have hmem : s ∉ (n.act t).2.forwarder.standing := by
      rw [mem_standing_act]
      rintro (hexpressed | ⟨-, hmem⟩)
      · exact hidle.1 hexpressed
      · exact hs hmem
    have hhere : accounted s ((n.act t).1.flatMap n.forwarder.handouts) = [] := by
      obtain ⟨hevents, -⟩ | ⟨e, hevents, -⟩ := act_standing n t <;> rw [hevents] at hidle ⊢
      · rfl
      · have he : e ≠ .expressed s := fun heq => hidle.1 (by simp [heq])
        simp [Forwarder.accounted_of_not_mem hs he]
    rw [handouts, accounted_append, hhere, ih hmem hidle.2]
    rfl

/-- What has been handed to a listener is what it has taken and what waits for it. -/
theorem collected_append_waiting (turns : List Turn) (n : Network) (l : ListenerId) :
    (history turns n).filterMap (Event.collected? l) ++ (interleave turns n).objects.waiting l
      = n.objects.waiting l ++ broughtTo l (handouts turns n) := by
  induction turns generalizing n with
  | nil => simp [handouts, broughtTo]
  | cons t rest ih =>
    rw [history_cons, interleave_cons, List.filterMap_append, List.append_assoc, ih, handouts,
      broughtTo_append, ← List.append_assoc, ← List.append_assoc]
    congr 1
    obtain ⟨table, hperm, hact⟩ | ⟨step, reply, handed, hevents, hdoes, hmail⟩ := act_cases n t
    · simp [hact, broughtTo]
    · have hbrought := hdoes.broughtTo_handouts l
      have htaken : [(⟨step, reply⟩ : Event)].filterMap (Event.collected? l)
          = (Event.collected? l ⟨step, reply⟩).toList := by
        rw [List.filterMap_cons]
        cases Event.collected? l ⟨step, reply⟩ <;> rfl
      rw [hevents, htaken, hmail l, hbrought, List.flatMap_singleton]

end Network

/-! ## What others do -/

/-- Whether an event brings an object or concerns the standing interests. -/
def Event.bears : Event → Bool
  | ⟨.put _, .done⟩ | ⟨.express _, .done⟩ | ⟨.cancelInterest _, .done⟩ => true
  | _ => false

/-- Whether a call that brings an object or concerns the standing interests is done, at a forwarder
that is shut down or open. -/
def NetworkStep.granted (closed : Bool) : NetworkStep → Bool
  | .put o => !closed && o.digest.isOk
  | .express s => !closed && s.interest.validate.isOk
  | .cancelInterest _ => !closed
  | _ => false

namespace Forwarder

/-- What an open forwarder does succeeds if it is open and the rest succeeds. -/
theorem isOk_whenOpen {α : Type} (f : Forwarder) (x : Except TransportError α) :
    (do f.ensureOpen; x).isOk = (!f.closed && x.isOk) := by
  rw [ensureOpen]
  cases f.closed <;> rfl

/-- A check that passes is followed by what cannot fail. -/
theorem isOk_checked {ε α β : Type} {g : ε → TransportError} {x : Except ε α}
    {k : α → Except TransportError β} (hk : ∀ a, (k a).isOk = true) :
    (do k (← x.mapError g)).isOk = x.isOk := by
  cases x with
  | error e => rfl
  | ok a => exact hk a

/-- A put succeeds if the forwarder is open and the object can be written. -/
theorem isOk_put (o : ContentObject) (f : Forwarder) :
    (f.put o).isOk = (!f.closed && o.digest.isOk) := by
  rw [put, isOk_whenOpen, isOk_checked]
  intro d
  simp only
  split <;> rfl

/-- Expressing an interest succeeds if the forwarder is open and the interest is valid. -/
theorem isOk_express (s : StandingInterest) (f : Forwarder) :
    (f.express s).isOk = (!f.closed && s.interest.validate.isOk) := by
  rw [express, isOk_whenOpen, isOk_checked]
  intro _
  split <;> rfl

/-- Cancelling one succeeds if the forwarder is open. -/
theorem isOk_cancelInterest (s : StandingInterest) (f : Forwarder) :
    (f.cancelInterest s).isOk = !f.closed := by
  rw [cancelInterest, isOk_whenOpen]
  exact Bool.and_true _

end Forwarder

namespace Network

/-- Whether a step bears on standing interests depends on no state but whether the forwarder is
open. -/
theorem filter_bears_take (n : Network) (step : NetworkStep) :
    [(⟨step, (n.take step).1⟩ : Event)].filter Event.bears
      = if step.granted n.forwarder.closed then [⟨step, .done⟩] else [] := by
  cases step with
  | put o =>
    rw [NetworkStep.granted, ← Forwarder.isOk_put, take, NetworkReply.ofAction, put]
    cases n.forwarder.put o <;> rfl
  | express s =>
    rw [NetworkStep.granted, ← Forwarder.isOk_express, take, NetworkReply.ofAction, express]
    cases n.forwarder.express s <;> rfl
  | cancelInterest s =>
    rw [NetworkStep.granted, ← Forwarder.isOk_cancelInterest s, take, NetworkReply.ofAction,
      cancelInterest, Network.step]
    cases n.forwarder.cancelInterest s <;> rfl
  | _ => rfl

/-- What bears on standing interests in a turn depends on whether the forwarder is shut down alone.
-/
theorem filter_bears_act (hclosed : n'.forwarder.closed = n.forwarder.closed) (t : Turn) :
    (n'.act t).1.filter Event.bears = (n.act t).1.filter Event.bears := by
  cases t with
  | take step => rw [act, act, filter_bears_take, filter_bears_take, hclosed]
  | resume step =>
    cases hlooks : step.looksFirst with
    | false => simp [act, resume, hlooks, filter_bears_take, hclosed]
    | true =>
      have hopen : ∀ m : Network, (m.resume step).1 = ((m.withClosed false).take step).1 := by
        intro m
        rw [resume, if_pos hlooks]
      rw [act, act, hopen, hopen, filter_bears_take, filter_bears_take]
      rfl
  | reorder table => rfl

/-- Whether a forwarder is shut down after a turn depends on whether it was before alone. -/
theorem closed_act_congr (hclosed : n'.forwarder.closed = n.forwarder.closed) (t : Turn) :
    (n'.act t).2.forwarder.closed = (n.act t).2.forwarder.closed := by
  have hsteps : shutDown (n'.act t).1 = shutDown (n.act t).1 := by cases t <;> rfl
  rw [closed_act, closed_act, hclosed, hsteps]

/-- What bears on standing interests in turns depends on no state but whether the forwarder is
open. -/
theorem filter_bears_history (hclosed : n'.forwarder.closed = n.forwarder.closed)
    (turns : List Turn) :
    (history turns n').filter Event.bears = (history turns n).filter Event.bears := by
  induction turns generalizing n n' with
  | nil => rfl
  | cons t rest ih =>
    rw [history_cons, history_cons, List.filter_append, List.filter_append,
      filter_bears_act hclosed t, ih (closed_act_congr hclosed t)]

end Network

/-- Every object that is accepted bears on standing interests. -/
@[simp] theorem accepted_filter_bears (h : List Event) :
    accepted (h.filter Event.bears) = accepted h := by
  rw [accepted, List.filterMap_filter]
  refine List.filterMap_congr fun e he => ?_
  by_cases hput : ∃ o, e = ⟨.put o, .done⟩
  · obtain ⟨o, rfl⟩ := hput
    rfl
  · simp [Event.accepted?_eq_none hput]

/-- Every interest that is expressed bears on standing interests. -/
theorem expressed_mem_filter_bears : .expressed s ∈ h.filter Event.bears ↔ .expressed s ∈ h := by
  rw [List.mem_filter]
  exact and_iff_left rfl

/-- Every interest that is cancelled bears on standing interests. -/
theorem cancelled_mem_filter_bears : .cancelled s ∈ h.filter Event.bears ↔ .cancelled s ∈ h := by
  rw [List.mem_filter]
  exact and_iff_left rfl

/-- What has arrived on account of a standing interest depends on whether it is registered. -/
theorem Forwarder.arrived_handouts (hnodup : f.standing.Nodup) (s : StandingInterest) (e : Event) :
    arrived s (f.handouts e)
      = if s ∈ f.standing then e.accepted?.toList.filter (s.interest.accepts ·) else [] := by
  by_cases hput : ∃ o, e = ⟨.put o, .done⟩
  · obtain ⟨o, rfl⟩ := hput
    -- all that is handed out has just arrived
    have hall : (f.handouts ⟨.put o, .done⟩).filter (!·.stored) = f.handouts ⟨.put o, .done⟩ := by
      rw [handouts, List.filter_map]
      simp [Function.comp_def]
    rw [arrived, hall]
    split
    · next hs => exact accounted_of_mem hnodup hs _
    · next hs => exact accounted_of_not_mem hs (by simp [Event.expressed])
  · have hnone : (f.handouts e).filter (!·.stored) = [] := by
      unfold handouts
      split
      · next o => exact absurd ⟨o, rfl⟩ hput
      · next s' => split <;> cases (f.store.lookup s'.interest).1 <;> simp
      · rfl
    simp [arrived, hnone, Event.accepted?_eq_none hput, accounted]

namespace Network

/-- **In a turn** there arrives for an interest that stands what is accepted and it accepts, and
nothing for others. -/
theorem arrived_act (hnodup : n.forwarder.standing.Nodup) (s : StandingInterest) (t : Turn) :
    arrived s ((n.act t).1.flatMap n.forwarder.handouts)
      = if s ∈ n.forwarder.standing then (accepted (n.act t).1).filter (s.interest.accepts ·)
        else [] := by
  obtain ⟨hevents, -⟩ | ⟨e, hevents, -⟩ := act_standing n t <;> rw [hevents]
  · exact (ite_self _).symm
  · rw [List.flatMap_singleton, Forwarder.arrived_handouts hnodup, accepted_singleton]

/-- **What arrives on account of a standing interest** depends on no other registration: at two
networks whose forwarders agree about it, the same turns bring it the same objects. -/
theorem arrived_congr (hclosed : n'.forwarder.closed = n.forwarder.closed)
    (hnodup : n.forwarder.standing.Nodup) (hnodup' : n'.forwarder.standing.Nodup)
    (hmem : s ∈ n'.forwarder.standing ↔ s ∈ n.forwarder.standing) (turns : List Turn) :
    arrived s (handouts turns n') = arrived s (handouts turns n) := by
  induction turns generalizing n n' with
  | nil => rfl
  | cons t rest ih =>
    have hbears := filter_bears_act hclosed t
    have hhere : arrived s ((n'.act t).1.flatMap n'.forwarder.handouts)
        = arrived s ((n.act t).1.flatMap n.forwarder.handouts) := by
      rw [arrived_act hnodup', arrived_act hnodup, ← accepted_filter_bears (n'.act t).1, hbears,
        accepted_filter_bears]
      simp only [hmem]
    have hnext : s ∈ (n'.act t).2.forwarder.standing ↔ s ∈ (n.act t).2.forwarder.standing := by
      rw [mem_standing_act, mem_standing_act, hmem, ← expressed_mem_filter_bears,
        ← cancelled_mem_filter_bears, hbears, expressed_mem_filter_bears,
        cancelled_mem_filter_bears]
    rw [handouts, handouts, arrived_append, arrived_append, hhere,
      ih (closed_act_congr hclosed t) (nodup_act hnodup t) (nodup_act hnodup' t) hnext]

/-- A standing interest that is registered and expressed again changes nothing. -/
theorem take_express_of_mem (hs : s ∈ n.forwarder.standing) : (n.take (.express s)).2 = n := by
  rw [take, ofAction_snd, express]
  cases h : n.forwarder.express s with
  | error e => rfl
  | ok r =>
    obtain ⟨-, rfl⟩ | ⟨hnew, -⟩ := Forwarder.express_cases h
    · rfl
    · exact absurd hs hnew

/-- An interest that stands may be expressed again, with no effect. -/
theorem act_expressed_of_mem (hs : s ∈ n.forwarder.standing) {t : Turn}
    (ht : t = .take (.express s) ∨ t = .resume (.express s)) :
    (n.act t).2 = n ∧ handouts [t] n = [] := by
  have hnone : ∀ reply, n.forwarder.handouts ⟨.express s, reply⟩ = [] := by
    intro reply
    cases reply <;> simp [Forwarder.handouts, hs]
  obtain rfl | rfl := ht
  · refine ⟨take_express_of_mem hs, ?_⟩
    simp [handouts, act, hnone]
  · have hresume : (n.resume (.express s)).2 = n := by
      have hsame : ((n.withClosed false).take (.express s)).2 = n.withClosed false :=
        take_express_of_mem hs
      simp [resume, NetworkStep.looksFirst, hsame]
      rfl
    refine ⟨hresume, ?_⟩
    simp [handouts, act, hnone]

end Network

/-! ## Taking everything at once -/

namespace Network

/-- The turns in which a listener takes one object after the other, until none waits. -/
def takingAll (n : Network) (l : ListenerId) : List Turn :=
  List.replicate (n.objects.waiting l).length (.take (.takeObject l))

/-- A listener that takes everything takes one object after the other. -/
theorem takeObjects_eq (n : Network) (l : ListenerId) :
    (takeObjects l n : Except TransportError (List ContentObject) × Network)
      = (.ok ((history (n.takingAll l) n).filterMap (Event.collected? l)),
        interleave (n.takingAll l) n) := by
  -- by induction on how many objects wait, each of which is taken in a turn
  have hall : ∀ k n, (n.objects.waiting l).length = k →
      (history (List.replicate k (.take (.takeObject l))) n).filterMap (Event.collected? l)
          = n.objects.waiting l
        ∧ interleave (List.replicate k (.take (.takeObject l))) n
          = { n with objects := n.objects.drained l } := by
    intro k
    induction k with
    | zero =>
      intro n hk
      have hnil := List.length_eq_zero_iff.1 hk
      simp [hnil, Mail.drained_eq_self hnil]
    | succ k ih =>
      intro n hk
      have hreply : (n.act (.take (.takeObject l))).1
          = [⟨.takeObject l, .object (n.objects.waiting l).head?⟩] := by
        simp [act, take, NetworkReply.ofAction, takeObject, (Mail.next_eq n.objects l).1]
      have hnext : (n.act (.take (.takeObject l))).2
          = { n with objects := (n.objects.next l).2 } := by
        simp [act, take, ofAction_snd, takeObject]
      have hleft := (Mail.next_eq n.objects l).2
      obtain ⟨hrest, hend⟩ := ih { n with objects := (n.objects.next l).2 } (by simp [hleft, hk])
      obtain ⟨first, rest, hwaiting⟩ := List.exists_cons_of_length_eq_add_one hk
      rw [List.replicate_succ, history_cons, interleave_cons, hreply, hnext, List.filterMap_append,
        hrest, hend, Mail.drained_next, hleft, hwaiting]
      simp [Event.collected?]
  obtain ⟨htaken, hend⟩ := hall _ n rfl
  rw [takingAll, htaken, hend]
  rfl

end Network

/-! ## The main theorem -/

/-- Whether standing interests bring what they should, at a network that turns have led to. -/
structure StandingDelivery (turns : List Turn) (start n : Network) : Prop where
  /-- No standing interest is in the table twice, and those are in it that have been expressed and
  not been taken back since. -/
  table : n.forwarder.standing.Nodup
    ∧ ∀ s, s ∈ n.forwarder.standing ↔ Registered (Network.history turns start) s
  /-- What was handed out to a listener, in order, is what it has taken and what waits for it. -/
  queues : ∀ l, (Network.history turns start).filterMap (Event.collected? l)
    ++ n.objects.waiting l = broughtTo l (Network.handouts turns start)
  /-- A listener that takes everything takes one object after the other. -/
  drained : ∀ l, (Network.takeObjects l n : Except TransportError (List ContentObject) × Network)
    = (.ok ((Network.history (n.takingAll l) n).filterMap (Event.collected? l)),
      Network.interleave (n.takingAll l) n)
  /-- From when it is expressed until it is taken back, a standing interest brings the stored object
  that is selected for it and then the accepted objects that it matches. -/
  brings : ∀ s t during, s ∉ n.forwarder.standing → (n.act t).1 = [.expressed s] →
    .cancelled s ∉ Network.history during (n.act t).2 →
    accounted s (Network.handouts (t :: during) n)
      = (n.forwarder.store.lookup s.interest).1.toList
        ++ (accepted (Network.history during (n.act t).2)).filter (s.interest.accepts ·)
  /-- Until it is expressed, it brings nothing. -/
  idle : ∀ s later, s ∉ n.forwarder.standing → .expressed s ∉ Network.history later n →
    accounted s (Network.handouts later n) = []
  /-- When it is expressed again, nothing changes. -/
  again : ∀ s ∈ n.forwarder.standing, ∀ t, t = .take (.express s) ∨ t = .resume (.express s) →
    (n.act t).2 = n ∧ Network.handouts [t] n = []
  /-- When it is taken back, the store and what waits for listeners stay as they are. Every other
  standing interest brings the objects that arrive as it would have otherwise. -/
  cancels : ∀ s t, (n.act t).1 = [.cancelled s] →
    (n.act t).2.forwarder.store = n.forwarder.store
      ∧ (∀ l, (n.act t).2.objects.waiting l = n.objects.waiting l)
      ∧ ∀ s' ≠ s, ∀ later,
        arrived s' (Network.handouts later (n.act t).2) = arrived s' (Network.handouts later n)
          ∧ (s' ∈ n.forwarder.standing → .cancelled s' ∉ Network.history later n →
            accounted s' (Network.handouts later (n.act t).2)
              = accounted s' (Network.handouts later n))

namespace Network

/-- Taking a standing interest back changes the table of standing interests alone. -/
theorem act_cancelled {t : Turn} (ht : (n.act t).1 = [.cancelled s]) :
    (n.act t).2.forwarder
        = { n.forwarder with standing := n.forwarder.standing.filter (· ≠ s) }
      ∧ ∀ l, (n.act t).2.objects.waiting l = n.objects.waiting l := by
  obtain ⟨table, hperm, hact⟩ | ⟨step, reply, handed, hevents, hdoes, hmail⟩ := act_cases n t
  · rw [hact] at ht
    cases ht
  · obtain ⟨rfl, rfl⟩ : step = .cancelInterest s ∧ reply = .done := by
      simpa [Event.cancelled] using hevents.symm.trans ht
    generalize (n.act t).2.forwarder = f' at hdoes ⊢
    cases hdoes with
    | cancels => exact ⟨rfl, fun l => by simpa [Event.collected?] using hmail l⟩
    | filters hstep | collects hstep => cases hstep

/-- Cancelling an interest takes nothing from another one. -/
theorem cancels_alone (hnodup : n.forwarder.standing.Nodup) {t : Turn}
    (ht : (n.act t).1 = [.cancelled s]) (hne : s' ≠ s) (later : List Turn) :
    arrived s' (handouts later (n.act t).2) = arrived s' (handouts later n)
      ∧ (s' ∈ n.forwarder.standing → .cancelled s' ∉ history later n →
        accounted s' (handouts later (n.act t).2) = accounted s' (handouts later n)) := by
  obtain ⟨hforwarder, -⟩ := act_cancelled ht
  have hclosed : (n.act t).2.forwarder.closed = n.forwarder.closed := by rw [hforwarder]
  have hmem : s' ∈ (n.act t).2.forwarder.standing ↔ s' ∈ n.forwarder.standing := by
    simp [hforwarder, hne]
  refine ⟨arrived_congr hclosed hnodup (nodup_act hnodup t) hmem later, fun hs' hkept => ?_⟩
  have hbears := filter_bears_history hclosed later
  have hkept' : .cancelled s' ∉ history later (n.act t).2 := by
    rwa [← cancelled_mem_filter_bears, hbears, cancelled_mem_filter_bears]
  have haccepted : accepted (history later (n.act t).2) = accepted (history later n) := by
    rw [← accepted_filter_bears, hbears, accepted_filter_bears]
  rw [accounted_of_mem (nodup_act hnodup t) (hmem.2 hs') later hkept',
    accounted_of_mem hnodup hs' later hkept, haccepted]

/-- From when it is expressed until it is taken back, a standing interest brings what it should. -/
theorem accounted_expressed (hnodup : n.forwarder.standing.Nodup) (hs : s ∉ n.forwarder.standing)
    {t : Turn} (ht : (n.act t).1 = [.expressed s]) (during : List Turn)
    (hkept : .cancelled s ∉ history during (n.act t).2) :
    accounted s (handouts (t :: during) n)
      = (n.forwarder.store.lookup s.interest).1.toList
        ++ (accepted (history during (n.act t).2)).filter (s.interest.accepts ·) := by
  have hmem : s ∈ (n.act t).2.forwarder.standing := by simp [mem_standing_act, ht]
  rw [handouts, accounted_append, ht, List.flatMap_singleton, Forwarder.accounted_expressed hs,
    accounted_of_mem (nodup_act hnodup t) hmem during hkept]

end Network

/-- **Standing delivery is exact.** However applications take turns at a new forwarder, standing
interests bring what they should. -/
theorem standing_delivery (capacity : Nat) (turns : List Turn) :
    StandingDelivery turns (.new capacity) (Network.interleave turns (.new capacity)) := by
  have htable := Network.standing_interleave capacity turns
  exact {
    table := htable
    queues := fun l => Network.collected_append_waiting turns (.new capacity) l
    drained := fun l => Network.takeObjects_eq _ l
    brings := fun s t during hs ht hkept => Network.accounted_expressed htable.1 hs ht during hkept
    idle := fun s later hs hidle => Network.accounted_of_not_mem hs later hidle
    again := fun s hs t ht => Network.act_expressed_of_mem hs ht
    cancels := fun s t ht =>
      have ⟨hforwarder, hmail⟩ := Network.act_cancelled ht
      ⟨by rw [hforwarder], hmail, fun s' hne later => Network.cancels_alone htable.1 ht hne later⟩ }

end NamedContent
