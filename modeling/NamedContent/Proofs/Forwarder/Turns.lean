import NamedContent.Proofs.Forwarder.Deliveries
import NamedContent.Proofs.Forwarder.Registrations

/-! # Applications taking turns

A call on the forwarder looks whether the forwarder is open, and then takes hold of its state and
works on it without interruption. Between the two another application may shut the forwarder down;
the call then goes on as at an open one. A get that looks for its result holds the state already.
So applications take turns in which each makes a whole step or ends a call that it began before,
and the order in which the forwarder keeps the waiting gets may change at any time.

* `Turn`, `Network.act`: a turn, and what becomes of the network in it
* `Event`, `Network.history`: the steps of the turns with their replies
* `Network.interleave`: the network after turns
* `Forwarder.Does`: all that a turn can do to the forwarder, with `Network.act_cases` -/

namespace NamedContent

/-! ## Turns and events -/

/-- Whether a step is a call that looks first whether the forwarder is open. -/
def NetworkStep.looksFirst : NetworkStep → Bool
  | .put _ | .beginGet _ _ | .setFilter _ | .cancelFilter _ | .express _ | .cancelInterest _ => true
  | _ => false

/-- What happens at the forwarder without interruption. -/
inductive Turn where
  /-- An application takes a step. -/
  | take (step : NetworkStep)
  /-- A call that found the forwarder open some time ago goes on. -/
  | resume (step : NetworkStep)
  /-- The forwarder keeps its waiting gets in another order from now on. -/
  | reorder (table : List PendingGet)

/-- A step that was taken and what was learned from it. -/
structure Event where
  /-- The step. -/
  step : NetworkStep
  /-- What the application learned. -/
  reply : NetworkReply

namespace Event

/-- The object that the forwarder has accepted. -/
def accepted? : Event → Option ContentObject
  | ⟨.put o, .done⟩ => some o
  | _ => none

/-- Only a put that is done has accepted an object. -/
theorem accepted?_eq_none {e : Event} (hput : ¬∃ o, e = ⟨.put o, .done⟩) : e.accepted? = none := by
  unfold accepted?
  split
  · next o => exact absurd ⟨o, rfl⟩ hput
  · rfl

/-- The get that has begun to wait, with its number. -/
def begun? : Event → Option (Nat × Interest)
  | ⟨.beginGet i _, .started (.waiting id)⟩ => some (id, i)
  | _ => none

/-- The number of the get that has returned. -/
def returned? : Event → Option Nat
  | ⟨.wake _, .waiting⟩ => none
  | ⟨.wake id, _⟩ => some id
  | ⟨.expire id, _⟩ => some id
  | _ => none

/-- The object that a listener has taken. -/
def collected? (l : ListenerId) : Event → Option ContentObject
  | ⟨.takeObject k, .object found⟩ => if k = l then found else none
  | _ => none

end Event

/-- An event of a history is its last one, or lies in the history before that. -/
theorem split_concat {before during h : List Event} {e e' : Event}
    (heq : h ++ [e] = before ++ e' :: during) : (before = h ∧ e' = e ∧ during = [])
      ∨ ∃ during', during = during' ++ [e] ∧ h = before ++ e' :: during' := by
  obtain rfl | ⟨during', last, rfl⟩ := List.eq_nil_or_concat during
  · obtain ⟨rfl, hlast⟩ := List.append_inj' heq rfl
    exact .inl ⟨rfl, (List.head_eq_of_cons_eq hlast).symm, rfl⟩
  · rw [List.concat_eq_append, ← List.cons_append, ← List.append_assoc] at heq
    obtain ⟨rfl, hlast⟩ := List.append_inj' heq rfl
    exact .inr ⟨during', by rw [List.concat_eq_append, hlast], rfl⟩

/-- The objects accepted in a history, in order. -/
def accepted (h : List Event) : List ContentObject := h.filterMap Event.accepted?

/-- The objects accepted in two parts of a history. -/
@[simp] theorem accepted_append (h h' : List Event) :
    accepted (h ++ h') = accepted h ++ accepted h' := List.filterMap_append

/-- The object accepted in one event. -/
@[simp] theorem accepted_singleton (e : Event) : accepted [e] = e.accepted?.toList := by
  rw [accepted, List.filterMap_cons]
  cases e.accepted? <;> rfl

/-- A forwarder that is shut down or open. -/
def Forwarder.withClosed (f : Forwarder) (closed : Bool) : Forwarder := { f with closed }

/-- A network whose forwarder is shut down or open. -/
def Network.withClosed (n : Network) (closed : Bool) : Network :=
  { n with forwarder := n.forwarder.withClosed closed }

namespace Network

/-- A call that found the forwarder open goes on, whatever has become of the forwarder. -/
def resume (n : Network) (step : NetworkStep) : NetworkReply × Network :=
  if step.looksFirst then
    let r := (n.withClosed false).take step
    (r.1, r.2.withClosed n.forwarder.closed)
  else n.take step

/-- The waiting gets in another order. -/
def reorder (n : Network) (table : List PendingGet) : Network :=
  if table.isPerm n.forwarder.pending then
    { n with forwarder := { n.forwarder with pending := table } }
  else n

/-- What is seen of a turn, and the network after it. -/
def act (n : Network) : Turn → List Event × Network
  | .take step => ([⟨step, (n.take step).1⟩], (n.take step).2)
  | .resume step => ([⟨step, (n.resume step).1⟩], (n.resume step).2)
  | .reorder table => ([], n.reorder table)

/-- The network after turns. -/
def interleave (turns : List Turn) (n : Network) : Network :=
  turns.foldl (fun n t => (n.act t).2) n

/-- What is seen of turns, in order. -/
def history : List Turn → Network → List Event
  | [], _ => []
  | t :: rest, n => (n.act t).1 ++ history rest (n.act t).2

/-- No turns change nothing. -/
@[simp] theorem interleave_nil (n : Network) : interleave [] n = n := rfl

/-- The first turn is taken first. -/
@[simp] theorem interleave_cons (t : Turn) (rest : List Turn) (n : Network) :
    interleave (t :: rest) n = interleave rest (n.act t).2 := rfl

/-- Some turns are taken, and then the others. -/
theorem interleave_append (first rest : List Turn) (n : Network) :
    interleave (first ++ rest) n = interleave rest (interleave first n) :=
  List.foldl_append

/-- No turns have no history. -/
@[simp] theorem history_nil (n : Network) : history [] n = [] := rfl

/-- What happens in the first turn comes first. -/
@[simp] theorem history_cons (t : Turn) (rest : List Turn) (n : Network) :
    history (t :: rest) n = (n.act t).1 ++ history rest (n.act t).2 := rfl

/-- The history of some turns, and then of the others. -/
theorem history_append (first rest : List Turn) (n : Network) :
    history (first ++ rest) n = history first n ++ history rest (interleave first n) := by
  induction first generalizing n with
  | nil => rfl
  | cons t first ih => simp [ih]

/-- **What every turn keeps**, of the network and of what is seen up to it, turns keep in any
order. -/
theorem interleave_induction {P : List Event → Network → Prop}
    (h : ∀ seen n t, P seen n → P (seen ++ (n.act t).1) (n.act t).2) (turns : List Turn)
    {seen : List Event} {n : Network} (hn : P seen n) :
    P (seen ++ history turns n) (interleave turns n) := by
  induction turns generalizing seen n with
  | nil => simpa using hn
  | cons t rest ih => simpa using ih (h seen n t hn)

/-- What a new network has and every turn keeps, all turns at a new network lead to. -/
theorem reachable_induction {P : List Event → Network → Prop} {capacity : Nat}
    (hnew : P [] (.new capacity))
    (h : ∀ seen n t, P seen n → P (seen ++ (n.act t).1) (n.act t).2) (turns : List Turn) :
    P (history turns (.new capacity)) (interleave turns (.new capacity)) := by
  simpa using interleave_induction h turns hnew

end Network

/-! ## What a turn can do -/

/-- The get whose result a step looks for. -/
def NetworkStep.look? : NetworkStep → Option Nat
  | .wake id | .expire id => some id
  | _ => none

/-- Whether a step is a call on filters. -/
def NetworkStep.filters : NetworkStep → Bool
  | .setFilter _ | .cancelFilter _ => true
  | _ => false

/-- Whether a listener takes something in a step. -/
def NetworkStep.collects : NetworkStep → Bool
  | .takeInterest _ | .takeObject _ => true
  | _ => false

/-- **What a step can do to the forwarder**, with its reply and what is handed to listeners. Whether
the forwarder is open matters only for what a waiting get finds. -/
inductive Forwarder.Does (f : Forwarder) :
    NetworkStep → NetworkReply → List Delivery → Forwarder → Prop where
  /-- An object is accepted. -/
  | accepts {o : ContentObject} {d : Digest} (hd : o.digest = .ok d) :
    f.Does (.put o) .done (f.deliveriesOf o) (f.receive o d).1
  /-- A call is refused. -/
  | refuses {step : NetworkStep} (hstep : step.looksFirst = true) (e : TransportError) :
    f.Does step (.refused e) [] f
  /-- A get is answered from the store. -/
  | finds {i : Interest} {wait : Bool} {o : ContentObject} {store : ContentStore}
    (hlookup : f.store.lookup i = (some o, store)) :
    f.Does (.beginGet i wait) (.started (.found o)) [] { f with store }
  /-- A get finds nothing and does not wait. -/
  | lacks {i : Interest} {wait : Bool} (hlookup : (f.store.lookup i).1 = none) :
    f.Does (.beginGet i wait) (.started .absent) [] f
  /-- A get begins to wait. -/
  | begins {i : Interest} {wait : Bool} (hlookup : (f.store.lookup i).1 = none) :
    f.Does (.beginGet i wait) (.started (.waiting f.nextId)) (f.dispatch i)
      { f with pending := f.pending ++ [⟨f.nextId, i, none⟩], nextId := f.nextId + 1 }
  /-- A waiting get takes its answer. -/
  | answers {step : NetworkStep} {id : Nat} {o : ContentObject} (hlook : step.look? = some id)
    (hanswer : f.answer? id = some o) : f.Does step (.ended (some o)) [] (f.forget id)
  /-- A waiting get has no answer and finds the forwarder shut down. -/
  | fails {step : NetworkStep} {id : Nat} (hlook : step.look? = some id)
    (hanswer : f.answer? id = none) (hclosed : f.closed = true) :
    f.Does step (.refused .closed) [] (f.forget id)
  /-- A waiting get has no result yet. -/
  | stays {id : Nat} (hanswer : f.answer? id = none) (hopen : f.closed = false) :
    f.Does (.wake id) .waiting [] f
  /-- A waiting get gives up. -/
  | givesUp {id : Nat} (hanswer : f.answer? id = none) (hopen : f.closed = false) :
    f.Does (.expire id) (.ended none) [] (f.forget id)
  /-- The forwarder is shut down. -/
  | closes : f.Does .close .done [] f.close
  /-- The filters change. -/
  | filters {step : NetworkStep} (hstep : step.filters = true) (filters : List InterestFilter) :
    f.Does step .done [] { f with filters }
  /-- A standing interest is expressed. -/
  | expresses {s : StandingInterest} {hit : Option ContentObject} {store : ContentStore}
    (hnew : s ∉ f.standing) (hlookup : f.store.lookup s.interest = (hit, store)) :
    f.Does (.express s) .done
      ((hit.map fun o => Delivery.object s.listener o).toList ++ f.dispatch s.interest)
      { f with standing := f.standing ++ [s], store }
  /-- A standing interest that is expressed already is expressed again. -/
  | repeats {s : StandingInterest} (hmem : s ∈ f.standing) : f.Does (.express s) .done [] f
  /-- A standing interest is taken back. -/
  | cancels (s : StandingInterest) :
    f.Does (.cancelInterest s) .done [] { f with standing := f.standing.filter (· ≠ s) }
  /-- A listener takes something. -/
  | collects {step : NetworkStep} (hstep : step.collects = true) (reply : NetworkReply) :
    f.Does step reply [] f

namespace Forwarder

variable {f : Forwarder}

/-- A get that starts is answered from the store, or waits, or does neither. -/
theorem does_start (i : Interest) (wait : Bool) (f : Forwarder) :
    f.Does (.beginGet i wait) (.started (f.start i wait).1) (f.start i wait).2.2
      (f.start i wait).2.1 := by
  rw [start]
  split
  · next o store hlookup => exact .finds hlookup
  · next store hlookup =>
    split
    · exact .begins (by rw [hlookup])
    · exact .lacks (by rw [hlookup])

/-- A waiting get that looks for its result takes its answer, or fails, or has to wait on. -/
theorem wake_cases (id : Nat) (f : Forwarder) :
    (∃ o, f.answer? id = some o ∧ f.wake id = (some (.ok o), f.forget id))
      ∨ f.answer? id = none
        ∧ (f.closed = true ∧ f.wake id = (some (.error .closed), f.forget id)
          ∨ f.closed = false ∧ f.wake id = (none, f)) := by
  rw [wake]
  cases hanswer : f.answer? id with
  | some o => exact .inl ⟨o, rfl, rfl⟩
  | none =>
    cases hclosed : f.closed with
    | true => exact .inr ⟨rfl, .inl ⟨rfl, rfl⟩⟩
    | false => exact .inr ⟨rfl, .inr ⟨rfl, rfl⟩⟩

/-- A get that has found its result waits no longer. -/
theorem wake_snd_of_some {id : Nat} {f : Forwarder}
    {result : Except TransportError ContentObject} (h : (f.wake id).1 = some result) :
    (f.wake id).2 = f.forget id := by
  obtain ⟨o, -, heq⟩ | ⟨-, ⟨-, heq⟩ | ⟨-, heq⟩⟩ := f.wake_cases id <;> rw [heq] at h ⊢
  cases h

/-- A get that gives up waits no longer, with a result or without. -/
theorem expire_snd (id : Nat) (f : Forwarder) : (f.expire id).2 = f.forget id := by
  rw [expire]
  obtain ⟨o, -, heq⟩ | ⟨-, ⟨-, heq⟩ | ⟨-, heq⟩⟩ := f.wake_cases id <;> rw [heq]

end Forwarder

namespace Network

/-- A get that has found its result waits no longer. -/
theorem eq_of_wake_eq_some {id : Nat} {n n' : Network}
    {result : Except TransportError ContentObject} (h : n.wake id = (some result, n')) :
    n' = { n with forwarder := n.forwarder.forget id } := by
  have hresult : (n.forwarder.wake id).1 = some result := congrArg Prod.fst h
  have hstate : { n with forwarder := (n.forwarder.wake id).2 } = n' := congrArg Prod.snd h
  rw [← hstate, Forwarder.wake_snd_of_some hresult]

/-- A get that gives up waits no longer. -/
theorem expire_snd (id : Nat) (n : Network) :
    (expire id n).2 = { n with forwarder := n.forwarder.forget id } := by
  rw [← Forwarder.expire_snd]
  rfl

/-- **Every step does one of these things.** -/
theorem does_take (n : Network) (step : NetworkStep) :
    n.forwarder.Does step (n.take step).1 (n.deliveries step) (n.take step).2.forwarder := by
  cases step with
  | put o =>
    rw [take, NetworkReply.ofAction, put, deliveries]
    cases h : n.forwarder.put o with
    | error e => exact .refuses rfl e
    | ok r =>
      obtain ⟨-, d, hd, rfl⟩ := Forwarder.exists_of_put_eq_ok h
      simp only [after_forwarder, Forwarder.receive_snd]
      exact .accepts hd
  | beginGet i wait =>
    rw [take, NetworkReply.ofAction, beginGet, deliveries]
    cases h : n.forwarder.beginGet i wait with
    | error e => exact .refuses rfl e
    | ok r =>
      obtain ⟨-, -, rfl⟩ := Forwarder.exists_of_beginGet_eq_ok h
      simp only [after_forwarder]
      exact Forwarder.does_start i wait n.forwarder
  | wake id =>
    have hnone : n.deliveries (.wake id) = [] := rfl
    rw [take, wake, hnone]
    obtain ⟨o, hanswer, hwake⟩ | ⟨hanswer, ⟨hclosed, hwake⟩ | ⟨hopen, hwake⟩⟩ :=
      n.forwarder.wake_cases id <;> simp only [hwake]
    · exact .answers rfl hanswer
    · exact .fails rfl hanswer hclosed
    · exact .stays hanswer hopen
  | expire id =>
    have hnone : n.deliveries (.expire id) = [] := rfl
    rw [take, NetworkReply.ofAction, expire, Forwarder.expire, hnone]
    obtain ⟨o, hanswer, hwake⟩ | ⟨hanswer, ⟨hclosed, hwake⟩ | ⟨hopen, hwake⟩⟩ :=
      n.forwarder.wake_cases id <;> simp only [hwake]
    · exact .answers rfl hanswer
    · exact .fails rfl hanswer hclosed
    · exact .givesUp hanswer hopen
  | close => exact .closes
  | setFilter g =>
    rw [take, NetworkReply.ofAction, setFilter, Network.step]
    cases h : n.forwarder.setFilter g with
    | error e => exact .refuses rfl e
    | ok f =>
      obtain ⟨-, rfl⟩ := Forwarder.setFilter_eq_ok_iff.1 h
      exact .filters rfl _
  | cancelFilter g =>
    rw [take, NetworkReply.ofAction, cancelFilter, Network.step]
    cases h : n.forwarder.cancelFilter g with
    | error e => exact .refuses rfl e
    | ok f =>
      obtain ⟨-, rfl⟩ := Forwarder.cancelFilter_eq_ok_iff.1 h
      exact .filters rfl _
  | express s =>
    rw [take, NetworkReply.ofAction, express, deliveries]
    cases h : n.forwarder.express s with
    | error e => exact .refuses rfl e
    | ok r =>
      simp only [after_forwarder]
      obtain ⟨hmem, rfl⟩ | ⟨hnew, hit, store, hlookup, rfl⟩ := Forwarder.express_cases h
      · exact .repeats hmem
      · exact .expresses hnew hlookup
  | cancelInterest s =>
    rw [take, NetworkReply.ofAction, cancelInterest, Network.step]
    cases h : n.forwarder.cancelInterest s with
    | error e => exact .refuses rfl e
    | ok f =>
      obtain ⟨-, rfl⟩ := Forwarder.cancelInterest_eq_ok_iff.1 h
      exact .cancels s
  | takeInterest l => exact .collects rfl _
  | takeObject l => exact .collects rfl _

/-- What a listener takes in a step stood in front of its mail, and what the step hands to it comes
behind. -/
theorem mail_take (n : Network) (step : NetworkStep) (l : ListenerId) :
    (Event.collected? l ⟨step, (n.take step).1⟩).toList ++ (n.take step).2.objects.waiting l
      = n.objects.waiting l ++ (n.deliveries step).filterMap (Delivery.objectFor l) := by
  by_cases hstep : step = .takeObject l
  · subst hstep
    have hnone : n.deliveries (.takeObject l) = [] := rfl
    have htaken : Event.collected? l ⟨.takeObject l, (n.take (.takeObject l)).1⟩
        = (n.objects.waiting l).head? := by
      simpa [take, NetworkReply.ofAction, takeObject, Event.collected?]
        using (Mail.next_eq n.objects l).1
    have hleft : (n.take (.takeObject l)).2.objects.waiting l = (n.objects.waiting l).tail := by
      simpa [take, ofAction_snd, takeObject] using (Mail.next_eq n.objects l).2
    rw [htaken, hleft, hnone, List.filterMap_nil, List.append_nil]
    cases n.objects.waiting l <;> rfl
  · -- in every other step the listener takes nothing
    have hnone : Event.collected? l ⟨step, (n.take step).1⟩ = none := by
      cases step with
      | takeObject k =>
        have hk : k ≠ l := fun h => hstep (h ▸ rfl)
        simp [take, NetworkReply.ofAction, takeObject, Event.collected?, hk]
      | _ => rfl
    rw [hnone]
    exact objects_take hstep

end Network

/-- Whether a forwarder is shut down makes no difference to what an object does to it. -/
theorem Forwarder.receive_withClosed (f : Forwarder) (closed : Bool) (o : ContentObject)
    (d : Digest) : ((f.withClosed closed).receive o d).1 = (f.receive o d).1.withClosed closed := by
  have hdeliveries : (f.withClosed closed).deliveriesOf o = f.deliveriesOf o := rfl
  have hpending : (f.withClosed closed).pending = f.pending := rfl
  rw [receive, receive, hdeliveries, hpending]
  split <;> rfl

/-- A call does at a forwarder what it would do if that were open or shut down. -/
theorem Forwarder.Does.withClosed {f f' : Forwarder} {closed : Bool} {step : NetworkStep}
    {reply : NetworkReply} {handed : List Delivery}
    (h : (f.withClosed closed).Does step reply handed f') (hstep : step.looksFirst = true) :
    f.Does step reply handed (f'.withClosed f.closed) := by
  cases h with
  | @accepts o d hd =>
    have hclosed : (f.receive o d).1.closed = f.closed := (advances_receive o d f).closed
    have hreceive : ((f.withClosed closed).receive o d).1.withClosed f.closed
        = (f.receive o d).1 := by
      rw [receive_withClosed, ← hclosed]
      rfl
    rw [hreceive]
    exact .accepts hd
  | refuses _ e => exact .refuses hstep e
  | finds hlookup => exact .finds hlookup
  | lacks hlookup => exact .lacks hlookup
  | begins hlookup => exact .begins hlookup
  | filters hfilters filters => exact .filters hfilters filters
  | expresses hnew hlookup => exact .expresses hnew hlookup
  | repeats hmem => exact .repeats hmem
  | cancels s => exact .cancels s
  -- only steps that do not ask first whether the forwarder is shut down do the rest
  | answers hlook | fails hlook => cases step <;> cases hlook <;> cases hstep
  | stays | givesUp | closes => cases hstep
  | collects hcollects => cases step <;> cases hcollects <;> cases hstep

namespace Network

/-- **What a turn does**: it changes the order of the waiting gets, or it is a step that does one of
the things above and delivers what it hands out. -/
theorem act_cases (n : Network) (t : Turn) :
    (∃ table, table.Perm n.forwarder.pending
        ∧ n.act t = ([], { n with forwarder := { n.forwarder with pending := table } }))
      ∨ ∃ step reply handed, (n.act t).1 = [⟨step, reply⟩]
        ∧ n.forwarder.Does step reply handed (n.act t).2.forwarder
        ∧ ∀ l, (Event.collected? l ⟨step, reply⟩).toList ++ (n.act t).2.objects.waiting l
          = n.objects.waiting l ++ handed.filterMap (Delivery.objectFor l) := by
  cases t with
  | take step =>
    exact .inr ⟨step, _, _, rfl, does_take n step, mail_take n step⟩
  | resume step =>
    refine .inr ⟨step, (n.resume step).1, ?_⟩
    cases hlooks : step.looksFirst with
    | false =>
      have hresume : n.resume step = n.take step := by simp [resume, hlooks]
      rw [act, hresume]
      exact ⟨_, rfl, does_take n step, mail_take n step⟩
    | true =>
      -- it has looked before, and goes on as if the forwarder were open
      have hresume : n.resume step = (((n.withClosed false).take step).1,
          ((n.withClosed false).take step).2.withClosed n.forwarder.closed) := by
        simp [resume, hlooks]
      rw [act, hresume]
      exact ⟨_, rfl, (does_take (n.withClosed false) step).withClosed hlooks,
        mail_take (n.withClosed false) step⟩
  | reorder table =>
    rw [act, reorder]
    by_cases hperm : table.isPerm n.forwarder.pending = true
    · exact .inl ⟨table, List.isPerm_iff.1 hperm, by rw [if_pos hperm]⟩
    · exact .inl ⟨n.forwarder.pending, .refl _, by rw [if_neg hperm]⟩

end Network

/-! ## Shutting down -/

/-- Whether a step shuts the forwarder down. -/
def NetworkStep.isClose : NetworkStep → Bool
  | .close => true
  | _ => false

/-- Whether the forwarder has been shut down. -/
def shutDown (h : List Event) : Bool := h.any (·.step.isClose)

/-- A forwarder is shut down in one part of a history or in the other. -/
@[simp] theorem shutDown_append (h h' : List Event) :
    shutDown (h ++ h') = (shutDown h || shutDown h') := List.any_append

/-- A step shuts the forwarder down, or leaves it as it is. -/
theorem Forwarder.Does.closed {f f' : Forwarder} {step : NetworkStep} {reply : NetworkReply}
    {handed : List Delivery} (hdoes : f.Does step reply handed f') :
    f'.closed = (f.closed || step.isClose) := by
  cases hdoes with
  | @accepts o d => simpa [NetworkStep.isClose] using (advances_receive o d f).closed
  | refuses hstep => cases step <;> cases hstep <;> simp [NetworkStep.isClose]
  | answers hlook | fails hlook =>
    cases step <;> cases hlook <;> simp [NetworkStep.isClose, forget]
  | filters hstep | collects hstep => cases step <;> cases hstep <;> simp [NetworkStep.isClose]
  | _ => simp [NetworkStep.isClose, forget, close]

namespace Network

/-- A forwarder is shut down after a turn if it was, or is in the turn. -/
theorem closed_act (n : Network) (t : Turn) :
    (n.act t).2.forwarder.closed = (n.forwarder.closed || shutDown (n.act t).1) := by
  obtain ⟨table, hperm, hact⟩ | ⟨step, reply, handed, hevents, hdoes, -⟩ := act_cases n t
  · simp [hact, shutDown]
  · simp [hevents, hdoes.closed, shutDown]

/-- A forwarder is shut down when it was before or has been shut down since. -/
theorem closed_interleave (turns : List Turn) (n : Network) :
    (interleave turns n).forwarder.closed
      = (n.forwarder.closed || shutDown (history turns n)) := by
  induction turns generalizing n with
  | nil => simp [shutDown]
  | cons t rest ih =>
    rw [interleave_cons, ih, closed_act, history_cons, shutDown_append, Bool.or_assoc]

end Network

end NamedContent
