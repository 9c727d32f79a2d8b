import NamedContent.Proofs.Forwarder.Operations

/-! # What the steps of the forwarder deliver

A step of the forwarder hands interests to publishers and objects to subscribers. What it hands to a
listener comes behind what waits for that listener already, and nothing else comes.

* `Forwarder.dispatch_interestFor`, `Forwarder.deliveriesOf_objectFor`: how often a listener gets
  an interest or an object
* `Network.deliveries`: what a step hands out
* `Network.waiting_take`, `Network.objects_take`: the mail of a listener after a step -/

namespace NamedContent

/-- The object that a delivery brings to a listener, if it does. -/
def Delivery.objectFor (l : ListenerId) : Delivery → Option ContentObject
  | .interest _ _ => none
  | .object k o => if k = l then some o else none

/-- What waits first for a listener is what it takes next. -/
theorem Mail.next_of_head? {α : Type} {m : Mail α} {l : ListenerId} {found : Option α}
    (h : (m.waiting l).head? = found) : m.next l = (found, (m.next l).2) :=
  Prod.ext ((Mail.next_eq m l).1.trans h) rfl

namespace Forwarder

/-- A filter's listener gets an interest once for each of its filters that leads the name. -/
theorem dispatch_interestFor (f : Forwarder) (i : Interest) (l : ListenerId) :
    (f.dispatch i).filterMap (Delivery.interestFor l)
      = List.replicate (f.filters.countP fun g => g.root.isPrefixOf i.name && g.listener = l)
        i := by
  rw [dispatch, List.filterMap_map]
  induction f.filters with
  | nil => rfl
  | cons g rest ih =>
    by_cases hroot : g.root.isPrefixOf i.name = true
    · by_cases hl : g.listener = l
      · simp [hroot, hl, ih, Delivery.interestFor, List.replicate_succ]
      · simp [hroot, hl, ih, Delivery.interestFor]
    · simpa [hroot, Function.comp_def] using ih

/-- A subscriber's listener gets an object once for each of its standing interests that the object
matches. -/
theorem deliveriesOf_objectFor (f : Forwarder) (o : ContentObject) (l : ListenerId) :
    (f.deliveriesOf o).filterMap (Delivery.objectFor l)
      = ((f.standing.filter (·.listener = l)).filter (·.interest.accepts o)).map fun _ => o := by
  rw [deliveriesOf, List.filterMap_map]
  induction f.standing with
  | nil => rfl
  | cons s rest ih =>
    by_cases haccepts : s.interest.accepts o = true
    · by_cases hl : s.listener = l
      · simp [haccepts, hl, ih, Delivery.objectFor]
      · simp [haccepts, hl, ih, Delivery.objectFor]
    · by_cases hl : s.listener = l
      · simpa [haccepts, hl, Function.comp_def] using ih
      · simpa [haccepts, hl, Function.comp_def] using ih

/-- Passing on an interest delivers no object. -/
@[simp] theorem dispatch_objectFor (f : Forwarder) (i : Interest) (l : ListenerId) :
    (f.dispatch i).filterMap (Delivery.objectFor l) = [] := by
  simp [dispatch, Delivery.objectFor]

/-- Delivering an object passes on no interest. -/
@[simp] theorem deliveriesOf_interestFor (f : Forwarder) (o : ContentObject) (l : ListenerId) :
    (f.deliveriesOf o).filterMap (Delivery.interestFor l) = [] := by
  simp [deliveriesOf, Delivery.interestFor]

/-- Only the interest of a get that waits is passed on. -/
theorem start_cases (f : Forwarder) (i : Interest) (wait : Bool) :
    (∃ id, (f.start i wait).1 = .waiting id) ∧ (f.start i wait).2.2 = f.dispatch i
      ∨ (∀ id, (f.start i wait).1 ≠ .waiting id) ∧ (f.start i wait).2.2 = [] := by
  rw [start]
  split
  · exact .inr ⟨by simp, rfl⟩
  · cases wait with
    | true => exact .inl ⟨⟨_, rfl⟩, rfl⟩
    | false => exact .inr ⟨by simp, rfl⟩

end Forwarder

namespace Network

variable {n : Network} {l : ListenerId}

/-- What a step hands to listeners. -/
def deliveries (n : Network) : NetworkStep → List Delivery
  | .put o =>
    match n.forwarder.put o with
    | .ok (_, handed) => handed
    | .error _ => []
  | .beginGet i wait =>
    match n.forwarder.beginGet i wait with
    | .ok (_, _, handed) => handed
    | .error _ => []
  | .express s =>
    match n.forwarder.express s with
    | .ok (_, handed) => handed
    | .error _ => []
  | _ => []

/-- An object that arrives brings no interests. -/
theorem deliveries_put_interestFor (o : ContentObject) (n : Network) (l : ListenerId) :
    (n.deliveries (.put o)).filterMap (Delivery.interestFor l) = [] := by
  rw [deliveries]
  cases h : n.forwarder.put o with
  | error e => rfl
  | ok r =>
    obtain ⟨-, d, -, rfl⟩ := Forwarder.exists_of_put_eq_ok h
    simp

/-- An object that arrives goes to the listeners of standing interests if the call is done. -/
theorem deliveries_put_objectFor (o : ContentObject) (n : Network) (l : ListenerId) :
    (n.deliveries (.put o)).filterMap (Delivery.objectFor l)
      = if (put o n).1.isOk then (n.forwarder.deliveriesOf o).filterMap (Delivery.objectFor l)
        else [] := by
  rw [deliveries, put]
  cases h : n.forwarder.put o with
  | error e => rfl
  | ok r =>
    obtain ⟨-, d, -, rfl⟩ := Forwarder.exists_of_put_eq_ok h
    simp [Except.isOk, Except.toBool]

/-- A get that starts hands out no objects. -/
theorem deliveries_beginGet_objectFor (i : Interest) (wait : Bool) (n : Network) (l : ListenerId) :
    (n.deliveries (.beginGet i wait)).filterMap (Delivery.objectFor l) = [] := by
  rw [deliveries]
  cases h : n.forwarder.beginGet i wait with
  | error e => rfl
  | ok r =>
    obtain ⟨-, -, rfl⟩ := Forwarder.exists_of_beginGet_eq_ok h
    obtain ⟨-, hpassed⟩ | ⟨-, hpassed⟩ := n.forwarder.start_cases i wait <;> simp [hpassed]

/-- Objects come behind what waits already. -/
theorem objects_after (n : Network) (f : Forwarder) (handed : List Delivery) (l : ListenerId) :
    (n.after f handed).objects.waiting l
      = n.objects.waiting l ++ handed.filterMap (Delivery.objectFor l) := by
  refine @foldl_post _ (·.objects.waiting l) _ (fun m d => ?_) handed _
  cases d with
  | interest k i => exact (List.append_nil _).symm
  | object k o =>
    by_cases hk : k = l
    · subst hk
      simp [post, Delivery.objectFor]
    · simp [post, Delivery.objectFor, hk, Mail.waiting_deliver_of_ne]

/-- A step that changes the forwarder alone delivers nothing. -/
theorem step_eq_after (change : Forwarder → Except TransportError Forwarder) (n : Network) :
    ∃ f, (step change n).2 = n.after f [] := by
  rw [step]
  cases change n.forwarder with
  | ok f => exact ⟨f, rfl⟩
  | error e => exact ⟨n.forwarder, rfl⟩

/-- **What a step of an application does**: the forwarder changes and the deliveries are made,
unless a listener takes something from its mail. -/
theorem take_eq_after (n : Network) (step : NetworkStep) :
    (∃ l, step = .takeInterest l) ∨ (∃ l, step = .takeObject l)
      ∨ ∃ f, (n.take step).2 = n.after f (n.deliveries step) := by
  cases step with
  | takeInterest l => exact .inl ⟨l, rfl⟩
  | takeObject l => exact .inr (.inl ⟨l, rfl⟩)
  | put o =>
    rw [take, ofAction_snd, put, deliveries]
    cases n.forwarder.put o with
    | ok r => exact .inr (.inr ⟨r.1, rfl⟩)
    | error e => exact .inr (.inr ⟨n.forwarder, rfl⟩)
  | beginGet i wait =>
    rw [take, ofAction_snd, beginGet, deliveries]
    cases n.forwarder.beginGet i wait with
    | ok r => exact .inr (.inr ⟨r.2.1, rfl⟩)
    | error e => exact .inr (.inr ⟨n.forwarder, rfl⟩)
  | express s =>
    rw [take, ofAction_snd, express, deliveries]
    cases n.forwarder.express s with
    | ok r => exact .inr (.inr ⟨r.1, rfl⟩)
    | error e => exact .inr (.inr ⟨n.forwarder, rfl⟩)
  | wake id =>
    rw [take]
    split <;> next h => exact .inr (.inr ⟨_, (Prod.mk.inj h).2.symm⟩)
  | expire id => exact .inr (.inr ⟨_, ofAction_snd ..⟩)
  | close => exact .inr (.inr ⟨_, rfl⟩)
  | setFilter g =>
    rw [take, ofAction_snd]
    exact .inr (.inr (step_eq_after _ n))
  | cancelFilter g =>
    rw [take, ofAction_snd]
    exact .inr (.inr (step_eq_after _ n))
  | cancelInterest s =>
    rw [take, ofAction_snd]
    exact .inr (.inr (step_eq_after _ n))

/-- **The interests of a listener after a step**: those that the step hands to it come behind those
that wait, unless the listener takes one itself. -/
theorem waiting_take {step : NetworkStep} (h : step ≠ .takeInterest l) :
    (n.take step).2.interests.waiting l
      = n.interests.waiting l ++ (n.deliveries step).filterMap (Delivery.interestFor l) := by
  obtain ⟨k, rfl⟩ | ⟨k, rfl⟩ | ⟨f, hf⟩ := take_eq_after n step
  · have hk : k ≠ l := fun hk => h (hk ▸ rfl)
    simpa [take, ofAction_snd, takeInterest, deliveries] using Mail.waiting_next_of_ne _ hk
  · simp [take, ofAction_snd, takeObject, deliveries]
  · rw [hf]
    exact waiting_after ..

/-- A listener that takes its first interest leaves the others. -/
theorem waiting_takeInterest (n : Network) (l : ListenerId) :
    (n.take (.takeInterest l)).2.interests.waiting l = (n.interests.waiting l).tail := by
  simpa [take, ofAction_snd, takeInterest] using (Mail.next_eq n.interests l).2

/-- **The objects of a listener after a step**: those that the step hands to it come behind those
that wait, unless the listener takes one itself. -/
theorem objects_take {step : NetworkStep} (h : step ≠ .takeObject l) :
    (n.take step).2.objects.waiting l
      = n.objects.waiting l ++ (n.deliveries step).filterMap (Delivery.objectFor l) := by
  obtain ⟨k, rfl⟩ | ⟨k, rfl⟩ | ⟨f, hf⟩ := take_eq_after n step
  · simp [take, ofAction_snd, takeInterest, deliveries]
  · have hk : k ≠ l := fun hk => h (hk ▸ rfl)
    simpa [take, ofAction_snd, takeObject, deliveries] using Mail.waiting_next_of_ne _ hk
  · rw [hf]
    exact objects_after ..

end Network

end NamedContent
