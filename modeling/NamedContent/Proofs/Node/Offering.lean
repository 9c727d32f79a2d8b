import NamedContent.Proofs.Forwarder.Carrying
import NamedContent.Proofs.Node.Changes
import NamedContent.Proofs.Signing.Objects

/-! # A publisher on a node

One flow controller of a node keeps all that is published; the others only hold interests. Whoever
asks below a namespace of that controller is then answered rightly, from the store or by the
controller, whatever the store has kept and whatever else was asked before.

* `Offer`: what a publisher has published, `Node.Offers`: a node with such a publisher
* `Node.Offers.settle`: responding answers what can be answered
* `Node.Offers.get`: a get through any face is answered rightly -/

namespace NamedContent

/-- What a publisher offers. -/
structure Offer where
  /-- The controller that it publishes through. -/
  controller : ControllerId
  /-- How many objects the controller keeps. -/
  capacity : Nat
  /-- Names under which the controller is asked. -/
  roots : List Name
  /-- The objects published so far, the oldest first. -/
  units : List ContentObject
  /-- The last time minted. -/
  minted : Timestamp

/-- Whether a controller keeps just what is offered. -/
structure FlowControl.Keeps (c : FlowControl) (a : Offer) : Prop where
  buffer : c.buffer = a.units.map fun o => (o.name, o)
  arrivals : c.arrivals = a.units.map (·.name)
  capacity : c.limits.bufferCapacity = a.capacity
  roots : ∀ root ∈ a.roots, root ∈ c.namespaces

/-- The publisher has in its buffer all that is published. -/
theorem FlowControl.Keeps.objects_eq {c : FlowControl} {a : Offer} (h : c.Keeps a) :
    c.objects = a.units := by
  rw [objects, h.buffer, List.map_map]
  exact List.map_id _

namespace Node

/-- A node on which all is well and on which only one controller has published anything. -/
structure Offers (s : Node) (a : Offer) : Prop where
  carries : s.network.forwarder.Carries a.units
  valid : ∀ o ∈ a.units, o.Valid
  gets : s.gets = []
  schedule : s.schedule = []
  faces : ∀ id, (s.face id).cancelled = false
  queues : ∀ q ∈ s.queues, q.1.id < s.nextId ∧ q.2 = ⟨q.1.id⟩
  registered : ∀ id c, s.controller? id = some c → ∀ root ∈ c.flow.namespaces,
    ⟨c.face, root, c.listener⟩ ∈ s.network.forwarder.filters
  publisher : ∃ c, s.controller? a.controller = some c ∧ c.flow.Keeps a
  others : ∀ id c, id ≠ a.controller → s.controller? id = some c → c.flow.buffer = []
  minted : s.lastMinted = a.minted

namespace Offers

variable {s : Node} {a : Offer}

/-- The publisher's controller keeps what is offered. -/
theorem keeps (h : s.Offers a) {c : Controller} (hc : s.controller? a.controller = some c) :
    c.flow.Keeps a := by
  obtain ⟨w, hw, hkeeps⟩ := h.publisher
  rw [hc] at hw
  rwa [Option.some.inj hw]

/-- What has no controller is not the publisher. -/
theorem ne_of_none (h : s.Offers a) {id : ControllerId} (hc : s.controller? id = none) :
    id ≠ a.controller := by
  rintro rfl
  obtain ⟨w, hw, -⟩ := h.publisher
  rw [hc] at hw
  exact absurd hw (by simp)

/-- Two controllers have different queues. -/
theorem eq_of_queue_eq (h : s.Offers a) {p q : ControllerId × ListenerId} (hp : p ∈ s.queues)
    (hq : q ∈ s.queues) (heq : p.2 = q.2) : p.1 = q.1 := by
  rw [(h.queues p hp).2, (h.queues q hq).2] at heq
  obtain ⟨⟨_⟩, _⟩ := p
  obtain ⟨⟨_⟩, _⟩ := q
  simpa using heq

/-- When the namespaces of a changed controller have their filters, all namespaces have. -/
theorem registered_setFlow (h : s.Offers a) {id : ControllerId} {c : Controller}
    (hc : s.controller? id = some c) {flow : FlowControl}
    (hfilters : ∀ root ∈ flow.namespaces,
      ⟨c.face, root, c.listener⟩ ∈ s.network.forwarder.filters) :
    ∀ k d, (s.setFlow id flow).controller? k = some d → ∀ root ∈ d.flow.namespaces,
      ⟨d.face, root, d.listener⟩ ∈ s.network.forwarder.filters := by
  intro k d hd root hroot
  rw [controller?_setFlow, Option.map_eq_some_iff] at hd
  obtain ⟨d', hd', rfl⟩ := hd
  by_cases hk : k = id
  · subst hk
    rw [hc] at hd'
    rw [← Option.some.inj hd'] at hroot ⊢
    simp only [if_true] at hroot ⊢
    exact hfilters root hroot
  · rw [if_neg hk] at hroot ⊢
    exact h.registered k d' hd' root hroot

/-- The publisher's controller changes, and keeps what is offered then. -/
theorem setPublisher (h : s.Offers a) {c : Controller} (hc : s.controller? a.controller = some c)
    {flow : FlowControl} {a' : Offer} (hcontroller : a'.controller = a.controller)
    (hminted : a'.minted = a.minted) (hunits : ∀ o ∈ a.units, o ∈ a'.units)
    (hvalid : ∀ o ∈ a'.units, o.Valid) (hkeeps : flow.Keeps a')
    (hfilters : ∀ root ∈ flow.namespaces,
      ⟨c.face, root, c.listener⟩ ∈ s.network.forwarder.filters) :
    (s.setFlow a.controller flow).Offers a' where
  carries := h.carries.mono hunits
  valid := hvalid
  gets := h.gets
  schedule := h.schedule
  faces := h.faces
  queues := (queues_setFlow s a.controller flow).symm ▸ h.queues
  registered := h.registered_setFlow hc hfilters
  publisher := by
    rw [hcontroller, controller?_setFlow, hc]
    exact ⟨_, rfl, by simpa using hkeeps⟩
  others k d hk hd := by
    rw [hcontroller] at hk
    rw [controller?_setFlow, Option.map_eq_some_iff] at hd
    obtain ⟨d', hd', rfl⟩ := hd
    rw [if_neg hk]
    exact h.others k d' hk hd'
  minted := h.minted.trans hminted.symm

/-- Another controller changes, and still keeps nothing. -/
theorem setOther (h : s.Offers a) {id : ControllerId} {c : Controller}
    (hc : s.controller? id = some c) (hne : id ≠ a.controller) {flow : FlowControl}
    (hbuffer : flow.buffer = [])
    (hfilters : ∀ root ∈ flow.namespaces,
      ⟨c.face, root, c.listener⟩ ∈ s.network.forwarder.filters) :
    (s.setFlow id flow).Offers a where
  carries := h.carries
  valid := h.valid
  gets := h.gets
  schedule := h.schedule
  faces := h.faces
  queues := (queues_setFlow s id flow).symm ▸ h.queues
  registered := h.registered_setFlow hc hfilters
  publisher := by
    obtain ⟨w, hw, hkeeps⟩ := h.publisher
    rw [controller?_setFlow, hw]
    exact ⟨_, rfl, by simpa [Ne.symm hne] using hkeeps⟩
  others k d hk hd := by
    rw [controller?_setFlow, Option.map_eq_some_iff] at hd
    obtain ⟨d', hd', rfl⟩ := hd
    by_cases hkid : k = id
    · rw [if_pos hkid]
      exact hbuffer
    · rw [if_neg hkid]
      exact h.others k d' hk hd'
  minted := h.minted

/-- What interests a controller holds does not matter. -/
theorem setHeld (h : s.Offers a) {id : ControllerId} {c : Controller}
    (hc : s.controller? id = some c) (held : List Interest) :
    (s.setFlow id { c.flow with held }).Offers a := by
  have hfilters := h.registered id c hc
  by_cases hid : id = a.controller
  · subst hid
    exact h.setPublisher hc rfl rfl (fun _ ho => ho) h.valid { h.keeps hc with } hfilters
  · exact h.setOther hc hid (h.others id c hid hc) hfilters

/-- The network is as well with another forwarder that carries no more and has the filters. -/
theorem setNetwork (h : s.Offers a) {n : Network} (hcarries : n.forwarder.Carries a.units)
    (hfilters : ∀ g ∈ s.network.forwarder.filters, g ∈ n.forwarder.filters) :
    ({ s with network := n } : Node).Offers a :=
  { h with
    carries := hcarries
    registered := fun id c hc root hroot => hfilters _ (h.registered id c hc root hroot) }

/-- A published object goes out: it is no more than before that the forwarder carries, and every get
that it matches is answered. -/
theorem emit (h : s.Offers a) (face : OwnerId) {o : ContentObject} (ho : o ∈ a.units) :
    (s.emit face o).Offers a ∧ (s.emit face o).network.interests = s.network.interests
      ∧ ∀ id i P, s.network.forwarder.Asks id i P →
          (s.emit face o).network.forwarder.Asks id i (P ∧ i.accepts o = false) := by
  have hd := ContentObject.digest_eq_ok (h.valid o ho)
  have hemit : s.emit face o = { s with network := (Network.put o s.network).2 } := by
    rw [Node.emit, h.faces face]
    rfl
  have hforwarder : (Network.put o s.network).2.forwarder
      = (s.network.forwarder.receive o (Digest.ofBytes o.toCbor)).1 := by
    rw [Network.put_eq_ok h.carries.isOpen hd, Network.after_forwarder]
  rw [hemit]
  refine ⟨h.setNetwork ?_ ?_, Network.put_interests o s.network, fun id i P hasks => ?_⟩
  · rw [hforwarder]
    exact h.carries.receive ho _
  · rw [hforwarder, Forwarder.receive_filters]
    exact fun g hg => hg
  · rw [hforwarder]
    exact hasks.receive o _

/-! ## Responding -/

/-- What responding keeps: the publisher and what is asked for. -/
structure Persists (a : Offer) (s s' : Node) : Prop where
  offers : s'.Offers a
  asks : ∀ id i P, s.network.forwarder.Asks id i P → s'.network.forwarder.Asks id i P

/-- **A controller handles an interest.** When it is the publisher, a get for that interest is
answered unless nothing that is published answers it. -/
theorem respond (h : s.Offers a) (id : ControllerId) (i : Interest) :
    Persists a s (Node.respond id s i)
      ∧ (Node.respond id s i).network.interests = s.network.interests
      ∧ (id = a.controller → ∀ number P, s.network.forwarder.Asks number i P →
          (Node.respond id s i).network.forwarder.Asks number i (i.Answers a.units none)) := by
  rw [Node.respond]
  cases hc : s.controller? id with
  | none =>
    exact ⟨⟨h, fun _ _ _ h => h⟩, rfl, fun hid => absurd hid (h.ne_of_none hc)⟩
  | some c =>
    -- the controller answers from its buffer, which is all that is published if it is the publisher
    have hanswer := i.answers_select c.flow.objects
    have hpublisher : id = a.controller → c.flow.objects = a.units := by
      rintro rfl
      exact (h.keeps hc).objects_eq
    cases hselect : i.select c.flow.objects with
    | none =>
      rw [hselect] at hanswer
      simp only [FlowControl.receive_eq_none hselect]
      refine ⟨⟨h.setHeld hc _, fun _ _ _ h => h⟩, rfl, ?_⟩
      exact fun hid number P hasks => hasks.imp fun _ => hpublisher hid ▸ hanswer
    | some o =>
      rw [hselect] at hanswer
      -- only the publisher has something to answer with
      have hid : id = a.controller := by
        apply Classical.byContradiction
        intro hne
        have := hanswer.1
        rw [FlowControl.objects, h.others id c hne hc] at this
        exact absurd this (by simp)
      have ho : o ∈ a.units := hpublisher hid ▸ hanswer.1
      have hsame : (s.setFlow id c.flow).Offers a := h.setHeld hc c.flow.held
      obtain ⟨hoffers, hinterests, hasks⟩ := hsame.emit c.face ho
      simp only [FlowControl.receive_eq_some hselect]
      refine ⟨⟨hoffers, fun number j P hP => (hasks number j P hP).imp And.left⟩, hinterests,
        fun _ number P hP => (hasks number i P hP).imp fun hno => ?_⟩
      -- what goes out answers the interest, so that no get for it is left unanswered
      exact absurd (hanswer.2.symm.trans hno.2) (by simp)

/-- A node that stays keeps its publisher and what is asked for. -/
theorem Persists.refl (h : s.Offers a) : Persists a s s := ⟨h, fun _ _ _ h => h⟩

/-- What is kept twice is kept. -/
theorem Persists.trans {s₁ s₂ s₃ : Node} (h : Persists a s₁ s₂) (h' : Persists a s₂ s₃) :
    Persists a s₁ s₃ where
  offers := h'.offers
  asks id i P hasks := h'.asks id i P (h.asks id i P hasks)

/-- Handling interests one after the other; a get for one of them is answered by then if the
controller is the publisher. -/
theorem foldl_respond (h : s.Offers a) (id : ControllerId) (is : List Interest) :
    Persists a s (is.foldl (Node.respond id) s)
      ∧ (is.foldl (Node.respond id) s).network.interests = s.network.interests
      ∧ (id = a.controller → ∀ i ∈ is, ∀ number P, s.network.forwarder.Asks number i P →
          (is.foldl (Node.respond id) s).network.forwarder.Asks number i
            (i.Answers a.units none)) := by
  induction is generalizing s with
  | nil => exact ⟨.refl h, rfl, fun _ i hi => absurd hi (by simp)⟩
  | cons j rest ih =>
    obtain ⟨hfirst, hmail, hanswered⟩ := h.respond id j
    obtain ⟨hrest, hmail', hanswered'⟩ := ih hfirst.offers
    refine ⟨hfirst.trans hrest, hmail'.trans hmail, fun hid i hi number P hasks => ?_⟩
    rcases List.mem_cons.1 hi with rfl | hi
    · exact hrest.asks number i _ (hanswered hid number P hasks)
    · exact hanswered' hid i hi number P (hfirst.asks number i P hasks)

/-- **A controller handles its queue.** Other queues stay as they are, and a get for one of its
interests is answered by then if the controller is the publisher. -/
theorem drainQueue (h : s.Offers a) (q : ControllerId × ListenerId) :
    Persists a s (s.drainQueue q)
      ∧ (∀ l, l ≠ q.2 → (s.drainQueue q).network.interests.waiting l
          = s.network.interests.waiting l)
      ∧ (q.1 = a.controller → ∀ i ∈ s.network.interests.waiting q.2, ∀ number P,
          s.network.forwarder.Asks number i P →
          (s.drainQueue q).network.forwarder.Asks number i (i.Answers a.units none)) := by
  -- the queue is taken away as a whole before its interests are handled
  have htaken := h.setNetwork (n := { s.network with interests := s.network.interests.drained q.2 })
    h.carries fun g hg => hg
  obtain ⟨hpersists, hmail, hanswered⟩ :=
    htaken.foldl_respond q.1 (s.network.interests.waiting q.2)
  refine ⟨⟨hpersists.offers, hpersists.asks⟩, fun l hl => ?_, hanswered⟩
  rw [Node.drainQueue, hmail]
  exact Mail.waiting_drained_of_ne _ hl

/-- Queues are handled one after the other; a get for an interest that waits in one of them is
answered by then if the queue is the publisher's. By induction on the queues: one that is still to
be handled keeps its interests. -/
theorem foldl_drainQueue (h : s.Offers a) {qs : List (ControllerId × ListenerId)}
    (hqs : ∀ q ∈ qs, q ∈ s.queues) :
    Persists a s (qs.foldl Node.drainQueue s)
      ∧ ∀ q ∈ qs, q.1 = a.controller → ∀ i ∈ s.network.interests.waiting q.2, ∀ number P,
          s.network.forwarder.Asks number i P →
          (qs.foldl Node.drainQueue s).network.forwarder.Asks number i
            (i.Answers a.units none) := by
  induction qs generalizing s with
  | nil => exact ⟨.refl h, fun q hq => absurd hq (by simp)⟩
  | cons q rest ih =>
    obtain ⟨hfirst, hothers, hanswered⟩ := h.drainQueue q
    obtain ⟨hrest, hanswered'⟩ := ih hfirst.offers fun q' hq' =>
      (steady_of_responds (drainQueue_responds s q)).queues ▸ hqs q' (List.mem_cons_of_mem _ hq')
    refine ⟨hfirst.trans hrest, fun q' hq' hw i hi number P hasks => ?_⟩
    by_cases hq : q.1 = a.controller
    · -- the first queue is the publisher's, and so the one asked about
      have hsame : q'.2 = q.2 := by
        rw [(h.queues q' (hqs q' hq')).2, (h.queues q (hqs q List.mem_cons_self)).2, hw, hq]
      exact hrest.asks number i _ (hanswered hq i (hsame ▸ hi) number P hasks)
    · -- the first queue is another one, and leaves the publisher's as it was
      have hne : q'.2 ≠ q.2 := fun heq => hq <|
        (h.eq_of_queue_eq (hqs q' hq') (hqs q List.mem_cons_self) heq).symm.trans hw
      rcases List.mem_cons.1 hq' with rfl | hq'
      · exact absurd rfl hne
      · exact hanswered' q' hq' hw i (by rwa [hothers _ hne]) number P
          (hfirst.asks number i P hasks)

/-- **Once all controllers have responded, a get that the publisher was asked for is answered**,
unless nothing that is published answers it. -/
theorem settle (h : s.Offers a) :
    Persists a s s.settle
      ∧ ∀ c, s.controller? a.controller = some c →
          ∀ i ∈ s.network.interests.waiting c.listener, ∀ number P,
          s.network.forwarder.Asks number i P →
          s.settle.network.forwarder.Asks number i (i.Answers a.units none) := by
  rw [settle_eq]
  obtain ⟨hpersists, hanswered⟩ := h.foldl_drainQueue fun _ hq => hq
  exact ⟨hpersists, fun c hc => hanswered (a.controller, c.listener) (mem_queues hc) rfl⟩

/-! ## Getting -/

/-- A get that waits takes its answer, or is over without one. -/
theorem await (h : s.Offers a) (id : Nat) (timeout : Option Nat) :
    ∃ s', Node.await id timeout s = (.ok (s.network.forwarder.answer? id), s') ∧ s'.Offers a := by
  have hopen := h.carries.isOpen
  have hforget := h.setNetwork
    (n := { s.network with forwarder := s.network.forwarder.forget id })
    (h.carries.forget id) fun g hg => hg
  cases hanswer : s.network.forwarder.answer? id with
  | some o =>
    refine ⟨_, ?_, hforget⟩
    simp [Node.await, Network.wake, Forwarder.wake, hanswer, Except.map]
  | none =>
    refine ⟨{ s with
      network := { s.network with forwarder := s.network.forwarder.forget id }
      time := s.time + timeout.getD 0 }, ?_, { hforget with }⟩
    simp [Node.await, Network.wake, Forwarder.wake, hanswer, hopen, pass, attendAll, h.gets,
      onNetwork, Action.focus, Network.expire, Forwarder.expire]

/-- An interest below a namespace of a controller comes to its queue. -/
theorem mem_dispatch (h : s.Offers a) {id : ControllerId} {c : Controller}
    (hc : s.controller? id = some c) {root : Name} (hroot : root ∈ c.flow.namespaces)
    {i : Interest} (hi : root.isPrefixOf i.name = true) :
    i ∈ (s.network.forwarder.dispatch i).filterMap (Delivery.interestFor c.listener) := by
  refine List.mem_filterMap.2 ⟨.interest c.listener i, ?_, if_pos rfl⟩
  exact List.mem_map.2 ⟨⟨c.face, root, c.listener⟩,
    List.mem_filter.2 ⟨h.registered id c hc root hroot, hi⟩, rfl⟩

/-- **A get from beginning to end is answered rightly** if it may wait and asks below a name of the
publisher; any get leaves the publisher as it was. -/
theorem fetch (h : s.Offers a) (i : Interest) (timeout : Option Nat) :
    (Node.fetch i timeout s).2.Offers a
      ∧ (i.Valid → ∃ found, (Node.fetch i timeout s).1 = .ok found
        ∧ (timeout ≠ some 0 → a.units = [] ∨ (∃ root ∈ a.roots, root.isPrefixOf i.name = true) →
          i.Answers a.units found)) := by
  by_cases hi : i.Valid
  · obtain ⟨hcarries, hcases⟩ := h.carries.start i (timeout != some 0)
    have hbegun := h.setNetwork
      (n := s.network.after (s.network.forwarder.start i (timeout != some 0)).2.1
        (s.network.forwarder.start i (timeout != some 0)).2.2)
      (by rwa [Network.after_forwarder])
      (by rw [Network.after_forwarder, Forwarder.start_filters]; exact fun g hg => hg)
    have hbegin : onNetwork (Network.beginGet i (timeout != some 0)) s
        = (.ok (s.network.forwarder.start i (timeout != some 0)).1, { s with
            network := s.network.after (s.network.forwarder.start i (timeout != some 0)).2.1
              (s.network.forwarder.start i (timeout != some 0)).2.2 }) := by
      simp only [onNetwork, Action.focus, Network.beginGet,
        Forwarder.beginGet_eq_ok h.carries.isOpen hi]
    rw [Node.fetch, Action.bind_run, hbegin]
    obtain ⟨o, ho, hacc, hstart, -⟩ | ⟨hwait, hstart, -⟩ | ⟨-, hstart, hpending, hdispatch⟩ :=
      hcases
    · rw [hstart]
      -- the content store has an answer, which is published
      exact ⟨hbegun, fun _ => ⟨some o, rfl, fun _ _ => ⟨ho, hacc⟩⟩⟩
    · rw [hstart]
      -- the get may not wait
      exact ⟨hbegun, fun _ => ⟨none, rfl, fun hne => absurd hwait (by simpa using hne)⟩⟩
    · rw [hstart]
      simp only [Action.bind_run, Action.modify_run]
      obtain ⟨hsettled, hanswered⟩ := hbegun.settle
      obtain ⟨s', hawait, hs'⟩ := hsettled.offers.await s.network.forwarder.nextId timeout
      rw [hawait]
      refine ⟨hs', fun _ => ⟨_, rfl, fun _ hasked => ?_⟩⟩
      -- the get waits, and all controllers respond before it looks for its answer
      have hasks : (s.network.after (s.network.forwarder.start i (timeout != some 0)).2.1
          (s.network.forwarder.start i (timeout != some 0)).2.2).forwarder.Asks
          s.network.forwarder.nextId i True := by
        rw [Network.after_forwarder]
        exact ⟨_, Forwarder.get?_of_begun h.carries hpending, rfl, fun _ => trivial⟩
      refine Forwarder.Asks.answers ?_ hsettled.offers.carries
      rcases hasked with hnothing | ⟨root, hroot, hbelow⟩
      · -- nothing is published, so that having no answer is right
        refine (hsettled.asks _ _ _ hasks).imp fun _ o ho => ?_
        rw [hnothing] at ho
        exact absurd ho (by simp)
      · obtain ⟨c, hc, hkeeps⟩ := h.publisher
        refine hanswered c hc i ?_ _ _ hasks
        rw [Network.waiting_after, hdispatch]
        exact List.mem_append_right _ (h.mem_dispatch hc (hkeeps.roots root hroot) hbelow)
  · obtain ⟨e, hfail⟩ := Network.beginGet_of_not_valid (n := s.network) hi (timeout != some 0)
    refine ⟨?_, fun hvalid => absurd hvalid hi⟩
    rw [Node.fetch, Action.bind_run, onNetwork, Action.focus, hfail]
    exact h

/-- **A get through a face**: the publisher stays as it was, and the answer is right. -/
theorem get (h : s.Offers a) (face : OwnerId) (i : Interest) (timeout : Option Nat) :
    (Node.get face i timeout s).2.Offers a
      ∧ (i.Valid → ∃ found, (Node.get face i timeout s).1 = .ok found
        ∧ (timeout ≠ some 0 → a.units = [] ∨ (∃ root ∈ a.roots, root.isPrefixOf i.name = true) →
          i.Answers a.units found)) := by
  obtain ⟨hoffers, hanswers⟩ := h.fetch i timeout
  have htimeout : timeout.map (· - 0) = timeout := by cases timeout <;> rfl
  rw [Node.get, call_of_healthy h.schedule (h.faces face), htimeout]
  refine ⟨{ hoffers with schedule := rfl }, fun hi => ?_⟩
  obtain ⟨found, hfound, hright⟩ := hanswers hi
  exact ⟨found, by rw [hfound]; rfl, hright⟩

end Offers

end Node

end NamedContent
