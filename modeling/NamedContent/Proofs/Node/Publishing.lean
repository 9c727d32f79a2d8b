import NamedContent.Proofs.Node.Offering

/-! # Publishing on a node

Publishing through a controller adds to what it offers, as long as the objects are new, lie in its
namespaces and find room. Nothing that is published before is lost, and no call fails while the
network is well.

* `Node.Offers.addNamespace`: a namespace is added to any controller
* `Node.Offers.publish`, `Node.Offers.publishAll`: objects are put into the publisher's
* `Node.Offers.openFace`, `Node.Offers.openController`, `Node.Offers.setMinted`: the rest of a
  node -/

namespace NamedContent

namespace FlowControl

variable {c : FlowControl} {a : Offer} {o : ContentObject}

/-- A new object that finds room comes behind those that are kept. -/
theorem Keeps.keep_evict (h : c.Keeps a) (hnew : ∀ p ∈ a.units, p.name ≠ o.name)
    (hroom : a.units.length < a.capacity) :
    (c.keep o).evict.Keeps { a with units := a.units ++ [o] } := by
  have hother : ¬ (c.buffer.any (·.1 = o.name)) = true := by
    rw [h.buffer, List.any_map]
    simpa using hnew
  -- nothing has to go to make room
  have hlen : (c.arrivals ++ [o.name]).length - c.limits.bufferCapacity = 0 := by
    rw [h.arrivals, h.capacity, List.length_append, List.length_map, List.length_singleton]
    omega
  rw [keep, if_neg hother, evict]
  simp only [hlen, List.take_zero, List.drop_zero]
  refine ⟨?_, ?_, h.capacity, h.roots⟩
  · rw [h.buffer, List.map_append]
    exact List.filter_eq_self.2 fun _ _ => rfl
  · rw [h.arrivals, List.map_append]
    rfl

/-- A new object is kept with all that was published if there is room. -/
theorem Keeps.accept (h : c.Keeps a) (hnew : ∀ p ∈ a.units, p.name ≠ o.name)
    (hroom : a.units.length < a.capacity) :
    (c.accept o).2.Keeps { a with units := a.units ++ [o] }
      ∧ (c.accept o).2.namespaces = c.namespaces := by
  have hkept := h.keep_evict hnew hroom
  cases hfind : c.held.find? (·.accepts o) with
  | none =>
    rw [accept_eq_none hfind]
    exact ⟨hkept, by simp⟩
  | some i =>
    rw [accept_eq_some hfind]
    exact ⟨{ hkept with }, by simp⟩

end FlowControl

/-- A node after a call that has set filters. -/
def Node.withFilters (s : Node) (filters : List InterestFilter) : Node :=
  { s with
    network := { s.network with forwarder := { s.network.forwarder with filters } }
    schedule := []
    calls := s.calls + 1 }

namespace Node.Offers

variable {s : Node} {a : Offer}

/-! ## Objects -/

/-- A published object is put through a face. -/
theorem put (h : s.Offers a) (face : OwnerId) {o : ContentObject} (ho : o ∈ a.units) :
    ∃ s', Node.put face o s = (.ok (), s') ∧ s'.Offers a := by
  have hput := Network.put_eq_ok h.carries.isOpen (ContentObject.digest_eq_ok (h.valid o ho))
  have hoffers := (h.emit face ho).1
  rw [Node.emit, h.faces face, if_neg (by simp), hput] at hoffers
  rw [Node.put, call_of_healthy h.schedule (h.faces face), onNetwork, Action.focus, hput]
  exact ⟨_, rfl, { hoffers with schedule := rfl }⟩

/-- **A new object is published**: it is offered from then on, and goes out at once if it is asked
for. -/
theorem publish (h : s.Offers a) {o : ContentObject} (hvalid : o.Valid)
    (hcovered : ∃ root ∈ a.roots, root.isPrefixOf o.name = true)
    (hnew : ∀ p ∈ a.units, p.name ≠ o.name) (hroom : a.units.length < a.capacity) :
    ∃ s', Node.publish a.controller o s = (.ok (), s')
      ∧ s'.Offers { a with units := a.units ++ [o] } := by
  obtain ⟨c, hc, hkeeps⟩ := h.publisher
  have hcovers : c.flow.covers o.name = true := by
    obtain ⟨root, hroot, hbelow⟩ := hcovered
    exact List.any_eq_true.2 ⟨root, hkeeps.roots root hroot, hbelow⟩
  obtain ⟨hkept, hnamespaces⟩ := hkeeps.accept hnew hroom
  have hoffers : (s.setFlow a.controller (c.flow.accept o).2).Offers
      { a with units := a.units ++ [o] } := by
    refine h.setPublisher hc rfl rfl (fun p hp => List.mem_append_left _ hp) (fun p hp => ?_)
      hkept fun root hroot => h.registered _ c hc root (hnamespaces ▸ hroot)
    rcases List.mem_append.1 hp with hp | hp
    · exact h.valid p hp
    · rwa [List.mem_singleton.1 hp]
  rw [Node.publish, (ContentObject.validate_eq_ok_iff o).2 hvalid]
  simp only [mapError_ok, Action.bind_run, Action.ofExcept_run, withController, hc, hcovers,
    Bool.not_true, Bool.false_eq_true, if_false]
  cases haccept : c.flow.accept o with
  | mk used flow =>
    rw [haccept] at hoffers
    cases used with
    -- nobody has asked for the object yet
    | none => exact ⟨_, rfl, hoffers⟩
    | some i =>
      -- it is kept first, so that it goes out as an object that is published
      obtain ⟨s', hput, hs'⟩ := hoffers.put c.face (List.mem_append_right _ List.mem_cons_self)
      refine ⟨s', ?_, hs'⟩
      simp only [Action.bind_run, Action.modify_run, Action.mapError, hput]

/-- **New objects are published in their order.** -/
theorem publishAll (h : s.Offers a) {objects : List ContentObject}
    (hvalid : ∀ o ∈ objects, o.Valid)
    (hcovered : ∀ o ∈ objects, ∃ root ∈ a.roots, root.isPrefixOf o.name = true)
    (hnew : ∀ o ∈ objects, ∀ p ∈ a.units, p.name ≠ o.name)
    (hdistinct : (objects.map (·.name)).Nodup)
    (hroom : a.units.length + objects.length ≤ a.capacity) :
    ∃ s', Node.publishAll a.controller objects s = (.ok (), s')
      ∧ s'.Offers { a with units := a.units ++ objects } := by
  induction objects generalizing s a with
  | nil => exact ⟨s, rfl, by simpa using h⟩
  | cons o rest ih =>
    rw [List.length_cons] at hroom
    rw [List.map_cons, List.nodup_cons] at hdistinct
    obtain ⟨s₁, hfirst, hs₁⟩ := h.publish (hvalid o (by simp)) (hcovered o (by simp))
      (hnew o (by simp)) (by omega)
    -- the names of the rest are new also once the first object is published
    have hnew' : ∀ o' ∈ rest, ∀ p ∈ a.units ++ [o], p.name ≠ o'.name := by
      intro o' ho' p hp
      rcases List.mem_append.1 hp with hp | hp
      · exact hnew o' (by simp [ho']) p hp
      · rw [List.mem_singleton.1 hp]
        exact fun heq => hdistinct.1 (heq ▸ List.mem_map_of_mem ho')
    obtain ⟨s₂, hrest, hs₂⟩ := ih hs₁ (fun p hp => hvalid p (by simp [hp]))
      (fun p hp => hcovered p (by simp [hp])) hnew' hdistinct.2
      (by simp only [List.length_append, List.length_singleton]; omega)
    refine ⟨s₂, ?_, by simpa using hs₂⟩
    rw [publishAll_cons, Action.bind_run, hfirst]
    exact hrest

/-! ## Namespaces -/

/-- A filter is set through a face, and all others stay. -/
theorem register_eq_ok {s : Node} (hschedule : s.schedule = []) {face : OwnerId}
    (hface : (s.face face).cancelled = false) (hopen : s.network.forwarder.closed = false)
    (root : Name) (listener : ListenerId) :
    ∃ filters, Node.register face root listener s = (.ok (), s.withFilters filters)
      ∧ ⟨face, root, listener⟩ ∈ filters
      ∧ ∀ g ∈ s.network.forwarder.filters, g ∈ filters := by
  obtain ⟨filters, hset, hmem, hsub⟩ :=
    Forwarder.exists_setFilter_eq_ok hopen ⟨face, root, listener⟩
  refine ⟨filters, ?_, hmem, hsub⟩
  rw [Node.register, call_of_healthy hschedule hface, onNetwork, Action.focus, Network.setFilter,
    Network.step, hset]
  rfl

/-- More filters do not matter. -/
theorem setFilters (h : s.Offers a) {filters : List InterestFilter}
    (hsub : ∀ g ∈ s.network.forwarder.filters, g ∈ filters) : (s.withFilters filters).Offers a :=
  { h.setNetwork (n := { s.network with forwarder := { s.network.forwarder with filters } })
      { h.carries with } hsub with schedule := rfl }

/-- A namespace that the publisher's controller has may be asked there. -/
theorem setRoots (h : s.Offers a) {c : Controller} (hc : s.controller? a.controller = some c)
    {root : Name} (hroot : root ∈ c.flow.namespaces) :
    s.Offers { a with roots := root :: a.roots } := by
  refine { h with publisher := ⟨c, hc, { h.keeps hc with roots := fun r hr => ?_ }⟩ }
  rcases List.mem_cons.1 hr with rfl | hr
  · exact hroot
  · exact (h.keeps hc).roots r hr

/-- **A namespace is added**; if it is the publisher's, it may be asked there. -/
theorem addNamespace (h : s.Offers a) (id : ControllerId) (root : Name) :
    ∃ s', Node.addNamespace id root s = (.ok (), s')
      ∧ s'.Offers (if id = a.controller then { a with roots := root :: a.roots } else a) := by
  rw [Node.addNamespace, withController]
  cases hc : s.controller? id with
  | none => exact ⟨s, rfl, by rwa [if_neg (h.ne_of_none hc)]⟩
  | some c =>
    by_cases hcontains : c.flow.namespaces.contains root = true
    · -- the controller has the namespace already
      refine ⟨s, by simp [hcontains], ?_⟩
      split
      · next hid =>
        subst hid
        exact h.setRoots hc (OrderedSet.contains_iff.1 hcontains)
      · exact h
    · obtain ⟨filters, hregister, hmem, hsub⟩ := register_eq_ok
        (s := s.setFlow id (c.flow.addNamespace root)) h.schedule (h.faces c.face)
        h.carries.isOpen root c.listener
      have hset : (s.withFilters filters).Offers a := h.setFilters hsub
      have hfilters : ∀ r ∈ (c.flow.addNamespace root).namespaces,
          ⟨c.face, r, c.listener⟩ ∈ filters := by
        intro r hr
        obtain rfl | hr := OrderedSet.mem_insert.1 hr
        · exact hmem
        · exact hsub _ (h.registered id c hc r hr)
      refine ⟨(s.withFilters filters).setFlow id (c.flow.addNamespace root), ?_, ?_⟩
      · simp only [hcontains, changeFlow, withController, hc, Action.bind_run, Action.modify_run,
          Action.attempt, hregister, if_false, Bool.false_eq_true, Action.pure_run]
        rfl
      · split
        · next hid =>
          subst hid
          have hkeeps := h.keeps hc
          -- the publisher's controller keeps what it has, and only then is asked below the new name
          have hadded : ((s.withFilters filters).setFlow a.controller
              (c.flow.addNamespace root)).Offers a :=
            hset.setPublisher hc rfl rfl (fun _ ho => ho) h.valid
              ⟨hkeeps.buffer, hkeeps.arrivals, hkeeps.capacity, fun r hr =>
                OrderedSet.mem_insert.2 (.inr (hkeeps.roots r hr))⟩ hfilters
          refine hadded.setRoots (c := { c with flow := c.flow.addNamespace root }) ?_
            (OrderedSet.mem_insert.2 (.inl rfl))
          have hfound : (s.withFilters filters).controller? a.controller = some c := hc
          rw [controller?_setFlow, hfound]
          simp
        · next hid => exact hset.setOther hc hid (h.others id c hid hc) hfilters

/-! ## Faces, controllers and times -/

/-- A new face is opened. -/
theorem openFace {ε : Type} (h : s.Offers a) (retry : RetryPolicy) :
    (Node.openFace (ε := ε) retry s).2.Offers a := by
  refine { h with faces := fun id => ?_, queues := fun q hq => ?_ }
  · show (((s.faces.insert ⟨s.nextId⟩ { retry }).lookup id).getD {}).cancelled = false
    by_cases hid : id = ⟨s.nextId⟩
    · subst hid
      simp
    · rw [Table.lookup_insert_of_ne _ hid]
      exact h.faces id
  · exact ⟨Nat.lt_succ_of_lt (h.queues q hq).1, (h.queues q hq).2⟩

/-- A new controller is opened, which is another than the publisher's. -/
theorem openController {ε : Type} (h : s.Offers a) (face : OwnerId) (limits : FlowLimits) :
    (Node.openController (ε := ε) face limits s).2.Offers a := by
  show ({ s with
    nextId := s.nextId + 1
    controllers := s.controllers ++ [(⟨s.nextId⟩, ⟨face, ⟨s.nextId⟩, .new limits⟩)] } :
      Node).Offers a
  -- a controller found is the new one, or one from before
  have hnew : ∀ id c, (s.controllers ++ [((⟨s.nextId⟩ : ControllerId),
        (⟨face, ⟨s.nextId⟩, .new limits⟩ : Controller))]).lookup id = some c →
      s.controller? id = some c ∨ c = ⟨face, ⟨s.nextId⟩, .new limits⟩ := by
    intro id c hc
    rw [List.lookup_append] at hc
    rcases Option.or_eq_some_iff.1 hc with hc | ⟨-, hc⟩
    · exact .inl hc
    · exact .inr (Prod.mk.inj (List.mem_singleton.1 (Table.mem_of_lookup hc))).2
  refine { h with
    queues := fun q hq => ?_
    registered := fun id c hc root hroot => ?_
    publisher := ?_
    others := fun id c hid hc => ?_ }
  · rw [Node.queues, List.map_append] at hq
    rcases List.mem_append.1 hq with hq | hq
    · exact ⟨Nat.lt_succ_of_lt (h.queues q hq).1, (h.queues q hq).2⟩
    · rw [List.mem_singleton.1 hq]
      exact ⟨Nat.lt_succ_self _, rfl⟩
  · obtain hc | rfl := hnew id c hc
    · exact h.registered id c hc root hroot
    · exact absurd hroot List.not_mem_nil
  · obtain ⟨w, hw, hkeeps⟩ := h.publisher
    refine ⟨w, ?_, hkeeps⟩
    rw [Node.controller?, List.lookup_append,
      show s.controllers.lookup a.controller = some w from hw]
    rfl
  · obtain hc | rfl := hnew id c hc
    · exact h.others id c hid hc
    · rfl

/-- The first controller of a new node is a publisher that offers nothing yet. -/
theorem first (capacity : Nat) (clock : Timestamp) (retry : RetryPolicy) (limits : FlowLimits) :
    (Node.openController (ε := Empty) ⟨1⟩ limits
      (Node.openFace (ε := Empty) retry (Node.new capacity clock)).2).2.Offers
      ⟨⟨2⟩, limits.bufferCapacity, [], [], ⟨0⟩⟩ := by
  show ({ Node.new capacity clock with
    nextId := 3
    faces := [(⟨1⟩, { retry })]
    controllers := [(⟨2⟩, ⟨⟨1⟩, ⟨2⟩, .new limits⟩)] } : Node).Offers _
  have hlookup : ∀ id c, List.lookup id [((⟨2⟩ : ControllerId),
      (⟨⟨1⟩, ⟨2⟩, .new limits⟩ : Controller))] = some c → id = ⟨2⟩ ∧ c.flow = .new limits := by
    intro id c hc
    obtain ⟨hid, rfl⟩ := Prod.mk.inj (List.mem_singleton.1 (Table.mem_of_lookup hc))
    exact ⟨hid, rfl⟩
  refine
    { carries := Forwarder.carries_new capacity
      valid := fun o ho => absurd ho List.not_mem_nil
      gets := rfl
      schedule := rfl
      faces := fun id => ?_
      queues := fun q hq => ?_
      registered := fun id c hc root hroot => ?_
      publisher := ⟨_, rfl, rfl, rfl, rfl, fun root hroot => absurd hroot List.not_mem_nil⟩
      others := fun id c hid hc => absurd (hlookup id c hc).1 hid
      minted := rfl }
  · show ((List.lookup id [((⟨1⟩ : OwnerId), ({ retry } : Face))]).getD {}).cancelled = false
    cases hface : List.lookup id [((⟨1⟩ : OwnerId), ({ retry } : Face))] with
    | none => rfl
    | some f =>
      rw [(Prod.mk.inj (List.mem_singleton.1 (Table.mem_of_lookup hface))).2]
      rfl
  · rw [List.mem_singleton.1 hq]
    exact ⟨show 2 < 3 by decide, rfl⟩
  · rw [(hlookup id c hc).2] at hroot
    exact absurd hroot List.not_mem_nil

/-- Another time is the last one minted. -/
theorem setMinted (h : s.Offers a) (t : Timestamp) :
    ({ s with lastMinted := t } : Node).Offers { a with minted := t } := by
  obtain ⟨w, hw, hkeeps⟩ := h.publisher
  exact { h with publisher := ⟨w, hw, { hkeeps with }⟩, minted := rfl }

/-- What the clock reads does not matter. -/
theorem setClock (h : s.Offers a) (clock : Timestamp) :
    ({ s with clock } : Node).Offers a :=
  { h with }

end Node.Offers

end NamedContent
