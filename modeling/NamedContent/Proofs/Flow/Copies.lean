import Mathlib.Data.List.Forall2
import Mathlib.Data.List.Perm.Subperm
import NamedContent.Proofs.Flow.Bookkeeping
import NamedContent.Proofs.Forwarder.Registrations

/-! # Copies of an interest

The forwarder passes the interest of a get to every filter whose name leads its own, and the filters
of a controller's namespaces have one queue. So the interest comes once for each of them, and every
copy may get an object of its own: one get, as many objects as there are such filters. With
namespaces of which none lies below another, it is one at most.

* `LiveController.gets`: the gets that begin to wait in a run
* `LiveController.delivered_eq`: the interests that come are copies of theirs
* `LiveController.Registered`: the filters of a controller are those of its namespaces
* `LiveController.handed_among_copies`: the main theorem -/

namespace NamedContent

/-! ## Nested names -/

/-- Of two names that lead the same name one leads the other. -/
theorem Name.isPrefixOf_or_isPrefixOf {a b n : Name} (ha : a.isPrefixOf n = true)
    (hb : b.isPrefixOf n = true) : a.isPrefixOf b = true ∨ b.isPrefixOf a = true := by
  simp only [Name.isPrefixOf, List.isPrefixOf_iff_prefix] at *
  exact List.prefix_or_prefix_of_prefix ha hb

/-- Whether no namespace lies below another one. -/
def FlowControl.Unnested (f : FlowControl) : Prop :=
  ∀ a ∈ f.namespaces, ∀ b ∈ f.namespaces, a.isPrefixOf b = true → a = b

/-- A name lies in one namespace at most when none lies below another. -/
theorem FlowControl.Unnested.length_leading_le_one {f : FlowControl} (h : f.Unnested) (n : Name) :
    (f.namespaces.toList.filter (·.isPrefixOf n)).length ≤ 1 := by
  have hincreasing := f.namespaces.increasing.filter (·.isPrefixOf n)
  have hleads {a : Name} (ha : a ∈ f.namespaces.toList.filter (·.isPrefixOf n)) :
      a ∈ f.namespaces ∧ a.isPrefixOf n = true := List.mem_filter.1 ha
  generalize f.namespaces.toList.filter (·.isPrefixOf n) = leading at hincreasing hleads
  match leading with
  | [] => exact Nat.zero_le 1
  | [_] => exact Nat.le_refl 1
  | a :: b :: rest =>
    have hless : a < b := List.rel_of_pairwise_cons hincreasing List.mem_cons_self
    obtain ⟨ha, han⟩ := hleads List.mem_cons_self
    obtain ⟨hb, hbn⟩ := hleads (List.mem_cons_of_mem a List.mem_cons_self)
    -- both lead the same name, so one leads the other
    have heq : a = b := (Name.isPrefixOf_or_isPrefixOf han hbn).elim (h a ha b hb)
      fun hba => (h b hb a ha hba).symm
    exact absurd (heq ▸ hless) Std.lt_irrefl

namespace LiveController

variable {c : LiveController} {steps : List Step} {i : Interest}

/-! ## Gets that wait -/

/-- A get that began to wait. -/
structure WaitingGet where
  /-- What it asks for. -/
  interest : Interest
  /-- The names of the controller's filters to which its interest was passed. -/
  filters : List Name
  /-- The namespaces of the controller that led its name. -/
  namespaces : List Name

/-- The interest as it comes to the controller, once for each filter. -/
def WaitingGet.copies (g : WaitingGet) : List Interest :=
  List.replicate g.filters.length g.interest

/-- Gets whose interests go to one filter each have no more copies than they are. -/
theorem length_copies_le {gs : List WaitingGet} (h : ∀ g ∈ gs, g.filters.length ≤ 1) :
    (gs.flatMap WaitingGet.copies).length ≤ gs.length := by
  induction gs with
  | nil => exact Nat.le_refl _
  | cons g rest ih =>
    have hfirst := h g List.mem_cons_self
    have hrest := ih fun g' hg' => h g' (List.mem_cons_of_mem g hg')
    simp only [List.flatMap_cons, List.length_append, WaitingGet.copies, List.length_replicate,
      List.length_cons]
    omega

/-- The names of the controller's filters that lead the name of an interest. -/
def filtersFor (c : LiveController) (i : Interest) : List Name :=
  (c.network.forwarder.filters.filter fun g =>
    g.root.isPrefixOf i.name && g.listener = c.listener).map (·.root)

/-- The get that begins to wait in a step. -/
def begun (c : LiveController) : Step → List WaitingGet
  | .network (.beginGet i wait) =>
    match (Network.beginGet i wait c.network).1 with
    | .ok (.waiting _) =>
      [⟨i, c.filtersFor i, c.flow.namespaces.toList.filter (·.isPrefixOf i.name)⟩]
    | _ => []
  | _ => []

/-- A get that begins to wait has a copy for each filter that its name lies below. -/
theorem exists_of_mem_begun {step : Step} {g : WaitingGet} (h : g ∈ c.begun step) :
    ∃ i, g = ⟨i, c.filtersFor i, c.flow.namespaces.toList.filter (·.isPrefixOf i.name)⟩ := by
  cases step with
  | network step =>
    cases step with
    | beginGet i wait =>
      rw [begun] at h
      split at h
      · exact ⟨i, List.mem_singleton.1 h⟩
      · exact absurd h List.not_mem_nil
    | _ => exact absurd h List.not_mem_nil
  | _ => exact absurd h List.not_mem_nil

/-- The gets that begin to wait in a run. -/
def gets : List Step → LiveController → List WaitingGet := trace begun

/-- Whether a step is one of one-shot gets: no standing interest is expressed, and nobody else lets
interests into the controller's queue. -/
def Step.OneShot (listener : ListenerId) : Step → Prop
  | .network (.express _) => False
  | .network (.setFilter g) => g.listener ≠ listener
  | _ => True

/-- What comes to the controller are copies of the interests of gets that begin to wait. -/
theorem arrivals_eq {step : Step} (hstep : step.OneShot c.listener) :
    c.arrivals step = (c.begun step).flatMap WaitingGet.copies := by
  cases step with
  | network step =>
    cases step with
    | put o => exact Network.deliveries_put_interestFor ..
    | express s => exact hstep.elim
    | beginGet i wait =>
      rw [arrivals, deliveries, Network.deliveries, begun, Network.beginGet]
      cases h : c.network.forwarder.beginGet i wait with
      | error e => rfl
      | ok r =>
        obtain ⟨-, -, rfl⟩ := Forwarder.exists_of_beginGet_eq_ok h
        simp only
        -- the interest is passed on just when the get waits
        obtain ⟨⟨id, hid⟩, hpassed⟩ | ⟨hid, hpassed⟩ :=
          c.network.forwarder.start_cases i wait
        · rw [hid, hpassed, Forwarder.dispatch_interestFor]
          simp [WaitingGet.copies, filtersFor, List.countP_eq_length_filter]
        · rw [hpassed]
          cases hstart : (c.network.forwarder.start i wait).1 with
          | waiting id => exact absurd hstart (hid id)
          | _ => rfl
    | _ => rfl
  | emit position reaches =>
    cases reaches with
    | false => rfl
    | true =>
      rw [arrivals, deliveries]
      cases c.inFlight[position]? with
      | none => rfl
      | some o => exact Network.deliveries_put_interestFor ..
  | _ => rfl

/-- **The interests that come in a run of one-shot gets** are copies of those of the gets. -/
theorem delivered_eq (h : ∀ step ∈ steps, step.OneShot c.listener) :
    delivered steps c = (gets steps c).flatMap WaitingGet.copies := by
  induction steps generalizing c with
  | nil => rfl
  | cons step rest ih =>
    have hrest : ∀ step' ∈ rest, step'.OneShot (c.take step).listener := fun step' hstep' =>
      (take_listener c step).symm ▸ h step' (List.mem_cons_of_mem step hstep')
    rw [delivered, gets, trace_cons, trace_cons, List.flatMap_append,
      arrivals_eq (h step List.mem_cons_self)]
    exact congrArg _ (ih hrest)

/-! ## Filters and namespaces -/

/-- Whether the filters of a controller on an open forwarder are filters of its namespaces, each set
once. -/
structure Registered (c : LiveController) : Prop where
  isOpen : c.network.forwarder.closed = false
  nodup : c.network.forwarder.filters.Nodup
  owned : ∀ g ∈ c.network.forwarder.filters, g.listener = c.listener →
    ∃ root ∈ c.flow.namespaces, g = c.filter root

/-- Whether a step leaves the forwarder open and, if it takes a namespace away, its filter too. -/
def Step.Clean : Step → Prop
  | .network .close => False
  | .removeNamespace _ reaches => reaches = true
  | _ => True

/-- A new controller has no namespaces and no filters. -/
theorem registered_start (capacity : Nat) (owner : OwnerId) (listener : ListenerId)
    (limits : FlowLimits) : (start (.new capacity) owner listener limits).Registered where
  isOpen := rfl
  nodup := .nil
  owned := by simp [start, Network.new, Forwarder.new]

/-- Fewer filters are registered as well. -/
theorem Registered.mono (h : c.Registered) {d : LiveController}
    (hclosed : d.network.forwarder.closed = c.network.forwarder.closed)
    (hfilters : d.network.forwarder.filters.Sublist c.network.forwarder.filters)
    (howner : d.owner = c.owner) (hlistener : d.listener = c.listener)
    (hnamespaces : d.flow.namespaces = c.flow.namespaces) : d.Registered where
  isOpen := hclosed.trans h.isOpen
  nodup := h.nodup.sublist hfilters
  owned g hg hgl := by
    obtain ⟨root, hroot, rfl⟩ := h.owned g (hfilters.subset hg) (hgl.trans hlistener)
    exact ⟨root, hnamespaces ▸ hroot, by rw [filter, filter, howner, hlistener]⟩

/-- **A clean step of one-shot gets keeps the filters those of the namespaces.** -/
theorem registered_take (h : c.Registered) {step : Step} (honeShot : step.OneShot c.listener)
    (hclean : step.Clean) : (c.take step).Registered := by
  cases step with
  | network step =>
    by_cases hset : ∃ g, step = .setFilter g
    · obtain ⟨g, rfl⟩ := hset
      have hg : g.listener ≠ c.listener := honeShot
      rw [take, Network.take, Network.ofAction_snd]
      refine ⟨(Network.closed_setFilter ..).trans h.isOpen, Network.nodup_setFilter h.nodup,
        fun g' hg' hl => ?_⟩
      -- the filter that is new is not one of the controller's
      rcases (Network.mem_filters_setFilter h.isOpen).1 hg' with rfl | hg'
      · exact absurd hl hg
      · exact h.owned g' hg' hl
    · have hclose : step ≠ .close := by rintro rfl; exact hclean
      exact h.mono (Network.closed_take hclose)
        (Network.filters_take_sublist fun g hg => hset ⟨g, hg⟩) rfl rfl rfl
  | handle =>
    obtain ⟨hforwarder, howner, hnamespaces⟩ := handle_keeps c
    exact h.mono (congrArg (·.closed) hforwarder) (congrArg (·.filters) hforwarder ▸ .refl _) howner
      (take_listener c .handle) hnamespaces
  | accept o =>
    obtain ⟨hforwarder, howner, hnamespaces⟩ := accept_keeps c o
    exact h.mono (congrArg (·.closed) hforwarder) (congrArg (·.filters) hforwarder ▸ .refl _) howner
      (take_listener c (.accept o)) hnamespaces
  | emit position reaches =>
    rw [take]
    cases ho : c.inFlight[position]? with
    | none => rwa [emit_of_none ho]
    | some o =>
      rw [emit_of_some ho]
      have hclosed := (Network.advances_put (l := c.listener) (n := c.network) o).forwarder.closed
      have hfilters := (Network.put_registered o c.network).1
      cases reaches with
      | false => exact h.mono rfl (.refl _) rfl rfl rfl
      | true => exact h.mono hclosed (hfilters ▸ .refl _) rfl rfl rfl
  | addNamespace root reaches =>
    rw [take, addNamespace]
    split
    · exact h
    · split
      · next _ network hset =>
        obtain rfl : (Network.setFilter (c.filter root) c.network).2 = network := by rw [hset]
        refine ⟨(Network.closed_setFilter ..).trans h.isOpen, Network.nodup_setFilter h.nodup,
          fun g hg hl => ?_⟩
        rcases (Network.mem_filters_setFilter h.isOpen).1 hg with rfl | hg
        · exact ⟨root, OrderedSet.mem_insert.2 (.inl rfl), rfl⟩
        · obtain ⟨other, hother, rfl⟩ := h.owned g hg hl
          exact ⟨other, OrderedSet.mem_insert.2 (.inr hother), rfl⟩
      · exact h
  | removeNamespace root reaches =>
    have hreaches : reaches = true := hclean
    rw [take, removeNamespace, if_pos hreaches]
    split
    · refine ⟨(Network.closed_cancelFilter ..).trans h.isOpen, ?_, fun g hg hl => ?_⟩
      · exact h.nodup.sublist (Network.cancelFilter_sublist ..)
      · obtain ⟨hg, hne⟩ := (Network.mem_filters_cancelFilter h.isOpen).1 hg
        obtain ⟨other, hother, rfl⟩ := h.owned g hg hl
        exact ⟨other, OrderedSet.mem_erase.2 ⟨hother, fun heq => hne (heq ▸ rfl)⟩, rfl⟩
    · exact h

/-- The namespaces and the filters agree after every run. By induction on the steps. -/
theorem registered_run (h : c.Registered) (hsteps : ∀ step ∈ steps, step.OneShot c.listener)
    (hclean : ∀ step ∈ steps, step.Clean) : (run steps c).Registered := by
  induction steps generalizing c with
  | nil => exact h
  | cons step rest ih =>
    refine ih (registered_take h (hsteps step List.mem_cons_self) (hclean step List.mem_cons_self))
      (fun step' hstep' => ?_) fun step' hstep' => hclean step' (List.mem_cons_of_mem step hstep')
    rw [take_listener]
    exact hsteps step' (List.mem_cons_of_mem step hstep')

/-- The controller has no more filters for an interest than namespaces. -/
theorem Registered.length_filtersFor_le (h : c.Registered) (i : Interest) :
    (c.filtersFor i).length ≤ (c.flow.namespaces.toList.filter (·.isPrefixOf i.name)).length := by
  have howned {g : InterestFilter} (hg : g ∈ c.network.forwarder.filters.filter fun g =>
      g.root.isPrefixOf i.name && g.listener = c.listener) :
      g.root.isPrefixOf i.name = true ∧ ∃ root ∈ c.flow.namespaces, g = c.filter root := by
    rw [List.mem_filter, Bool.and_eq_true, decide_eq_true_iff] at hg
    exact ⟨hg.2.1, h.owned g hg.1 hg.2.2⟩
  -- different filters of the controller have different names, each of them a namespace
  refine List.Subperm.length_le (List.Nodup.subperm ?_ fun name hname => ?_)
  · refine List.Nodup.map_on (fun g hg g' hg' hroot => ?_) (h.nodup.filter _)
    obtain ⟨-, root, -, rfl⟩ := howned hg
    obtain ⟨-, root', -, rfl⟩ := howned hg'
    exact congrArg c.filter hroot
  · obtain ⟨g, hg, rfl⟩ := List.mem_map.1 hname
    obtain ⟨hleading, root, hroot, rfl⟩ := howned hg
    exact List.mem_filter.2 ⟨hroot, hleading⟩

/-- A get's interest goes to no more filters of the controller than it had namespaces for it. -/
theorem length_filters_le (h : c.Registered) (hsteps : ∀ step ∈ steps, step.OneShot c.listener)
    (hclean : ∀ step ∈ steps, step.Clean) {g : WaitingGet} (hg : g ∈ gets steps c) :
    g.filters.length ≤ g.namespaces.length := by
  obtain ⟨first, step, rest, rfl, hbegun⟩ := mem_trace hg
  obtain ⟨i, rfl⟩ := exists_of_mem_begun hbegun
  refine Registered.length_filtersFor_le (registered_run h ?_ ?_) i
  · exact fun step hstep => hsteps step (List.mem_append_left _ hstep)
  · exact fun step hstep => hclean step (List.mem_append_left _ hstep)

/-! ## Objects for copies -/

/-- The interests for which objects are handed over are among those that came. -/
theorem handed_subperm (hheld : c.flow.held = []) (hinFlight : c.inFlight = [])
    (steps : List Step) :
    ((ledger steps c).handed.map (·.1.arrival.1)).Subperm (c.queue ++ delivered steps c) := by
  have hplaces := (matches_ledger hheld hinFlight steps).places.map Prod.fst
  rw [List.zipIdx_map_fst, came_ledger] at hplaces
  refine .trans (List.Sublist.subperm ?_) hplaces.subperm
  simp only [Ledger.places, Ledger.emissions, List.map_append, List.map_map, List.append_assoc]
  exact List.sublist_append_left ..

/-- **One get gets at most as many objects as it has copies.** In a run of one-shot gets, the
interests for which a controller hands objects over are among the copies of those of the gets. So
there are no more of these objects than gets if no namespace lies below another one. -/
theorem handed_among_copies (capacity : Nat) (owner : OwnerId) (listener : ListenerId)
    (limits : FlowLimits) {steps : List Step} (hsteps : ∀ step ∈ steps, step.OneShot listener) :
    let c := start (.new capacity) owner listener limits
    (∃ interests : List Interest,
        List.Forall₂ (fun i o => i.accepts o = true) interests (handedOut steps c)
          ∧ interests.Subperm ((gets steps c).flatMap WaitingGet.copies))
      ∧ ((∀ g ∈ gets steps c, g.filters.length ≤ 1) →
        (handedOut steps c).length ≤ (gets steps c).length)
      ∧ ((∀ step ∈ steps, step.Clean) →
        (∀ g ∈ gets steps c, g.filters.length ≤ g.namespaces.length)
          ∧ ((∀ first rest, steps = first ++ rest → (run first c).flow.Unnested) →
            (handedOut steps c).length ≤ (gets steps c).length)) := by
  intro c
  have hledger : (ledger steps c).Matches (run steps c) := matches_ledger rfl rfl steps
  -- the ledger has an interest for each object, and all of them came as copies
  have hamong : ∃ interests : List Interest,
      List.Forall₂ (fun i o => i.accepts o = true) interests (handedOut steps c)
        ∧ interests.Subperm ((gets steps c).flatMap WaitingGet.copies) := by
    refine ⟨(ledger steps c).handed.map (·.1.arrival.1), ?_, ?_⟩
    · rw [handedOut, ← handed_ledger rfl rfl, List.map_map, List.forall₂_map_left_iff,
        List.forall₂_map_right_iff, List.forall₂_same]
      exact fun e he => hledger.accepts e.1 (List.mem_append_left _ (List.mem_map_of_mem he))
    · rw [← delivered_eq hsteps]
      exact handed_subperm rfl rfl steps
  -- with one copy for each get at most, the copies are no more than the gets
  have hmost (hone : ∀ g ∈ gets steps c, g.filters.length ≤ 1) :
      (handedOut steps c).length ≤ (gets steps c).length := by
    obtain ⟨interests, hmatch, hsub⟩ := hamong
    rw [← hmatch.length_eq]
    exact Nat.le_trans hsub.length_le (length_copies_le hone)
  refine ⟨hamong, hmost, fun hclean => ?_⟩
  have hfew : ∀ g ∈ gets steps c, g.filters.length ≤ g.namespaces.length := fun g hg =>
    length_filters_le (registered_start capacity owner listener limits) hsteps hclean hg
  refine ⟨hfew, fun hunnested => hmost fun g hg => Nat.le_trans (hfew g hg) ?_⟩
  -- of namespaces that are not nested only one is above the name that is asked for
  obtain ⟨first, step, rest, hsplit, hbegun⟩ := mem_trace hg
  obtain ⟨i, rfl⟩ := exists_of_mem_begun hbegun
  exact (hunnested first (step :: rest) hsplit).length_leading_le_one i.name

/-- A controller with one namespace hands one object over for one get. -/
theorem handed_among_copies_one :
    let i : Interest := .below ⟨[⟨[97]⟩]⟩
    let o : ContentObject :=
      ⟨⟨[⟨[97]⟩, ⟨[49]⟩]⟩, ⟨default, ⟨0⟩, .data, none, none⟩, [1], none⟩
    let steps : List Step :=
      [.addNamespace .root true, .network (.beginGet i true), .handle, .accept o, .accept o,
        .emit 0 true]
    let c := start (.new 1) ⟨1⟩ ⟨2⟩ {}
    handedOut steps c = [o]
      ∧ (handedOut steps c).length ≤ (gets steps c).length := by
  intro i o steps c
  have hsteps : ∀ step ∈ steps, step.OneShot ⟨2⟩ := by
    simp [steps, Step.OneShot]
  obtain ⟨-, hone, hclean⟩ := handed_among_copies 1 ⟨1⟩ ⟨2⟩ {} hsteps
  have hnamespaces : ∀ g ∈ gets steps c, g.namespaces.length ≤ 1 := by decide +kernel
  refine ⟨by decide +kernel, hone fun g hg => ?_⟩
  exact Nat.le_trans ((hclean (by simp [steps, Step.Clean])).1 g hg) (hnamespaces g hg)

/-- **Nested namespaces answer one get twice.** The interest of the only get comes through both
filters, both copies are held, and each of two objects is let out for one of them. -/
theorem nested_namespaces_answer_twice :
    let i : Interest := .below ⟨[⟨[97]⟩, ⟨[118]⟩, ⟨[120]⟩]⟩
    let o (n : UInt8) : ContentObject :=
      ⟨⟨[⟨[97]⟩, ⟨[118]⟩, ⟨[120]⟩, ⟨[n]⟩]⟩, ⟨default, ⟨0⟩, .data, none, none⟩, [n], none⟩
    let steps : List Step :=
      [.addNamespace ⟨[⟨[97]⟩]⟩ true, .addNamespace ⟨[⟨[97]⟩, ⟨[118]⟩]⟩ true,
        .network (.beginGet i true), .handle, .handle, .accept (o 49), .emit 0 true,
        .accept (o 50), .emit 0 true]
    let c := start (.new 8) ⟨1⟩ ⟨2⟩ {}
    (gets steps c).map (·.interest) = [i]
      ∧ attempts steps c = [(o 49, true), (o 50, true)]
      ∧ (gets steps c).length < (handedOut steps c).length := by
  decide +kernel

end LiveController

end NamedContent
