import Mathlib.Data.List.Perm.Basic
import NamedContent.Proofs.Flow.NoLostAnswer
import NamedContent.Proofs.Forwarder.Registrations

/-! # Standing interests under flow control

A standing interest stays at the forwarder, which hands every object that arrives there to its
listener. But to a controller it comes once, like the interest of a get, and the first object that
is put and matches uses it up. From then on an object that is put goes out only for another interest
that is held, and else no further than the buffer.

* `LiveController.received`: what a listener is handed in a run
* `LiveController.chosen`: the objects that the controller lets out for interests
* `LiveController.Serves`: the one standing interest of a listener
* `LiveController.standing_receives`: the main theorem -/

namespace NamedContent.LiveController

variable {c : LiveController} {steps : List Step} {o : ContentObject} {i : Interest}
  {s : StandingInterest}

/-! ## What is let out and what is received -/

/-- The objects that a listener is handed in a run. -/
def received (l : ListenerId) : List Step → LiveController → List ContentObject :=
  trace fun c step => (c.deliveries step).filterMap (Delivery.objectFor l)

/-- **What a listener is handed comes into its mail**, unless it takes an object itself. -/
theorem objects_run {l : ListenerId} (h : ∀ step ∈ steps, step ≠ .network (.takeObject l)) :
    (run steps c).network.objects.waiting l
      = c.network.objects.waiting l ++ received l steps c := by
  induction steps generalizing c with
  | nil => exact (List.append_nil _).symm
  | cons step rest ih =>
    rw [run_cons, ih fun step' hstep' => h step' (List.mem_cons_of_mem step hstep'),
      objects_take (h step List.mem_cons_self), List.append_assoc]
    rfl

/-- The object that a step chooses for an interest: for the first one in the queue from the buffer,
or for one that is held when the object is put. -/
def choosing (c : LiveController) : Step → List ContentObject
  | .handle => (c.queue.head?.bind fun i => i.select c.flow.objects).toList
  | .accept o => if c.Admits o ∧ c.flow.held.any (·.accepts o) then [o] else []
  | _ => []

/-- The objects that the controller chooses for interests in a run. -/
def chosen : List Step → LiveController → List ContentObject := trace choosing

/-- The object that another application brings to the forwarder. -/
def posting (c : LiveController) : Step → List ContentObject
  | .network (.put o) => if (Network.put o c.network).1.isOk then [o] else []
  | _ => []

/-- The objects that other applications bring to the forwarder in a run. -/
def posted : List Step → LiveController → List ContentObject := trace posting

/-- What a step chooses is on its way, and nothing else is new there. -/
theorem inFlight_take {step : Step} (hemit : ∀ position reaches, step ≠ .emit position reaches) :
    (c.take step).inFlight = c.inFlight ++ c.choosing step := by
  cases step with
  | network step => exact (List.append_nil _).symm
  | handle =>
    rw [take, choosing]
    cases hhead : c.queue.head? with
    | none => simp [handle_of_none hhead]
    | some i =>
      cases hselect : i.select c.flow.objects with
      | none => simp [handle_of_hold hhead hselect, hselect]
      | some o => simp [handle_of_select hhead hselect, hselect]
  | accept o =>
    rw [take, choosing]
    by_cases hadmits : c.Admits o
    · -- an object that is put is chosen just if a held interest accepts it
      cases hfind : c.flow.held.find? (·.accepts o) with
      | none =>
        have hnone := List.find?_eq_none.1 hfind
        simpa [accept_of_none hadmits hfind] using fun _ => by simpa using hnone
      | some i =>
        have hany : c.flow.held.any (·.accepts o) = true :=
          List.any_eq_true.2 ⟨i, List.mem_of_find?_eq_some hfind, by
            simpa using List.find?_some hfind⟩
        rw [accept_of_some hadmits hfind, if_pos ⟨hadmits, hany⟩]
    · rw [accept_of_not_admits hadmits, if_neg fun h => hadmits h.1, List.append_nil]
  | emit position reaches => exact absurd rfl (hemit position reaches)
  | addNamespace root reaches =>
    rw [take, (addNamespace_keeps c root reaches).2.2]
    exact (List.append_nil _).symm
  | removeNamespace root reaches =>
    rw [take, (removeNamespace_keeps c root reaches).2.2]
    exact (List.append_nil _).symm

/-! ## A standing interest -/

/-- Whether a standing interest is expressed, and is the only one of its listener. -/
def Serves (c : LiveController) (s : StandingInterest) : Prop :=
  c.network.forwarder.standing.filter (·.listener = s.listener) = [s]

instance (c : LiveController) (s : StandingInterest) : Decidable (c.Serves s) :=
  inferInstanceAs (Decidable (_ = _))

/-- Whether a step leaves a standing interest as the only one of its listener. -/
def Step.Leaves (s : StandingInterest) : Step → Prop
  | .network (.express t) => t.listener = s.listener → t = s
  | .network (.cancelInterest t) => t ≠ s
  | _ => True

/-- The standing interest that is served is one that the forwarder has. -/
theorem Serves.mem (h : c.Serves s) : s ∈ c.network.forwarder.standing :=
  (List.mem_filter.1 (h ▸ List.mem_singleton_self s)).1

/-- Whether it is served is a matter of the standing interests alone. -/
theorem Serves.congr (h : c.Serves s) {d : LiveController}
    (hstanding : d.network.forwarder.standing = c.network.forwarder.standing) : d.Serves s := by
  rwa [Serves, hstanding]

/-- **A standing interest stays expressed** until it is taken back. -/
theorem serves_take (h : c.Serves s) {step : Step} (hstep : step.Leaves s) :
    (c.take step).Serves s := by
  cases step with
  | network step =>
    cases step with
    | express t =>
      rw [take, Network.take, Network.ofAction_snd, Network.express]
      cases hexpress : c.network.forwarder.express t with
      | error e => exact h
      | ok r =>
        obtain ⟨-, rfl⟩ | ⟨hnew, hit, store, -, rfl⟩ := Forwarder.express_cases hexpress
        · exact h.congr (by simp)
        · -- a new one is of another listener, or it would be the one that stands
          have ht : t.listener ≠ s.listener := fun heq => hnew (hstep heq ▸ h.mem)
          simpa [Serves, ht] using h
    | cancelInterest t =>
      have hts : t ≠ s := hstep
      rw [take, Network.take, Network.ofAction_snd]
      obtain ⟨-, heq⟩ | ⟨-, heq⟩ := Network.cancelInterest_cases t c.network <;> rw [heq]
      · exact h
      · -- taking another one back leaves those of the listener
        have hleft := congrArg (List.filter (· ≠ t)) h
        rw [List.filter_filter] at hleft
        simpa [Serves, List.filter_filter, Bool.and_comm, hts.symm] using hleft
    | setFilter g =>
      refine h.congr ?_
      rw [take, Network.take, Network.ofAction_snd, Network.setFilter_standing]
    | cancelFilter g =>
      refine h.congr ?_
      rw [take, Network.take, Network.ofAction_snd, Network.cancelFilter_standing]
    | _ => exact h.congr (Network.registered_take id).2
  | handle => exact h.congr (congrArg (·.standing) (handle_keeps c).1)
  | accept o => exact h.congr (congrArg (·.standing) (accept_keeps c o).1)
  | emit position reaches =>
    rw [take]
    cases ho : c.inFlight[position]? with
    | none => rwa [emit_of_none ho]
    | some o =>
      rw [emit_of_some ho]
      cases reaches with
      | false => exact h.congr rfl
      | true => exact h.congr (Network.put_registered o c.network).2
  | addNamespace root reaches =>
    have hset := Network.setFilter_standing (c.filter root) c.network
    rw [take, addNamespace]
    split
    · exact h
    · split
      · next heq =>
        rw [heq] at hset
        exact h.congr hset
      · exact h
  | removeNamespace root reaches =>
    rw [take, removeNamespace]
    split
    · split
      · exact h.congr (Network.cancelFilter_standing ..)
      · exact h.congr rfl
    · exact h

/-- An object that arrives is handed to the listener once, if it matches. -/
theorem Serves.deliveriesOf (h : c.Serves s) (o : ContentObject) :
    (c.network.forwarder.deliveriesOf o).filterMap (Delivery.objectFor s.listener)
      = [o].filter (s.interest.accepts ·) := by
  rw [Forwarder.deliveriesOf_objectFor, h]
  cases haccepts : s.interest.accepts o <;> simp [haccepts]

/-- Nothing but an object that arrives is handed to the listener. -/
theorem Serves.received_network (h : c.Serves s) {step : NetworkStep}
    (hstep : (Step.network step).Leaves s) :
    (c.network.deliveries step).filterMap (Delivery.objectFor s.listener)
      = (c.posting (.network step)).filter (s.interest.accepts ·) := by
  cases step with
  | put o =>
    rw [Network.deliveries_put_objectFor, h.deliveriesOf, posting]
    split <;> rfl
  | beginGet i wait => exact Network.deliveries_beginGet_objectFor i wait c.network s.listener
  | express t =>
    have hnone : c.posting (.network (.express t)) = [] := rfl
    rw [Network.deliveries, hnone]
    cases hexpress : c.network.forwarder.express t with
    | error e => rfl
    | ok r =>
      obtain ⟨-, rfl⟩ | ⟨hnew, hit, store, -, rfl⟩ := Forwarder.express_cases hexpress
      · rfl
      · -- a standing interest that is new is one of another listener
        have ht : t.listener ≠ s.listener := fun heq => hnew (hstep heq ▸ h.mem)
        cases hit <;> simp [Delivery.objectFor, ht]
  | _ => rfl

/-- An object that is let out is handed to the listener once, if it matches. -/
theorem Serves.received_emit (h : c.Serves s) (hs : c.Sound) {position : Nat}
    (ho : c.inFlight[position]? = some o) :
    (c.deliveries (.emit position true)).filterMap (Delivery.objectFor s.listener)
      = [o].filter (s.interest.accepts ·) := by
  have hvalid : o.Valid := hs.valid_inFlight o (List.mem_of_getElem? ho)
  have hput := Network.put_eq_ok hs.isOpen (ContentObject.digest_eq_ok hvalid)
  rw [deliveries, ho]
  simp only [Network.deliveries_put_objectFor, hput]
  exact h.deliveriesOf o

/-- **One step** hands the listener what comes from on the way, and what others bring. -/
theorem received_take_perm (h : c.Serves s) (hs : c.Sound) {step : Step}
    (hregular : step.Regular c) (hleaves : step.Leaves s) :
    ((c.deliveries step).filterMap (Delivery.objectFor s.listener)
        ++ (c.take step).inFlight.filter (s.interest.accepts ·)).Perm
      ((c.inFlight ++ c.choosing step ++ c.posting step).filter (s.interest.accepts ·)) := by
  cases step with
  | network step =>
    have hnone : c.choosing (.network step) = [] := rfl
    rw [deliveries, h.received_network hleaves, hnone, List.append_nil, List.filter_append]
    exact List.perm_append_comm
  | emit position reaches =>
    -- a call that does not fail: what leaves the way is handed out
    obtain rfl : reaches = true := hregular
    have hnone : c.choosing (.emit position true) ++ c.posting (.emit position true) = [] := rfl
    rw [take, List.append_assoc, hnone, List.append_nil]
    cases ho : c.inFlight[position]? with
    | none =>
      rw [emit_of_none ho, deliveries, ho]
      exact .refl _
    | some o =>
      obtain ⟨hlt, rfl⟩ := List.getElem?_eq_some_iff.1 ho
      rw [h.received_emit hs ho, emit_of_some ho, ← List.filter_append]
      exact (List.getElem_cons_eraseIdx_perm hlt).filter _
  | handle | accept o | addNamespace root reaches | removeNamespace root reaches =>
    rw [inFlight_take (by simp), posting, List.append_nil]
    · exact .refl _
    · simp

/-! ## Runs -/

/-- **What is handed to the listener in a run** is what was or comes on the way, and what others
bring. By induction on the run, counting each object. -/
theorem received_perm (h : c.Serves s) (hs : c.Sound) (hregular : RunsRegularly steps c)
    (hleaves : ∀ step ∈ steps, step.Leaves s) :
    (received s.listener steps c ++ (run steps c).inFlight.filter (s.interest.accepts ·)).Perm
      ((c.inFlight ++ chosen steps c ++ posted steps c).filter (s.interest.accepts ·)) := by
  induction steps generalizing c with
  | nil => simp [received, chosen, posted]
  | cons step rest ih =>
    have hfirst := hleaves step List.mem_cons_self
    have hstep := received_take_perm h hs hregular.1 hfirst
    have hrest := ih (serves_take h hfirst) (sound_take hs hregular.1) hregular.2
      fun step' hstep' => hleaves step' (List.mem_cons_of_mem step hstep')
    refine List.perm_iff_count.2 fun o => ?_
    have hstep' := hstep.count_eq o
    have hrest' := hrest.count_eq o
    simp only [received, chosen, posted, trace_cons, run_cons, List.filter_append,
      List.count_append] at hstep' hrest' ⊢
    omega

/-- An interest stays held in a regular run as long as no object is put that it accepts. -/
theorem mem_held_run (hi : i ∈ c.flow.held) (hregular : RunsRegularly steps c)
    (hnone : ∀ o, .accept o ∈ steps → i.accepts o = false) : i ∈ (run steps c).flow.held := by
  induction steps generalizing c with
  | nil => exact hi
  | cons step rest ih =>
    refine ih ?_ hregular.2 fun o ho => hnone o (List.mem_cons_of_mem step ho)
    obtain rfl | ⟨o, rfl⟩ | ⟨k, o, -, heq⟩ | ⟨-, hheld, -⟩ := take_cases hregular.1
    · rw [take]
      obtain ⟨-, heq⟩ | ⟨j, interests, -, ⟨o, -, -, heq⟩ | ⟨-, heq⟩⟩ := handle_cases hregular.1 <;>
        rw [heq]
      · exact hi
      · exact hi
      · exact List.mem_append_left _ hi
    · -- an object that is put does not answer it, whatever else it answers
      have hkept := FlowControl.mem_held_accept hi (hnone o List.mem_cons_self)
      rw [take]
      obtain heq | ⟨-, ⟨heq, -⟩ | heq⟩ := accept_cases c o <;> rw [heq]
      · exact hi
      · exact hkept
      · exact hkept
    · rw [heq]
      exact hi
    · rw [hheld]
      exact hi

/-- An object that is put is let out just when an interest is held that it answers. -/
theorem choosing_accept (hadmits : c.Admits o) :
    c.choosing (.accept o) = [o] ↔ ∃ i ∈ c.flow.held, i.accepts o = true := by
  rw [choosing, ← List.any_eq_true]
  by_cases hany : c.flow.held.any (·.accepts o) = true
  · simp [hadmits, hany]
  · simp [hany]

/-- **What a standing interest receives under flow control.** In a regular run in which a standing
interest stays expressed, each object that the controller lets out, or another application brings,
is handed to its listener exactly once if it matches, and waits in its mail. An object that is put
is let out just when an interest is held that it answers: the first one that matches is, while the
standing interest is held. -/
theorem standing_receives (capacity : Nat) (owner : OwnerId) (listener : ListenerId)
    (limits : FlowLimits) {first rest : List Step} {s : StandingInterest}
    {before after : LiveController}
    (hbefore : run first (start (.new capacity) owner listener limits) = before)
    (hafter : run rest before = after)
    (hregular : RunsRegularly (first ++ rest) (start (.new capacity) owner listener limits))
    (hserves : before.Serves s) (hleaves : ∀ step ∈ rest, step.Leaves s) :
    (received s.listener rest before ++ after.inFlight.filter (s.interest.accepts ·)).Perm
        ((before.inFlight ++ chosen rest before ++ posted rest before).filter
          (s.interest.accepts ·))
      ∧ ((∀ step ∈ rest, step ≠ .network (.takeObject s.listener)) →
        after.network.objects.waiting s.listener
          = before.network.objects.waiting s.listener ++ received s.listener rest before)
      ∧ ∀ mid o tail, rest = mid ++ .accept o :: tail → (run mid before).Admits o →
        (choosing (run mid before) (.accept o) = [o]
            ↔ ∃ i ∈ (run mid before).flow.held, i.accepts o = true)
          ∧ (s.interest ∈ before.flow.held → s.interest.accepts o = true →
            (∀ p, .accept p ∈ mid → s.interest.accepts p = false) →
            choosing (run mid before) (.accept o) = [o]) := by
  rw [runsRegularly_append, hbefore] at hregular
  obtain ⟨hfirst, hrest⟩ := hregular
  -- the first part of the run leaves a sound controller, from which the rest is counted
  have hs : before.Sound := hbefore ▸ sound_run (sound_start capacity owner listener limits) hfirst
  refine ⟨hafter ▸ received_perm hserves hs hrest hleaves, fun htake => hafter ▸ objects_run htake,
    ?_⟩
  rintro mid o tail rfl hadmits
  refine ⟨choosing_accept hadmits, fun hheld haccepts hnone => ?_⟩
  -- nothing put before has used up the interest
  have hmid := (runsRegularly_append.1 hrest).1
  exact (choosing_accept hadmits).2 ⟨s.interest, mem_held_run hheld hmid hnone, haccepts⟩

/-- The first object that is put after a standing interest was handled reaches its listener. -/
theorem standing_receives_first :
    let s : StandingInterest := ⟨⟨3⟩, .below ⟨[⟨[97]⟩]⟩, ⟨4⟩⟩
    let o : ContentObject :=
      ⟨⟨[⟨[97]⟩, ⟨[49]⟩]⟩, ⟨default, ⟨0⟩, .data, none, none⟩, [1], none⟩
    let before := run [.addNamespace .root true, .network (.express s), .handle]
      (start (.new 8) ⟨1⟩ ⟨2⟩ ⟨8, 1⟩)
    s.interest ∈ before.flow.held
      ∧ choosing before (.accept o) = [o]
      ∧ (received s.listener [.accept o, .emit 0 true] before).Perm [o] := by
  intro s o before
  have hregular : RunsRegularly
      ([.addNamespace .root true, .network (.express s), .handle] ++ [.accept o, .emit 0 true])
      (start (.new 8) ⟨1⟩ ⟨2⟩ ⟨8, 1⟩) :=
    ⟨trivial, trivial, Nat.zero_lt_one, trivial, rfl, trivial⟩
  have hserves : before.Serves s := by decide +kernel
  have hheld : s.interest ∈ before.flow.held := by decide +kernel
  obtain ⟨hperm, -, hput⟩ := standing_receives 8 ⟨1⟩ ⟨2⟩ ⟨8, 1⟩ rfl rfl hregular hserves
    (by simp [Step.Leaves])
  refine ⟨hheld, (hput [] o [.emit 0 true] rfl (by decide +kernel)).2 hheld (by decide +kernel)
    (by simp), ?_⟩
  -- at the end nothing is on its way, so that what was chosen has arrived
  have hquiet : (run [.accept o, .emit 0 true] before).inFlight = [] := by decide +kernel
  have hchosen : (before.inFlight ++ chosen [.accept o, .emit 0 true] before
      ++ posted [.accept o, .emit 0 true] before).filter (s.interest.accepts ·) = [o] := by
    decide +kernel
  rw [hquiet, hchosen, List.filter_nil, List.append_nil] at hperm
  exact hperm

/-- **The second object does not reach a standing interest.** The interest is expressed below the
controller's namespace and handled, both objects are put and match, no call fails and no limit is
reached, and its listener is handed the first one only. -/
theorem standing_misses_second :
    let s : StandingInterest := ⟨⟨3⟩, .below ⟨[⟨[97]⟩]⟩, ⟨4⟩⟩
    let o (n : UInt8) : ContentObject :=
      ⟨⟨[⟨[97]⟩, ⟨[n]⟩]⟩, ⟨default, ⟨0⟩, .data, none, none⟩, [n], none⟩
    let before := run [.addNamespace ⟨[⟨[97]⟩]⟩ true, .network (.express s), .handle]
      (start (.new 8) ⟨1⟩ ⟨2⟩ {})
    let puts : List Step := [.accept (o 49), .emit 0 true, .accept (o 50), .emit 0 true]
    let after := run puts before
    before.Serves s ∧ after.Serves s
      ∧ s.interest.accepts (o 49) = true ∧ s.interest.accepts (o 50) = true
      ∧ received s.listener puts before = [o 49]
      ∧ after.flow.objects = [o 49, o 50]
      ∧ after.queue = [] ∧ after.inFlight = [] := by
  decide +kernel

end NamedContent.LiveController
