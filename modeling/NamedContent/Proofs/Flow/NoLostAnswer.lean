import NamedContent.Proofs.Flow.Traces
import NamedContent.Proofs.Signing.Objects

/-! # No answer is lost

A flow controller works beside any number of other applications. When nothing is on its way, no get
that the controller has been asked for still waits for something that the controller has: each such
get was either answered from the buffer, or is held, or an object that answers it went out for
another interest and reached every get that it matches.

* `LiveController.Step.Regular`: the steps of a run in which calls do not fail and no held interest
  gives way
* `LiveController.Attended`: how a get stands while it is not answered
* `LiveController.no_lost_answer`: the main theorem -/

namespace NamedContent.LiveController

/-! ## Runs -/

/-- Whether a step may be taken: the forwarder is not shut down, what is let out reaches it, nobody
else takes the controller's interests, and no held interest has to give way. -/
def Step.Regular (c : LiveController) : Step → Prop
  | .network step => step.Spares c.listener
  | .handle => c.flow.held.length < c.flow.limits.maxHeld
  | .emit _ reaches => reaches = true
  | _ => True

/-- Whether every step of a run may be taken where it is. -/
def RunsRegularly : List Step → LiveController → Prop
  | [], _ => True
  | step :: rest, c => step.Regular c ∧ RunsRegularly rest (c.take step)

/-- How many turns a step gives to the interests in the queue. -/
def Step.turns : Step → Nat
  | .handle => 1
  | _ => 0

/-- How many times the responder takes an interest from the queue in a run. -/
def turns : List Step → Nat
  | [] => 0
  | step :: rest => step.turns + turns rest

/-- A run is regular if its first steps are and the others are from there on. -/
theorem runsRegularly_append {first rest : List Step} {c : LiveController} :
    RunsRegularly (first ++ rest) c
      ↔ RunsRegularly first c ∧ RunsRegularly rest (run first c) := by
  induction first generalizing c with
  | nil => simp [RunsRegularly]
  | cons step first ih => simp [RunsRegularly, ih, and_assoc]

/-! ## What all regular steps keep -/

/-- The state of a controller and its network in a regular run. -/
structure Sound (c : LiveController) : Prop where
  isOpen : c.network.forwarder.closed = false
  numbered : ∀ p ∈ c.network.forwarder.pending, p.id < c.network.forwarder.nextId
  valid_inFlight : ∀ o ∈ c.inFlight, o.Valid
  valid_buffer : ∀ o ∈ c.flow.objects, o.Valid

/-- A new controller at a new forwarder is sound. -/
theorem sound_start (capacity : Nat) (owner : OwnerId) (listener : ListenerId)
    (limits : FlowLimits) : (start (.new capacity) owner listener limits).Sound where
  isOpen := rfl
  numbered := by simp [start, Network.new, Forwarder.new]
  valid_inFlight := by simp [start]
  valid_buffer := by simp [start, FlowControl.new, FlowControl.objects]

section Steps

variable {c : LiveController} {i : Interest}

/-- A step that is no turn of the responder leaves the queue as it is, apart from what comes behind,
and keeps what the forwarder is asked for. -/
theorem advances_take {step : Step} (hstep : step.Regular c) (hturns : step.turns = 0) :
    Network.Advances c.listener c.network (c.take step).network := by
  cases step with
  | network step => exact Network.advances_take c.network hstep
  | handle => exact absurd hturns (by simp [Step.turns])
  | accept o =>
    rw [take, accept]
    split
    · split <;> exact .refl _ _
    · exact .refl _ _
  | emit position reaches =>
    rw [take, emit]
    split
    · exact .refl _ _
    · split
      · exact Network.advances_put _
      · exact .refl _ _
  | addNamespace root reaches =>
    rw [take, addNamespace]
    split
    · exact .refl _ _
    · -- the filter may be set or not, and the namespace is added only if it is
      have hset : Network.Advances c.listener c.network
          (Network.setFilter (c.filter root) c.network).2 :=
        Network.advances_step fun _ => Forwarder.advances_setFilter
      split
      · next h => rwa [h] at hset
      · exact .refl _ _
  | removeNamespace root reaches =>
    rw [take, removeNamespace]
    split
    · split
      · exact Network.advances_step fun _ => Forwarder.advances_cancelFilter
      · exact .refl _ _
    · exact .refl _ _

/-- What the responder does in its turn: without an interest nothing, otherwise it lets out an
object that answers the first one, or holds that interest. -/
theorem handle_cases (hroom : c.flow.held.length < c.flow.limits.maxHeld) :
    (c.network.interests.waiting c.listener = [] ∧ c.handle = c)
      ∨ ∃ i interests, c.network.interests.waiting c.listener
          = i :: Mail.waiting interests c.listener
        ∧ ((∃ o ∈ c.flow.objects, i.accepts o = true
              ∧ c.handle = { c with
                  network := { c.network with interests }, inFlight := c.inFlight ++ [o] })
          ∨ ((∀ o ∈ c.flow.objects, i.accepts o = false)
              ∧ c.handle = { c with
                  network := { c.network with interests }
                  flow := { c.flow with held := c.flow.held ++ [i] } })) := by
  cases hhead : c.queue.head? with
  | none => exact .inl ⟨List.head?_eq_none_iff.1 hhead, handle_of_none hhead⟩
  | some i =>
    obtain ⟨rest, hwaiting⟩ : ∃ rest, c.network.interests.waiting c.listener = i :: rest :=
      List.head?_eq_some_iff.1 hhead
    have hqueue : c.network.interests.waiting c.listener
        = i :: (c.network.interests.next c.listener).2.waiting c.listener := by
      rw [(Mail.next_eq c.network.interests c.listener).2, hwaiting]
      rfl
    refine .inr ⟨i, _, hqueue, ?_⟩
    -- the buffer decides: the first interest is answered from it, or held
    have hanswer := i.answers_select c.flow.objects
    cases hselect : i.select c.flow.objects with
    | none =>
      rw [hselect] at hanswer
      rw [handle_of_hold hhead hselect, FlowControl.holdIn_of_lt hroom]
      exact .inr ⟨hanswer, rfl⟩
    | some o =>
      rw [hselect] at hanswer
      exact .inl ⟨o, hanswer.1, hanswer.2, handle_of_select hhead hselect⟩

/-- What comes of putting an object: nothing, or it is kept, and it goes out if a held interest asks
for it. -/
theorem accept_cases (c : LiveController) (o : ContentObject) :
    c.accept o = c
      ∨ o.Valid ∧ ((c.accept o = { c with flow := (c.flow.accept o).2 }
            ∧ ∀ i ∈ c.flow.held, i.accepts o = false)
          ∨ c.accept o
            = { c with flow := (c.flow.accept o).2, inFlight := c.inFlight ++ [o] }) := by
  by_cases hadmits : c.Admits o
  · refine .inr ⟨hadmits.1, ?_⟩
    cases hfind : c.flow.held.find? (·.accepts o) with
    | none =>
      rw [accept_of_none hadmits hfind, FlowControl.accept_eq_none hfind]
      exact .inl ⟨rfl, fun i hi => by simpa using List.find?_eq_none.1 hfind i hi⟩
    | some i =>
      rw [accept_of_some hadmits hfind, FlowControl.accept_eq_some hfind]
      exact .inr rfl
  · exact .inl (accept_of_not_admits hadmits)

/-- A regular step other than a turn of the responder or a put does not touch what is kept, and at
most hands out something that was on its way. -/
theorem take_cases {step : Step} (hstep : step.Regular c) :
    step = .handle ∨ (∃ o, step = .accept o)
      ∨ (∃ k o, c.inFlight[k]? = some o ∧ c.take step = { c with
            network := (Network.put o c.network).2, inFlight := c.inFlight.eraseIdx k })
      ∨ ((c.take step).inFlight = c.inFlight ∧ (c.take step).flow.held = c.flow.held
          ∧ (c.take step).flow.buffer = c.flow.buffer) := by
  cases step with
  | handle => exact .inl rfl
  | accept o => exact .inr (.inl ⟨o, rfl⟩)
  | network step => exact .inr (.inr (.inr ⟨rfl, rfl, rfl⟩))
  | emit position reaches =>
    have hreaches : reaches = true := hstep
    rw [take]
    cases ho : c.inFlight[position]? with
    | none =>
      rw [emit_of_none ho]
      exact .inr (.inr (.inr ⟨rfl, rfl, rfl⟩))
    | some o =>
      rw [emit_of_some ho, if_pos hreaches]
      exact .inr (.inr (.inl ⟨position, o, ho, rfl⟩))
  | addNamespace root reaches =>
    obtain ⟨hheld, hbuffer, hinFlight⟩ := addNamespace_keeps c root reaches
    exact .inr (.inr (.inr ⟨hinFlight, hheld, hbuffer⟩))
  | removeNamespace root reaches =>
    obtain ⟨hheld, hbuffer, hinFlight⟩ := removeNamespace_keeps c root reaches
    exact .inr (.inr (.inr ⟨hinFlight, hheld, hbuffer⟩))

/-- Every regular step keeps what the forwarder is asked for. -/
theorem forwarder_take {step : Step} (hstep : step.Regular c) :
    c.network.forwarder.Advances (c.take step).network.forwarder := by
  by_cases hturns : step.turns = 0
  · exact (advances_take hstep hturns).forwarder
  · cases step with
    | handle =>
      rw [take]
      obtain ⟨-, h⟩ | ⟨i, interests, -, ⟨o, -, -, h⟩ | ⟨-, h⟩⟩ := handle_cases hstep <;> rw [h] <;>
        exact .refl _
    | _ => exact absurd rfl hturns

/-- **A regular step keeps a controller and its network sound.** -/
theorem sound_take (h : c.Sound) {step : Step} (hstep : step.Regular c) : (c.take step).Sound := by
  have hforwarder := forwarder_take hstep
  have hopen := hforwarder.closed.trans h.isOpen
  have hnumbered : ∀ p ∈ (c.take step).network.forwarder.pending,
      p.id < (c.take step).network.forwarder.nextId := by
    intro p hp
    obtain ⟨q, hq, hpq, -⟩ | ⟨-, hnew⟩ := hforwarder.pending p hp
    · rw [hpq]
      exact Nat.lt_of_lt_of_le (h.numbered q hq) hforwarder.nextId
    · exact hnew
  -- the rest is about objects, and only the controller's own steps move those
  suffices hvalid : (∀ o ∈ (c.take step).inFlight, o.Valid)
      ∧ ∀ o ∈ (c.take step).flow.objects, o.Valid from ⟨hopen, hnumbered, hvalid.1, hvalid.2⟩
  have append {o : ContentObject} (ho : o.Valid) : ∀ p ∈ c.inFlight ++ [o], p.Valid := by
    intro p hp
    rcases List.mem_append.1 hp with hp | hp
    · exact h.valid_inFlight p hp
    · rwa [List.mem_singleton.1 hp]
  obtain rfl | ⟨o, rfl⟩ | ⟨k, o, -, heq⟩ | ⟨hinFlight, -, hbuffer⟩ := take_cases hstep
  · rw [take]
    obtain ⟨-, heq⟩ | ⟨i, interests, -, ⟨o, ho, -, heq⟩ | ⟨-, heq⟩⟩ := handle_cases hstep <;>
      rw [heq]
    · exact ⟨h.valid_inFlight, h.valid_buffer⟩
    · exact ⟨append (h.valid_buffer o ho), h.valid_buffer⟩
    · exact ⟨h.valid_inFlight, h.valid_buffer⟩
  · rw [take]
    have kept (ho : o.Valid) : ∀ p ∈ (c.flow.accept o).2.objects, p.Valid := by
      intro p hp
      obtain rfl | hp := FlowControl.mem_objects_accept hp
      · exact ho
      · exact h.valid_buffer p hp
    obtain heq | ⟨ho, ⟨heq, -⟩ | heq⟩ := accept_cases c o <;> rw [heq]
    · exact ⟨h.valid_inFlight, h.valid_buffer⟩
    · exact ⟨h.valid_inFlight, kept ho⟩
    · exact ⟨append ho, kept ho⟩
  · rw [heq]
    exact ⟨fun p hp => h.valid_inFlight p (List.mem_of_mem_eraseIdx hp), h.valid_buffer⟩
  · rw [hinFlight, FlowControl.objects, hbuffer]
    exact ⟨h.valid_inFlight, h.valid_buffer⟩

/-- In a regular run a controller and its network stay sound. -/
theorem sound_run (h : c.Sound) {steps : List Step} (hsteps : RunsRegularly steps c) :
    (run steps c).Sound := by
  induction steps generalizing c with
  | nil => exact h
  | cons step rest ih => exact ih (sound_take h hsteps.1) hsteps.2

/-! ## A get that is not answered -/

/-- Whether the controller will answer an interest: an object that does so is on its way, or the
interest is held and nothing in the buffer answers it. -/
def Watches (c : LiveController) (i : Interest) : Prop :=
  (∃ o ∈ c.inFlight, i.accepts o = true)
    ∨ i ∈ c.flow.held ∧ ∀ o ∈ c.flow.objects, i.accepts o = false

/-- How an interest stands with the controller, which comes to it in a number of turns: it waits in
the queue, and after its turn the controller watches for it. -/
def Attended (c : LiveController) (i : Interest) : Nat → Prop
  | 0 => c.Watches i
  | n + 1 => (c.network.interests.waiting c.listener)[n]? = some i

/-- A turn of the responder brings an interest forward, and what it watches for it goes on to
watch for. -/
theorem attended_handle (hroom : c.flow.held.length < c.flow.limits.maxHeld) {n : Nat}
    (h : c.Attended i n) : c.handle.Attended i (n - 1) := by
  obtain ⟨hempty, heq⟩ | ⟨j, interests, hqueue, hcases⟩ := handle_cases hroom
  · cases n with
    | zero => rwa [heq]
    | succ n =>
      -- the queue is empty, so no interest was on its way in it
      rw [Attended, hempty] at h
      exact absurd h (by simp)
  · match n, h with
    -- what is let out now comes behind the object that was on its way
    | 0, .inl ⟨o, ho, hacc⟩ =>
      refine .inl ⟨o, ?_, hacc⟩
      obtain ⟨_, -, -, heq⟩ | ⟨-, heq⟩ := hcases <;> rw [heq]
      · exact List.mem_append_left _ ho
      · exact ho
    | 0, .inr ⟨hheld, hbuffer⟩ =>
      refine .inr ?_
      obtain ⟨_, -, -, heq⟩ | ⟨-, heq⟩ := hcases <;> rw [heq]
      · exact ⟨hheld, hbuffer⟩
      · exact ⟨List.mem_append_left _ hheld, hbuffer⟩
    | 1, h =>
      -- it is the interest's own turn
      have hij : j = i := by simpa [Attended, hqueue] using h
      subst hij
      obtain ⟨o, -, hacc, heq⟩ | ⟨hbuffer, heq⟩ := hcases
      · rw [heq]
        exact .inl ⟨o, List.mem_append_right _ List.mem_cons_self, hacc⟩
      · rw [heq]
        exact .inr ⟨List.mem_append_right _ List.mem_cons_self, hbuffer⟩
    | n + 2, h =>
      have hrest : (Mail.waiting interests c.listener)[n]? = some i := by
        simpa [Attended, hqueue] using h
      obtain ⟨_, -, -, heq⟩ | ⟨-, heq⟩ := hcases <;> rw [heq] <;> exact hrest

/-- What the controller watches for, it watches for after an object was put. -/
theorem watches_accept (o : ContentObject) (h : c.Watches i) : (c.accept o).Watches i := by
  obtain heq | ⟨-, hcases⟩ := accept_cases c o
  · rwa [heq]
  obtain ⟨p, hp, hacc⟩ | ⟨hheld, hbuffer⟩ := h
  · -- an object that answers is on its way, and stays there
    refine .inl ⟨p, ?_, hacc⟩
    obtain ⟨heq, -⟩ | heq := hcases <;> rw [heq]
    · exact hp
    · exact List.mem_append_left _ hp
  · -- the interest is held: an object that answers it goes out, another leaves it held
    cases hacc : i.accepts o with
    | true =>
      obtain ⟨-, hunwanted⟩ | heq := hcases
      · rw [hunwanted i hheld] at hacc
        exact absurd hacc (by simp)
      · rw [heq]
        exact .inl ⟨o, List.mem_append_right _ List.mem_cons_self, hacc⟩
    | false =>
      have hstill : i ∈ (c.flow.accept o).2.held
          ∧ ∀ p ∈ (c.flow.accept o).2.objects, i.accepts p = false := by
        refine ⟨FlowControl.mem_held_accept hheld hacc, fun p hp => ?_⟩
        obtain rfl | hp := FlowControl.mem_objects_accept hp
        · exact hacc
        · exact hbuffer p hp
      obtain ⟨heq, -⟩ | heq := hcases <;> rw [heq] <;> exact .inr hstill

/-- What reaches the forwarder answers every get that it matches, so that for a get without an
answer something else is on its way. -/
theorem watches_emit (hs : c.Sound) {k : Nat} {o : ContentObject} (hk : c.inFlight[k]? = some o)
    {p : PendingGet} (hp : p ∈ (Network.put o c.network).2.forwarder.pending)
    (hnone : p.answer = none) (h : c.Watches p.interest) :
    (∃ q ∈ c.inFlight.eraseIdx k, p.interest.accepts q = true)
      ∨ p.interest ∈ c.flow.held ∧ ∀ o ∈ c.flow.objects, p.interest.accepts o = false := by
  obtain ⟨q, hq, hacc⟩ | hheld := h
  · have hvalid : o.Valid := hs.valid_inFlight o (List.mem_of_getElem? hk)
    have hput : (Network.put o c.network).2.forwarder
        = (c.network.forwarder.receive o (Digest.ofBytes o.toCbor)).1 := by
      rw [Network.put, Forwarder.put_eq_ok hs.isOpen (ContentObject.digest_eq_ok hvalid)]
      exact Network.after_forwarder _ _ _
    rw [hput] at hp
    have hno : p.interest.accepts o = false := Forwarder.answered_receive hp hnone
    -- the get is not answered, so what went out is not the object that it waits for
    obtain ⟨j, hj⟩ := List.getElem?_of_mem hq
    have hjk : j ≠ k := by
      rintro rfl
      rw [hk] at hj
      rw [← Option.some.inj hj, hno] at hacc
      exact absurd hacc (by simp)
    exact .inl ⟨q, List.mem_eraseIdx_iff_getElem?.2 ⟨j, hjk, hj⟩, hacc⟩
  · exact .inr hheld

/-- **A regular step keeps an unanswered get attended**, and a turn of the responder brings it
forward. -/
theorem attended_take (hs : c.Sound) {step : Step} (hstep : step.Regular c) {p : PendingGet}
    (hp : p ∈ (c.take step).network.forwarder.pending) (hnone : p.answer = none) {n : Nat}
    (h : c.Attended p.interest n) : (c.take step).Attended p.interest (n - step.turns) := by
  by_cases hturns : step.turns = 0
  · rw [hturns, Nat.sub_zero]
    cases n with
    | succ n =>
      -- the interest is still in the queue, which only grows behind it
      obtain ⟨rest, hrest⟩ := (advances_take hstep hturns).waiting
      rw [Attended, take_listener, ← hrest]
      rw [Attended] at h
      have hlt := (List.getElem?_eq_some_iff.1 h).1
      rwa [List.getElem?_append_left hlt]
    | zero =>
      rw [Attended] at h ⊢
      obtain rfl | ⟨o, rfl⟩ | ⟨k, o, hk, heq⟩ | ⟨hinFlight, hheld, hbuffer⟩ := take_cases hstep
      · exact absurd hturns (by simp [Step.turns])
      · exact watches_accept o h
      · rw [heq] at hp ⊢
        exact watches_emit hs hk hp hnone h
      · rw [Watches, hinFlight, hheld, FlowControl.objects, hbuffer]
        exact h
  · cases step with
    | handle => exact attended_handle hstep h
    | _ => exact absurd rfl hturns

/-! ## Runs -/

/-- Whether a get with a number, asking for something, is attended as long as it waits without an
answer. -/
def Tracks (c : LiveController) (id : Nat) (i : Interest) (turns : Nat) : Prop :=
  id < c.network.forwarder.nextId ∧ ∀ p ∈ c.network.forwarder.pending, p.id = id →
    p.interest = i ∧ (p.answer = none → c.Attended i turns)

/-- **A step** brings an interest nearer to being handled by as many turns as it has. -/
theorem tracks_take (hs : c.Sound) {step : Step} (hstep : step.Regular c) {id n : Nat}
    (h : c.Tracks id i n) : (c.take step).Tracks id i (n - step.turns) := by
  have hforwarder := forwarder_take hstep
  refine ⟨Nat.lt_of_lt_of_le h.1 hforwarder.nextId, fun p hp hid => ?_⟩
  obtain ⟨q, hq, hqid, hinterest, hanswer⟩ | ⟨hnew, -⟩ := hforwarder.pending p hp
  · obtain ⟨hqi, hattended⟩ := h.2 q hq (hqid.symm.trans hid)
    have hpi : p.interest = i := hinterest.trans hqi
    refine ⟨hpi, fun hnone => ?_⟩
    have := attended_take hs hstep hp hnone (hpi ▸ hattended (hanswer hnone))
    rwa [hpi] at this
  · -- a get that is new now has a greater number
    have := h.1
    omega

/-- A get is tracked through a regular run, and comes forward with each turn of the responder. -/
theorem tracks_run (hs : c.Sound) {steps : List Step} (hsteps : RunsRegularly steps c)
    {id n : Nat} (h : c.Tracks id i n) : (run steps c).Tracks id i (n - turns steps) := by
  induction steps generalizing c n with
  | nil => exact h
  | cons step rest ih =>
    have := ih (sound_take hs hsteps.1) hsteps.2 (tracks_take hs hsteps.1 h)
    rwa [Nat.sub_sub] at this

/-- A get that begins to wait, and whose interest goes to the controller, is tracked from there: the
responder comes to it after what waits in the queue already. -/
theorem tracks_beginGet (hs : c.Sound) {id : Nat}
    (hget : (c.network.take (.beginGet i true)).1 = .started (.waiting id))
    (hdispatch : .interest c.listener i ∈ c.network.forwarder.dispatch i) :
    (c.take (.network (.beginGet i true))).Tracks id i
      ((c.network.interests.waiting c.listener).length + 1) := by
  obtain ⟨r, hr⟩ : ∃ r, c.network.forwarder.beginGet i true = .ok r := by
    cases h : c.network.forwarder.beginGet i true with
    | ok r => exact ⟨r, rfl⟩
    | error e => simp [Network.take, NetworkReply.ofAction, Network.beginGet, h] at hget
  obtain ⟨-, -, rfl⟩ := Forwarder.exists_of_beginGet_eq_ok hr
  have hstart : (c.network.forwarder.start i true).1 = .waiting id := by
    simpa [Network.take, NetworkReply.ofAction, Network.beginGet, hr] using hget
  have hnetwork : (c.take (.network (.beginGet i true))).network
      = c.network.after (c.network.forwarder.start i true).2.1
          (c.network.forwarder.start i true).2.2 := by
    rw [take, Network.take, Network.ofAction_snd, Network.beginGet, hr]
  rw [Forwarder.start] at hstart hnetwork
  split at hstart
  · exact absurd hstart (by simp)
  next hlookup =>
  rw [if_pos rfl] at hstart
  have hid : c.network.forwarder.nextId = id := GetStart.waiting.inj hstart
  simp only [hlookup, if_pos] at hnetwork
  refine ⟨?_, fun p hp hpid => ?_⟩
  · rw [hnetwork, Network.after_forwarder, ← hid]
    exact Nat.lt_succ_self _
  · rw [hnetwork, Network.after_forwarder] at hp
    rcases List.mem_append.1 hp with hp | hp
    · have := hs.numbered p hp
      omega
    · rw [List.mem_singleton.1 hp]
      refine ⟨rfl, fun _ => ?_⟩
      -- the first copy of the interest stands behind what waited before
      rw [Attended, take_listener, hnetwork, Network.waiting_after,
        List.getElem?_append_right (Nat.le_refl _), Nat.sub_self]
      have hcopy : i ∈ (c.network.forwarder.dispatch i).filterMap
          (Delivery.interestFor c.listener) :=
        List.mem_filterMap.2 ⟨_, hdispatch, if_pos rfl⟩
      obtain ⟨j, rest, hj⟩ := List.exists_cons_of_ne_nil (List.ne_nil_of_mem hcopy)
      have hji : j ∈ (c.network.forwarder.dispatch i).filterMap
          (Delivery.interestFor c.listener) := hj ▸ List.mem_cons_self
      rw [hj, List.getElem?_cons_zero, Forwarder.eq_of_mem_dispatch hji]

/-- **No answer is lost between the forwarder and a flow controller.** In a regular run a get begins
to wait and its interest goes to the controller, whose responder comes to it some time. If nothing
is on its way then and the get still has no answer, nothing in the controller's buffer matches it.
-/
theorem no_lost_answer (capacity : Nat) (owner : OwnerId) (listener : ListenerId)
    (limits : FlowLimits) {first rest : List Step} {i : Interest} {id : Nat}
    {before after : LiveController}
    (hbefore : run first (start (.new capacity) owner listener limits) = before)
    (hafter : run (.network (.beginGet i true) :: rest) before = after)
    (hregular : RunsRegularly (first ++ .network (.beginGet i true) :: rest)
      (start (.new capacity) owner listener limits))
    (hget : (before.network.take (.beginGet i true)).1 = .started (.waiting id))
    (hdispatched : .interest listener i ∈ before.network.forwarder.dispatch i)
    (hhandled : (before.network.interests.waiting listener).length < turns rest)
    (hquiet : after.inFlight = []) :
    ∀ p ∈ after.network.forwarder.pending, p.id = id → p.answer = none →
      ∀ o ∈ after.flow.objects, p.interest.accepts o = false := by
  have hlistener : before.listener = listener := by rw [← hbefore, run_listener]; rfl
  rw [runsRegularly_append, hbefore] at hregular
  obtain ⟨hfirst, hget', hrest⟩ := hregular
  have hs : before.Sound := hbefore ▸ sound_run (sound_start capacity owner listener limits) hfirst
  have htracks := tracks_run (sound_take hs hget') hrest
    (tracks_beginGet hs hget (hlistener ▸ hdispatched))
  rw [← run_cons, hafter, hlistener, Nat.sub_eq_zero_of_le hhandled] at htracks
  intro p hp hid hnone
  obtain ⟨hinterest, hattended⟩ := htracks.2 p hp hid
  -- its turn has come, so the controller watches for the get, and nothing is on its way
  obtain ⟨o, ho, -⟩ | ⟨-, hbuffer⟩ := hattended hnone
  · rw [hquiet] at ho
    exact absurd ho (by simp)
  · rwa [hinterest]

/-- An object under one name is in the buffer while a get for another name is held. -/
theorem no_lost_answer_other_name :
    let other : ContentObject :=
      ⟨⟨[⟨[2]⟩]⟩, ⟨default, ⟨0⟩, .data, none, none⟩, [], none⟩
    let before := run [.addNamespace .root true, .accept other]
      (start (.new 1) ⟨1⟩ ⟨2⟩ ⟨1, 1⟩)
    let after := run [.network (.beginGet (.below ⟨[⟨[1]⟩]⟩) true), .handle] before
    after.network.forwarder.pending = [⟨0, .below ⟨[⟨[1]⟩]⟩, none⟩]
      ∧ after.flow.objects = [other]
      ∧ ∀ o ∈ after.flow.objects, (Interest.below ⟨[⟨[1]⟩]⟩).accepts o = false := by
  intro other before after
  have hpending : after.network.forwarder.pending = [⟨0, .below ⟨[⟨[1]⟩]⟩, none⟩] := by decide
  refine ⟨hpending, by decide, ?_⟩
  have hregular : RunsRegularly
      ([.addNamespace .root true, .accept other]
        ++ .network (.beginGet (.below ⟨[⟨[1]⟩]⟩) true) :: [.handle])
      (start (.new 1) ⟨1⟩ ⟨2⟩ ⟨1, 1⟩) :=
    ⟨trivial, trivial, trivial, Nat.zero_lt_one, trivial⟩
  -- the get begins to wait, and its interest has its turn in the next step
  have hget : (before.network.take (.beginGet (.below ⟨[⟨[1]⟩]⟩) true)).1
      = .started (.waiting 0) := by rfl
  have h := no_lost_answer 1 ⟨1⟩ ⟨2⟩ ⟨1, 1⟩ rfl rfl hregular hget (by decide) (by decide)
    (by decide)
  exact h ⟨0, .below ⟨[⟨[1]⟩]⟩, none⟩ (hpending ▸ List.mem_cons_self) rfl rfl

end Steps

end NamedContent.LiveController
