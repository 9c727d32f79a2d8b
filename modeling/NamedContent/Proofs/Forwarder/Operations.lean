import NamedContent.Forwarder.Steps
import NamedContent.Proofs.Action

/-! # The operations of the forwarder

What each operation leaves behind when the forwarder is open. Every step but the shutdown keeps what
is asked for: a waiting get that remains asks for the same as before, an answer stays, and new gets
have new numbers.

* `Forwarder.put_eq_ok`, `Forwarder.beginGet_eq_ok`: the operations that hand something out
* `Forwarder.Advances`: what becomes of the waiting gets in a step
* `Network.Advances`: the same with the interests that wait for a listener -/

namespace NamedContent

/-- Whether a waiting get is an earlier one, which may have got its answer since. -/
def PendingGet.Continues (p q : PendingGet) : Prop :=
  p.id = q.id ∧ p.interest = q.interest ∧ (p.answer = none → q.answer = none)

/-- A get goes on as it is. -/
theorem PendingGet.Continues.refl (p : PendingGet) : p.Continues p := ⟨rfl, rfl, fun h => h⟩

/-- A get that goes on twice has gone on. -/
theorem PendingGet.Continues.trans {p q r : PendingGet} (h : p.Continues q) (h' : q.Continues r) :
    p.Continues r :=
  ⟨h.1.trans h'.1, h.2.1.trans h'.2.1, fun hnone => h'.2.2 (h.2.2 hnone)⟩

namespace Forwarder

variable {f f' : Forwarder} {g : InterestFilter} {i : Interest} {o : ContentObject}
  {s : StandingInterest}

/-- Only a forwarder that is not shut down is open. -/
theorem ensureOpen_eq_ok_iff : f.ensureOpen = .ok () ↔ f.closed = false := by
  cases h : f.closed <;> simp [ensureOpen, h]

/-- A call succeeds only at an open forwarder. -/
theorem whenOpen_eq_ok_iff {α : Type} {x : Except TransportError α} {a : α} :
    (do f.ensureOpen; x) = .ok a ↔ f.closed = false ∧ x = .ok a := by
  rw [bind_eq_ok_iff, ← ensureOpen_eq_ok_iff]
  exact ⟨fun ⟨_, h⟩ => h, fun h => ⟨(), h⟩⟩

/-! ## Objects -/

/-- An open forwarder after an object has arrived, and what it hands out. -/
def receive (o : ContentObject) (digest : Digest) (f : Forwarder) : Forwarder × List Delivery :=
  if (f.deliveriesOf o).isEmpty && !f.pending.any (·.wants o) then (f, [])
  else ({ f with
    pending := f.pending.map fun p => if p.wants o then { p with answer := some o } else p
    store := f.store.insert ⟨⟨o.name, digest⟩, o⟩ }, f.deliveriesOf o)

/-- An object that arrives changes no filter. -/
@[simp] theorem receive_filters (o : ContentObject) (d : Digest) (f : Forwarder) :
    (f.receive o d).1.filters = f.filters := by
  rw [receive]
  split <;> rfl

/-- An object that has a digest arrives at an open forwarder. -/
theorem put_eq_ok (hopen : f.closed = false) {d : Digest} (hd : o.digest = .ok d) :
    f.put o = .ok (f.receive o d) := by
  rw [put, ensureOpen_eq_ok_iff.2 hopen, hd, receive]
  simp only [mapError_ok, bind, Except.bind, pure, Except.pure]
  split <;> rfl

/-- An object arrives only at an open forwarder, and only with a digest. -/
theorem exists_of_put_eq_ok {r : Forwarder × List Delivery} (h : f.put o = .ok r) :
    f.closed = false ∧ ∃ d, o.digest = .ok d ∧ r = f.receive o d := by
  obtain ⟨hopen, hrest⟩ := whenOpen_eq_ok_iff.1 h
  obtain ⟨d, hdigest, -⟩ := bind_eq_ok_iff.1 hrest
  have hd : o.digest = .ok d := mapError_eq_ok_iff.1 hdigest
  exact ⟨hopen, d, hd, Except.ok.inj (h.symm.trans (put_eq_ok hopen hd))⟩

/-- What is handed out of an object that arrives does not depend on whether it is stored. -/
@[simp] theorem receive_snd (o : ContentObject) (d : Digest) (f : Forwarder) :
    (f.receive o d).2 = f.deliveriesOf o := by
  rw [receive]
  split
  · next h =>
    rw [Bool.and_eq_true, List.isEmpty_iff] at h
    exact h.1.symm
  · rfl

/-! ## Gets -/

/-- An open forwarder after a get has started, with how it started and what is handed out. -/
def start (i : Interest) (wait : Bool) (f : Forwarder) : GetStart × Forwarder × List Delivery :=
  match f.store.lookup i with
  | (some o, store) => (.found o, { f with store }, [])
  | (none, _) =>
    if wait then
      (.waiting f.nextId,
        { f with pending := f.pending ++ [⟨f.nextId, i, none⟩], nextId := f.nextId + 1 },
        f.dispatch i)
    else (.absent, f, [])

/-- A get that begins changes no filter. -/
@[simp] theorem start_filters (i : Interest) (wait : Bool) (f : Forwarder) :
    (f.start i wait).2.1.filters = f.filters := by
  rw [start]
  split
  · rfl
  · split <;> rfl

/-- A get whose interest keeps the rule starts at an open forwarder. -/
theorem beginGet_eq_ok (hopen : f.closed = false) (hi : i.Valid) (wait : Bool) :
    f.beginGet i wait = .ok (f.start i wait) := by
  rw [beginGet, ensureOpen_eq_ok_iff.2 hopen, show i.validate = .ok () from hi, start]
  simp only [mapError_ok, bind, Except.bind, pure, Except.pure]
  cases f.store.lookup i with
  | mk found store =>
    cases found with
    | none => cases wait <;> rfl
    | some o => rfl

/-- A get starts only at an open forwarder, and only with an interest that keeps the rule. -/
theorem exists_of_beginGet_eq_ok {wait : Bool} {r : GetStart × Forwarder × List Delivery}
    (h : f.beginGet i wait = .ok r) : f.closed = false ∧ i.Valid ∧ r = f.start i wait := by
  obtain ⟨hopen, hrest⟩ := whenOpen_eq_ok_iff.1 h
  obtain ⟨_, hvalidate, -⟩ := bind_eq_ok_iff.1 hrest
  have hi : i.Valid := mapError_eq_ok_iff.1 hvalidate
  exact ⟨hopen, hi, Except.ok.inj (h.symm.trans (beginGet_eq_ok hopen hi wait))⟩

/-! ## Waiting gets -/

/-- What a step other than the shutdown keeps: the forwarder stays open or shut, a waiting get is an
earlier one or has a new number. -/
structure Advances (f f' : Forwarder) : Prop where
  closed : f'.closed = f.closed
  nextId : f.nextId ≤ f'.nextId
  pending : ∀ p ∈ f'.pending,
    (∃ q ∈ f.pending, p.Continues q) ∨ f.nextId ≤ p.id ∧ p.id < f'.nextId

namespace Advances

/-- A step after which the gets that wait are among those before. -/
theorem of_subset {f' : Forwarder} (hclosed : f'.closed = f.closed) (hid : f'.nextId = f.nextId)
    (hpending : ∀ p ∈ f'.pending, p ∈ f.pending) : f.Advances f' where
  closed := hclosed
  nextId := Nat.le_of_eq hid.symm
  pending p hp := .inl ⟨p, hpending p hp, .refl p⟩

/-- A forwarder that stays has advanced. -/
theorem refl (f : Forwarder) : f.Advances f := of_subset rfl rfl fun _ h => h

/-- One step after another: a get that is new in the first has a new number after both. -/
theorem trans {f'' : Forwarder} (h : f.Advances f') (h' : f'.Advances f'') : f.Advances f'' where
  closed := h'.closed.trans h.closed
  nextId := Nat.le_trans h.nextId h'.nextId
  pending p hp := by
    rcases h'.pending p hp with ⟨q, hq, hcontinues⟩ | ⟨hle, hlt⟩
    · rcases h.pending q hq with ⟨r, hr, hearlier⟩ | ⟨hle, hlt⟩
      · exact .inl ⟨r, hr, hcontinues.trans hearlier⟩
      · rw [← hcontinues.1] at hle hlt
        exact .inr ⟨hle, Nat.lt_of_lt_of_le hlt h'.nextId⟩
    · exact .inr ⟨Nat.le_trans h.nextId hle, hlt⟩

end Advances

/-- An object that arrives answers gets that wait and ends none. -/
theorem advances_receive (o : ContentObject) (d : Digest) (f : Forwarder) :
    f.Advances (f.receive o d).1 := by
  rw [receive]
  split
  · exact .refl f
  · refine ⟨rfl, Nat.le_refl _, fun p hp => .inl ?_⟩
    obtain ⟨q, hq, rfl⟩ := List.mem_map.1 hp
    refine ⟨q, hq, ?_⟩
    split
    · exact ⟨rfl, rfl, fun h => absurd h (by simp)⟩
    · exact .refl q

/-- A get that begins is given the next number. -/
theorem advances_start (i : Interest) (wait : Bool) (f : Forwarder) :
    f.Advances (f.start i wait).2.1 := by
  rw [start]
  split
  · exact .of_subset rfl rfl fun _ h => h
  · split
    · refine ⟨rfl, Nat.le_succ _, fun p hp => ?_⟩
      rcases List.mem_append.1 hp with hp | hp
      · exact .inl ⟨p, hp, .refl p⟩
      · rw [List.mem_singleton.1 hp]
        exact .inr ⟨Nat.le_refl _, Nat.lt_succ_self _⟩
    · exact .refl f

/-- A get that leaves takes no other along. -/
theorem advances_forget (id : Nat) (f : Forwarder) : f.Advances (f.forget id) :=
  .of_subset rfl rfl fun _ h => (List.mem_filter.1 h).1

/-- A get that is woken leaves if it has a result. -/
theorem advances_wake (id : Nat) (f : Forwarder) : f.Advances (f.wake id).2 := by
  rw [wake]
  split
  · exact advances_forget id f
  · split
    · exact advances_forget id f
    · exact .refl f

/-- A get that has no result when it looks for one leaves the forwarder as it is. -/
theorem wake_of_fst_eq_none {id : Nat} (h : (f.wake id).1 = none) : (f.wake id).2 = f := by
  rw [wake] at h ⊢
  split at h
  · exact absurd h (by simp)
  · split at h
    · exact absurd h (by simp)
    · next h' => simp [h']

/-- A get whose deadline comes leaves. -/
theorem advances_expire (id : Nat) (f : Forwarder) : f.Advances (f.expire id).2 := by
  have hwake := advances_wake id f
  rw [expire]
  split
  · next h => rwa [h] at hwake
  · next h => rwa [h] at hwake
  · next h =>
    -- there was no result, and giving up takes the get away
    have hsame : (f.wake id).2 = f := wake_of_fst_eq_none (by rw [h])
    rw [h] at hsame
    rw [← hsame] at hwake ⊢
    exact advances_forget id _

/-- **An object that arrives answers every waiting get that it matches.** -/
theorem answered_receive {d : Digest} {p : PendingGet} (hp : p ∈ (f.receive o d).1.pending)
    (hnone : p.answer = none) : p.interest.accepts o = false := by
  -- a get without an answer wants just what its interest accepts
  have unwanted : ∀ q : PendingGet, q.answer = none → q.wants o = false →
      q.interest.accepts o = false := by
    intro q hq hwants
    simpa [PendingGet.wants, hq] using hwants
  rw [receive] at hp
  split at hp
  · next h =>
    rw [Bool.and_eq_true, Bool.not_eq_true', List.any_eq_false] at h
    -- the object was dropped, as no get wanted it
    exact unwanted p hnone (by simpa using h.2 p hp)
  · obtain ⟨q, hq, rfl⟩ := List.mem_map.1 hp
    by_cases hwants : q.wants o = true
    · simp [hwants] at hnone
    · rw [if_neg hwants] at hnone ⊢
      exact unwanted q hnone (by simpa using hwants)

/-! ## Registrations -/

/-- A filter is set once, at an open forwarder. -/
theorem setFilter_eq_ok_iff : f.setFilter g = .ok f' ↔ f.closed = false
    ∧ { f with filters := if g ∈ f.filters then f.filters else f.filters ++ [g] } = f' := by
  rw [setFilter, whenOpen_eq_ok_iff]
  refine and_congr_right fun _ => ?_
  split <;> exact ⟨Except.ok.inj, congrArg Except.ok⟩

/-- Taking a filter away succeeds unless the forwarder is shut down. -/
theorem cancelFilter_eq_ok_iff : f.cancelFilter g = .ok f' ↔ f.closed = false
    ∧ { f with filters := f.filters.filter (· ≠ g) } = f' := by
  rw [cancelFilter, whenOpen_eq_ok_iff]
  exact and_congr_right fun _ => ⟨Except.ok.inj, congrArg Except.ok⟩

/-- Taking a standing interest back succeeds unless the forwarder is shut down. -/
theorem cancelInterest_eq_ok_iff : f.cancelInterest s = .ok f' ↔ f.closed = false
    ∧ { f with standing := f.standing.filter (· ≠ s) } = f' := by
  rw [cancelInterest, whenOpen_eq_ok_iff]
  exact and_congr_right fun _ => ⟨Except.ok.inj, congrArg Except.ok⟩

/-- **A standing interest is expressed** once: it is there already, or it is new, and is passed on
with what the store has for it. -/
theorem express_cases {r : Forwarder × List Delivery} (h : f.express s = .ok r) :
    s ∈ f.standing ∧ r = (f, [])
      ∨ s ∉ f.standing ∧ ∃ (hit : Option ContentObject) (store : ContentStore),
        f.store.lookup s.interest = (hit, store)
          ∧ r = ({ f with standing := f.standing ++ [s], store },
            (hit.map fun o => Delivery.object s.listener o).toList ++ f.dispatch s.interest) := by
  obtain ⟨-, hrest⟩ := whenOpen_eq_ok_iff.1 h
  obtain ⟨-, -, hexpress⟩ := bind_eq_ok_iff.1 hrest
  split at hexpress
  · next hmem => exact .inl ⟨hmem, (Except.ok.inj hexpress).symm⟩
  · next hnew => exact .inr ⟨hnew, _, _, rfl, (Except.ok.inj hexpress).symm⟩

/-- A filter is set at an open forwarder, and all others stay. -/
theorem exists_setFilter_eq_ok (hopen : f.closed = false) (g : InterestFilter) :
    ∃ filters, f.setFilter g = .ok { f with filters } ∧ g ∈ filters
      ∧ ∀ g' ∈ f.filters, g' ∈ filters := by
  refine ⟨_, setFilter_eq_ok_iff.2 ⟨hopen, rfl⟩, ?_⟩
  split
  · next hg => exact ⟨hg, fun _ h => h⟩
  · exact ⟨by simp, fun _ h => List.mem_append_left _ h⟩

/-- Setting a filter touches no get. -/
theorem advances_setFilter (h : f.setFilter g = .ok f') : f.Advances f' := by
  obtain ⟨-, rfl⟩ := setFilter_eq_ok_iff.1 h
  exact .of_subset rfl rfl fun _ hp => hp

/-- Taking a filter away touches no get. -/
theorem advances_cancelFilter (h : f.cancelFilter g = .ok f') : f.Advances f' := by
  obtain ⟨-, rfl⟩ := cancelFilter_eq_ok_iff.1 h
  exact .of_subset rfl rfl fun _ hp => hp

/-- A standing interest touches no get. -/
theorem advances_express {r : Forwarder × List Delivery} (h : f.express s = .ok r) :
    f.Advances r.1 := by
  obtain ⟨-, rfl⟩ | ⟨-, hit, store, -, rfl⟩ := express_cases h
  · exact .refl f
  · exact .of_subset rfl rfl fun _ hp => hp

/-- Taking one back touches no get. -/
theorem advances_cancelInterest (h : f.cancelInterest s = .ok f') : f.Advances f' := by
  obtain ⟨-, rfl⟩ := cancelInterest_eq_ok_iff.1 h
  exact .of_subset rfl rfl fun _ hp => hp

end Forwarder

/-! ## With the mail -/

namespace Mail

variable {α : Type}

/-- What one listener takes out of the mail does not concern another. -/
theorem waiting_next_of_ne (m : Mail α) {k l : ListenerId} (h : k ≠ l) :
    (m.next k).2.waiting l = m.waiting l := by
  induction m with
  | nil => rfl
  | cons entry rest ih =>
    obtain ⟨j, item⟩ := entry
    rw [next]
    split
    · next hj =>
      -- the item taken is for another listener
      have hjl : j ≠ l := hj ▸ h
      simp [waiting, hjl]
    · have : waiting ((j, item) :: (next rest k).2) l = waiting ((j, item) :: rest) l := by
        by_cases hjl : j = l
        · simpa [waiting, hjl] using ih
        · simpa [waiting, hjl] using ih
      simpa using this

/-- What one listener takes away does not concern another. -/
theorem waiting_drained_of_ne (m : Mail α) {k l : ListenerId} (h : l ≠ k) :
    (m.drained k).waiting l = m.waiting l := by
  rw [waiting, drained, List.filter_filter, waiting]
  congr 1
  refine List.filter_congr fun entry _ => ?_
  by_cases hl : entry.1 = l
  · simp [hl, h]
  · simp [hl]

/-- The first item for a listener is what waits for it first, and the rest waits on. -/
theorem next_eq (m : Mail α) (l : ListenerId) :
    (m.next l).1 = (m.waiting l).head? ∧ (m.next l).2.waiting l = (m.waiting l).tail := by
  induction m with
  | nil => exact ⟨rfl, rfl⟩
  | cons entry rest ih =>
    obtain ⟨j, item⟩ := entry
    rw [next]
    split
    · next hj => simp [waiting, hj]
    · next hj =>
      have hwaiting : waiting ((j, item) :: rest) l = waiting rest l := by simp [waiting, hj]
      have hskip : waiting ((j, item) :: (next rest l).2) l = waiting (next rest l).2 l := by
        simp [waiting, hj]
      rw [hwaiting]
      exact ⟨ih.1, hskip.trans ih.2⟩

/-- A listener for which nothing waits takes nothing. -/
theorem drained_eq_self {m : Mail α} {l : ListenerId} (h : m.waiting l = []) : m.drained l = m := by
  refine List.filter_eq_self.2 fun entry hentry => ?_
  have hnone := List.filter_eq_nil_iff.1 (List.map_eq_nil_iff.1 h) entry hentry
  simpa using hnone

/-- A listener that takes its first item can take all others after it. -/
theorem drained_next (m : Mail α) (l : ListenerId) : (m.next l).2.drained l = m.drained l := by
  induction m with
  | nil => rfl
  | cons entry rest ih =>
    obtain ⟨k, item⟩ := entry
    rw [next]
    split
    · next hk => simp [drained, hk]
    · next hk =>
      rw [drained] at ih ⊢
      simpa [drained, hk] using ih

end Mail

/-- The interest that a delivery brings to a listener, if it does. -/
def Delivery.interestFor (l : ListenerId) : Delivery → Option Interest
  | .interest k i => if k = l then some i else none
  | .object _ _ => none

/-- What is dispatched for an interest is that interest. -/
theorem Forwarder.eq_of_mem_dispatch {f : Forwarder} {i j : Interest} {l : ListenerId}
    (h : j ∈ (f.dispatch i).filterMap (Delivery.interestFor l)) : j = i := by
  obtain ⟨d, hd, hj⟩ := List.mem_filterMap.1 h
  obtain ⟨g, -, rfl⟩ := List.mem_map.1 hd
  rw [Delivery.interestFor] at hj
  split at hj
  · exact (Option.some.inj hj).symm
  · exact absurd hj (by simp)

namespace Network

variable {n : Network} {l : ListenerId}

/-- Deliveries do not touch the forwarder. -/
@[simp] theorem after_forwarder (n : Network) (f : Forwarder) (deliveries : List Delivery) :
    (n.after f deliveries).forwarder = f := by
  have hpost : ∀ (ds : List Delivery) (m : Network),
      (ds.foldl post m).forwarder = m.forwarder := by
    intro ds
    induction ds with
    | nil => exact fun m => rfl
    | cons d ds ih =>
      intro m
      rw [List.foldl_cons, ih]
      cases d <;> rfl
  exact hpost deliveries _

/-- Each delivery is put behind what waits, so all of them come behind it in their order. -/
theorem foldl_post {α : Type} {waiting : Network → List α} {brings : Delivery → Option α}
    (hpost : ∀ m d, waiting (post m d) = waiting m ++ (brings d).toList) (ds : List Delivery)
    (m : Network) : waiting (ds.foldl post m) = waiting m ++ ds.filterMap brings := by
  induction ds generalizing m with
  | nil => exact (List.append_nil _).symm
  | cons d ds ih =>
    rw [List.foldl_cons, ih, hpost, List.append_assoc]
    cases hd : brings d <;> simp [hd]

/-- Interests come behind what waits already. -/
theorem waiting_after (n : Network) (f : Forwarder) (deliveries : List Delivery)
    (l : ListenerId) :
    (n.after f deliveries).interests.waiting l
      = n.interests.waiting l ++ deliveries.filterMap (Delivery.interestFor l) := by
  refine @foldl_post _ (·.interests.waiting l) _ (fun m d => ?_) deliveries _
  cases d with
  | object k o => exact (List.append_nil _).symm
  | interest k i =>
    by_cases hk : k = l
    · subst hk
      simp [post, Delivery.interestFor]
    · simp [post, Delivery.interestFor, hk, Mail.waiting_deliver_of_ne]

/-- What a step keeps for the waiting gets and for a listener: its interests wait on in their order,
and others come behind them. -/
structure Advances (l : ListenerId) (n n' : Network) : Prop where
  forwarder : n.forwarder.Advances n'.forwarder
  waiting : n.interests.waiting l <+: n'.interests.waiting l

/-- A network that stays has advanced. -/
theorem Advances.refl (l : ListenerId) (n : Network) : Advances l n n :=
  ⟨.refl _, List.prefix_rfl⟩

/-- Deliveries add to the mail. -/
theorem advances_after {f : Forwarder} (h : n.forwarder.Advances f)
    (deliveries : List Delivery) : Advances l n (n.after f deliveries) := by
  refine ⟨?_, ?_⟩
  · rwa [after_forwarder]
  · rw [waiting_after]
    exact List.prefix_append _ _

/-- An object that has a digest arrives at the open forwarder of a network. -/
theorem put_eq_ok (hopen : n.forwarder.closed = false) {o : ContentObject} {d : Digest}
    (hd : o.digest = .ok d) :
    put o n = (.ok (), n.after (n.forwarder.receive o d).1 (n.forwarder.receive o d).2) := by
  rw [put, Forwarder.put_eq_ok hopen hd]

/-- An object that arrives does not touch the interests in the mail. -/
theorem put_setInterests (o : ContentObject) (n : Network) (interests : Mail Interest) :
    (put o { n with interests }).2 = { (put o n).2 with interests } := by
  have hpost : ∀ (ss : List StandingInterest) (m : Network),
      (ss.map fun s => Delivery.object s.listener o).foldl post { m with interests }
        = { (ss.map fun s => Delivery.object s.listener o).foldl post m with interests } := by
    intro ss
    induction ss with
    | nil => exact fun _ => rfl
    | cons s ss ih => exact fun m => ih (m.post (.object s.listener o))
  rw [put, put]
  cases h : n.forwarder.put o with
  | error e => rfl
  | ok r =>
    obtain ⟨-, d, -, rfl⟩ := Forwarder.exists_of_put_eq_ok h
    simp only [after, Forwarder.receive_snd]
    exact hpost (n.forwarder.standing.filter (·.interest.accepts o))
      { n with forwarder := (n.forwarder.receive o d).1 }

/-- An object that arrives brings no interests. -/
theorem put_interests (o : ContentObject) (n : Network) : (put o n).2.interests = n.interests :=
  show (put o { n with interests := n.interests }).2.interests = _ by rw [put_setInterests]

/-- A step that changes the forwarder alone. -/
theorem advances_step {change : Forwarder → Except TransportError Forwarder}
    (h : ∀ f, change n.forwarder = .ok f → n.forwarder.Advances f) :
    Advances l n (step change n).2 := by
  rw [step]
  split
  · next f hf => exact ⟨h f hf, List.prefix_rfl⟩
  · exact .refl l n

/-- A put advances the network. -/
theorem advances_put (o : ContentObject) : Advances l n (put o n).2 := by
  rw [put]
  split
  · next f deliveries h =>
    obtain ⟨-, d, -, hr⟩ := Forwarder.exists_of_put_eq_ok h
    have := Forwarder.advances_receive o d n.forwarder
    rw [← hr] at this
    exact advances_after this _
  · exact .refl l n

/-- A get that begins advances the network. -/
theorem advances_beginGet (i : Interest) (wait : Bool) : Advances l n (beginGet i wait n).2 := by
  rw [beginGet]
  split
  · next start f deliveries h =>
    obtain ⟨-, -, hr⟩ := Forwarder.exists_of_beginGet_eq_ok h
    have := Forwarder.advances_start i wait n.forwarder
    rw [← hr] at this
    exact advances_after this _
  · exact .refl l n

/-- A get whose interest breaks the rule does not start. -/
theorem beginGet_of_not_valid {i : Interest} (hi : ¬ i.Valid) (wait : Bool) :
    ∃ e, beginGet i wait n = (.error e, n) := by
  rw [beginGet]
  split
  · next h => exact absurd (Forwarder.exists_of_beginGet_eq_ok h).2.1 hi
  · exact ⟨_, rfl⟩

/-- A standing interest advances the network. -/
theorem advances_express (s : StandingInterest) : Advances l n (express s n).2 := by
  rw [express]
  split
  · next f deliveries h => exact advances_after (Forwarder.advances_express h) _
  · exact .refl l n

/-- An answer tells of an action, and the network is as the action leaves it. -/
theorem ofAction_snd {α : Type} (value : α → NetworkReply)
    (x : Action Network TransportError α) (n : Network) :
    (NetworkReply.ofAction value x n).2 = (x n).2 := by
  rw [NetworkReply.ofAction]
  rcases x n with ⟨_ | _, _⟩ <;> rfl

end Network

/-- Whether a step leaves the forwarder open and the interests of a listener to that listener. -/
def NetworkStep.Spares (l : ListenerId) : NetworkStep → Prop
  | .close => False
  | .takeInterest k => k ≠ l
  | _ => True

namespace Network

variable {n : Network} {l : ListenerId}

/-- **What every step keeps** that neither shuts the forwarder down nor takes the listener's
interests. -/
theorem advances_take (n : Network) {step : NetworkStep} (h : step.Spares l) :
    Advances l n (n.take step).2 := by
  cases step with
  | put o => exact ofAction_snd _ _ n ▸ advances_put o
  | beginGet i wait => exact ofAction_snd _ _ n ▸ advances_beginGet i wait
  | wake id =>
    have hwake : Advances l n (n.wake id).2 := ⟨Forwarder.advances_wake id _, List.prefix_rfl⟩
    rw [take]
    split <;> next heq => rwa [heq] at hwake
  | expire id =>
    rw [take, ofAction_snd]
    exact ⟨Forwarder.advances_expire id _, List.prefix_rfl⟩
  | close => exact h.elim
  | setFilter g =>
    rw [take, ofAction_snd]
    exact advances_step fun _ => Forwarder.advances_setFilter
  | cancelFilter g =>
    rw [take, ofAction_snd]
    exact advances_step fun _ => Forwarder.advances_cancelFilter
  | express s => exact ofAction_snd _ _ n ▸ advances_express s
  | cancelInterest s =>
    rw [take, ofAction_snd]
    exact advances_step fun _ => Forwarder.advances_cancelInterest
  | takeInterest k =>
    rw [take, ofAction_snd]
    -- another listener takes its own interests
    have hwaiting : (n.interests.next k).2.waiting l = n.interests.waiting l :=
      Mail.waiting_next_of_ne _ h
    exact ⟨.refl _, hwaiting ▸ List.prefix_rfl⟩
  | takeObject k =>
    rw [take, ofAction_snd]
    exact ⟨.refl _, List.prefix_rfl⟩

end Network

end NamedContent
