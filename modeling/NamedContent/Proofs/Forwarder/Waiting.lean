import Mathlib.Data.List.Induction
import Mathlib.Data.List.Nodup
import NamedContent.Proofs.Forwarder.Turns
import NamedContent.Proofs.Keyed

/-! # Gets that wait

However applications take turns, a get that waits gets the first object that it matches of those
accepted since it began to wait, also when the forwarder has been shut down or the deadline has
passed by the time it looks. The forwarder's table holds the gets that wait and no others, each
with that object.

* `Waits`: by the history, a get still waits
* `Forwarder.Tracks`: the table agrees with the history
* `WellAnswered`: every get that looked for its result learned what it should
* `Forwarder.Later`: what becomes of the table
* `Forwarder.takeAnswer`: an answer taken in place
* `blocked_gets`: the main theorem -/

namespace NamedContent

variable {h : List Event} {e : Event} {id : Nat} {i : Interest} {seen : List ContentObject}

/-! ## By the history -/

/-- The gets that have begun to wait, with their numbers. -/
def begun (h : List Event) : List (Nat × Interest) := h.filterMap Event.begun?

/-- The gets begun in two parts of a history. -/
@[simp] theorem begun_append (h h' : List Event) : begun (h ++ h') = begun h ++ begun h' :=
  List.filterMap_append

/-- The get begun in one event. -/
@[simp] theorem begun_singleton (e : Event) : begun [e] = e.begun?.toList := by
  rw [begun, List.filterMap_cons]
  cases e.begun? <;> rfl

/-- Whether a get has begun to wait under a number and not returned since, while some objects have
been accepted. -/
def Waits (h : List Event) (id : Nat) (i : Interest) (seen : List ContentObject) : Prop :=
  ∃ before e during, h = before ++ e :: during ∧ e.begun? = some (id, i)
    ∧ (∀ e' ∈ during, e'.returned? ≠ some id) ∧ seen = accepted during

/-- A get that waits has begun. -/
theorem Waits.mem_begun (hw : Waits h id i seen) : (id, i) ∈ begun h := by
  obtain ⟨before, e, during, rfl, he, -, -⟩ := hw
  exact List.mem_filterMap.2 ⟨e, by simp, he⟩

/-- One more event: a get begins to wait, or one that waits does not return. -/
theorem waits_concat : Waits (h ++ [e]) id i seen ↔
    e.begun? = some (id, i) ∧ seen = []
      ∨ e.returned? ≠ some id ∧ ∃ seen', Waits h id i seen' ∧ seen = seen' ++ accepted [e] := by
  constructor
  · rintro ⟨before, e', during, heq, he', hduring, rfl⟩
    obtain ⟨-, rfl, rfl⟩ | ⟨during, rfl, rfl⟩ := split_concat heq
    · exact .inl ⟨he', rfl⟩
    · exact .inr ⟨hduring e (by simp), accepted during,
        ⟨before, e', during, rfl, he', fun d hd => hduring d (by simp [hd]), rfl⟩, by simp⟩
  · rintro (⟨he, rfl⟩ | ⟨hreturned, seen', ⟨before, e', during, rfl, he', hduring, rfl⟩, rfl⟩)
    · exact ⟨h, e, [], rfl, he, by simp, rfl⟩
    · refine ⟨before, e', during ++ [e], by simp, he', fun d hd => ?_, by simp⟩
      rcases List.mem_append.1 hd with hd | hd
      · exact hduring d hd
      · rwa [List.mem_singleton.1 hd]

/-! ## The table -/

namespace Forwarder

variable {f f' : Forwarder}

/-- A get whose number is its own is found by it. -/
theorem answer?_of_mem (hdistinct : (f.pending.map (·.id)).Nodup) {p : PendingGet}
    (hp : p ∈ f.pending) : f.answer? p.id = p.answer := by
  rw [answer?, find?_key hdistinct hp, Option.bind_some]

/-- A waiting get when an object arrives. -/
def answered (o : ContentObject) (p : PendingGet) : PendingGet :=
  if p.wants o then { p with answer := some o } else p

/-- A get that is answered keeps its number. -/
@[simp] theorem answered_id (o : ContentObject) (p : PendingGet) : (answered o p).id = p.id := by
  rw [answered]
  split <;> rfl

/-- A get that has the first object that it matches still does when one more object arrives. -/
theorem answered_find? (o : ContentObject) (id : Nat) (i : Interest) (seen : List ContentObject) :
    answered o ⟨id, i, seen.find? (i.accepts ·)⟩
      = ⟨id, i, (seen ++ [o]).find? (i.accepts ·)⟩ := by
  rw [answered, PendingGet.wants, List.find?_append]
  cases seen.find? (i.accepts ·) with
  | some first => rfl
  | none => cases ho : i.accepts o <;> simp [ho]

/-- What becomes of the waiting gets when an object arrives. -/
theorem pending_receive (o : ContentObject) (d : Digest) (f : Forwarder) :
    (f.receive o d).1.pending = f.pending.map (answered o) := by
  rw [receive]
  split
  · next hdrop =>
    rw [Bool.and_eq_true, Bool.not_eq_true', List.any_eq_false] at hdrop
    -- the object was dropped, as no get wanted it
    have hsame : ∀ p ∈ f.pending, answered o p = p := fun p hp => if_neg (hdrop.2 p hp)
    rw [List.map_congr_left hsame, List.map_id']
  · rfl

/-- An object that arrives gives out no number. -/
theorem nextId_receive (o : ContentObject) (d : Digest) (f : Forwarder) :
    (f.receive o d).1.nextId = f.nextId := by
  rw [receive]
  split <;> rfl

/-- Whether the table of waiting gets is what the history says: each that waits is there, with the
first object that it matches of those accepted since it began. -/
structure Tracks (h : List Event) (f : Forwarder) : Prop where
  /-- The gets that began to wait were numbered in order. -/
  numbers : (begun h).map (·.1) = List.range f.nextId
  /-- No number is in the table twice. -/
  distinct : (f.pending.map (·.id)).Nodup
  /-- The table holds the gets that wait. -/
  table : ∀ id i answer, ⟨id, i, answer⟩ ∈ f.pending
    ↔ ∃ seen, Waits h id i seen ∧ answer = seen.find? (i.accepts ·)

/-- At a new forwarder nothing has happened and no get waits. -/
theorem tracks_new (capacity : Nat) : Tracks [] (new capacity) where
  numbers := rfl
  distinct := .nil
  table id i answer := by simp [new, Waits]

namespace Tracks

/-- A get that waits has a number that has been given away. -/
theorem lt_nextId (ht : Tracks h f) {p : PendingGet} (hp : p ∈ f.pending) : p.id < f.nextId := by
  obtain ⟨seen, hw, -⟩ := (ht.table p.id p.interest p.answer).1 hp
  rw [← List.mem_range, ← ht.numbers]
  exact List.mem_map_of_mem hw.mem_begun

/-- Nothing happens to the waiting gets. -/
theorem quiet (ht : Tracks h f) (hbegun : e.begun? = none) (hreturned : e.returned? = none)
    (haccepted : e.accepted? = none) (hpending : f'.pending = f.pending)
    (hnextId : f'.nextId = f.nextId) : Tracks (h ++ [e]) f' where
  numbers := by
    rw [hnextId]
    simpa [hbegun] using ht.numbers
  distinct := hpending ▸ ht.distinct
  table id i answer := by
    simp [hpending, ht.table, waits_concat, hbegun, hreturned, haccepted]

/-- Only the order of the waiting gets changes. -/
theorem reorder (ht : Tracks h f) {table : List PendingGet} (hperm : table.Perm f.pending) :
    Tracks h { f with pending := table } where
  numbers := ht.numbers
  distinct := (hperm.map _).nodup_iff.2 ht.distinct
  table id i answer := hperm.mem_iff.trans (ht.table id i answer)

/-- An object is accepted. -/
theorem receive (ht : Tracks h f) (o : ContentObject) (d : Digest) :
    Tracks (h ++ [⟨.put o, .done⟩]) (f.receive o d).1 where
  numbers := by
    rw [nextId_receive]
    simpa [Event.begun?] using ht.numbers
  distinct := by
    rw [pending_receive, List.map_map]
    simpa [Function.comp_def] using ht.distinct
  table id i answer := by
    -- every get that waits has seen one object more
    have hwaits : ∀ seen, Waits (h ++ [⟨.put o, .done⟩]) id i seen
        ↔ ∃ seen', Waits h id i seen' ∧ seen = seen' ++ [o] := fun seen => by
      simp [waits_concat, Event.begun?, Event.returned?, Event.accepted?]
    rw [pending_receive]
    constructor
    · intro hmem
      obtain ⟨⟨id', i', answer'⟩, hp, hnew⟩ := List.mem_map.1 hmem
      obtain ⟨seen, hw, rfl⟩ := (ht.table _ _ _).1 hp
      rw [answered_find?] at hnew
      cases hnew
      exact ⟨seen ++ [o], (hwaits _).2 ⟨seen, hw, rfl⟩, rfl⟩
    · rintro ⟨seen, hw, rfl⟩
      obtain ⟨seen', hw', rfl⟩ := (hwaits seen).1 hw
      rw [← answered_find?]
      exact List.mem_map_of_mem ((ht.table _ _ _).2 ⟨seen', hw', rfl⟩)

/-- A get begins to wait. -/
theorem begins (ht : Tracks h f) (i : Interest) (wait : Bool) :
    Tracks (h ++ [⟨.beginGet i wait, .started (.waiting f.nextId)⟩])
      { f with pending := f.pending ++ [⟨f.nextId, i, none⟩], nextId := f.nextId + 1 } where
  numbers := by
    rw [begun_append, List.map_append, ht.numbers, List.range_succ]
    rfl
  distinct := by
    -- the numbers in use are smaller than the next one
    have hnew : ∀ p ∈ f.pending, p.id ≠ f.nextId := fun p hp => Nat.ne_of_lt (ht.lt_nextId hp)
    rw [List.map_append]
    refine List.nodup_append.2 ⟨ht.distinct, by simp, fun a ha b hb => ?_⟩
    obtain ⟨p, hp, rfl⟩ := List.mem_map.1 ha
    obtain rfl : b = f.nextId := by simpa using hb
    exact hnew p hp
  table id j answer := by
    rw [List.mem_append, ht.table, List.mem_singleton]
    -- what has been accepted before is not seen by the new get
    have hwaits : ∀ seen, Waits (h ++ [⟨.beginGet i wait, .started (.waiting f.nextId)⟩]) id j seen
        ↔ (f.nextId = id ∧ i = j) ∧ seen = [] ∨ Waits h id j seen := by
      intro seen
      simp [waits_concat, Event.begun?, Event.returned?, Event.accepted?]
    constructor
    · rintro (⟨seen, hw, rfl⟩ | hnew)
      · exact ⟨seen, (hwaits seen).2 (.inr hw), rfl⟩
      · cases hnew
        exact ⟨[], (hwaits []).2 (.inl ⟨⟨rfl, rfl⟩, rfl⟩), rfl⟩
    · rintro ⟨seen, hw, rfl⟩
      obtain ⟨⟨rfl, rfl⟩, rfl⟩ | hw := (hwaits seen).1 hw
      · exact .inr rfl
      · exact .inl ⟨seen, hw, rfl⟩

/-- A get returns. -/
theorem returned (ht : Tracks h f) (hbegun : e.begun? = none) (hreturned : e.returned? = some id)
    (haccepted : e.accepted? = none) : Tracks (h ++ [e]) (f.forget id) where
  numbers := by simpa [hbegun, forget] using ht.numbers
  distinct := ht.distinct.sublist (List.Sublist.map _ List.filter_sublist)
  table k i answer := by
    have hwaits : ∀ seen, Waits (h ++ [e]) k i seen ↔ k ≠ id ∧ Waits h k i seen := by
      intro seen
      simp [waits_concat, hbegun, hreturned, haccepted, eq_comm]
    rw [forget, List.mem_filter, ht.table, decide_eq_true_iff]
    constructor
    · rintro ⟨⟨seen, hw, hanswer⟩, hk⟩
      exact ⟨seen, (hwaits seen).2 ⟨hk, hw⟩, hanswer⟩
    · rintro ⟨seen, hw, hanswer⟩
      obtain ⟨hk, hw⟩ := (hwaits seen).1 hw
      exact ⟨⟨seen, hw, hanswer⟩, hk⟩

/-- Whatever a step does, the table follows the history. -/
theorem does {step : NetworkStep} {reply : NetworkReply} {handed : List Delivery}
    (ht : Tracks h f) (hdoes : f.Does step reply handed f') : Tracks (h ++ [⟨step, reply⟩]) f' := by
  cases hdoes with
  | @accepts o d => exact ht.receive o d
  | refuses hstep => cases step <;> cases hstep <;> exact ht.quiet rfl rfl rfl rfl rfl
  | finds => exact ht.quiet rfl rfl rfl rfl rfl
  | lacks => exact ht.quiet rfl rfl rfl rfl rfl
  | @begins i wait => exact ht.begins i wait
  | answers hlook => cases step <;> cases hlook <;> exact ht.returned rfl rfl rfl
  | fails hlook => cases step <;> cases hlook <;> exact ht.returned rfl rfl rfl
  | stays => exact ht.quiet rfl rfl rfl rfl rfl
  | givesUp => exact ht.returned rfl rfl rfl
  | closes => exact ht.quiet rfl rfl rfl rfl rfl
  | filters hstep => cases step <;> cases hstep <;> exact ht.quiet rfl rfl rfl rfl rfl
  | expresses => exact ht.quiet rfl rfl rfl rfl rfl
  | repeats => exact ht.quiet rfl rfl rfl rfl rfl
  | cancels => exact ht.quiet rfl rfl rfl rfl rfl
  | collects hstep => cases step <;> cases hstep <;> exact ht.quiet rfl rfl rfl rfl rfl

end Tracks

end Forwarder

/-- **After all turns** the gets that wait are those of the history. By induction on the turns. -/
theorem Network.tracks (capacity : Nat) (turns : List Turn) :
    Forwarder.Tracks (history turns (.new capacity))
      (interleave turns (.new capacity)).forwarder := by
  refine reachable_induction (P := fun seen n => Forwarder.Tracks seen n.forwarder)
    (Forwarder.tracks_new capacity) ?_ turns
  intro seen n t ht
  obtain ⟨table, hperm, hact⟩ | ⟨step, reply, handed, hevents, hdoes, -⟩ := act_cases n t
  · simpa [hact] using ht.reorder hperm
  · rw [hevents]
    exact ht.does hdoes

/-! ## What a get learns -/

/-- What a waiting get learns when it looks for its result: the first of the objects that it
matches, or that the forwarder is shut down, or else to wait on, unless its deadline has passed. -/
def outcome (first : Option ContentObject) (closed : Bool) (step : NetworkStep) : NetworkReply :=
  match first with
  | some o => .ended (some o)
  | none =>
    if closed then .refused .closed
    else match step with
      | .expire _ => .ended none
      | _ => .waiting

/-- Whether every get that looked for its result while it waited learned what it should. -/
def WellAnswered (h : List Event) : Prop :=
  ∀ before e after, h = before ++ e :: after → ∀ id i seen, Waits before id i seen →
    e.step.look? = some id → e.reply = outcome (seen.find? (i.accepts ·)) (shutDown before) e.step

/-- One more event: if it is a get that looks for its result, this is what it learns. -/
theorem wellAnswered_concat : WellAnswered (h ++ [e]) ↔ WellAnswered h ∧
    ∀ id i seen, Waits h id i seen → e.step.look? = some id →
      e.reply = outcome (seen.find? (i.accepts ·)) (shutDown h) e.step := by
  constructor
  · intro hall
    refine ⟨fun before e' after heq => ?_, hall h e [] rfl⟩
    exact hall before e' (after ++ [e]) (by simp [heq])
  · rintro ⟨hall, hlast⟩ before e' after heq
    obtain ⟨rfl, rfl, -⟩ | ⟨after', -, hbefore⟩ := split_concat heq
    · exact hlast
    · exact hall before e' after' hbefore

/-- A waiting get that looks for its result learns what it should. -/
theorem Forwarder.Tracks.reply_eq {f f' : Forwarder} {step : NetworkStep} {reply : NetworkReply}
    {handed : List Delivery} (ht : Tracks h f) (hdoes : f.Does step reply handed f')
    (hw : Waits h id i seen) (hlook : step.look? = some id) :
    reply = outcome (seen.find? (i.accepts ·)) f.closed step := by
  -- the table has the first match of what was accepted since the get began
  have hanswer : f.answer? id = seen.find? (i.accepts ·) :=
    answer?_of_mem ht.distinct ((ht.table id i _).2 ⟨seen, hw, rfl⟩)
  rw [← hanswer]
  cases hdoes with
  | answers hlook' hfound =>
    obtain rfl := Option.some.inj (hlook.symm.trans hlook')
    rw [hfound]
    rfl
  | fails hlook' hnone hclosed =>
    obtain rfl := Option.some.inj (hlook.symm.trans hlook')
    rw [hnone, hclosed]
    rfl
  | stays hnone hopen =>
    obtain rfl := Option.some.inj hlook
    rw [hnone, hopen]
    rfl
  | givesUp hnone hopen =>
    obtain rfl := Option.some.inj hlook
    rw [hnone, hopen]
    rfl
  | refuses hstep | filters hstep | collects hstep => cases step <;> cases hstep <;> cases hlook
  | accepts | finds | lacks | begins | closes | expresses | repeats | cancels => cases hlook

/-- After all turns, every answer that was given is the right one. -/
theorem Network.wellAnswered (capacity : Nat) (turns : List Turn) :
    WellAnswered (history turns (.new capacity)) := by
  induction turns using List.reverseRecOn with
  | nil =>
    intro before e after heq
    simp at heq
  | append_singleton turns t ih =>
    have ht := tracks capacity turns
    have hclosed : (interleave turns (.new capacity)).forwarder.closed
        = shutDown (history turns (.new capacity)) := by
      simpa [new, Forwarder.new] using closed_interleave turns (.new capacity)
    rw [history_append, history_cons, history_nil, List.append_nil]
    obtain ⟨table, hperm, hact⟩ | ⟨step, reply, handed, hevents, hdoes, -⟩ :=
      act_cases (interleave turns (.new capacity)) t
    · simpa [hact] using ih
    · rw [hevents, wellAnswered_concat]
      refine ⟨ih, fun id i seen hw hlook => ?_⟩
      rw [← hclosed]
      exact ht.reply_eq hdoes hw hlook

/-! ## The table later on -/

/-- A get that waits and began to wait some time ago waited then. -/
theorem Waits.of_append {more : List Event} (hdistinct : ((begun (h ++ more)).map (·.1)).Nodup)
    (hid : id ∈ (begun h).map (·.1)) (hw : Waits (h ++ more) id i seen) :
    ∃ seen', Waits h id i seen' ∧ seen = seen' ++ accepted more
      ∧ ∀ e ∈ more, e.returned? ≠ some id := by
  induction more using List.reverseRecOn generalizing seen with
  | nil => exact ⟨seen, by simpa using hw, by simp [accepted], by simp⟩
  | append_singleton more e ih =>
    rw [← List.append_assoc] at hw hdistinct
    rw [begun_append, List.map_append] at hdistinct
    obtain ⟨he, rfl⟩ | ⟨hreturned, seen', hw', rfl⟩ := waits_concat.1 hw
    · -- the get would have begun to wait a second time
      have hbefore : id ∈ (begun (h ++ more)).map (·.1) := by
        rw [begun_append, List.map_append]
        exact List.mem_append_left _ hid
      exact absurd rfl ((List.nodup_append.1 hdistinct).2.2 id hbefore id (by simp [he]))
    · obtain ⟨first, hfirst, rfl, hmore⟩ := ih (List.nodup_append.1 hdistinct).1 hw'
      refine ⟨first, hfirst, by simp, fun e' he' => ?_⟩
      rcases List.mem_append.1 he' with he' | he'
      · exact hmore e' he'
      · rwa [List.mem_singleton.1 he']

/-- A get that waits and does not return waits on. -/
theorem Waits.append {more : List Event} (hw : Waits h id i seen)
    (hmore : ∀ e ∈ more, e.returned? ≠ some id) :
    Waits (h ++ more) id i (seen ++ accepted more) := by
  obtain ⟨before, e, during, rfl, he, hduring, rfl⟩ := hw
  refine ⟨before, e, during ++ more, by simp, he, fun e' he' => ?_, by simp⟩
  exact (List.mem_append.1 he').elim (hduring e') (hmore e')

/-- What becomes of the table of waiting gets while things happen. -/
structure Forwarder.Later (f : Forwarder) (events : List Event) (f' : Forwarder) : Prop where
  /-- An entry stays until its get returns. -/
  stays : ∀ p ∈ f.pending,
    (∃ q ∈ f'.pending, q.id = p.id) ↔ ∀ e ∈ events, e.returned? ≠ some p.id
  /-- A get asks for the same thing as before, and its answer stays when it has one. -/
  keeps : ∀ p ∈ f.pending, ∀ q ∈ f'.pending, q.id = p.id →
    q.interest = p.interest ∧ ∀ o, p.answer = some o → q.answer = some o
  /-- An entry that is gone does not come back. -/
  gone : ∀ q ∈ f'.pending, q.id < f.nextId → ∃ p ∈ f.pending, p.id = q.id

/-- What the events since then have done to a forwarder. -/
theorem Forwarder.Tracks.later {f f' : Forwarder} {events : List Event} (ht : Tracks h f)
    (ht' : Tracks (h ++ events) f') : f.Later events f' := by
  have hdistinct : ((begun (h ++ events)).map (·.1)).Nodup := by
    rw [ht'.numbers]
    exact List.nodup_range
  -- an entry with an earlier number was there, and its get has not returned
  have hearlier : ∀ q ∈ f'.pending, q.id < f.nextId →
      ∃ p ∈ f.pending, p.id = q.id ∧ p.interest = q.interest
        ∧ (∀ o, p.answer = some o → q.answer = some o) ∧ ∀ e ∈ events, e.returned? ≠ some q.id := by
    intro q hq hlt
    obtain ⟨seen, hw, hanswer⟩ := (ht'.table q.id q.interest q.answer).1 hq
    have hid : q.id ∈ (begun h).map (·.1) := by
      rw [ht.numbers]
      exact List.mem_range.2 hlt
    obtain ⟨seen', hw', rfl, hevents⟩ := hw.of_append hdistinct hid
    refine ⟨_, (ht.table _ _ _).2 ⟨seen', hw', rfl⟩, rfl, rfl, fun o ho => ?_, hevents⟩
    have hfirst : seen'.find? (q.interest.accepts ·) = some o := ho
    rw [hanswer, List.find?_append, hfirst]
    rfl
  have hsame : ∀ p ∈ f.pending, ∀ q ∈ f'.pending, q.id = p.id →
      q.interest = p.interest ∧ (∀ o, p.answer = some o → q.answer = some o)
        ∧ ∀ e ∈ events, e.returned? ≠ some p.id := by
    intro p hp q hq hid
    obtain ⟨p', hp', hid', hinterest, hanswer, hevents⟩ :=
      hearlier q hq (hid ▸ ht.lt_nextId hp)
    obtain rfl : p' = p := List.inj_on_of_nodup_map ht.distinct hp' hp (hid'.trans hid)
    exact ⟨hinterest.symm, hanswer, hid ▸ hevents⟩
  refine ⟨fun p hp => ⟨?_, fun hevents => ?_⟩, fun p hp q hq hid => ?_, fun q hq hlt => ?_⟩
  · rintro ⟨q, hq, hid⟩
    exact (hsame p hp q hq hid).2.2
  · obtain ⟨seen, hw, -⟩ := (ht.table p.id p.interest p.answer).1 hp
    exact ⟨_, (ht'.table _ _ _).2 ⟨_, hw.append hevents, rfl⟩, rfl⟩
  · obtain ⟨hinterest, hanswer, -⟩ := hsame p hp q hq hid
    exact ⟨hinterest, hanswer⟩
  · obtain ⟨p, hp, hid, -⟩ := hearlier q hq hlt
    exact ⟨p, hp, hid⟩

/-! ## Taking an answer in place -/

namespace Forwarder

/-- A waiting get takes its answer if it has one, and the last entry moves into its place. -/
def takeAnswer (id : Nat) (f : Forwarder) : Option ContentObject × List PendingGet :=
  match f.pending.findIdx? (·.id = id) with
  | none => (none, f.pending)
  | some k =>
    match f.pending[k]?.bind (·.answer) with
    | some o => (some o, swapRemove f.pending k)
    | none => (none, f.pending)

/-- A get takes its answer, and afterwards the table is one without it in some order. -/
theorem takeAnswer_perm {f : Forwarder} (hdistinct : (f.pending.map (·.id)).Nodup) (id : Nat) :
    (f.takeAnswer id).1 = f.answer? id
      ∧ (f.takeAnswer id).2.Perm
        (if (f.answer? id).isSome then (f.forget id).pending else f.pending) := by
  rw [takeAnswer]
  split
  · next hnone =>
    have hfind : f.pending.find? (·.id = id) = none :=
      List.find?_eq_none.2 fun p hp => by simpa using List.findIdx?_eq_none_iff.1 hnone p hp
    rw [answer?, hfind]
    exact ⟨rfl, .refl _⟩
  · next k hk =>
    obtain ⟨hlt, hid, -⟩ := List.findIdx?_eq_some_iff_getElem.1 hk
    obtain rfl : f.pending[k].id = id := by simpa using hid
    have hmem := List.getElem_mem hlt
    rw [answer?_of_mem hdistinct hmem, List.getElem?_eq_getElem hlt, Option.bind_some]
    split
    · next o ho =>
      rw [ho]
      -- with the get put back, both tables are the one from before
      refine ⟨rfl, List.Perm.cons_inv (a := f.pending[k]) ?_⟩
      exact (perm_swapRemove hlt).symm.trans (perm_filter_key hdistinct hmem)
    · next ho =>
      rw [ho]
      exact ⟨rfl, .refl _⟩

end Forwarder

/-! ## The main theorem -/

/-- **Gets that wait are served.** However applications take turns at a new forwarder, its table
holds the gets that wait and no others, under numbers that were never given twice, each with the
first object that it matches of those accepted since it began. A get that looks for its result
learns that object, and only without one that the forwarder is shut down or that its deadline has
passed; taking the answer removes its entry and no other. From then on an entry stays until its get
returns, an answer stays as it is, and an entry that is gone does not come back. -/
theorem blocked_gets (capacity : Nat) (first rest : List Turn) :
    let h := Network.history first (.new capacity)
    let n := Network.interleave first (.new capacity)
    n.forwarder.Tracks h ∧ WellAnswered h
      ∧ (∀ id, (n.forwarder.takeAnswer id).1 = n.forwarder.answer? id
        ∧ (n.forwarder.takeAnswer id).2.Perm (if (n.forwarder.answer? id).isSome
          then (n.forwarder.forget id).pending else n.forwarder.pending))
      ∧ n.forwarder.Later (Network.history rest n) (Network.interleave rest n).forwarder := by
  intro h n
  have ht : n.forwarder.Tracks h := Network.tracks capacity first
  have ht' : (Network.interleave rest n).forwarder.Tracks (h ++ Network.history rest n) := by
    have hall := Network.tracks capacity (first ++ rest)
    rwa [Network.history_append, Network.interleave_append] at hall
  exact ⟨ht, Network.wellAnswered capacity first, Forwarder.takeAnswer_perm ht.distinct,
    ht.later ht'⟩

end NamedContent
