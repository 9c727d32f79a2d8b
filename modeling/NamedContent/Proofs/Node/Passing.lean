import Mathlib.Data.List.Nodup
import NamedContent.Proofs.Node.Changes

/-! # Time that passes

All that becomes of the network while time passes is that gets in the background end: those that
have a result, and those whose deadline comes. So it makes no difference whether time passes at
once or in two parts, and whether a get that has waited in vain gives up before the second part or
after it.

* `Forwarder.ready`, `Forwarder.forgetAll`: gets with a result, and gets that wait no longer
* `Node.pass_network`: what becomes of the network
* `Node.expire_pass_network`: a get gives up while time passes
* `Node.DistinctGets`: the gets in the background have keys of their own, and keep them
* `Node.catchUp`, `Node.fetch_catchUp`: a get with less time -/

namespace NamedContent

/-! ## Gets that end -/

namespace Forwarder

variable {f : Forwarder} {id : Nat} {leaving : Nat → Bool}

/-- Whether a get under a number has a result: its answer, or the error of a forwarder that is shut
down. -/
def ready (f : Forwarder) (id : Nat) : Bool := (f.answer? id).isSome || f.closed

/-- The forwarder without the waiting gets of some numbers. -/
def forgetAll (leaving : Nat → Bool) (f : Forwarder) : Forwarder :=
  { f with pending := f.pending.filter fun p => !leaving p.id }

/-- One get that ends is one of several. -/
theorem forget_eq (id : Nat) (f : Forwarder) : f.forget id = f.forgetAll (id = ·) := by
  rw [forget, forgetAll]
  congr 1
  exact List.filter_congr fun p _ => by simp [eq_comm]

/-- If no get ends, nothing changes. -/
theorem forgetAll_none (f : Forwarder) : f.forgetAll (fun _ => false) = f :=
  congrArg (fun pending => { f with pending }) (List.filter_eq_self.2 fun _ _ => rfl)

/-- Only of gets that wait it matters whether they end. -/
theorem forgetAll_congr {leaving' : Nat → Bool}
    (h : ∀ p ∈ f.pending, leaving p.id = leaving' p.id) :
    f.forgetAll leaving = f.forgetAll leaving' := by
  rw [forgetAll, forgetAll, List.filter_congr fun p hp => by rw [h p hp]]

/-- Some gets end, and then others. -/
theorem forgetAll_forgetAll (leaving later : Nat → Bool) (f : Forwarder) :
    (f.forgetAll leaving).forgetAll later = f.forgetAll fun id => leaving id || later id := by
  simp only [forgetAll, List.filter_filter, Bool.not_or, Bool.and_comm]

/-- The end of other gets does not change the result of a get. -/
theorem ready_forgetAll (h : leaving id = false) : (f.forgetAll leaving).ready id = f.ready id := by
  have hfind : (f.forgetAll leaving).pending.find? (·.id = id) = f.pending.find? (·.id = id) := by
    rw [forgetAll, List.find?_filter]
    refine congrArg (List.find? · f.pending) (funext fun p => ?_)
    by_cases hp : p.id = id <;> simp [hp, h]
  rw [ready, ready, answer?, answer?, hfind]
  rfl

/-- A get without a result has none when gets have ended. -/
theorem not_ready_forgetAll (h : f.ready id = false) (leaving : Nat → Bool) :
    (f.forgetAll leaving).ready id = false := by
  cases hleaving : leaving id with
  | false => rw [ready_forgetAll hleaving, h]
  | true =>
    have hfind : (f.forgetAll leaving).pending.find? (·.id = id) = none := by
      refine List.find?_eq_none.2 fun p hp heq => ?_
      have hkept := (List.mem_filter.1 hp).2
      rw [of_decide_eq_true heq, hleaving] at hkept
      exact Bool.false_ne_true hkept
    rw [ready, answer?, hfind]
    exact (Bool.or_eq_false_iff.1 h).2

/-- A get without a result is not woken. -/
theorem wake_of_not_ready (h : f.ready id = false) : f.wake id = (none, f) := by
  obtain ⟨o, hanswer, -⟩ | ⟨hanswer, ⟨hclosed, -⟩ | ⟨-, heq⟩⟩ := f.wake_cases id
  · exact absurd h (by simp [ready, hanswer])
  · exact absurd h (by simp [ready, hclosed])
  · exact heq

/-- A get with a result is woken, and leaves. -/
theorem wake_of_ready (h : f.ready id = true) :
    ∃ result, f.wake id = (some result, f.forget id) := by
  obtain ⟨o, -, heq⟩ | ⟨hanswer, ⟨-, heq⟩ | ⟨hopen, -⟩⟩ := f.wake_cases id
  · exact ⟨_, heq⟩
  · exact ⟨_, heq⟩
  · exact absurd h (by simp [ready, hanswer, hopen])

/-- A get without a result leaves empty-handed when it gives up. -/
theorem expire_of_not_ready (h : f.ready id = false) : f.expire id = (.ok none, f.forget id) := by
  rw [expire, wake_of_not_ready h]

end Forwarder

namespace BackgroundGet

/-- Whether a get in the background ends by a time, if it waits under a number. -/
def endsBy (time : Nat) (f : Forwarder) (id : Nat) : BackgroundGet → Bool
  | .ended _ => false
  | .waiting n deadline => n = id && (deadline.any (· ≤ time) || f.ready id)

/-- A get in the background ends if its deadline is there or it has a result. -/
theorem endsBy_waiting (time : Nat) (f : Forwarder) (n : Nat) (deadline : Option Nat) :
    (endsBy time f · (.waiting n deadline))
      = if deadline.any (· ≤ time) || f.ready n then (decide <| n = ·) else fun _ => false := by
  funext id
  by_cases hid : n = id
  · subst hid
    cases h : deadline.any (· ≤ time) || f.ready n <;> simp [endsBy, h]
  · split <;> simp [endsBy, hid]

end BackgroundGet

namespace Node

variable {s : Node} {key : GetId} {id n : Nat} {deadline : Option Nat}

/-- Whether the gets in the background have keys of their own. -/
def DistinctGets (s : Node) : Prop := (s.gets.map (·.1)).Nodup

/-! ## What becomes of the network -/

/-- Whether one of the gets in a table that wait under a number ends by a time. -/
def leaving (time : Nat) (f : Forwarder) (gets : Table GetId BackgroundGet) (id : Nat) : Bool :=
  gets.any fun e => e.2.endsBy time f id

/-- A get in the background ends if it can, and nothing else happens to the network. -/
theorem attend_network (s : Node) (e : GetId × BackgroundGet) :
    (s.attend e).network = { s.network with
      forwarder := s.network.forwarder.forgetAll (e.2.endsBy s.time s.network.forwarder ·) } := by
  obtain ⟨key, get⟩ := e
  cases get with
  | ended result => simp [attend, BackgroundGet.endsBy, Forwarder.forgetAll_none]
  | waiting n deadline =>
    rw [BackgroundGet.endsBy_waiting, attend]
    by_cases hdeadline : deadline.any (· ≤ s.time) = true
    · simp [hdeadline, Network.expire, Forwarder.expire_snd, Forwarder.forget_eq]
    · cases hready : s.network.forwarder.ready n with
      | false =>
        simp [hdeadline, Network.wake, Forwarder.wake_of_not_ready hready,
          Forwarder.forgetAll_none]
      | true =>
        obtain ⟨result, heq⟩ := Forwarder.wake_of_ready hready
        simp [hdeadline, Network.wake, heq, Forwarder.forget_eq]

/-- Attending to gets takes no time. -/
theorem time_of_attends {t : Node} (h : Relation.ReflTransGen Attends s t) : t.time = s.time := by
  induction h with
  | refl => rfl
  | tail _ hlast ih =>
    rw [← ih]
    cases hlast <;> rfl

/-- Attending to a get takes no time. -/
@[simp] theorem attend_time (s : Node) (e : GetId × BackgroundGet) :
    (s.attend e).time = s.time := time_of_attends (attend_attends s e)

/-- As much time passes as is said. -/
@[simp] theorem pass_time (s : Node) (milliseconds : Nat) :
    (s.pass milliseconds).time = s.time + milliseconds := time_of_attends (pass_attends s _)

/-- Some gets in the background end, one after the other. By induction on the table. -/
theorem foldl_attend_network (entries : Table GetId BackgroundGet) (s : Node) :
    (entries.foldl attend s).network = { s.network with
      forwarder := s.network.forwarder.forgetAll
        (leaving s.time s.network.forwarder entries) } := by
  induction entries generalizing s with
  | nil =>
    exact (congrArg (fun f => ({ s.network with forwarder := f } : Network))
      (Forwarder.forgetAll_none s.network.forwarder)).symm
  | cons e rest ih =>
    rw [List.foldl_cons, ih, attend_time, attend_network, Forwarder.forgetAll_forgetAll]
    refine congrArg (fun f => { s.network with forwarder := f })
      (Forwarder.forgetAll_congr fun p _ => ?_)
    simp only [leaving, List.any_cons]
    cases hends : e.2.endsBy s.time s.network.forwarder p.id with
    | true => simp
    | false =>
      -- this get has not ended, so it has a result just if it had one before
      rw [Bool.false_or, Bool.false_or]
      refine List.any_congr rfl fun g => ?_
      cases g.2 with
      | ended result => rfl
      | waiting n deadline =>
        rw [BackgroundGet.endsBy, BackgroundGet.endsBy, Forwarder.ready_forgetAll hends]

/-- **What becomes of the network while time passes**: gets in the background end. -/
theorem pass_network (s : Node) (milliseconds : Nat) :
    (s.pass milliseconds).network = { s.network with
      forwarder := s.network.forwarder.forgetAll
        (leaving (s.time + milliseconds) s.network.forwarder s.gets) } :=
  foldl_attend_network s.gets { s with time := s.time + milliseconds }

/-! ## The gets that go on -/

/-- **What becomes of the table when a get in the background is attended to**: nothing, or the get
ends and has a result. -/
theorem attend_gets (s : Node) (e : GetId × BackgroundGet) :
    (s.attend e).gets = s.gets
      ∨ ∃ n deadline result, e.2 = .waiting n deadline
        ∧ e.2.endsBy s.time s.network.forwarder n = true
        ∧ (s.attend e).gets = s.gets.insert e.1 (.ended result) := by
  obtain ⟨key, get⟩ := e
  cases get with
  | ended result => exact .inl rfl
  | waiting n deadline =>
    rw [attend]
    by_cases hdeadline : deadline.any (· ≤ s.time) = true
    · exact .inr ⟨n, deadline, (Network.expire n s.network).1, rfl,
        by simp [BackgroundGet.endsBy, hdeadline], by simp [hdeadline]⟩
    · cases hready : s.network.forwarder.ready n with
      | false =>
        exact .inl (by simp [hdeadline, Network.wake, Forwarder.wake_of_not_ready hready])
      | true =>
        obtain ⟨result, heq⟩ := Forwarder.wake_of_ready hready
        exact .inr ⟨n, deadline, result.map some, rfl, by simp [BackgroundGet.endsBy, hready],
          by simp [hdeadline, Network.wake, heq]⟩

/-- No change takes a get its key, or gives it that of another. -/
theorem Works.distinctGets {t : Node} (h : Works s t) (hs : s.DistinctGets) : t.DistinctGets := by
  cases h with
  | ends key result => exact Table.nodup_insert hs _ _
  | _ => exact hs

/-- **Gets in the background keep keys of their own** in all that calls do. -/
theorem DistinctGets.of_works {t : Node} (h : s.DistinctGets)
    (hworks : Relation.ReflTransGen Works s t) : t.DistinctGets := by
  induction hworks with
  | refl => exact h
  | tail _ hlast ih => exact hlast.distinctGets ih

/-- A get that waits afterwards waited before. -/
theorem mem_gets_of_foldl_attend (entries : Table GetId BackgroundGet)
    (h : (key, .waiting n deadline) ∈ (entries.foldl attend s).gets) :
    (key, .waiting n deadline) ∈ s.gets := by
  induction entries generalizing s with
  | nil => exact h
  | cons e rest ih =>
    have hfirst := ih h
    obtain heq | ⟨m, d, result, -, -, heq⟩ := attend_gets s e
    · rwa [heq] at hfirst
    · rw [heq, Table.insert, List.mem_cons] at hfirst
      obtain hresult | hrest := hfirst
      · cases hresult
      · exact (List.mem_filter.1 hrest).1

/-- A get that does not end waits on. By induction on the gets that are attended to, among which
there is no other of its key. -/
theorem foldl_attend_mem_gets {entries : Table GetId BackgroundGet}
    (hmem : (key, .waiting n deadline) ∈ s.gets)
    (hends : (BackgroundGet.waiting n deadline).endsBy s.time s.network.forwarder n = false)
    (hown : ∀ e ∈ entries, e.1 = key → e.2 = .waiting n deadline) :
    (key, .waiting n deadline) ∈ (entries.foldl attend s).gets := by
  induction entries generalizing s with
  | nil => exact hmem
  | cons e rest ih =>
    refine ih ?_ ?_ fun g hg => hown g (List.mem_cons_of_mem e hg)
    · obtain heq | ⟨m, d, result, hget, hleaves, heq⟩ := attend_gets s e
      · rwa [heq]
      · rw [heq, Table.insert]
        refine List.mem_cons_of_mem _ (List.mem_filter.2 ⟨hmem, decide_eq_true fun hkey => ?_⟩)
        -- the get itself does not end
        rw [hown e List.mem_cons_self hkey.symm] at hget hleaves
        obtain ⟨rfl, -⟩ := BackgroundGet.waiting.inj hget
        exact Bool.false_ne_true (hends.symm.trans hleaves)
    · rw [attend_time, attend_network]
      simp only [BackgroundGet.endsBy, decide_true, Bool.true_and, Bool.or_eq_false_iff] at hends ⊢
      exact ⟨hends.1, Forwarder.not_ready_forgetAll hends.2 _⟩

/-- A number leaves just if a get that waits under it ends. -/
theorem leaving_eq_true_iff {time : Nat} {f : Forwarder} {gets : Table GetId BackgroundGet} :
    leaving time f gets id = true ↔ ∃ key deadline, (key, .waiting id deadline) ∈ gets
      ∧ (deadline.any (· ≤ time) || f.ready id) = true := by
  rw [leaving, List.any_eq_true]
  constructor
  · rintro ⟨⟨key, get⟩, hmem, hends⟩
    cases get with
    | ended result => cases hends
    | waiting n deadline =>
      obtain ⟨hn, hends⟩ := Bool.and_eq_true_iff.1 hends
      obtain rfl := of_decide_eq_true hn
      exact ⟨key, deadline, hmem, hends⟩
  · rintro ⟨key, deadline, hmem, hends⟩
    exact ⟨_, hmem, by simpa [BackgroundGet.endsBy] using hends⟩

/-- Whoever has left by a time has left by a later one. -/
theorem leaving_mono {time later : Nat} {f : Forwarder} {gets : Table GetId BackgroundGet}
    (htime : time ≤ later) (h : leaving time f gets id = true) :
    leaving later f gets id = true := by
  obtain ⟨key, deadline, hmem, hends⟩ := leaving_eq_true_iff.1 h
  refine leaving_eq_true_iff.2 ⟨key, deadline, hmem, ?_⟩
  rw [Bool.or_eq_true_iff] at hends ⊢
  refine hends.imp_left fun hdeadline => ?_
  obtain ⟨d, hd, hle⟩ := (Option.any_eq_true _ _).1 hdeadline
  exact (Option.any_eq_true _ _).2
    ⟨d, hd, decide_eq_true (Nat.le_trans (of_decide_eq_true hle) htime)⟩

/-- The gets that have not left by a time leave later just as if no time had passed before. -/
theorem leaving_pass (hdistinct : s.DistinctGets) {milliseconds later : Nat}
    {f : Forwarder} (hready : f.ready id = s.network.forwarder.ready id)
    (hstays : leaving (s.time + milliseconds) s.network.forwarder s.gets id = false) :
    leaving later f (s.pass milliseconds).gets id
      = leaving later s.network.forwarder s.gets id := by
  rw [Bool.eq_iff_iff, leaving_eq_true_iff, leaving_eq_true_iff, hready]
  refine exists_congr fun key => exists_congr fun deadline => and_congr_left fun _ => ?_
  refine ⟨mem_gets_of_foldl_attend s.gets, fun hmem => ?_⟩
  refine foldl_attend_mem_gets (s := { s with time := s.time + milliseconds }) hmem ?_
    fun e he hkey => ?_
  · refine Bool.eq_false_iff.2 fun hends => Bool.false_ne_true (hstays.symm.trans ?_)
    exact leaving_eq_true_iff.2 ⟨key, deadline, hmem, by simpa [BackgroundGet.endsBy] using hends⟩
  · exact congrArg Prod.snd (List.inj_on_of_nodup_map hdistinct he hmem hkey)

/-- **A get that gives up while time passes** could as well give up in the end. -/
theorem expire_pass_network (hdistinct : s.DistinctGets) (first rest id : Nat) :
    (({ s.pass first with
        network := (Network.expire id (s.pass first).network).2 } : Node).pass rest).network
      = (Network.expire id (s.pass (first + rest)).network).2 := by
  simp only [pass_network, Network.expire, Forwarder.expire_snd, Forwarder.forget_eq,
    Forwarder.forgetAll_forgetAll, pass_time, Nat.add_assoc]
  refine congrArg (fun f => { s.network with forwarder := f })
    (Forwarder.forgetAll_congr fun p _ => ?_)
  by_cases hid : id = p.id
  · simp [hid]
  · cases hleaves : leaving (s.time + first) s.network.forwarder s.gets p.id with
    | true => simp [leaving_mono (Nat.add_le_add_left (Nat.le_add_right first rest) _) hleaves]
    | false =>
      rw [leaving_pass hdistinct (Forwarder.ready_forgetAll (by simp [hleaves, hid])) hleaves]
      simp [hid]

/-! ## A get with less time -/

/-- The node when its clock has come to a time. -/
def catchUp (s : Node) (time : Nat) : Node :=
  if s.time < time then s.pass (time - s.time) else s

/-- A node that is on time has nothing to catch up. -/
theorem catchUp_self (s : Node) : s.catchUp s.time = s := if_neg (Nat.lt_irrefl _)

/-- What becomes of the network by a time depends on the network, the gets and the clock. -/
theorem catchUp_network_congr {t : Node} (hnetwork : s.network = t.network)
    (hgets : s.gets = t.gets) (htime : s.time = t.time) (time : Nat) :
    (s.catchUp time).network = (t.catchUp time).network := by
  rw [catchUp, catchUp, htime]
  split
  · rw [pass_network, pass_network, hnetwork, hgets, htime]
  · exact hnetwork

/-- A get that waits in vain ends as one that has less time. -/
theorem await_catchUp (hdistinct : s.DistinctGets) (id timeout spent : Nat) :
    (await id (some (timeout - spent)) s).1 = (await id (some timeout) s).1
      ∧ ((await id (some (timeout - spent)) s).2.catchUp (await id (some timeout) s).2.time).network
        = (await id (some timeout) s).2.network := by
  cases hready : s.network.forwarder.ready id with
  | true =>
    -- the result is there already, and no time passes
    obtain ⟨result, heq⟩ := Forwarder.wake_of_ready hready
    simp only [await, Network.wake, heq]
    exact ⟨trivial, congrArg network (catchUp_self _)⟩
  | false =>
    have hresult (milliseconds : Nat) :
        (Network.expire id (s.pass milliseconds).network).1 = .ok none := by
      rw [pass_network, Network.expire,
        Forwarder.expire_of_not_ready (Forwarder.not_ready_forgetAll hready _)]
    have hawait (milliseconds : Nat) : await id (some milliseconds) s
        = (.ok none, { s.pass milliseconds with
          network := (Network.expire id (s.pass milliseconds).network).2 }) := by
      simp only [await, Network.wake, Forwarder.wake_of_not_ready hready, onNetwork, Action.focus,
        Option.getD_some]
      rw [← hresult milliseconds]
    rw [hawait, hawait]
    refine ⟨rfl, ?_⟩
    rw [catchUp, pass_time, pass_time]
    split
    · next hless =>
      rw [expire_pass_network hdistinct, show timeout - spent
        + (s.time + timeout - (s.time + (timeout - spent))) = timeout by omega]
    · next hsame => rw [show timeout - spent = timeout by omega]

/-- A get that starts in the background has a key of its own. -/
theorem DistinctGets.startGet {ε : Type} (h : s.DistinctGets) (i : Interest)
    (timeout : Option Nat) : (startGet (ε := ε) i timeout s).2.DistinctGets :=
  Table.nodup_insert h _ _

/-- A get that is joined leaves the others their keys. -/
theorem DistinctGets.joinGet (h : s.DistinctGets) (id : GetId) :
    (joinGet id s).2.DistinctGets := by
  have hrest : ({ s with gets := s.gets.erase id } : Node).DistinctGets := Table.nodup_erase h id
  rw [Node.joinGet]
  split
  · exact h
  · exact hrest
  · exact hrest.of_works (await_works _ _ _)

/-- **A get with less time** ends as one with the whole of it, unless the time is over: the result
is the same, and so is the network when the clocks show the same. -/
theorem fetch_catchUp (hdistinct : s.DistinctGets) (i : Interest) {timeout spent : Nat}
    (htime : timeout = 0 ∨ spent < timeout) :
    (fetch i (some (timeout - spent)) s).1 = (fetch i (some timeout) s).1
      ∧ ((fetch i (some (timeout - spent)) s).2.catchUp
          (fetch i (some timeout) s).2.time).network
        = (fetch i (some timeout) s).2.network := by
  have hwait : (some (timeout - spent) != some 0) = (some timeout != some 0) := by
    rw [Bool.eq_iff_iff]
    simp
    omega
  simp only [fetch, hwait, Action.bind_run]
  have hgets : (onNetwork (Network.beginGet i (some timeout != some 0)) s).2.gets = s.gets := rfl
  rcases hbegin : onNetwork (Network.beginGet i (some timeout != some 0)) s
    with ⟨e | o | - | id, t⟩ <;> rw [hbegin] at hgets
  · exact ⟨rfl, congrArg network (catchUp_self t)⟩
  · exact ⟨rfl, congrArg network (catchUp_self t)⟩
  · exact ⟨rfl, congrArg network (catchUp_self t)⟩
  · have ht : t.DistinctGets := by rwa [DistinctGets, hgets]
    exact await_catchUp (ht.of_works (settle_works t)) id timeout spent

end Node

end NamedContent
