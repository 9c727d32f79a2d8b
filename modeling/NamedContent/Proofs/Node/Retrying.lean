import NamedContent.Proofs.Face.Attempts
import NamedContent.Proofs.Node.Passing
import NamedContent.Proofs.Node.Rescheduling

/-! # Calls that are made again

Every operation of a face is a call with attempts, so all of them are made again in the same way.
Attempts that are interrupted do not come to the forwarder. A call that ends with an attempt which
is not interrupted ends as if there had been no others before: a get that has less time left for
its last attempt gives up when one that could wait at once would.

* `FaceCall`: the operations of a face, with `FaceCall.make_eq` and `FaceCall.make_run`
* `FaceCall.attempt_catchUp`: an attempt that is made later
* `FaceCall.Course`: what a call comes to
* `FaceCall.make_course`, `FaceCall.calls_limited`: the main theorems -/

namespace NamedContent

/-! ## The end of a call -/

namespace Node

variable {α : Type}

/-- The node that a call through a face leaves behind. -/
def afterCall (s : Node) (id : OwnerId) (o : Outcome Node α) : Node :=
  { (if o.cancelled then o.state.cancelFace id else o.state) with
    schedule := o.schedule, calls := s.calls + o.calls }

/-- The end of a call touches neither the network nor the gets nor the time. -/
theorem afterCall_parts (s : Node) (id : OwnerId) (o : Outcome Node α) :
    (s.afterCall id o).network = o.state.network ∧ (s.afterCall id o).gets = o.state.gets
      ∧ (s.afterCall id o).time = o.state.time := by
  rw [afterCall]
  split <;> exact ⟨rfl, rfl, rfl⟩

end Node

/-! ## The operations of a face -/

/-- A call of an application through a face. -/
inductive FaceCall where
  /-- An object is published. -/
  | put (object : ContentObject)
  /-- An object is fetched. -/
  | get (interest : Interest) (timeout : Option Nat)
  /-- A filter is set. -/
  | register (root : Name) (listener : ListenerId)
  /-- A filter is taken away. -/
  | unregister (root : Name) (listener : ListenerId)
  /-- A standing interest is expressed. -/
  | express (interest : Interest) (listener : ListenerId)
  /-- A standing interest is taken back. -/
  | cancelInterest (interest : Interest) (listener : ListenerId)

namespace FaceCall

open Attempts

variable {c : FaceCall} {id : OwnerId} {s : Node} {elapsed k : Nat}

/-- What a call returns. -/
def Answer : FaceCall → Type
  | .get .. => Option ContentObject
  | _ => Unit

/-- The operation of a call. -/
def operation : FaceCall → Operation
  | .put _ => .put
  | .get .. => .get
  | .register .. => .registerFilter
  | .unregister .. => .unregisterFilter
  | .express .. => .expressInterest
  | .cancelInterest .. => .cancelInterest

/-- An attempt of a call that comes to the forwarder, some time after the call began. -/
def attempt (id : OwnerId) : (c : FaceCall) → Nat → Action Node TransportError c.Answer
  | .put o => fun _ => Node.onNetwork (Network.put o)
  | .get i timeout => fun elapsed => Node.fetch i (timeout.map (· - elapsed))
  | .register root l => fun _ => Node.onNetwork (Network.setFilter ⟨id, root, l⟩)
  | .unregister root l => fun _ => Node.onNetwork (Network.cancelFilter ⟨id, root, l⟩)
  | .express i l => fun _ => do
    Node.onNetwork (Network.express ⟨id, i, l⟩)
    Action.modify Node.settle
  | .cancelInterest i l => fun _ => Node.onNetwork (Network.cancelInterest ⟨id, i, l⟩)

/-- A call is made. -/
def make (id : OwnerId) : (c : FaceCall) → Action Node FaceError c.Answer
  | .put o => Node.put id o
  | .get i timeout => Node.get id i timeout
  | .register root l => Node.register id root l
  | .unregister root l => Node.unregister id root l
  | .express i l => Node.express id i l
  | .cancelInterest i l => Node.cancelInterest id i l

/-- **Every operation of a face is a call with attempts.** -/
theorem make_eq (c : FaceCall) (id : OwnerId) :
    c.make id = Node.call id c.operation (c.attempt id) := by
  cases c <;> rfl

/-! ### Attempts -/

/-- An attempt that comes to the forwarder is not interrupted. -/
theorem attempt_ne_interrupted (c : FaceCall) (id : OwnerId) (elapsed : Nat) (s : Node) :
    (c.attempt id elapsed s).1 ≠ .error .interrupted := by
  cases c with
  | put o => exact s.network.put_ne_interrupted o
  | get i timeout => exact s.fetch_ne_interrupted i _
  | register root l => exact s.network.step_ne_interrupted fun f => f.setFilter_ne_interrupted _
  | unregister root l =>
    exact s.network.step_ne_interrupted fun f => f.cancelFilter_ne_interrupted _
  | cancelInterest i l =>
    exact s.network.step_ne_interrupted fun f => f.cancelInterest_ne_interrupted _
  | express i l =>
    have hexpress := s.network.express_ne_interrupted ⟨id, i, l⟩
    simp only [attempt, Action.bind_run, Node.onNetwork, Action.focus]
    rcases h : Network.express ⟨id, i, l⟩ s.network with ⟨e | u, n⟩ <;> rw [h] at hexpress
    · exact hexpress
    · rintro ⟨⟩

/-- An attempt does not ask what befalls other attempts. -/
theorem attempt_rescheduled {rest : List Attempt} {calls : Nat} (c : FaceCall) (id : OwnerId)
    (elapsed : Nat) : (c.attempt id elapsed).Respects (Node.Rescheduled rest calls) := by
  cases c with
  | get i timeout => exact Node.Twins.fetch i _
  | express i l => exact (Node.Twins.onNetwork _).bind fun _ => .modify fun _ _ => Node.Twins.settle
  | _ => exact Node.Twins.onNetwork _

/-- The number of attempts made is not changed by what an attempt does. -/
theorem attempt_calls (c : FaceCall) (id : OwnerId) (elapsed : Nat) (s : Node) :
    (c.attempt id elapsed s).2.calls = s.calls := by
  have hsame : (c.attempt id elapsed s).2
      = (c.attempt id elapsed s).2.reschedule s.schedule s.calls :=
    (c.attempt_rescheduled id elapsed s s rfl).2
  rw [hsame, Node.reschedule]

/-- Whether the time that a call may wait is not over. -/
def InTime (elapsed : Nat) : FaceCall → Prop
  | .get _ (some timeout) => timeout = 0 ∨ elapsed < timeout
  | _ => True

/-- **An attempt that is made later** ends as one that is made at once. -/
theorem attempt_catchUp (hdistinct : s.DistinctGets) (id : OwnerId)
    (htime : c.InTime elapsed) :
    (c.attempt id elapsed s).1 = (c.attempt id 0 s).1
      ∧ ((c.attempt id elapsed s).2.catchUp (c.attempt id 0 s).2.time).network
        = (c.attempt id 0 s).2.network := by
  -- only a get that is to wait asks how much time has passed
  cases c with
  | get i timeout =>
    cases timeout with
    | none => exact ⟨rfl, congrArg Node.network (Node.catchUp_self _)⟩
    | some timeout => exact Node.fetch_catchUp hdistinct i htime
  | _ => exact ⟨rfl, congrArg Node.network (Node.catchUp_self _)⟩

/-! ### A whole call -/

/-- How a call ends. -/
def outcome (c : FaceCall) (id : OwnerId) (s : Node) : Outcome Node c.Answer :=
  retry (s.face id).retry c.operation (c.attempt id) s.schedule 1 0 (s.face id).cancelled s

/-- A call ends in one of the three ways. -/
theorem ending_outcome (c : FaceCall) (id : OwnerId) (s : Node) :
    Ending (s.face id).retry.limit c.operation (c.attempt id) (s.face id).retry.limit
      (s.face id).cancelled s.schedule 0 s (c.outcome id s) :=
  ending_retry ..

/-- A call leaves the state as it was, or as one attempt leaves it. -/
theorem outcome_state (c : FaceCall) (id : OwnerId) (s : Node) :
    (c.outcome id s).state = s
      ∨ ∃ elapsed, (c.outcome id s).state = (c.attempt id elapsed s).2 := by
  obtain ⟨-, -, hstate⟩ | ⟨elapsed, -, hstate⟩ := retry_ends (s.face id).retry c.operation
    (c.attempt id) s.schedule 1 0 (s.face id).cancelled s
  · exact .inl hstate
  · exact .inr ⟨elapsed, hstate⟩

/-- How a call ends is not counted as another attempt. -/
theorem outcome_calls (c : FaceCall) (id : OwnerId) (s : Node) :
    (c.outcome id s).state.calls = s.calls := by
  obtain hstate | ⟨elapsed, hstate⟩ := c.outcome_state id s <;> rw [hstate]
  exact c.attempt_calls id elapsed s

/-- What a call returns and leaves behind. -/
theorem make_run (c : FaceCall) (id : OwnerId) (s : Node) :
    c.make id s = ((c.outcome id s).result, s.afterCall id (c.outcome id s)) := by
  have hcall : Node.call id c.operation (c.attempt id) s
      = (let t := if (c.outcome id s).cancelled then (c.outcome id s).state.cancelFace id
          else (c.outcome id s).state
        ((c.outcome id s).result, { t with
          schedule := (c.outcome id s).schedule, calls := t.calls + (c.outcome id s).calls })) :=
    rfl
  rw [make_eq, hcall, Node.afterCall, ← c.outcome_calls id s]
  cases (c.outcome id s).cancelled <;> rfl

/-- A call that ends with an attempt which is not interrupted ends as that attempt does. -/
theorem outcome_of_made (hmade : Made (s.face id).retry.limit (s.face id).cancelled s.schedule k)
    (hlast : (nth s.schedule k).failure ≠ some .interrupted) :
    (c.outcome id s).result
        = (answer (c.attempt id) (nth s.schedule k) (spent s.schedule k) s).1
      ∧ (c.outcome id s).state
        = (answer (c.attempt id) (nth s.schedule k) (spent s.schedule k) s).2 := by
  rw [(c.ending_outcome id s).eq_of_made hmade hlast, Nat.zero_add]
  exact ⟨rfl, rfl⟩

/-- A call does not end with an interruption. -/
theorem make_ne_interrupted (c : FaceCall) (id : OwnerId) (s : Node) :
    (c.make id s).1 ≠ .error (.transport .interrupted) := by
  rw [make_run]
  cases c.ending_outcome id s with
  | answered k made last eq =>
    rw [eq, answer]
    split
    · have hreached := c.attempt_ne_interrupted id (0 + spent s.schedule k) s
      rcases h : (c.attempt id (0 + spent s.schedule k) s).1 with e | a
      · rw [h] at hreached
        exact fun heq => hreached (congrArg _ (FaceError.transport.inj (Except.error.inj heq)))
      · rintro ⟨⟩
    · next e hfailure =>
      intro heq
      rw [FaceError.transport.inj (Except.error.inj heq)] at hfailure
      exact last hfailure
  | cancelled k interrupted before now room eq =>
    rw [eq]
    rintro ⟨⟩
  | exhausted k attempts made interrupted full reported eq =>
    rw [eq]
    rintro ⟨⟩

/-- The end of an attempt that is made later, at a node with another schedule. -/
theorem answer_catchUp (hdistinct : s.DistinctGets) (id : OwnerId)
    (htime : c.InTime elapsed) (a : Attempt) (rest : List Attempt) (calls : Nat) :
    (answer (c.attempt id) a elapsed s).1
        = (answer (c.attempt id) a 0 (s.reschedule rest calls)).1
      ∧ ((answer (c.attempt id) a elapsed s).2.catchUp
          (answer (c.attempt id) a 0 (s.reschedule rest calls)).2.time).network
        = (answer (c.attempt id) a 0 (s.reschedule rest calls)).2.network := by
  rw [answer, answer]
  cases a.failure with
  | some e =>
    have hsame : (s.catchUp s.time).network = s.network := congrArg Node.network s.catchUp_self
    exact ⟨rfl, hsame⟩
  | none =>
    obtain ⟨hresult, hnetwork⟩ := attempt_catchUp hdistinct id htime
    obtain ⟨hsame, hstate⟩ := c.attempt_rescheduled id 0 s (s.reschedule rest calls) rfl
    rw [show (c.attempt id 0 (s.reschedule rest calls)).2
      = (c.attempt id 0 s).2.reschedule rest calls from hstate]
    exact ⟨congrArg (Except.mapError FaceError.transport) (hresult.trans hsame), hnetwork⟩

/-- **Interruptions leave no trace.** A call that ends with an attempt which is not interrupted
returns what it would return if there were no attempts before, and the network is the same when
the clocks show the same. -/
theorem make_uninterrupted
    (hmade : Made (s.face id).retry.limit (s.face id).cancelled s.schedule k)
    (hlast : (nth s.schedule k).failure ≠ some .interrupted)
    (hdistinct : s.DistinctGets) (htime : c.InTime (spent s.schedule k)) :
    let t := s.reschedule (s.schedule.drop k) s.calls
    (c.make id s).1 = (c.make id t).1
      ∧ ((c.make id s).2.catchUp (c.make id t).2.time).network = (c.make id t).2.network := by
  intro t
  have hface : (s.face id).cancelled = false :=
    Bool.eq_false_iff.2 fun h => hmade.active (.inl h)
  -- the attempt that counts is the first one of the other schedule
  have hfirst : nth t.schedule 0 = nth s.schedule k := by
    rw [nth, nth, show t.schedule = s.schedule.drop k from rfl, List.getElem?_drop, Nat.add_zero]
  have hmade' : Made (t.face id).retry.limit (t.face id).cancelled t.schedule 0 := by
    rw [show (t.face id).cancelled = false from hface]
    exact made_zero (fun n hn => Nat.zero_lt_of_lt (hmade.room n hn)) t.schedule
  obtain ⟨hresult, hstate⟩ := outcome_of_made (c := c) hmade hlast
  obtain ⟨hresult', hstate'⟩ := outcome_of_made (c := c) hmade' (hfirst ▸ hlast)
  rw [hfirst, spent_zero] at hresult' hstate'
  obtain ⟨hanswer, hnetwork⟩ := answer_catchUp hdistinct id htime (nth s.schedule k)
    (s.schedule.drop k) s.calls
  rw [make_run, make_run]
  refine ⟨hresult.trans (hanswer.trans hresult'.symm), ?_⟩
  -- what the ends of the calls change besides is no part of the network
  obtain ⟨hpart, hgets, hclock⟩ := s.afterCall_parts id (c.outcome id s)
  obtain ⟨hpart', -, hclock'⟩ := t.afterCall_parts id (c.outcome id t)
  rw [hpart', hclock', Node.catchUp_network_congr hpart hgets hclock, hstate, hstate']
  exact hnetwork

/-- What an attempt does is the work of a call. -/
theorem attempt_works (c : FaceCall) (id : OwnerId) (elapsed : Nat) :
    (c.attempt id elapsed).Keeps (Relation.ReflTransGen Node.Works) := by
  cases c with
  | get i timeout => exact Node.fetch_works i _
  | express i l => exact (Node.onNetwork_works _).bind fun _ => .modify Node.settle_works
  | _ => exact Node.onNetwork_works _

/-- What a call does is the work of calls. -/
theorem make_works (c : FaceCall) (id : OwnerId) :
    (c.make id).Keeps (Relation.ReflTransGen Node.Works) :=
  c.make_eq id ▸ Node.call_works (c.attempt_works id) id c.operation

/-- What a call comes to. -/
structure Course (c : FaceCall) (id : OwnerId) (s : Node) : Prop where
  /-- An attempt is made just if all before it were interrupted, the face is not cancelled by then,
  and the policy is to allow it. -/
  calls : ∃ calls, (c.make id s).2.calls = s.calls + calls
    ∧ ∀ k, k < calls ↔ Made (s.face id).retry.total (s.face id).cancelled s.schedule k
  /-- The call ends in one of the three ways. -/
  ends : ∃ o, Ending (s.face id).retry.total c.operation (c.attempt id) (s.face id).retry.total
      (s.face id).cancelled s.schedule 0 s o
    ∧ c.make id s = (o.result, s.afterCall id o)
  /-- It does not end with an interruption. -/
  settled : (c.make id s).1 ≠ .error (.transport .interrupted)
  /-- The gets in the background still have keys of their own, if they had before. -/
  distinct : s.DistinctGets → (c.make id s).2.DistinctGets
  /-- If it ends with an attempt that is not interrupted, in time, it ends as if there were none
  before: with the same result, and with the same network when the clocks show the same. (The clock
  of a node does not count the time of attempts that are interrupted.) -/
  traceless : ∀ k, Made (s.face id).retry.total (s.face id).cancelled s.schedule k →
    (nth s.schedule k).failure ≠ some .interrupted → s.DistinctGets →
    c.InTime (spent s.schedule k) →
      let t := s.reschedule (s.schedule.drop k) s.calls
      (c.make id s).1 = (c.make id t).1
        ∧ ((c.make id s).2.catchUp (c.make id t).2.time).network = (c.make id t).2.network

/-- **What every call comes to** through a face whose policy allows an attempt, whatever befalls the
attempts and whenever the face is cancelled, as long as fewer attempts in a row are interrupted than
the greatest 32-bit number. -/
theorem make_course (c : FaceCall) (id : OwnerId) (s : Node)
    (hpos : ∀ most ∈ (s.face id).retry.maxAttempts, 1 ≤ most.toNat)
    (hfew : ¬ Interrupted s.schedule (UInt32.size - 1)) : c.Course id s where
  calls := by
    refine ⟨(c.outcome id s).calls, by rw [make_run, Node.afterCall], fun k => ?_⟩
    rw [(c.ending_outcome id s).lt_calls_iff, made_limit_iff hpos hfew]
  ends := ⟨_, (c.ending_outcome id s).of_limit hpos hfew, c.make_run id s⟩
  settled := c.make_ne_interrupted id s
  distinct h := h.of_works (c.make_works id s)
  traceless k hmade hlast hdistinct htime :=
    make_uninterrupted ((made_limit_iff hpos hfew).2 hmade) hlast hdistinct htime

/-- A get that waits for 100 milliseconds, 30 of which go by in an attempt that is interrupted, ends
as one that waits at once. Meanwhile the deadline of another get passes, before the end of the
second attempt or after it. -/
theorem make_course_once :
    let i : Interest := .below ⟨[⟨[97]⟩]⟩
    let n := Network.new 8
    let s : Node := { Node.new 8 ⟨0⟩ with
      network := { n with forwarder := { n.forwarder with pending := [⟨0, i, none⟩], nextId := 1 } }
      faces := [(⟨1⟩, { retry := ⟨some 3⟩ })]
      schedule := [⟨some .interrupted, false, 30⟩]
      gets := [(⟨5⟩, .waiting 0 (some 80))] }
    let t := s.reschedule [] 0
    let get : FaceCall := .get i (some 100)
    (∀ most ∈ (s.face ⟨1⟩).retry.maxAttempts, 1 ≤ most.toNat)
      ∧ ¬ Interrupted s.schedule (UInt32.size - 1)
      ∧ (get.make ⟨1⟩ s).1 = (get.make ⟨1⟩ t).1
      ∧ ((get.make ⟨1⟩ s).2.catchUp (get.make ⟨1⟩ t).2.time).network = (get.make ⟨1⟩ t).2.network
      ∧ 1 < (get.make ⟨1⟩ s).2.calls := by
  intro i n s t get
  have hpos : ∀ most ∈ (s.face ⟨1⟩).retry.maxAttempts, 1 ≤ most.toNat := by
    intro most hmost
    obtain rfl := Option.some.inj hmost
    decide
  have hfew : ¬ Interrupted s.schedule (UInt32.size - 1) :=
    fun h => absurd (h 1 (by decide)) (by decide)
  have hmade : Made (s.face ⟨1⟩).retry.total (s.face ⟨1⟩).cancelled s.schedule 1 := by
    refine ⟨interrupted_cons_succ.2 ⟨rfl, interrupted_zero []⟩, ?_, fun m hm => ?_⟩
    · exact mt cancelled_cons_succ.1 (mt cancelled_zero.1 Bool.false_ne_true)
    · obtain rfl := Option.some.inj hm
      decide
  obtain ⟨⟨calls, hcalls, hiff⟩, -, -, -, htraceless⟩ := make_course get ⟨1⟩ s hpos hfew
  obtain ⟨hresult, hnetwork⟩ :=
    htraceless 1 hmade (by decide) (List.nodup_singleton _) (.inr (by decide))
  refine ⟨hpos, hfew, hresult, hnetwork, ?_⟩
  rw [hcalls, show s.calls = 0 from rfl, Nat.zero_add]
  exact (hiff 1).2 hmade

/-! ### The limit -/

/-- How many attempts were made when none is allowed any more. -/
theorem outcome_of_exhausted {operation : Operation} {attempts : UInt32}
    (h : (c.make id s).1 = .error (.retriesExhausted operation attempts)) :
    operation = c.operation ∧ (s.face id).retry.limit = some attempts.toNat
      ∧ (c.outcome id s).calls = attempts.toNat := by
  rw [make_run] at h
  cases c.ending_outcome id s with
  | answered k made last eq =>
    rw [eq] at h
    obtain ⟨cause, hcause⟩ := exists_of_answer_error h
    cases hcause
  | cancelled k interrupted before now room eq =>
    rw [eq] at h
    cases Except.error.inj h
  | exhausted k most made interrupted full reported eq =>
    rw [eq] at h ⊢
    obtain ⟨rfl, rfl⟩ := FaceError.retriesExhausted.inj (Except.error.inj h)
    exact ⟨rfl, reported, Option.some.inj (full.symm.trans reported)⟩

/-- **How many attempts a call makes at most** under a policy with a number, whatever befalls them:
as many as the number says, and one if it says none; the call reports that so many were made when
none is allowed any more. Under the greatest number there is no limit. -/
theorem calls_limited (c : FaceCall) (id : OwnerId) (s : Node) {most : UInt32}
    (hmost : (s.face id).retry.maxAttempts = some most) :
    ∃ calls, (c.make id s).2.calls = s.calls + calls
      ∧ (most.toNat + 1 < UInt32.size → calls ≤ max 1 most.toNat
        ∧ ∀ operation attempts, (c.make id s).1 = .error (.retriesExhausted operation attempts) →
          operation = c.operation ∧ attempts.toNat = max 1 most.toNat ∧ calls = attempts.toNat)
      ∧ (most.toNat + 1 = UInt32.size →
        (∀ operation attempts, (c.make id s).1 ≠ .error (.retriesExhausted operation attempts))
          ∧ ∀ k, k < calls ↔
            Interrupted s.schedule k ∧ ¬ Cancelled (s.face id).cancelled s.schedule k) := by
  have hcalls (k : Nat) := (c.ending_outcome id s).lt_calls_iff (k := k)
  refine ⟨(c.outcome id s).calls, by rw [make_run, Node.afterCall], fun hmore => ?_,
    fun hlast => ?_⟩
  · -- below the greatest number the policy sets a limit
    have hlimit : (s.face id).retry.limit = some (max 1 most.toNat) := by
      rw [RetryPolicy.limit, hmost, Option.bind_some, if_neg (Nat.ne_of_lt hmore)]
    refine ⟨Nat.le_of_not_lt fun hlt => ?_, fun operation attempts h => ?_⟩
    · exact absurd (((hcalls _).1 hlt).room _ hlimit) (Nat.lt_irrefl _)
    · obtain ⟨hoperation, hsome, hmade⟩ := outcome_of_exhausted h
      exact ⟨hoperation, Option.some.inj (hsome.symm.trans hlimit), hmade⟩
  · have hlimit : (s.face id).retry.limit = none := by
      rw [RetryPolicy.limit, hmost, Option.bind_some, if_pos hlast]
    refine ⟨fun operation attempts h => ?_, fun k => ?_⟩
    · obtain ⟨-, hsome, -⟩ := outcome_of_exhausted h
      exact absurd (hlimit.symm.trans hsome) (by simp)
    · rw [hcalls, hlimit]
      exact ⟨fun h => ⟨h.interrupted, h.active⟩, fun h => ⟨h.1, h.2, fun n hn => by cases hn⟩⟩

/-- With a limit of two, a call that is interrupted again and again is made twice, and says so. -/
theorem calls_limited_two :
    let cut : Attempt := { failure := some .interrupted }
    let s : Node := { Node.new 8 ⟨0⟩ with
      faces := [(⟨1⟩, { retry := ⟨some 2⟩ })], schedule := [cut, cut, cut] }
    let get : FaceCall := .get (.below ⟨[⟨[97]⟩]⟩) (some 10)
    (s.face ⟨1⟩).retry.maxAttempts = some 2
      ∧ (get.make ⟨1⟩ s).1 = .error (.retriesExhausted .get 2)
      ∧ (get.make ⟨1⟩ s).2.calls = 2 := by
  intro cut s get
  have hresult : (get.make ⟨1⟩ s).1 = .error (.retriesExhausted .get 2) := rfl
  obtain ⟨calls, hcalls, hlimited, -⟩ := calls_limited get ⟨1⟩ s rfl
  obtain ⟨-, -, htwo⟩ := (hlimited (by decide)).2 .get 2 hresult
  refine ⟨rfl, hresult, ?_⟩
  rw [hcalls, htwo]
  rfl

/-- **A limit of none is not kept.** A configuration that allows no attempt is allowed, and under it
one attempt is made and reported. -/
theorem one_call_over_limit :
    let config : Config := { retry := ⟨some 0⟩ }
    let s : Node := { Node.new 8 ⟨0⟩ with
      faces := [(⟨1⟩, { retry := config.retry })], schedule := [{ failure := some .interrupted }] }
    let done := Node.get ⟨1⟩ (.below ⟨[⟨[97]⟩]⟩) (some 10) s
    config.validate = .ok () ∧ s.calls = 0
      ∧ done.1 = .error (.retriesExhausted .get 1) ∧ done.2.calls = 1
      ∧ ¬ ∀ total ∈ config.retry.total, done.2.calls ≤ s.calls + total := by
  decide +kernel

end FaceCall

end NamedContent
