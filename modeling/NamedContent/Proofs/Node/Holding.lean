import NamedContent.Proofs.Forwarder.Carrying
import NamedContent.Proofs.Node.Changes

/-! # What a node holds

An object that a get finds was held by the node: in the content store, in the buffer of a flow
controller, or as the answer of a get. Whatever befalls the attempts of the get, whichever
controllers respond and whoever else waits, it is one that the interest accepts. Gets bring nothing
new into the node.

* `Node.Holds`: all objects that a node may answer with have a property
* `Node.Goes`: what every part of a get keeps
* `Node.Responds.goes`, `Node.Attends.goes`: and so what responding and waiting keep
* `Node.Holds.get`: what a get finds -/

namespace NamedContent

namespace Forwarder

variable {f f' : Forwarder} {P : ContentObject → Prop} {id : Nat} {i : Interest} {o : ContentObject}

/-- The answer that a get under a number has when it looks for one. -/
theorem answer?_of_expire (h : (f.expire id).1 = .ok (some o)) : f.answer? id = some o := by
  rw [expire, wake] at h
  cases hanswer : f.answer? id with
  | some o' => simpa [hanswer] using h
  | none => cases hclosed : f.closed <;> simp [hanswer, hclosed] at h

/-- The answer that a get under a number has when it is woken. -/
theorem answer?_of_wake (h : (f.wake id).1 = some (.ok o)) : f.answer? id = some o := by
  rw [wake] at h
  cases hanswer : f.answer? id with
  | some o' => simpa [hanswer] using h
  | none => cases hclosed : f.closed <;> simp [hanswer, hclosed] at h

/-- **A get that has begun to wait is answered by an object that it accepts**, however far the
forwarder has gone on since. No earlier get has its number, and no later one is given it. -/
theorem Holds.answer_of_begun (h : f.Holds P)
    (hpending : f'.pending = f.pending ++ [⟨f.nextId, i, none⟩]) (h' : f'.Holds P)
    {f'' : Forwarder} (hgoes : f'.Advances f'') (h'' : f''.Holds P)
    (hanswer : f''.answer? f.nextId = some o) : P o ∧ i.accepts o = true := by
  -- the get that has the answer goes back to one that waited then: it is the one that had begun, as
  -- the earlier ones have smaller numbers and the later ones greater
  obtain ⟨p, hp, hpanswer⟩ := Option.bind_eq_some_iff.1 hanswer
  have hpid : p.id = f.nextId := by simpa using List.find?_some hp
  obtain ⟨hP, haccepts⟩ := h''.answered p (List.mem_of_find?_eq_some hp) o hpanswer
  rcases hgoes.pending p (List.mem_of_find?_eq_some hp) with ⟨q, hq, hcontinues⟩ | ⟨hle, -⟩
  · rw [hpending, List.mem_append, List.mem_singleton] at hq
    rcases hq with hq | rfl
    · have hlt := h.numbered q hq
      have hsame := hcontinues.1
      omega
    · rw [hcontinues.2.1] at haccepts
      exact ⟨hP, haccepts⟩
  · have hlt := h'.numbered ⟨f.nextId, i, none⟩ (by simp [hpending])
    rw [hpid] at hle
    exact absurd hle (Nat.not_le.2 hlt)

end Forwarder

namespace Node

variable {s t : Node} {P : ContentObject → Prop} {i : Interest} {o : ContentObject}

/-- Whether all objects that a node may answer a get with have a property: those that its forwarder
holds and those that its controllers keep. -/
structure Holds (s : Node) (P : ContentObject → Prop) : Prop where
  forwarder : s.network.forwarder.Holds P
  kept : ∀ id c, s.controller? id = some c → ∀ o ∈ c.flow.objects, P o

/-- A new node holds nothing. -/
theorem holds_new (capacity : Nat) (clock : Timestamp) (P : ContentObject → Prop) :
    (new capacity clock).Holds P :=
  ⟨Forwarder.holds_new capacity P, fun _ _ h => nomatch h⟩

/-- What a part of a get does to a node: nothing comes into it, and the gets that wait go on. -/
structure Goes (P : ContentObject → Prop) (s t : Node) : Prop where
  holds : s.Holds P → t.Holds P
  advances : s.network.forwarder.Advances t.network.forwarder

instance : IsPreorder Node (Goes P) where
  refl _ := ⟨fun h => h, .refl _⟩
  trans _ _ _ h h' := ⟨fun hs => h'.holds (h.holds hs), h.advances.trans h'.advances⟩

/-- A change of the network alone. -/
theorem goes_network {n : Network} (hholds : s.network.forwarder.Holds P → n.forwarder.Holds P)
    (hadvances : s.network.forwarder.Advances n.forwarder) : Goes P s { s with network := n } :=
  ⟨fun h => ⟨hholds h.forwarder, h.kept⟩, hadvances⟩

/-- A change of what interests a controller holds. -/
theorem goes_setFlow {id : ControllerId} {c : Controller} (hc : s.controller? id = some c)
    {flow : FlowControl} (hflow : flow.buffer = c.flow.buffer) : Goes P s (s.setFlow id flow) where
  holds h := by
    refine ⟨h.forwarder, fun k d hd p hp => ?_⟩
    rw [controller?_setFlow, Option.map_eq_some_iff] at hd
    obtain ⟨d', hd', rfl⟩ := hd
    by_cases hk : k = id
    · subst hk
      obtain rfl := Option.some.inj (hc.symm.trans hd')
      rw [if_pos rfl, FlowControl.objects, hflow] at hp
      exact h.kept k c hc p hp
    · rw [if_neg hk] at hp
      exact h.kept k d' hd' p hp
  advances := .refl _

/-- An object that the node holds goes out. -/
theorem goes_put (ho : s.Holds P → P o) :
    Goes P s { s with network := (Network.put o s.network).2 } := by
  refine ⟨fun h => ⟨?_, h.kept⟩, (Network.advances_put (l := ⟨0⟩) o).forwarder⟩
  show (Network.put o s.network).2.forwarder.Holds P
  rw [Network.put]
  split
  · next f deliveries hput =>
    obtain ⟨-, d, -, hreceive⟩ := Forwarder.exists_of_put_eq_ok hput
    rw [Network.after_forwarder, show f = _ from congrArg Prod.fst hreceive]
    exact h.forwarder.receive (ho h) d
  · exact h.forwarder

/-- A get leaves the forwarder. -/
theorem goes_forget (s : Node) (id : Nat) :
    Goes P s { s with
      network := { s.network with forwarder := s.network.forwarder.forget id } } :=
  goes_network (fun h => h.forget id) (Forwarder.advances_forget id _)

/-! ## Responding and waiting -/

/-- **Controllers respond** with what they keep. -/
theorem Responds.goes (h : Responds s t) : Goes P s t := by
  cases h with
  | takes interests => exact goes_network (fun h => h) (.refl _)
  | handles hc i => exact goes_setFlow hc (FlowControl.receive_buffer _ i)
  | sends hc ho => exact goes_put fun h => h.kept _ _ hc _ ho

/-- Attending to a get ends it, and the others go on. -/
theorem Attends.goes (h : Attends s t) : Goes P s t := by
  cases h with
  | leaves id => exact goes_forget s id
  | ends key result => exact ⟨fun h => ⟨h.forwarder, h.kept⟩, .refl _⟩

/-- All controllers respond with what they keep. -/
theorem goes_settle (s : Node) : Goes P s s.settle :=
  Relation.reflTransGen_le_of_le (r := Goes P) (fun _ _ => Responds.goes) _ _ (settle_responds s)

/-- While time passes, gets end. -/
theorem goes_pass (s : Node) (milliseconds : Nat) : Goes P s (s.pass milliseconds) :=
  IsTrans.trans _ { s with time := s.time + milliseconds } _
    ⟨fun h => ⟨h.forwarder, h.kept⟩, .refl _⟩
    (Relation.reflTransGen_le_of_le (r := Goes P) (fun _ _ => Attends.goes) _ _ (pass_attends s _))

/-! ## Getting -/

/-- **A get that waits** finds the answer that it has in a state that the node comes to. -/
theorem goes_await (id : Nat) (timeout : Option Nat) (s : Node) :
    Goes P s (await id timeout s).2 ∧ ∀ o, (await id timeout s).1 = .ok (some o) →
      ∃ t, Goes P s t ∧ t.network.forwarder.answer? id = some o := by
  rw [await]
  split
  · next result network hresult =>
    rw [Network.eq_of_wake_eq_some hresult]
    refine ⟨goes_forget s id, fun o ho => ⟨s, Std.Refl.refl s, Forwarder.answer?_of_wake ?_⟩⟩
    have hforwarder : (s.network.forwarder.wake id).1 = some result := congrArg Prod.fst hresult
    rw [hforwarder]
    cases result with
    | ok o' => exact congrArg _ (congrArg _ (Option.some.inj (Except.ok.inj ho)))
    | error e => cases ho
  · -- time runs out: what has been answered by then is found, and nothing after it
    have hpass := goes_pass (P := P) s (timeout.getD 0)
    refine ⟨?_, fun o ho => ⟨_, hpass, Forwarder.answer?_of_expire ho⟩⟩
    rw [onNetwork, Action.focus]
    simp only [Network.expire_snd]
    exact IsTrans.trans _ _ _ hpass (goes_forget _ id)

/-- Whether the get under a number is answered by an object that the interest accepts, if at all,
as long as the node goes on. -/
def AnsweredRightly (P : ContentObject → Prop) (s : Node) (id : Nat) (i : Interest) : Prop :=
  ∀ t, Goes P s t → ∀ o, t.network.forwarder.answer? id = some o → P o ∧ i.accepts o = true

/-- What the beginning of a get may come to. -/
def BeginsRightly (P : ContentObject → Prop) (i : Interest) (s : Node) :
    Except TransportError GetStart → Prop
  | .ok (.found o) => P o ∧ i.accepts o = true
  | .ok (.waiting id) => AnsweredRightly P s id i
  | _ => True

/-- **A get begins**: it finds an object in the store, or waits under a number of its own. -/
theorem Holds.beginGet (h : s.Holds P) (i : Interest) (wait : Bool) :
    (onNetwork (Network.beginGet i wait) s).2.Holds P
      ∧ BeginsRightly P i (onNetwork (Network.beginGet i wait) s).2
          (onNetwork (Network.beginGet i wait) s).1 := by
  rw [onNetwork, Action.focus, Network.beginGet]
  cases hbegin : s.network.forwarder.beginGet i wait with
  | error e => exact ⟨h, trivial⟩
  | ok r =>
    obtain ⟨-, -, rfl⟩ := Forwarder.exists_of_beginGet_eq_ok hbegin
    obtain ⟨hholds, hcases⟩ := h.forwarder.start i wait
    have hbegun : ({ s with
        network := s.network.after (s.network.forwarder.start i wait).2.1
          (s.network.forwarder.start i wait).2.2 } : Node).Holds P :=
      ⟨by rwa [Network.after_forwarder], h.kept⟩
    refine ⟨hbegun, ?_⟩
    obtain ⟨o, ho, haccepts, hstart, -⟩ | ⟨-, hstart, -⟩ | ⟨-, hstart, hpending, -⟩ := hcases
    · simp only [hstart, BeginsRightly]
      exact ⟨ho, haccepts⟩
    · simp only [hstart, BeginsRightly]
    · simp only [hstart, BeginsRightly]
      intro t hgoes o hanswer
      have hadvances := hgoes.advances
      rw [Network.after_forwarder] at hadvances
      exact h.forwarder.answer_of_begun hpending hholds hadvances (hgoes.holds hbegun).forwarder
        hanswer

/-- **A get from beginning to end** finds an object that the node holds and the interest accepts. -/
theorem Holds.fetch (h : s.Holds P) (i : Interest) (timeout : Option Nat) :
    (Node.fetch i timeout s).2.Holds P
      ∧ ∀ o, (Node.fetch i timeout s).1 = .ok (some o) → P o ∧ i.accepts o = true := by
  obtain ⟨hholds, hbegins⟩ := h.beginGet i (timeout != some 0)
  rw [Node.fetch, Action.bind_run]
  rcases hbegin : onNetwork (Network.beginGet i (timeout != some 0)) s with ⟨e | o | - | id, t⟩ <;>
    rw [hbegin] at hholds hbegins
  · exact ⟨hholds, by rintro o ⟨⟩⟩
  · exact ⟨hholds, fun o' ho' => Option.some.inj (Except.ok.inj ho') ▸ hbegins⟩
  · exact ⟨hholds, by rintro o ⟨⟩⟩
  · -- controllers respond to the interest, and then the get waits for what they may have sent
    simp only [Action.bind_run, Action.modify_run]
    have hsettle := goes_settle (P := P) t
    obtain ⟨hawait, hanswer⟩ := goes_await (P := P) id timeout t.settle
    refine ⟨hawait.holds (hsettle.holds hholds), fun o ho => ?_⟩
    obtain ⟨u, hu, hfound⟩ := hanswer o ho
    exact hbegins u (IsTrans.trans _ _ _ hsettle hu) o hfound

/-- **A get through a face**, whatever befalls its attempts. -/
theorem Holds.get (h : s.Holds P) (face : OwnerId) (i : Interest) (timeout : Option Nat) :
    (Node.get face i timeout s).2.Holds P
      ∧ ∀ o, (Node.get face i timeout s).1 = .ok (some o) → P o ∧ i.accepts o = true := by
  have hends := retry_ends (s.face face).retry .get
    (fun elapsed => Node.fetch i (timeout.map (· - elapsed))) s.schedule 1 0
    (s.face face).cancelled s
  rw [Node.get, call]
  generalize retry (s.face face).retry .get
    (fun elapsed => Node.fetch i (timeout.map (· - elapsed))) s.schedule 1 0
    (s.face face).cancelled s = ended at hends ⊢
  have hright : ended.state.Holds P
      ∧ ∀ o, ended.result = .ok (some o) → P o ∧ i.accepts o = true := by
    rcases hends with ⟨e, hresult, hstate⟩ | ⟨elapsed, hresult, hstate⟩
    · rw [hresult, hstate]
      exact ⟨h, by rintro o ⟨⟩⟩
    · obtain ⟨hholds, hfound⟩ := h.fetch i (timeout.map (· - elapsed))
      rw [hresult, hstate]
      exact ⟨hholds, fun o ho => hfound o (mapError_eq_ok_iff.1 ho)⟩
  refine ⟨?_, hright.2⟩
  -- that its face may be cancelled makes no difference
  cases ended.cancelled <;> exact ⟨hright.1.forwarder, hright.1.kept⟩

end Node

end NamedContent
