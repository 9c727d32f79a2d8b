import Mathlib.Logic.Relation
import NamedContent.Proofs.Action.Keeping
import NamedContent.Proofs.Face.Calls
import NamedContent.Proofs.Flow.Operations
import NamedContent.Proofs.Forwarder.Turns
import NamedContent.Proofs.Node.Parts

/-! # What calls change

Whatever becomes of a node in a call is put together from a few small changes. Controllers that
respond take interests out of the mail, handle them, and let out objects that they keep. Gets that
end leave the forwarder and have their results. Besides, a call reaches the network, changes a
controller, uses up what befalls its attempts, and may cancel its face. So it is enough to know what
each of these changes keeps.

* `Node.Responds`, `Node.Attends`, `Node.Works`: the changes
* `Node.settle_responds`, `Node.pass_attends`: what responding and waiting come to
* `Node.get_works`, `Node.addNamespace_works`, `Node.publishAll_works`: what calls come to
* `Node.keeps_of_works`: calls keep what every change keeps
* `Node.Steady`: no call changes the clock, the last minted time and the queues -/

namespace NamedContent.Node

open Relation

variable {s t : Node} {id : ControllerId} {c : Controller}

/-! ## Changes -/

/-- What a controller that responds does to a node, one thing at a time. -/
inductive Responds : Node → Node → Prop where
  /-- Interests are taken out of the mail. -/
  | takes (s : Node) (interests : Mail Interest) :
    Responds s { s with network := { s.network with interests } }
  /-- It handles an interest, which it may hold from then on. -/
  | handles {s : Node} {id : ControllerId} {c : Controller} (hc : s.controller? id = some c)
    (i : Interest) : Responds s (s.setFlow id (c.flow.receive i).2)
  /-- It lets out an object that it keeps. -/
  | sends {s : Node} {id : ControllerId} {c : Controller} (hc : s.controller? id = some c)
    {o : ContentObject} (ho : o ∈ c.flow.objects) :
    Responds s { s with network := (Network.put o s.network).2 }

/-- What attending to a get does to a node, one thing at a time. -/
inductive Attends : Node → Node → Prop where
  /-- The get leaves the forwarder. -/
  | leaves (s : Node) (n : Nat) :
    Attends s { s with network := { s.network with forwarder := s.network.forwarder.forget n } }
  /-- A get in the background has its result. -/
  | ends (s : Node) (key : GetId) (result : Except TransportError (Option ContentObject)) :
    Attends s { s with gets := s.gets.insert key (.ended result) }

/-- What a call does to a node, one thing at a time. -/
inductive Works : Node → Node → Prop where
  /-- The network is reached. -/
  | reaches (s : Node) (network : Network) : Works s { s with network }
  /-- A controller changes. -/
  | controls (s : Node) (id : ControllerId) (flow : FlowControl) : Works s (s.setFlow id flow)
  /-- A get in the background has its result. -/
  | ends (s : Node) (key : GetId) (result : Except TransportError (Option ContentObject)) :
    Works s { s with gets := s.gets.insert key (.ended result) }
  /-- Time passes. -/
  | passes (s : Node) (milliseconds : Nat) : Works s { s with time := s.time + milliseconds }
  /-- Attempts are made. -/
  | spends (s : Node) (schedule : List Attempt) (calls : Nat) : Works s { s with schedule, calls }
  /-- A face is cancelled. -/
  | cancels (s : Node) (face : OwnerId) : Works s (s.cancelFace face)

/-- Controllers respond in the course of calls. -/
theorem Responds.works (h : Responds s t) : Works s t := by
  cases h with
  | takes interests => exact .reaches ..
  | handles hc i => exact .controls ..
  | sends hc ho => exact .reaches ..

/-- Gets are attended to in the course of calls. -/
theorem Attends.works (h : Attends s t) : Works s t := by
  cases h with
  | leaves n => exact .reaches ..
  | ends key result => exact .ends ..

/-! ## Responding -/

/-- A controller lets out an object that it keeps, unless its face is cancelled. -/
theorem emit_responds (hc : s.controller? id = some c) {o : ContentObject}
    (ho : o ∈ c.flow.objects) (face : OwnerId) : ReflTransGen Responds s (s.emit face o) := by
  rw [emit]
  split
  · exact .refl
  · exact .single (.sends hc ho)

/-- **A controller responds** to an interest. -/
theorem respond_responds (id : ControllerId) (s : Node) (i : Interest) :
    ReflTransGen Responds s (respond id s i) := by
  rw [respond]
  cases hc : s.controller? id with
  | none => exact .refl
  | some c =>
    have hhandles : Responds s (s.setFlow id (c.flow.receive i).2) := .handles hc i
    cases hselect : i.select c.flow.objects with
    | none =>
      simp only [FlowControl.receive_eq_none hselect] at hhandles ⊢
      exact .single hhandles
    | some o =>
      simp only [FlowControl.receive_eq_some hselect] at hhandles ⊢
      have hc' : (s.setFlow id c.flow).controller? id = some c := by
        rw [controller?_setFlow, hc, Option.map_some, if_pos rfl]
      exact .head hhandles (emit_responds hc' (Interest.mem_of_selectOn hselect).1 c.face)

/-- A controller handles its queue. -/
theorem drainQueue_responds (s : Node) (q : ControllerId × ListenerId) :
    ReflTransGen Responds s (s.drainQueue q) :=
  .head (.takes s _) (foldl_keeps (R := ReflTransGen Responds) (respond_responds q.1) _ _)

/-- **All controllers respond.** -/
theorem settle_responds (s : Node) : ReflTransGen Responds s s.settle := by
  rw [settle_eq]
  exact foldl_keeps (R := ReflTransGen Responds) drainQueue_responds _ _

/-! ## Waiting -/

/-- A get in the background is attended to. -/
theorem attend_attends (s : Node) (entry : GetId × BackgroundGet) :
    ReflTransGen Attends s (attend s entry) := by
  obtain ⟨key, get⟩ := entry
  cases get with
  | ended result => exact .refl
  | waiting id deadline =>
    simp only [attend]
    split
    · rw [Network.expire_snd]
      exact .head (.leaves s id) (.single (.ends ..))
    · split
      · exact .refl
      · next result network hwake =>
        rw [Network.eq_of_wake_eq_some hwake]
        exact .head (.leaves s id) (.single (.ends ..))

/-- **Time passes**, and then gets in the background are attended to. -/
theorem pass_attends (s : Node) (milliseconds : Nat) :
    ReflTransGen Attends { s with time := s.time + milliseconds } (s.pass milliseconds) :=
  foldl_keeps (R := ReflTransGen Attends) attend_attends _ _

/-! ## Calls -/

/-- Whatever responding does is the work of a call. -/
theorem settle_works (s : Node) : ReflTransGen Works s s.settle :=
  ReflTransGen.mono (fun _ _ => Responds.works) _ _ (settle_responds s)

/-- Whatever waiting does is the work of a call. -/
theorem pass_works (s : Node) (milliseconds : Nat) : ReflTransGen Works s (s.pass milliseconds) :=
  .head (.passes s milliseconds)
    (ReflTransGen.mono (fun _ _ => Attends.works) _ _ (pass_attends s milliseconds))

/-- An action on the network. -/
theorem onNetwork_works {ε α : Type} (x : Action Network ε α) :
    (onNetwork x).Keeps (ReflTransGen Works) := fun s => .single (.reaches s _)

/-- **A call** does what one of its attempts does, and comes to an end. -/
theorem call_works {α : Type} {x : Nat → Action Node TransportError α}
    (hx : ∀ elapsed, (x elapsed).Keeps (ReflTransGen Works)) (face : OwnerId)
    (operation : Operation) : (call face operation x).Keeps (ReflTransGen Works) := by
  intro s
  have hends := retry_ends (s.face face).retry operation x s.schedule 1 0
    (s.face face).cancelled s
  rw [call]
  generalize retry (s.face face).retry operation x s.schedule 1 0 (s.face face).cancelled s = ended
    at hends ⊢
  have hstate : ReflTransGen Works s ended.state := by
    rcases hends with ⟨-, -, hstate⟩ | ⟨elapsed, -, hstate⟩
    · rw [hstate]
    · rw [hstate]
      exact hx elapsed s
  cases ended.cancelled with
  | false => exact hstate.tail (.spends ..)
  | true => exact (hstate.tail (.cancels ended.state face)).tail (.spends ..)

/-- A get waits for its result. -/
theorem await_works (id : Nat) (timeout : Option Nat) :
    (await id timeout).Keeps (ReflTransGen Works) := by
  intro s
  rw [await]
  split
  · exact .single (.reaches ..)
  · exact (pass_works s _).tail (.reaches ..)

/-- A get from beginning to end. -/
theorem fetch_works (i : Interest) (timeout : Option Nat) :
    (fetch i timeout).Keeps (ReflTransGen Works) := by
  refine (onNetwork_works _).bind fun start => ?_
  cases start with
  | found o => exact .pure _
  | absent => exact .pure _
  | waiting id => exact (Action.Keeps.modify settle_works).bind fun _ => await_works id timeout

/-- **A get through a face.** -/
theorem get_works (id : OwnerId) (i : Interest) (timeout : Option Nat) :
    (get id i timeout).Keeps (ReflTransGen Works) :=
  call_works (fun _ => fetch_works i _) id .get

/-- What is done with a controller. -/
theorem withController_works {ε : Type} (id : ControllerId)
    {x : Controller → Action Node ε Unit} (hx : ∀ c, (x c).Keeps (ReflTransGen Works)) :
    (withController id x).Keeps (ReflTransGen Works) := by
  intro s
  rw [withController]
  split
  · exact .refl
  · exact hx _ s

/-- A change of a controller. -/
theorem changeFlow_works {ε : Type} (id : ControllerId) (f : FlowControl → FlowControl) :
    (changeFlow (ε := ε) id f).Keeps (ReflTransGen Works) :=
  withController_works id fun _ => .modify fun s => .single (.controls s id _)

/-- **Adding a namespace**, which may be taken away again. -/
theorem addNamespace_works (id : ControllerId) (root : Name) :
    (addNamespace id root).Keeps (ReflTransGen Works) := by
  refine withController_works id fun c => ?_
  split
  · exact .pure _
  · refine (changeFlow_works id _).bind fun _ => ?_
    refine (call_works (fun _ => onNetwork_works _) c.face .registerFilter).attempt.bind
      fun result => ?_
    cases result with
    | ok _ => exact .pure _
    | error e => exact (changeFlow_works id _).bind fun _ => .fail _

/-- Taking a namespace away. -/
theorem removeNamespace_works (id : ControllerId) (root : Name) :
    (removeNamespace id root).Keeps (ReflTransGen Works) := by
  refine withController_works id fun c => ?_
  split
  · exact .pure _
  · exact (changeFlow_works id _).bind fun _ =>
      (call_works (fun _ => onNetwork_works _) c.face .unregisterFilter).mapError _

/-- **Publishing an object.** -/
theorem publish_works (id : ControllerId) (o : ContentObject) :
    (publish id o).Keeps (ReflTransGen Works) := by
  refine Action.Keeps.bind (.ofExcept _) fun _ => withController_works id fun c => ?_
  -- what follows the check of the namespace
  have hput : ∀ used flow, (match (used, flow) with
      | (none, flow) => Action.modify fun s => s.setFlow id flow
      | (some (_ : Interest), flow) => do
        Action.modify fun s => s.setFlow id flow
        Action.mapError FlowError.face (put c.face o) : Action Node FlowError Unit).Keeps
      (ReflTransGen Works) := by
    intro used flow
    have hset : (Action.modify fun s => s.setFlow id flow : Action Node FlowError Unit).Keeps
        (ReflTransGen Works) := .modify fun s => .single (.controls s id flow)
    cases used with
    | none => exact hset
    | some i =>
      exact hset.bind fun _ => (call_works (fun _ => onNetwork_works _) c.face .put).mapError _
  show (ite _ _ _ : Action Node FlowError Unit).Keeps (ReflTransGen Works)
  split
  · exact (Action.Keeps.fail _).bind fun _ => hput _ _
  · exact hput _ _

/-- Publishing objects, one after the other. -/
theorem publishAll_works (id : ControllerId) (objects : List ContentObject) :
    (publishAll id objects).Keeps (ReflTransGen Works) :=
  .forM fun o _ => publish_works id o

/-- **Calls keep what every change keeps.** -/
theorem keeps_of_works {ε α : Type} {R : Node → Node → Prop} [IsPreorder Node R]
    (hR : ∀ s t, Works s t → R s t) {x : Action Node ε α} (hx : x.Keeps (ReflTransGen Works)) :
    x.Keeps R :=
  hx.mono (reflTransGen_le_of_le hR)

/-! ## What does not change -/

/-- Whether the clock, the last minted time and the queues are the same on two nodes. -/
structure Steady (s t : Node) : Prop where
  clock : t.clock = s.clock
  lastMinted : t.lastMinted = s.lastMinted
  queues : t.queues = s.queues

instance : IsPreorder Node Steady where
  refl _ := ⟨rfl, rfl, rfl⟩
  trans _ _ _ h h' := ⟨h'.clock.trans h.clock, h'.lastMinted.trans h.lastMinted,
    h'.queues.trans h.queues⟩

/-- **No change sets the clock, mints a time or touches a queue.** -/
theorem Works.steady (h : Works s t) : Steady s t := by
  cases h with
  | controls id flow => exact ⟨rfl, rfl, queues_setFlow s id flow⟩
  | _ => exact ⟨rfl, rfl, rfl⟩

/-- A run of changes leaves all that as it was. -/
theorem steady_of_works (h : ReflTransGen Works s t) : Steady s t :=
  reflTransGen_le_of_le (r := Steady) (fun _ _ => Works.steady) _ _ h

/-- Adding a namespace leaves all that as it was. -/
theorem addNamespace_steady (id : ControllerId) (root : Name) (s : Node) :
    Steady s (addNamespace id root s).2 := steady_of_works (addNamespace_works id root s)

/-- Publishing objects leaves all that as it was. -/
theorem publishAll_steady (id : ControllerId) (objects : List ContentObject) (s : Node) :
    Steady s (publishAll id objects s).2 := steady_of_works (publishAll_works id objects s)

/-- Responding leaves all that as it was. -/
theorem steady_of_responds (h : ReflTransGen Responds s t) : Steady s t :=
  steady_of_works (ReflTransGen.mono (fun _ _ => Responds.works) _ _ h)

end NamedContent.Node
