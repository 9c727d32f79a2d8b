import NamedContent.Proofs.Forwarder.Turns
import NamedContent.Proofs.Node.Twins

/-! # What an attempt knows of the others

An attempt that comes to the forwarder is a matter of the forwarder and the controllers alone. It
never ends with an interruption, which would have it made again, and it neither asks what befalls
other attempts nor changes it.

* `Network.put_ne_interrupted`, `Node.fetch_ne_interrupted`: how attempts do not end
* `Node.reschedule`, `Node.Rescheduled`: nodes that differ in what befalls the attempts, which an
  attempt does not tell apart -/

namespace NamedContent

/-! ## What the forwarder refuses -/

section Refusals

variable {α β : Type}

/-- What is done in two parts is not interrupted if neither part is. -/
theorem bind_ne_interrupted {x : Except TransportError α} {f : α → Except TransportError β}
    (hx : x ≠ .error .interrupted) (hf : ∀ a, f a ≠ .error .interrupted) :
    (x >>= f) ≠ .error .interrupted := by
  cases x with
  | error e => exact fun h => hx (congrArg Except.error (Except.error.inj h))
  | ok a => exact hf a

/-- An object or interest that cannot be written is no interruption. -/
theorem codec_ne_interrupted (x : Except FormatError α) :
    x.mapError TransportError.codec ≠ .error .interrupted := by
  cases x <;> simp [mapError_ok, mapError_error]

namespace Forwarder

variable (f : Forwarder)

/-- A forwarder that is shut down is no interruption. -/
theorem ensureOpen_ne_interrupted : f.ensureOpen ≠ .error .interrupted := by
  cases h : f.closed <;> simp [ensureOpen, h]

/-- A put is not interrupted at the forwarder. -/
theorem put_ne_interrupted (o : ContentObject) : f.put o ≠ .error .interrupted := by
  refine bind_ne_interrupted f.ensureOpen_ne_interrupted fun _ =>
    bind_ne_interrupted (codec_ne_interrupted _) fun _ => ?_
  dsimp only
  split <;> rintro ⟨⟩

/-- The beginning of a get is not interrupted at the forwarder. -/
theorem beginGet_ne_interrupted (i : Interest) (wait : Bool) :
    f.beginGet i wait ≠ .error .interrupted := by
  refine bind_ne_interrupted f.ensureOpen_ne_interrupted fun _ =>
    bind_ne_interrupted (codec_ne_interrupted _) fun _ => ?_
  split
  · rintro ⟨⟩
  · cases wait <;> rintro ⟨⟩

/-- Expressing a standing interest is not interrupted at the forwarder. -/
theorem express_ne_interrupted (s : StandingInterest) : f.express s ≠ .error .interrupted := by
  refine bind_ne_interrupted f.ensureOpen_ne_interrupted fun _ =>
    bind_ne_interrupted (codec_ne_interrupted _) fun _ => ?_
  split <;> rintro ⟨⟩

/-- Setting a filter is not interrupted at the forwarder. -/
theorem setFilter_ne_interrupted (g : InterestFilter) : f.setFilter g ≠ .error .interrupted := by
  refine bind_ne_interrupted f.ensureOpen_ne_interrupted fun _ => ?_
  split <;> rintro ⟨⟩

/-- Taking a filter away is not interrupted at the forwarder. -/
theorem cancelFilter_ne_interrupted (g : InterestFilter) :
    f.cancelFilter g ≠ .error .interrupted :=
  bind_ne_interrupted f.ensureOpen_ne_interrupted fun _ h => by cases h

/-- Taking a standing interest back is not interrupted at the forwarder. -/
theorem cancelInterest_ne_interrupted (s : StandingInterest) :
    f.cancelInterest s ≠ .error .interrupted :=
  bind_ne_interrupted f.ensureOpen_ne_interrupted fun _ h => by cases h

/-- A get that is woken is not interrupted. -/
theorem wake_ne_interrupted (id : Nat) : (f.wake id).1 ≠ some (.error .interrupted) := by
  obtain ⟨o, -, heq⟩ | ⟨-, ⟨-, heq⟩ | ⟨-, heq⟩⟩ := f.wake_cases id <;> rw [heq] <;> rintro ⟨⟩

/-- A get that gives up is not interrupted. -/
theorem expire_ne_interrupted (id : Nat) : (f.expire id).1 ≠ .error .interrupted := by
  rw [expire]
  obtain ⟨o, -, heq⟩ | ⟨-, ⟨-, heq⟩ | ⟨-, heq⟩⟩ := f.wake_cases id <;> rw [heq] <;> rintro ⟨⟩

end Forwarder

namespace Network

variable (n : Network)

/-- A put is not interrupted on the network. -/
theorem put_ne_interrupted (o : ContentObject) : (put o n).1 ≠ .error .interrupted := by
  rw [put]
  split
  · rintro ⟨⟩
  · next e h =>
    intro heq
    exact n.forwarder.put_ne_interrupted o (h.trans (congrArg _ (Except.error.inj heq)))

/-- The beginning of a get is not interrupted on the network. -/
theorem beginGet_ne_interrupted (i : Interest) (wait : Bool) :
    (beginGet i wait n).1 ≠ .error .interrupted := by
  rw [beginGet]
  split
  · rintro ⟨⟩
  · next e h =>
    intro heq
    exact n.forwarder.beginGet_ne_interrupted i wait (h.trans (congrArg _ (Except.error.inj heq)))

/-- Expressing a standing interest is not interrupted on the network. -/
theorem express_ne_interrupted (s : StandingInterest) :
    (express s n).1 ≠ .error .interrupted := by
  rw [express]
  split
  · rintro ⟨⟩
  · next e h =>
    intro heq
    exact n.forwarder.express_ne_interrupted s (h.trans (congrArg _ (Except.error.inj heq)))

/-- No step is interrupted on the network if what it changes at the forwarder is not. -/
theorem step_ne_interrupted {change : Forwarder → Except TransportError Forwarder}
    (hchange : ∀ f, change f ≠ .error .interrupted) : (step change n).1 ≠ .error .interrupted := by
  rw [step]
  split
  · rintro ⟨⟩
  · next e h =>
    intro heq
    exact hchange n.forwarder (h.trans (congrArg _ (Except.error.inj heq)))

end Network

end Refusals

namespace Node

/-- Waiting for the result of a get is not interrupted. -/
theorem await_ne_interrupted (id : Nat) (timeout : Option Nat) (s : Node) :
    (await id timeout s).1 ≠ .error .interrupted := by
  rw [await]
  split
  · next result network h =>
    have hresult : (s.network.forwarder.wake id).1 = some result := congrArg Prod.fst h
    have hwake := s.network.forwarder.wake_ne_interrupted id
    rw [hresult] at hwake
    cases result with
    | ok o => rintro ⟨⟩
    | error e => exact fun heq => hwake (congrArg _ (congrArg _ (Except.error.inj heq)))
  · exact (s.pass _).network.forwarder.expire_ne_interrupted id

/-- **No get is interrupted** once it has come to the forwarder. -/
theorem fetch_ne_interrupted (i : Interest) (timeout : Option Nat) (s : Node) :
    (fetch i timeout s).1 ≠ .error .interrupted := by
  have hbegin := s.network.beginGet_ne_interrupted i (timeout != some 0)
  rw [fetch, Action.bind_run, onNetwork, Action.focus]
  rcases h : Network.beginGet i (timeout != some 0) s.network with ⟨e | o | - | id, n⟩ <;>
    rw [h] at hbegin
  · exact fun heq => hbegin (congrArg _ (Except.error.inj heq))
  · rintro ⟨⟩
  · rintro ⟨⟩
  · exact await_ne_interrupted id timeout _

/-! ## What befalls other calls -/

variable {s : Node} {rest : List Attempt} {calls : Nat}

/-- The node when other things befall the next attempts, and another number of them was made
before. -/
def reschedule (rest : List Attempt) (calls : Nat) (s : Node) : Node :=
  { s with schedule := rest, calls }

/-- Whether a node is another one, rescheduled. -/
def Rescheduled (rest : List Attempt) (calls : Nat) (s t : Node) : Prop :=
  t = s.reschedule rest calls

/-- **What befalls other attempts is not asked for** in an attempt. -/
instance : Twins (Rescheduled rest calls) where
  network h := h ▸ rfl
  queues h := h ▸ rfl
  controllers h _ := h ▸ rfl
  cancelled h _ := h ▸ rfl
  gets h := h ▸ rfl
  time h := h ▸ rfl
  setFlow h _ _ := h ▸ rfl
  update h _ _ _ := h ▸ rfl

end Node

end NamedContent
