import NamedContent.Proofs.Object.Sharing

/-! # Saves that fail

A save that fails leaves its object as it was, and nothing that it did to the network or to its
namespaces shows up in later updates. What may show up are published objects: each is kept by the
flow controller before it goes out in answer to an interest, and stays there when that fails. So an
update may find a version whose save has failed, and does when it was asked for before. With a
signer that may fail, the namespace of the objects may be left behind too, without the objects.

* `Node.LooksLike`: nodes on which all later updates have the same results
* `SaveCall.failed_looksLike`: what a failed call leaves behind
* `SaveCall.failed_save_observed`: a failed save that a reader observes -/

namespace NamedContent

variable {α : Type}

/-! ## Later updates -/

namespace VersionedObject

/-- Whether an object is the same in two nodes that are alike. -/
def AlikeWith (p q : VersionedObject α × Node) : Prop := p.1 = q.1 ∧ p.2.Alike q.2

/-- What is done on the node tells objects apart only if it tells the nodes apart. -/
theorem onNode_respects {ε β : Type} {x : Action Node ε β} (hx : x.Respects Node.Alike) :
    (onNode x : Op α ε β).Respects AlikeWith :=
  hx.focus (fun _ _ h => h.2) fun _ _ _ _ h hs => ⟨h.1, hs⟩

/-- Looking at the object is the same on nodes that are alike. -/
theorem self_respects {ε : Type} : (self : Op α ε (VersionedObject α)).Respects AlikeWith :=
  fun _ _ h => ⟨congrArg Except.ok h.1, h⟩

/-- Changing the object is the same on nodes that are alike. -/
theorem change_respects {ε : Type} (f : VersionedObject α → VersionedObject α) :
    (change (ε := ε) f).Respects AlikeWith :=
  .modify fun _ _ h => ⟨congrArg f h.1, h.2⟩

/-- An object takes up what was read in the same way on nodes that are alike. -/
theorem absorb_respects (codec : PayloadCodec α) (read : Except ReadError StreamContent) :
    (absorb codec read).Respects AlikeWith := by
  cases read with
  | ok stream =>
    refine Action.Respects.bind (.ofExcept _) fun data => ?_
    refine Action.Respects.bind ?_ fun _ => change_respects _
    exact self_respects.bind fun o =>
      (onNode_respects (Node.addNamespace_respects o.controller stream.name)).mapError _
  | error e =>
    cases e with
    | gone name => exact change_respects _
    | _ => exact .fail _

/-- **An update** has the same result on nodes that are alike, and leaves such nodes behind. -/
theorem update_respects (codec : PayloadCodec α) : (update codec).Respects AlikeWith := by
  refine Action.Respects.bind ?_ fun name => ?_
  · refine self_respects.bind fun o => ?_
    cases o.name with
    | some name => exact .pure name
    | none => exact .fail _
  · refine self_respects.bind fun o => ?_
    exact (onNode_respects (o.client.read_respects name.versionRoot)).attempt.bind
      fun read => absorb_respects codec read

end VersionedObject

/-- An object that is updated, with the codec for its values. -/
structure Reading where
  /-- What its values are. -/
  Value : Type
  /-- How they are read. -/
  codec : PayloadCodec Value
  /-- The object. -/
  object : VersionedObject Value

namespace Reading

/-- The object is updated: the result with the object then, and the node. -/
def update (r : Reading) (s : Node) : (Except ObjectError Unit × Reading) × Node :=
  let left := VersionedObject.update r.codec (r.object, s)
  ((left.1, { r with object := left.2.1 }), left.2.2)

/-- What is observed when objects are updated in an order: every result, with the object then. -/
def observed : (order : List Nat) → (readings : Nat → Reading) → Node →
    List (Except ObjectError Unit × Reading)
  | [], _, _ => []
  | k :: order, readings, s =>
    let left := (readings k).update s
    left.1 :: observed order (fun j => if j = k then left.1.2 else readings j) left.2

/-- A reader finds the same on nodes that are alike, and leaves them alike. -/
theorem update_alike (r : Reading) {s t : Node} (h : s.Alike t) :
    (r.update s).1 = (r.update t).1 ∧ (r.update s).2.Alike (r.update t).2 := by
  obtain ⟨hresult, hobject, hnode⟩ :=
    VersionedObject.update_respects r.codec (r.object, s) (r.object, t) ⟨rfl, h⟩
  refine ⟨?_, hnode⟩
  simp only [update, hresult, hobject]

/-- **Updates on nodes that are alike** observe the same, in any order. By induction on the order:
each update leaves nodes behind that are alike. -/
theorem observed_alike (order : List Nat) (readings : Nat → Reading) {s t : Node}
    (h : s.Alike t) : observed order readings s = observed order readings t := by
  induction order generalizing readings s t with
  | nil => rfl
  | cons k order ih =>
    obtain ⟨hseen, hnode⟩ := (readings k).update_alike h
    simp only [observed, hseen, ih _ hnode]

end Reading

/-- Whether all later updates of any objects have the same results on two nodes, whatever befalls
their calls from now on. -/
def Node.LooksLike (s t : Node) : Prop :=
  ∀ (faces : Table OwnerId Face) (schedule : List Attempt) (order : List Nat)
    (readings : Nat → Reading),
    Reading.observed order readings { s with faces, schedule }
      = Reading.observed order readings { t with faces, schedule }

/-- Nodes that agree look alike to every reader. -/
theorem Node.Agrees.looksLike {s t : Node} (h : s.Agrees t) : s.LooksLike t :=
  fun faces schedule order readings =>
    Reading.observed_alike order readings (h.alike faces schedule)

/-! ## Calls that fail -/

namespace SaveCall

/-- Whether a call that failed left its object as it was, and its node too, save that the namespace
is there if the objects below it could not be signed, and that the publication may be cut short
where an object was to go out. -/
def FailsCleanly (space : Option Name)
    (publication : Except ObjectError (Name × List ContentObject))
    (o : VersionedObject α) (s : Node) (e : ObjectError) (left : VersionedObject α × Node) : Prop :=
  left.1 = o ∧ (left.2.Agrees s
    ∨ (∃ root cause, space = some root ∧ e = .flow (.signing cause)
      ∧ (∃ message, o.client.signer.sign message = .error cause)
      ∧ left.2.Agrees (s.opened o.controller root))
    ∨ ∃ root before unit rest cause,
      publication = .ok (root, before ++ unit :: rest) ∧ e = .flow (.face cause)
        ∧ s.Awaits o.controller unit ∧ left.2.Agrees (s.cutShort o.controller root before unit))

variable {codec : PayloadCodec α} {o : VersionedObject α} {s : Node} {name : Name} {e : ObjectError}

/-- **A publication that fails** after a time may have been minted for it does so cleanly. -/
theorem failsCleanly_saved {space : Option Name} {β : Type} {root : Name}
    {units : List ContentObject}
    (hunits : ∀ u ∈ units, u.Valid ∧ root.isPrefixOf u.name = true) {full : Name} {isGone : Bool}
    {time last : Timestamp} {b : β} {left : Except ObjectError β × VersionedObject α × Node}
    (hleft : left = o.saved full isGone time b
      (Node.publishBelow o.controller root units { s with lastMinted := last }))
    (h : left.1 = .error e) : FailsCleanly space (.ok (root, units)) o s e left.2 := by
  subst hleft
  obtain ⟨cause, hput, rfl, hleft⟩ := VersionedObject.exists_of_saved_error h
  rw [hleft]
  -- the time that was minted last shows up nowhere
  have hminted : Node.Agrees { s with lastMinted := last } s := { Node.Agrees.refl s with }
  obtain ⟨face, rfl, hagrees | ⟨before, unit, rest, rfl, hawaits, hcut⟩⟩ :=
    Node.publishBelow_error hminted hunits hput
  · exact ⟨rfl, .inl hagrees⟩
  · exact ⟨rfl, .inr (.inr ⟨root, before, unit, rest, face, rfl, rfl, hawaits, hcut⟩)⟩

/-- **A failed save** of a value. -/
theorem saveTo_error (h : (VersionedObject.saveTo codec name (o, s)).1 = .error e) :
    FailsCleanly (some name.versionRoot) (ofValue codec o s name) o s e
      (VersionedObject.saveTo codec name (o, s)).2 := by
  cases hdirty : o.copy.dirty with
  | false =>
    -- an object without changes is not saved at all
    rw [VersionedObject.saveTo_of_clean codec name hdirty] at h
    cases h
  | true =>
    cases hpublication : ofValue codec o s name with
    | error cause =>
      obtain ⟨e', s', heq, hleft⟩ :=
        VersionedObject.saveTo_of_no_publication hdirty hpublication
      rw [heq] at h ⊢
      obtain rfl : e' = e := Except.error.inj h
      obtain ⟨-, hagrees⟩ | ⟨cause, rfl, hunsigned, hagrees⟩ := hleft
      · exact ⟨rfl, .inl hagrees⟩
      · exact ⟨rfl, .inr (.inl ⟨_, cause, rfl, rfl, hunsigned, hagrees⟩)⟩
    | ok publication =>
      obtain ⟨time, -, heq⟩ := VersionedObject.saveTo_of_publication hdirty hpublication
      exact failsCleanly_saved (ofValue_below hpublication) heq h

/-- **A failed save** of a tombstone. -/
theorem saveAsGone_error (h : (VersionedObject.saveAsGone name (o, s)).1 = .error e) :
    FailsCleanly (some name) (ofTombstone o s name) o s e
      (VersionedObject.saveAsGone name (o, s)).2 := by
  cases hpublication : ofTombstone o s name with
  | error cause =>
    obtain ⟨last, heq⟩ := VersionedObject.saveAsGone_of_no_publication hpublication
    rw [heq]
    exact ⟨rfl, .inl { Node.Agrees.refl s with }⟩
  | ok publication =>
    obtain ⟨time, -, heq⟩ := VersionedObject.saveAsGone_of_publication hpublication
    exact failsCleanly_saved (ofTombstone_below hpublication) heq h

/-- **Any call that fails** does so cleanly. -/
theorem run_error {call : SaveCall} (h : (call.run codec (o, s)).1 = .error e) :
    FailsCleanly (call.space o) (call.publication codec o s) o s e (call.run codec (o, s)).2 := by
  cases call with
  | saveTo name =>
    obtain ⟨hsave, hleft⟩ := Action.error_of_drop h
    rw [run, hleft]
    exact saveTo_error hsave
  | saveAsGone name => exact saveAsGone_error h
  | save =>
    obtain ⟨hsave, hleft⟩ := Action.error_of_drop h
    rw [run, hleft]
    cases hname : o.name with
    | none =>
      rw [VersionedObject.save, VersionedObject.requireName_of_none hname]
      exact ⟨rfl, .inl (.refl s)⟩
    | some name =>
      rw [VersionedObject.save_eq codec hname] at hsave ⊢
      rw [publication, space, hname]
      exact saveTo_error hsave
  | saveRootAsGone =>
    rw [run] at h ⊢
    cases hname : o.name with
    | none =>
      rw [VersionedObject.saveRootAsGone, VersionedObject.requireName_of_none hname]
      exact ⟨rfl, .inl (.refl s)⟩
    | some name =>
      rw [VersionedObject.saveRootAsGone_eq hname] at h ⊢
      rw [publication, space, hname]
      exact saveAsGone_error h

/-- **What a failed call leaves behind.** The object is as it was. All later updates of other
objects have the same results as without the call, unless it failed where an object of the
publication was to go out in answer to an interest that was held. Then they have the same results as
if the objects before that one had been published, and that one kept. With a signer that may fail,
they may also have the same results as if the namespace of the objects had been added. -/
theorem failed_looksLike {call : SaveCall} (h : (call.run codec (o, s)).1 = .error e) :
    (call.run codec (o, s)).2.1 = o
      ∧ ((call.run codec (o, s)).2.2.LooksLike s
        ∨ (∃ root cause, call.space o = some root ∧ e = .flow (.signing cause)
          ∧ (∃ message, o.client.signer.sign message = .error cause)
          ∧ (call.run codec (o, s)).2.2.LooksLike (s.opened o.controller root))
        ∨ ∃ root before unit rest cause,
          call.publication codec o s = .ok (root, before ++ unit :: rest)
            ∧ e = .flow (.face cause) ∧ s.Awaits o.controller unit
            ∧ (call.run codec (o, s)).2.2.LooksLike
                (s.cutShort o.controller root before unit)) := by
  obtain ⟨hobject, hagrees | ⟨root, cause, hspace, he, hunsigned, hagrees⟩
    | ⟨root, before, unit, rest, cause, hpublication, he, hawaits, hagrees⟩⟩ := run_error h
  · exact ⟨hobject, .inl hagrees.looksLike⟩
  · exact ⟨hobject, .inr (.inl ⟨root, cause, hspace, he, hunsigned, hagrees.looksLike⟩)⟩
  · exact ⟨hobject, .inr (.inr ⟨root, before, unit, rest, cause, hpublication, he, hawaits,
      hagrees.looksLike⟩)⟩

/-- A tombstone fails because the filter of its namespace cannot be set. -/
theorem failed_looksLike_unregistered :
    let codec : PayloadCodec Unit := ⟨fun _ => .ok [], fun _ => .ok ()⟩
    let root : Name := ⟨[⟨[1]⟩]⟩
    let w := Sharing.start 0 ⟨0⟩ root ⟨default, .echo, .echo, {}, 3⟩ (α := Unit) .empty
    let s : Node := { w.node with schedule := [{ failure := some .closed }] }
    let call : SaveCall := .saveAsGone root
    let left := call.run codec (w.writer, s)
    left.1 = .error (.flow (.face (.transport .closed))) ∧ left.2.1 = w.writer
      ∧ (left.2.2.LooksLike s ∨ ∃ below before unit rest cause,
        call.publication codec w.writer s = .ok (below, before ++ unit :: rest)
          ∧ ObjectError.flow (.face (.transport .closed)) = .flow (.face cause)
          ∧ s.Awaits w.writer.controller unit
          ∧ left.2.2.LooksLike (s.cutShort w.writer.controller below before unit)) := by
  intro codec root w s call left
  -- the only attempt at setting the filter finds the transport shut
  have hleft : left.1 = .error (.flow (.face (.transport .closed))) := by decide +kernel
  obtain ⟨hobject, hlooks | ⟨-, cause, -, he, -⟩ | hcut⟩ := failed_looksLike hleft
  · exact ⟨hleft, hobject, .inl hlooks⟩
  · exact absurd he (by simp)
  · exact ⟨hleft, hobject, .inr hcut⟩

/-- **A failed save that a reader observes.** A reader has asked for a version later than the first.
The second is saved, and cannot go out to it; the reader then finds it all the same. -/
theorem failed_save_observed :
    let codec : PayloadCodec Unit := ⟨fun _ => .ok [], fun _ => .ok ()⟩
    let client : Client := ⟨default, .echo, .echo, { verifySignatures := false }, 3⟩
    let root : Name := ⟨[⟨[1]⟩]⟩
    let later := Stream.Reader.childInterest root
      (Stream.Reader.upTo (some (versionComponent ⟨1⟩)))
    let w := Sharing.run codec [.join client .empty, .save (), .get 0 later (some 1)]
      (Sharing.start 0 ⟨0⟩ root client .empty)
    let s : Node := { w.node with schedule := [{ failure := some .closed }] }
    let left := SaveCall.save.run codec (w.writer.set (), s)
    left.1 = .error (.flow (.face (.transport .closed)))
      ∧ ∃ reader ∈ w.readers,
        (VersionedObject.update codec (reader, { left.2.2 with schedule := [] })).2.1.version?
            = some ⟨2⟩
          ∧ (VersionedObject.update codec (reader, { s with schedule := [] })).2.1.version?
            = some ⟨1⟩ := by
  decide +kernel

end SaveCall

end NamedContent
