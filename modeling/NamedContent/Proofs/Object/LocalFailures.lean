import NamedContent.Proofs.Node.Untroubled
import NamedContent.Proofs.Object.Coherence

/-! # Saves fail only where calls do

What a save is to publish lies below the namespace that it adds for it, however version, segment and
other components are mixed in the name: a value goes below the root of the versions of the name, and
a tombstone below the name itself. So no object is refused once it is made, and a save of a value
that can be encoded fails only where a call to the forwarder does.

* `VersionedObject.PutsBelow`: a save puts valid objects below a namespace
* `VersionedObject.saves_fail_in_calls`: the main theorem -/

namespace NamedContent.VersionedObject

variable {α β : Type} {codec : PayloadCodec α} {o : VersionedObject α} {s : Node} {name root : Name}

/-- Whether all calls of the controller of an object succeed. -/
def Untroubled (o : VersionedObject α) (s : Node) : Prop :=
  ∀ c, s.controller? o.controller = some c → s.Untroubled c.face

/-- Whether a save comes to adding a namespace and putting what is to be published, valid objects
that lie below the namespace. -/
def PutsBelow (o : VersionedObject α) (s : Node)
    (publication : Except ObjectError (Name × List ContentObject)) (root : Name)
    (left : Except ObjectError β × VersionedObject α × Node) (b : β) : Prop :=
  ∃ units, publication = .ok (root, units)
    ∧ (∀ u ∈ units, u.Valid ∧ root.isPrefixOf u.name = true)
    ∧ ∃ full isGone time last, left = o.saved full isGone time b
      (Node.publishBelow o.controller root units { s with lastMinted := last })

namespace PutsBelow

variable {publication : Except ObjectError (Name × List ContentObject)}
  {left : Except ObjectError β × VersionedObject α × Node} {b : β}

/-- Where all calls succeed, so does the save. -/
theorem eq_ok (h : o.PutsBelow s publication root left b) (huntroubled : o.Untroubled s) :
    left.1 = .ok b := by
  obtain ⟨units, -, hunits, full, isGone, time, last, rfl⟩ := h
  have hcalls : ∀ c, Node.controller? { s with lastMinted := last } o.controller = some c →
      Node.Untroubled { s with lastMinted := last } c.face :=
    fun c hc => { huntroubled c hc with }
  obtain ⟨t, hput⟩ := Node.exists_publishBelow hcalls hunits
  rw [hput]
  rfl

/-- Where the save fails, a call does. -/
theorem error (h : o.PutsBelow s publication root left b) {e : ObjectError}
    (hfails : left.1 = .error e) : ∃ cause, e = .flow (.face cause) := by
  obtain ⟨units, -, hunits, full, isGone, time, last, rfl⟩ := h
  obtain ⟨cause, hput, rfl, -⟩ := exists_of_saved_error hfails
  obtain ⟨face, rfl, -⟩ := Node.publishBelow_error (.refl _) hunits hput
  exact ⟨face, rfl⟩

end PutsBelow

/-- A changed value that can be encoded is put below the root of the versions of the name, if the
signer never fails. -/
theorem putsBelow_saveTo (hsigns : o.client.signer.Signs) (hdirty : o.copy.dirty = true) {data : α}
    (hdata : o.copy.data = some data) {payload : Bytes} (hencode : codec.encode data = .ok payload)
    (name : Name) (s : Node) :
    o.PutsBelow s (SaveCall.ofValue codec o s name) name.versionRoot
      (saveTo codec name (o, s)) true := by
  have hpublication : SaveCall.ofValue codec o s name = _ :=
    SaveCall.ofValue_eq_ok hdata hencode (Stream.objects_eq_ok hsigns ContentType.data_ne_gone)
  obtain ⟨time, -, heq⟩ := saveTo_of_publication hdirty hpublication
  exact ⟨_, hpublication, SaveCall.ofValue_below hpublication, _, _, _, _, heq⟩

/-- A tombstone of a name without a version is put below that name, if the signer never fails. -/
theorem putsBelow_saveAsGone (hsigns : o.client.signer.Signs) (hname : name.isVersioned = false)
    (s : Node) :
    o.PutsBelow s (SaveCall.ofTombstone o s name) name (saveAsGone name (o, s)) () := by
  have hpublication : SaveCall.ofTombstone o s name = _ :=
    SaveCall.ofTombstone_eq_ok hname (Stream.tombstone_eq_ok hsigns (name.withVersion_ne_root _))
  obtain ⟨time, -, heq⟩ := saveAsGone_of_publication hpublication
  exact ⟨_, hpublication, SaveCall.ofTombstone_below hpublication, _, _, _, _, heq⟩

/-- **Saves fail only where calls do**, with a signer that never fails. In every state of an object,
for every name and every state of the node: a value without changes is not saved, and nothing is
done. A changed value that can be encoded is put below the root of the versions of the name; a
tombstone is put below the name, and one of a version is refused before anything is done. Where all
calls succeed, so do these saves; and the only errors they can have are those of calls. -/
theorem saves_fail_in_calls (h : Reachable codec o) (hsigns : o.client.signer.Signs) (name : Name)
    (s : Node) :
    (o.copy.dirty = false → saveTo codec name (o, s) = (.ok false, o, s))
      ∧ (o.copy.dirty = true →
        (∀ data, o.copy.data = some data → ∃ payload, codec.encode data = .ok payload) →
        o.PutsBelow s (SaveCall.ofValue codec o s name) name.versionRoot
            (saveTo codec name (o, s)) true
          ∧ (o.Untroubled s → (saveTo codec name (o, s)).1 = .ok true)
          ∧ ∀ e, (saveTo codec name (o, s)).1 = .error e → ∃ cause, e = .flow (.face cause))
      ∧ (name.isVersioned = true →
        saveAsGone name (o, s) = (.error (.alreadyVersioned name), o, s))
      ∧ (name.isVersioned = false →
        o.PutsBelow s (SaveCall.ofTombstone o s name) name (saveAsGone name (o, s)) ()
          ∧ (o.Untroubled s → (saveAsGone name (o, s)).1 = .ok ())
          ∧ ∀ e, (saveAsGone name (o, s)).1 = .error e → ∃ cause, e = .flow (.face cause)) := by
  refine ⟨fun hclean => saveTo_of_clean codec name hclean s, fun hdirty hencodes => ?_,
    fun hname => saveAsGone_of_isVersioned hname (o, s), fun hname => ?_⟩
  · -- a reachable object with changes has a value
    obtain ⟨data, hdata⟩ := Option.isSome_iff_exists.1 (h.coherent.available_of_dirty hdirty)
    obtain ⟨payload, hencode⟩ := hencodes data hdata
    have hputs := putsBelow_saveTo hsigns hdirty hdata hencode name s
    exact ⟨hputs, hputs.eq_ok, fun e => hputs.error⟩
  · have hputs := putsBelow_saveAsGone hsigns hname s
    exact ⟨hputs, hputs.eq_ok, fun e => hputs.error⟩

/-- A value is saved under the name of a segment of a version, with a segment component in front of
that, although the first attempt at a call is interrupted. -/
theorem saves_fail_in_calls_interrupted :
    let codec : PayloadCodec Unit := ⟨fun _ => .ok [], fun _ => .ok ()⟩
    let client : Client := ⟨default, .echo, .echo, {}, 3⟩
    let name : Name := (Name.withVersion ⟨[⟨[97]⟩, segmentComponent 7]⟩ ⟨4⟩).segment 2
    let made := VersionedObject.create (ε := ObjectError) client none (.ofValue ()) (.new 8 ⟨5⟩)
    let o : VersionedObject Unit := ⟨client, ⟨1⟩, .ofValue (), none, false, false⟩
    let s : Node := { made.2 with schedule := [{ failure := some .interrupted }] }
    (saveTo codec name (o, s)).1 = .ok true
      ∧ saveAsGone name (o, s) = (.error (.alreadyVersioned name), o, s) := by
  intro codec client name made o s
  have huntroubled : o.Untroubled s := by
    intro c hc
    obtain rfl := Option.some.inj hc
    exact ⟨rfl, rfl, rfl, by decide, trivial⟩
  have hmade : made = (.ok o, made.2) := rfl
  obtain ⟨-, hvalue, hgone, -⟩ :=
    saves_fail_in_calls (.create (.inr ⟨(), rfl⟩) hmade : Reachable codec o) Signer.signs_echo
      name s
  exact ⟨(hvalue rfl fun _ _ => ⟨[], rfl⟩).2.1 huntroubled, hgone (by decide)⟩

end NamedContent.VersionedObject
