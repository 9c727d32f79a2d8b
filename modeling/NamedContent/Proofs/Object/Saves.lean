import NamedContent.Object.Basic
import NamedContent.Proofs.Node.Changes
import NamedContent.Proofs.Node.CutShort
import NamedContent.Proofs.Stream.History

/-! # What saves come to

A call that publishes a value or a tombstone first makes its publication out of the object and of
the times on the node. What is left to do on the node is to add one namespace and to put the objects
below it, and the result of the call is the result of that. If it succeeds, the object is bound to
the name it was published under and remembers the time of that version.

* `SaveCall`: the calls that publish, with `SaveCall.publication`: what they are to publish, and
  `SaveCall.space`: below which namespace
* `SaveCall.ofValue_below`, `SaveCall.ofTombstone_below`: publications lie below their namespaces
* `VersionedObject.saveTo_of_publication`, `VersionedObject.saveAsGone_of_publication`: saves by
  what their publications come to on the node
* `VersionedObject.saveTo_of_no_publication`, `VersionedObject.saveAsGone_of_no_publication`: saves
  that have nothing to publish -/

namespace NamedContent

variable {α : Type} {codec : PayloadCodec α} {o : VersionedObject α} {s : Node} {name root : Name}
  {units : List ContentObject}

/-! ## Calls that publish -/

/-- A call that publishes a value or a tombstone. -/
inductive SaveCall where
  /-- The value, as a new version of the object's name. -/
  | save
  /-- The value, under a name. -/
  | saveTo (name : Name)
  /-- A tombstone, as a new version of a name. -/
  | saveAsGone (name : Name)
  /-- A tombstone, as a new version of the object's name. -/
  | saveRootAsGone

namespace SaveCall

/-- The call is made. -/
def run (codec : PayloadCodec α) : SaveCall → VersionedObject.Op α ObjectError Unit
  | .save => do
    let _ ← VersionedObject.save codec
    return ()
  | .saveTo name => do
    let _ ← VersionedObject.saveTo codec name
    return ()
  | .saveAsGone name => VersionedObject.saveAsGone name
  | .saveRootAsGone => VersionedObject.saveRootAsGone

/-- The namespace and the objects that publish an object's value under a name. -/
def ofValue (codec : PayloadCodec α) (o : VersionedObject α) (s : Node) (name : Name) :
    Except ObjectError (Name × List ContentObject) :=
  match o.copy.data with
  | none => .error .noValue
  | some data => do
    let payload ← (codec.encode data).mapError ObjectError.marshal
    let full := name.versioned (Timestamp.mint s.clock s.lastMinted)
    let units ← (Stream.objects o.client.config o.client.signer s.clock full payload .data).mapError
      fun e => ObjectError.flow (.signing e)
    return (name.versionRoot, units)

/-- The namespace and the object that publish a tombstone of a name. -/
def ofTombstone (o : VersionedObject α) (s : Node) (name : Name) :
    Except ObjectError (Name × List ContentObject) :=
  if name.isVersioned then .error (.alreadyVersioned name)
  else do
    let full := name.withVersion (Timestamp.mint s.clock s.lastMinted)
    let unit ← (Stream.tombstone o.client.config o.client.signer s.clock full).mapError
      fun e => ObjectError.flow (.signing e)
    return (name, [unit])

/-- The namespace and the objects that the call is to publish. -/
def publication (codec : PayloadCodec α) (o : VersionedObject α) (s : Node) :
    SaveCall → Except ObjectError (Name × List ContentObject)
  | .save =>
    match o.name with
    | none => .error .unnamed
    | some name => ofValue codec o s name.versionRoot
  | .saveTo name => ofValue codec o s name
  | .saveAsGone name => ofTombstone o s name
  | .saveRootAsGone =>
    match o.name with
    | none => .error .unnamed
    | some name => ofTombstone o s name.versionRoot

/-- The namespace of what the call is to publish, if the object has the name that it needs. -/
def space (o : VersionedObject α) : SaveCall → Option Name
  | .save => o.name.map fun name => name.versionRoot.versionRoot
  | .saveTo name => some name.versionRoot
  | .saveAsGone name => some name
  | .saveRootAsGone => o.name.map Name.versionRoot

/-! ## Publications -/

/-- A value is to be published as what its payload can be cut into. -/
theorem ofValue_eq_ok {data : α} (hdata : o.copy.data = some data) {payload : Bytes}
    (hencode : codec.encode data = .ok payload)
    (hobjects : Stream.objects o.client.config o.client.signer s.clock
      (name.versioned (Timestamp.mint s.clock s.lastMinted)) payload .data = .ok units) :
    ofValue codec o s name = .ok (name.versionRoot, units) := by
  rw [ofValue, hdata]
  exact bind_eq_ok_iff.2 ⟨payload, mapError_eq_ok_iff.2 hencode,
    bind_eq_ok_iff.2 ⟨units, mapError_eq_ok_iff.2 hobjects, rfl⟩⟩

/-- **What is to be published of a value** is its payload, cut into segments. -/
theorem exists_of_ofValue (h : ofValue codec o s name = .ok (root, units)) :
    ∃ data payload, o.copy.data = some data ∧ codec.encode data = .ok payload
      ∧ root = name.versionRoot
      ∧ Stream.objects o.client.config o.client.signer s.clock
        (name.versioned (Timestamp.mint s.clock s.lastMinted)) payload .data = .ok units := by
  cases hdata : o.copy.data with
  | none => simp [ofValue, hdata] at h
  | some data =>
    simp only [ofValue, hdata] at h
    obtain ⟨payload, hencode, hrest⟩ := bind_eq_ok_iff.1 h
    obtain ⟨objects, hobjects, heq⟩ := bind_eq_ok_iff.1 hrest
    obtain ⟨rfl, rfl⟩ := Prod.mk.inj (Except.ok.inj heq)
    exact ⟨data, payload, rfl, mapError_eq_ok_iff.1 hencode, rfl, mapError_eq_ok_iff.1 hobjects⟩

/-- A publication is missing because there is no value, or it cannot be encoded, or its segments
cannot be signed. -/
theorem ofValue_error {e : ObjectError} (h : ofValue codec o s name = .error e) :
    (o.copy.data = none ∧ e = .noValue)
      ∨ (∃ data cause, o.copy.data = some data ∧ codec.encode data = .error cause
        ∧ e = .marshal cause)
      ∨ ∃ data payload cause, o.copy.data = some data ∧ codec.encode data = .ok payload
        ∧ Stream.objects o.client.config o.client.signer s.clock
          (name.versioned (Timestamp.mint s.clock s.lastMinted)) payload .data = .error cause
        ∧ e = .flow (.signing cause) := by
  cases hdata : o.copy.data with
  | none =>
    rw [ofValue, hdata] at h
    exact .inl ⟨rfl, (Except.error.inj h).symm⟩
  | some data =>
    rw [ofValue, hdata] at h
    obtain hpayload | ⟨payload, hpayload, hrest⟩ := bind_eq_error_iff.1 h
    · obtain ⟨cause, hencode, rfl⟩ := mapError_eq_error_iff.1 hpayload
      exact .inr (.inl ⟨data, cause, rfl, hencode, rfl⟩)
    · obtain hunits | ⟨units, -, hpure⟩ := bind_eq_error_iff.1 hrest
      · obtain ⟨cause, hobjects, rfl⟩ := mapError_eq_error_iff.1 hunits
        exact .inr (.inr ⟨data, payload, cause, rfl, mapError_eq_ok_iff.1 hpayload, hobjects, rfl⟩)
      · cases hpure

/-- **The objects of a value** are valid segments of what it is published under. -/
theorem ofValue_segments (h : ofValue codec o s name = .ok (root, units)) :
    ∀ u ∈ units, u.Valid
      ∧ ∃ index, u.name = (name.versioned (Timestamp.mint s.clock s.lastMinted)).segment index := by
  intro u hu
  obtain ⟨data, payload, -, -, -, hobjects⟩ := exists_of_ofValue h
  obtain ⟨rfl, hgenuine⟩ := Stream.segments_of_objects hobjects
  refine ⟨(hgenuine u hu).1, ?_⟩
  obtain ⟨part, -, rfl⟩ := List.mem_map.1 hu
  exact ⟨part.1, rfl⟩

/-- **What is published of a value** is valid, and lies below the namespace added for it. -/
theorem ofValue_below (h : ofValue codec o s name = .ok (root, units)) :
    ∀ u ∈ units, u.Valid ∧ root.isPrefixOf u.name = true := by
  intro u hu
  obtain ⟨hvalid, index, hindex⟩ := ofValue_segments h u hu
  obtain ⟨-, -, -, -, rfl, -⟩ := exists_of_ofValue h
  have hbelow := Name.isPrefixOf_segment_of_isVersioned
    (name.isVersioned_versioned (Timestamp.mint s.clock s.lastMinted)) index
  rw [Name.versionRoot_versioned, ← hindex] at hbelow
  exact ⟨hvalid, hbelow⟩

/-- A name without a version is to be published as gone by the tombstone that can be made for it. -/
theorem ofTombstone_eq_ok (hname : name.isVersioned = false) {unit : ContentObject}
    (htombstone : Stream.tombstone o.client.config o.client.signer s.clock
      (name.withVersion (Timestamp.mint s.clock s.lastMinted)) = .ok unit) :
    ofTombstone o s name = .ok (name, [unit]) := by
  rw [ofTombstone, if_neg (by simp [hname])]
  exact bind_eq_ok_iff.2 ⟨unit, mapError_eq_ok_iff.2 htombstone, rfl⟩

/-- **What is to be published of a name that is gone** is a tombstone. -/
theorem exists_of_ofTombstone (h : ofTombstone o s name = .ok (root, units)) :
    name.isVersioned = false ∧ root = name ∧ ∃ unit, units = [unit]
      ∧ Stream.tombstone o.client.config o.client.signer s.clock
        (name.withVersion (Timestamp.mint s.clock s.lastMinted)) = .ok unit := by
  cases hname : name.isVersioned with
  | true => simp [ofTombstone, hname] at h
  | false =>
    simp only [ofTombstone, hname] at h
    obtain ⟨unit, hunit, heq⟩ := bind_eq_ok_iff.1 h
    obtain ⟨rfl, rfl⟩ := Prod.mk.inj (Except.ok.inj heq)
    exact ⟨rfl, rfl, unit, rfl, mapError_eq_ok_iff.1 hunit⟩

/-- A tombstone is missing because it is to be one of a version, or cannot be signed. -/
theorem ofTombstone_error {e : ObjectError} (h : ofTombstone o s name = .error e) :
    (name.isVersioned = true ∧ e = .alreadyVersioned name)
      ∨ name.isVersioned = false ∧ ∃ cause, Stream.tombstone o.client.config o.client.signer s.clock
          (name.withVersion (Timestamp.mint s.clock s.lastMinted)) = .error cause
        ∧ e = .flow (.signing cause) := by
  cases hname : name.isVersioned with
  | true =>
    rw [ofTombstone, if_pos hname] at h
    exact .inl ⟨rfl, (Except.error.inj h).symm⟩
  | false =>
    rw [ofTombstone, if_neg (by simp [hname])] at h
    obtain hunit | ⟨unit, -, hpure⟩ := bind_eq_error_iff.1 h
    · obtain ⟨cause, htombstone, rfl⟩ := mapError_eq_error_iff.1 hunit
      exact .inr ⟨rfl, cause, htombstone, rfl⟩
    · cases hpure

/-- **The tombstone of a name** is valid, and lies below that name. -/
theorem ofTombstone_below (h : ofTombstone o s name = .ok (root, units)) :
    ∀ u ∈ units, u.Valid ∧ root.isPrefixOf u.name = true := by
  intro u hu
  obtain ⟨-, rfl, unit, rfl, htombstone⟩ := exists_of_ofTombstone h
  obtain ⟨rfl, hgenuine⟩ := Stream.gravestone_of_tombstone htombstone
  rw [List.mem_singleton.1 hu]
  exact ⟨hgenuine.1, Name.isPrefixOf_append root [_]⟩

end SaveCall

namespace VersionedObject

/-! ## Parts of a save -/

/-- An object with a name saves under the root of its versions. -/
theorem save_eq (codec : PayloadCodec α) {n : Name} (hname : o.name = some n) (s : Node) :
    save codec (o, s) = saveTo codec n.versionRoot (o, s) := by
  simp only [save, requireName, self, Action.bind_run, hname, Action.pure_run]

/-- Saving the root as gone is to save as gone what the name is a version of. -/
theorem saveRootAsGone_eq {n : Name} (hname : o.name = some n) (s : Node) :
    saveRootAsGone (o, s) = saveAsGone n.versionRoot (o, s) := by
  simp only [saveRootAsGone, requireName, self, Action.bind_run, hname, Action.pure_run]

/-- Without a name nothing is done that needs one. -/
theorem requireName_of_none {β : Type} (hname : o.name = none) (x : Name → Op α ObjectError β)
    (s : Node) : (requireName >>= x) (o, s) = (.error .unnamed, o, s) := by
  simp only [requireName, self, Action.bind_run, hname, Action.fail_run]

/-- What is published under a name has that name if it carries a version, and else one with a
version minted for it. -/
theorem target_eq {ε : Type} (name : Name) (o : VersionedObject α) (s : Node) :
    target (ε := ε) name (o, s)
      = (.ok (name.versioned (Timestamp.mint s.clock s.lastMinted)), (o, { s with
          lastMinted := if name.isVersioned = true then s.lastMinted
            else Timestamp.mint s.clock s.lastMinted })) := by
  rw [target, Name.versioned]
  split
  · rfl
  · rfl

/-- Under a name with a version a save has the time of that. -/
theorem savedAt_eq_ok {ε : Type} {n : Name} {t : Timestamp} (h : n.versionTime = .ok t)
    (p : VersionedObject α × Node) : savedAt (ε := ε) n p = (.ok t, p) := by
  rw [savedAt, h]
  rfl

/-- A save that has made its publication, from what that comes to on the node. -/
def saved {β : Type} (o : VersionedObject α) (full : Name) (isGone : Bool) (time : Timestamp)
    (b : β) : Except FlowError Unit × Node → Except ObjectError β × VersionedObject α × Node
  | (.ok _, s) => (.ok b, { o with copy := o.copy.markSaved time }.bindTo full isGone, s)
  | (.error e, s) => (.error (.flow e), o, s)

/-- A publication that was put binds the object. -/
theorem exists_of_saved_ok {β : Type} {full : Name} {isGone : Bool} {time : Timestamp} {b b' : β}
    {left : Except FlowError Unit × Node} (h : (o.saved full isGone time b left).1 = .ok b') :
    b' = b ∧ ∃ s', left = (.ok (), s') ∧ o.saved full isGone time b left
      = (.ok b, { o with copy := o.copy.markSaved time }.bindTo full isGone, s') := by
  obtain ⟨_ | _, s'⟩ := left
  · cases h
  · cases h
    exact ⟨rfl, s', rfl, rfl⟩

/-- A publication that could not be put leaves the object as it was. -/
theorem exists_of_saved_error {β : Type} {full : Name} {isGone : Bool} {time : Timestamp} {b : β}
    {left : Except FlowError Unit × Node} {e : ObjectError}
    (h : (o.saved full isGone time b left).1 = .error e) :
    ∃ cause, left.1 = .error cause ∧ e = .flow cause
      ∧ (o.saved full isGone time b left).2 = (o, left.2) := by
  obtain ⟨cause | _, s'⟩ := left
  · exact ⟨cause, rfl, (Except.error.inj h).symm, rfl⟩
  · cases h

/-! ## Values -/

/-- A value without changes is not saved. -/
theorem saveTo_of_clean (codec : PayloadCodec α) (name : Name) (hclean : o.copy.dirty = false)
    (s : Node) : saveTo codec name (o, s) = (.ok false, o, s) := by
  simp only [saveTo, self, Action.bind_run, hclean, Bool.not_false, if_true, Action.pure_run]

/-- **A save whose segments cannot be signed** adds their namespace all the same. It fails because
that cannot be done, and leaves nothing behind, or with what the signer says, and leaves the
namespace behind. -/
theorem saveTo_of_unsigned (hdirty : o.copy.dirty = true) {data : α}
    (hdata : o.copy.data = some data) {payload : Bytes} (hencode : codec.encode data = .ok payload)
    {cause : SigningError}
    (hobjects : Stream.objects o.client.config o.client.signer s.clock
      (name.versioned (Timestamp.mint s.clock s.lastMinted)) payload .data = .error cause) :
    ∃ e s', saveTo codec name (o, s) = (.error (.flow e), o, s')
      ∧ ((∃ face, e = .face face) ∧ s'.Agrees s
        ∨ e = .signing cause ∧ s'.Agrees (s.opened o.controller name.versionRoot)) := by
  have htarget : ∀ ε, target (ε := ε) name (o, s) = _ := fun _ => target_eq name o s
  generalize name.versioned (Timestamp.mint s.clock s.lastMinted) = full at htarget hobjects
  generalize (if name.isVersioned = true then s.lastMinted
    else Timestamp.mint s.clock s.lastMinted) = last at htarget
  -- the time that was minted last shows up nowhere
  have hminted : Node.Agrees { s with lastMinted := last } s := { Node.Agrees.refl s with }
  have hclock := (Node.addNamespace_steady o.controller name.versionRoot
    { s with lastMinted := last }).clock
  have hadded := Node.addNamespace_cases { s with lastMinted := last } o.controller name.versionRoot
  rw [saveTo]
  simp only [self, Action.bind_run, hdirty, hdata, hencode, mapError_ok, Bool.not_true,
    Bool.false_eq_true, if_false, Action.ofExcept_run, htarget, addNamespace, onNode, Action.focus,
    Action.mapError, Action.get_run]
  generalize Node.addNamespace o.controller name.versionRoot { s with lastMinted := last } = added
    at hclock hadded ⊢
  obtain ⟨result, s'⟩ := added
  rcases hadded with ⟨hresult, -, hagrees⟩ | ⟨face, hresult, hagrees⟩
  · obtain rfl : result = .ok () := hresult
    replace hclock : s'.clock = s.clock := hclock
    simp only [hclock, hobjects, mapError_error]
    exact ⟨.signing cause, s', rfl, .inr ⟨rfl, hagrees.trans (hminted.opened _ _)⟩⟩
  · obtain rfl : result = .error (.face face) := hresult
    exact ⟨.face face, s', rfl, .inl ⟨⟨face, rfl⟩, hagrees.trans hminted⟩⟩

/-- **Without a publication a save fails** and leaves nothing behind, unless its segments cannot be
signed: then it leaves their namespace behind. -/
theorem saveTo_of_no_publication (hdirty : o.copy.dirty = true) {e : ObjectError}
    (h : SaveCall.ofValue codec o s name = .error e) :
    ∃ e' s', saveTo codec name (o, s) = (.error e', o, s')
      ∧ ((e' = e ∨ ∃ face, e' = .flow (.face face)) ∧ s'.Agrees s
        ∨ ∃ cause, e' = .flow (.signing cause)
          ∧ (∃ message, o.client.signer.sign message = .error cause)
          ∧ s'.Agrees (s.opened o.controller name.versionRoot)) := by
  obtain ⟨hdata, rfl⟩ | ⟨data, cause, hdata, hencode, rfl⟩
    | ⟨data, payload, cause, hdata, hencode, hobjects, rfl⟩ := SaveCall.ofValue_error h
  · refine ⟨_, s, ?_, .inl ⟨.inl rfl, .refl s⟩⟩
    rw [saveTo]
    simp [self, Action.bind_run, hdirty, hdata]
  · refine ⟨_, s, ?_, .inl ⟨.inl rfl, .refl s⟩⟩
    rw [saveTo]
    simp [self, Action.bind_run, hdirty, hdata, hencode, mapError_error]
  · obtain ⟨e', s', hfails, ⟨⟨face, rfl⟩, hagrees⟩ | ⟨rfl, hagrees⟩⟩ :=
      saveTo_of_unsigned hdirty hdata hencode hobjects
    · exact ⟨_, s', hfails, .inl ⟨.inr ⟨face, rfl⟩, hagrees⟩⟩
    · exact ⟨_, s', hfails, .inr ⟨cause, rfl,
        Stream.objects_eq_error ContentType.data_ne_gone hobjects, hagrees⟩⟩

/-- **A save of a changed value** is to put its publication below the namespace of that. -/
theorem saveTo_of_publication (hdirty : o.copy.dirty = true)
    (h : SaveCall.ofValue codec o s name = .ok (root, units)) :
    ∃ time, (name.versioned (Timestamp.mint s.clock s.lastMinted)).versionTime = .ok time
      ∧ saveTo codec name (o, s)
        = o.saved (name.versioned (Timestamp.mint s.clock s.lastMinted)) false time true
          (Node.publishBelow o.controller root units { s with
            lastMinted := if name.isVersioned = true then s.lastMinted
              else Timestamp.mint s.clock s.lastMinted }) := by
  obtain ⟨time, htime⟩ := Name.exists_versionTime_eq_ok
    (name.isVersioned_versioned (Timestamp.mint s.clock s.lastMinted))
  refine ⟨time, htime, ?_⟩
  have htarget : ∀ ε, target (ε := ε) name (o, s) = _ := fun _ => target_eq name o s
  obtain ⟨data, payload, hdata, hencode, rfl, hobjects⟩ := SaveCall.exists_of_ofValue h
  -- which version it is does not matter from here on
  generalize name.versioned (Timestamp.mint s.clock s.lastMinted) = full at htime htarget hobjects ⊢
  generalize (if name.isVersioned = true then s.lastMinted
    else Timestamp.mint s.clock s.lastMinted) = last at htarget ⊢
  have hclock := (Node.addNamespace_steady o.controller name.versionRoot
    { s with lastMinted := last }).clock
  rw [saveTo, Node.publishBelow]
  simp only [self, Action.bind_run, hdirty, hdata, hencode, mapError_ok, Bool.not_true,
    Bool.false_eq_true, if_false, Action.ofExcept_run, htarget, addNamespace, onNode, Action.focus,
    Action.mapError, Action.get_run]
  rcases hadd : Node.addNamespace o.controller name.versionRoot { s with lastMinted := last }
    with ⟨cause | _, s₂⟩
  · rfl
  rw [hadd] at hclock
  replace hclock : s₂.clock = s.clock := hclock
  simp only [hclock, hobjects, mapError_ok]
  rcases Node.publishAll o.controller _ s₂ with ⟨cause | _, s₃⟩
  · rfl
  · simp only [savedAt_eq_ok htime, change, Action.modify_run, Action.pure_run]
    rfl

/-! ## Tombstones -/

/-- **A tombstone of a version** is refused before anything is done. -/
theorem saveAsGone_of_isVersioned (hname : name.isVersioned = true)
    (p : VersionedObject α × Node) : saveAsGone name p = (.error (.alreadyVersioned name), p) := by
  simp only [saveAsGone, self, Action.bind_run, hname, if_true, Action.fail_run]

/-- **Without a publication a tombstone fails** before it does more than minting a time. -/
theorem saveAsGone_of_no_publication {e : ObjectError}
    (h : SaveCall.ofTombstone o s name = .error e) :
    ∃ last, saveAsGone name (o, s) = (.error e, o, { s with lastMinted := last }) := by
  obtain ⟨hname, rfl⟩ | ⟨hname, cause, htombstone, rfl⟩ := SaveCall.ofTombstone_error h
  · exact ⟨s.lastMinted, saveAsGone_of_isVersioned hname (o, s)⟩
  · refine ⟨Timestamp.mint s.clock s.lastMinted, ?_⟩
    have htarget : ∀ ε, target (ε := ε) name (o, s) = _ := fun _ => target_eq name o s
    simp only [Name.versioned, hname, Bool.false_eq_true, if_false] at htarget
    simp only [saveAsGone, self, Action.bind_run, hname, Bool.false_eq_true, if_false, htarget,
      Action.get_run, htombstone, mapError_error, Action.ofExcept_run]

/-- **A tombstone of a name without a version** is to be put below that name. -/
theorem saveAsGone_of_publication (h : SaveCall.ofTombstone o s name = .ok (root, units)) :
    ∃ time, (name.withVersion (Timestamp.mint s.clock s.lastMinted)).versionTime = .ok time
      ∧ saveAsGone name (o, s)
        = o.saved (name.withVersion (Timestamp.mint s.clock s.lastMinted)) true time ()
          (Node.publishBelow o.controller root units
            { s with lastMinted := Timestamp.mint s.clock s.lastMinted }) := by
  obtain ⟨hname, rfl, unit, rfl, htombstone⟩ := SaveCall.exists_of_ofTombstone h
  obtain ⟨time, htime⟩ := Name.exists_versionTime_eq_ok
    (root.isVersioned_withVersion (Timestamp.mint s.clock s.lastMinted))
  refine ⟨time, htime, ?_⟩
  have htarget : ∀ ε, target (ε := ε) root (o, s) = _ := fun _ => target_eq root o s
  simp only [Name.versioned, hname, Bool.false_eq_true, if_false] at htarget
  rw [saveAsGone, Node.publishBelow]
  simp only [self, Action.bind_run, hname, Bool.false_eq_true, if_false, htarget, Action.get_run,
    htombstone, mapError_ok, Action.ofExcept_run, addNamespace, onNode, Action.focus,
    Action.mapError, Node.publishAll_singleton]
  rcases Node.addNamespace o.controller root _ with ⟨cause | _, s₂⟩
  · rfl
  simp only
  rcases Node.publish o.controller _ s₂ with ⟨cause | _, s₃⟩
  · rfl
  · simp only [savedAt_eq_ok htime, change, Action.modify_run]
    rfl

end VersionedObject

end NamedContent
