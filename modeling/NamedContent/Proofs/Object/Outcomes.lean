import NamedContent.Proofs.Action.Ensuring
import NamedContent.Proofs.Object.Atomicity

/-! # What operations come to

A save fails for want of a value, with its codec, with its signer or with a call. A tombstone has no
value to encode, but is refused for a version. What succeeds has an effect of one kind only: a save
binds the object to the name it has published under, and a fetch to the name of the stream or to
that of the tombstone. In no other way does an operation change its object.

* `VersionedObject.saveTo_error_cases`, `VersionedObject.saveAsGone_error_cases`: saves that fail
* `VersionedObject.exists_of_saveTo_ok`, `VersionedObject.saveAsGone_of_ok`,
  `VersionedObject.absorb_of_ok`: operations that succeed
* `VersionedObject.Change`, `ObjectCall.change`: what an operation may do to its object -/

namespace NamedContent

variable {α : Type}

namespace VersionedObject

variable {codec : PayloadCodec α} {o : VersionedObject α} {s : Node} {name : Name}

/-! ## Saves that fail -/

/-- **How a save can fail**: there is no value, or it cannot be encoded, or its segments cannot be
signed, or a call fails. -/
theorem saveTo_error_cases {e : ObjectError} (h : (saveTo codec name (o, s)).1 = .error e) :
    o.copy.dirty = true
      ∧ ((o.copy.data = none ∧ e = .noValue)
        ∨ (∃ data cause, o.copy.data = some data ∧ codec.encode data = .error cause
          ∧ e = .marshal cause)
        ∨ (∃ cause message, o.client.signer.sign message = .error cause
          ∧ e = .flow (.signing cause))
        ∨ ∃ cause, e = .flow (.face cause)) := by
  cases hdirty : o.copy.dirty with
  | false =>
    rw [saveTo_of_clean codec name hdirty] at h
    cases h
  | true =>
    refine ⟨rfl, ?_⟩
    cases hpublication : SaveCall.ofValue codec o s name with
    | error cause =>
      obtain ⟨e', s', heq, hleft⟩ := saveTo_of_no_publication hdirty hpublication
      rw [heq] at h
      obtain rfl : e' = e := Except.error.inj h
      obtain ⟨rfl | ⟨face, rfl⟩, -⟩ | ⟨cause, rfl, ⟨message, hsign⟩, -⟩ := hleft
      · obtain hnone | hmarshal | ⟨_, _, cause, -, -, hobjects, rfl⟩ :=
          SaveCall.ofValue_error hpublication
        · exact .inl hnone
        · exact .inr (.inl hmarshal)
        · obtain ⟨message, hsign⟩ := Stream.objects_eq_error ContentType.data_ne_gone hobjects
          exact .inr (.inr (.inl ⟨cause, message, hsign, rfl⟩))
      · exact .inr (.inr (.inr ⟨face, rfl⟩))
      · exact .inr (.inr (.inl ⟨cause, message, hsign, rfl⟩))
    | ok publication =>
      obtain ⟨time, -, heq⟩ := saveTo_of_publication hdirty hpublication
      rw [heq] at h
      obtain ⟨cause, hfails, rfl, -⟩ := exists_of_saved_error h
      obtain ⟨face, rfl, -⟩ :=
        Node.publishBelow_error (.refl _) (SaveCall.ofValue_below hpublication) hfails
      exact .inr (.inr (.inr ⟨face, rfl⟩))

/-- **How a tombstone can fail**: it is one of a version, or it cannot be signed, or a call
fails. -/
theorem saveAsGone_error_cases {e : ObjectError} (h : (saveAsGone name (o, s)).1 = .error e) :
    (name.isVersioned = true ∧ e = .alreadyVersioned name)
      ∨ name.isVersioned = false ∧ ((∃ cause message,
          o.client.signer.sign message = .error cause ∧ e = .flow (.signing cause))
        ∨ ∃ cause, e = .flow (.face cause)) := by
  cases hpublication : SaveCall.ofTombstone o s name with
  | error cause =>
    obtain ⟨last, heq⟩ := saveAsGone_of_no_publication hpublication
    rw [heq] at h
    obtain rfl : cause = e := Except.error.inj h
    obtain hversioned | ⟨hname, cause, htombstone, rfl⟩ :=
      SaveCall.ofTombstone_error hpublication
    · exact .inl hversioned
    · obtain ⟨message, hsign⟩ := Stream.tombstone_eq_error (name.withVersion_ne_root _) htombstone
      exact .inr ⟨hname, .inl ⟨cause, message, hsign, rfl⟩⟩
  | ok publication =>
    obtain ⟨time, -, heq⟩ := saveAsGone_of_publication hpublication
    rw [heq] at h
    obtain ⟨cause, hfails, rfl, -⟩ := exists_of_saved_error h
    obtain ⟨face, rfl, -⟩ :=
      Node.publishBelow_error (.refl _) (SaveCall.ofTombstone_below hpublication) hfails
    exact .inr ⟨(SaveCall.exists_of_ofTombstone hpublication).1, .inr ⟨face, rfl⟩⟩

/-! ## Saves that succeed -/

/-- Only a changed value is published. -/
theorem dirty_of_saveTo_of_true (h : (saveTo codec name (o, s)).1 = .ok true) :
    o.copy.dirty = true := by
  cases hdirty : o.copy.dirty with
  | true => rfl
  | false =>
    rw [saveTo_of_clean codec name hdirty] at h
    cases h

/-- **A save of a changed value that succeeds** has added the namespace and then published, and that
is all it has done on the node. It binds the object to what the value was published under, and
remembers the time of that. -/
theorem exists_of_saveTo_ok (hdirty : o.copy.dirty = true) {b : Bool}
    (h : (saveTo codec name (o, s)).1 = .ok b) :
    b = true ∧ ∃ root units s₁ time s', SaveCall.ofValue codec o s name = .ok (root, units)
      ∧ Node.addNamespace o.controller root { s with
          lastMinted := if name.isVersioned = true then s.lastMinted
            else Timestamp.mint s.clock s.lastMinted } = (.ok (), s₁)
      ∧ Node.publishAll o.controller units s₁ = (.ok (), s')
      ∧ (name.versioned (Timestamp.mint s.clock s.lastMinted)).versionTime = .ok time
      ∧ saveTo codec name (o, s) = (.ok true, { o with copy := o.copy.markSaved time }.bindTo
        (name.versioned (Timestamp.mint s.clock s.lastMinted)) false, s') := by
  cases hpublication : SaveCall.ofValue codec o s name with
  | error e =>
    obtain ⟨_, _, heq, -⟩ := saveTo_of_no_publication hdirty hpublication
    rw [heq] at h
    cases h
  | ok publication =>
    obtain ⟨time, htime, heq⟩ := saveTo_of_publication hdirty hpublication
    rw [heq] at h ⊢
    obtain ⟨hb, s', hput, hsaved⟩ := exists_of_saved_ok h
    obtain ⟨u, s₁, hadd, hall⟩ := Action.exists_of_bind_eq_ok hput
    exact ⟨hb, publication.1, publication.2, s₁, time, s', rfl, hadd, hall, htime, hsaved⟩

/-- **A tombstone that was published** binds the object to what it was published under, and
remembers the time of that. -/
theorem saveAsGone_of_ok (h : (saveAsGone name (o, s)).1 = .ok ()) :
    ∃ time s', (name.withVersion (Timestamp.mint s.clock s.lastMinted)).versionTime = .ok time
      ∧ saveAsGone name (o, s) = (.ok (), { o with copy := o.copy.markSaved time }.bindTo
        (name.withVersion (Timestamp.mint s.clock s.lastMinted)) true, s') := by
  cases hpublication : SaveCall.ofTombstone o s name with
  | error cause =>
    obtain ⟨last, heq⟩ := saveAsGone_of_no_publication hpublication
    rw [heq] at h
    cases h
  | ok publication =>
    obtain ⟨time, htime, heq⟩ := saveAsGone_of_publication hpublication
    rw [heq] at h ⊢
    obtain ⟨-, s', -, hsaved⟩ := exists_of_saved_ok h
    exact ⟨time, s', htime, hsaved⟩

/-! ## Fetches that succeed -/

/-- **What is taken over**: a stream whose content can be decoded, or that there is a tombstone. -/
theorem absorb_of_ok {read : Except ReadError StreamContent}
    (h : (absorb codec read (o, s)).1 = .ok ()) :
    (∃ stream data, read = .ok stream ∧ codec.decode stream.content = .ok data
        ∧ (absorb codec read (o, s)).2.1
          = { o with copy := o.copy.replaceClean data }.bindTo stream.name false)
      ∨ ∃ gone, read = .error (.gone gone)
        ∧ (absorb codec read (o, s)).2.1
          = { o with copy := o.copy.markClean }.bindTo gone true := by
  cases read with
  | ok stream =>
    cases hdecode : codec.decode stream.content with
    | error cause => simp [absorb, hdecode, mapError_error, Action.bind_run] at h
    | ok data =>
      refine .inl ⟨stream, data, rfl, hdecode, ?_⟩
      simp only [absorb, hdecode, mapError_ok, Action.bind_run, Action.ofExcept_run, addNamespace,
        self, Action.mapError, onNode, Action.focus] at h ⊢
      rcases hadd : Node.addNamespace o.controller stream.name s with ⟨cause | _, s'⟩
      · simp [hadd] at h
      · rfl
  | error e =>
    cases e with
    | gone gone => exact .inr ⟨gone, rfl, rfl⟩
    | _ => cases h

/-! ## All operations -/

/-- What an operation may do to an object. -/
inductive Change (o : VersionedObject α) : VersionedObject α → Prop where
  /-- Nothing. -/
  | kept : Change o o
  /-- It takes over a value from a stream. -/
  | fetched (data : α) (name : Name) :
    Change o ({ o with copy := o.copy.replaceClean data }.bindTo name false)
  /-- It finds a tombstone. -/
  | foundGone (name : Name) : Change o ({ o with copy := o.copy.markClean }.bindTo name true)
  /-- It publishes a version, and remembers the time of that. -/
  | saved (time : Timestamp) (full : Name) (isGone : Bool) (htime : full.versionTime = .ok time) :
    Change o ({ o with copy := o.copy.markSaved time }.bindTo full isGone)

/-- Taking up what was read changes an object in one of the ways there are. -/
theorem change_absorb (codec : PayloadCodec α) (read : Except ReadError StreamContent)
    (o : VersionedObject α) (s : Node) : o.Change (absorb codec read (o, s)).2.1 := by
  cases hresult : (absorb codec read (o, s)).1 with
  | error e =>
    rw [absorb_failsKeeping codec read (o, s) e hresult]
    exact .kept
  | ok u =>
    obtain ⟨stream, data, -, -, heq⟩ | ⟨gone, -, heq⟩ := absorb_of_ok hresult <;> rw [heq]
    · exact .fetched data stream.name
    · exact .foundGone gone

/-- Marking an object as saved changes it in one of the ways there are. -/
theorem change_saved {β : Type} {full : Name} {time : Timestamp}
    (htime : full.versionTime = .ok time) (o : VersionedObject α) (isGone : Bool) (b : β)
    (left : Except FlowError Unit × Node) : o.Change (o.saved full isGone time b left).2.1 := by
  obtain ⟨_ | _, s'⟩ := left
  · exact .kept
  · exact .saved time full isGone htime

/-- A save changes its object in one of the ways there are. -/
theorem change_saveTo (codec : PayloadCodec α) (name : Name) (o : VersionedObject α) (s : Node) :
    o.Change (saveTo codec name (o, s)).2.1 := by
  cases hdirty : o.copy.dirty with
  | false =>
    rw [saveTo_of_clean codec name hdirty]
    exact .kept
  | true =>
    cases hpublication : SaveCall.ofValue codec o s name with
    | error e =>
      obtain ⟨_, _, heq, -⟩ := saveTo_of_no_publication hdirty hpublication
      rw [heq]
      exact .kept
    | ok publication =>
      obtain ⟨time, htime, heq⟩ := saveTo_of_publication hdirty hpublication
      rw [heq]
      exact change_saved htime o false true _

/-- A save as gone changes its object in one of the ways there are. -/
theorem change_saveAsGone (name : Name) (o : VersionedObject α) (s : Node) :
    o.Change (saveAsGone name (o, s)).2.1 := by
  cases hpublication : SaveCall.ofTombstone o s name with
  | error cause =>
    obtain ⟨last, heq⟩ := saveAsGone_of_no_publication hpublication
    rw [heq]
    exact .kept
  | ok publication =>
    obtain ⟨time, htime, heq⟩ := saveAsGone_of_publication hpublication
    rw [heq]
    exact change_saved htime o true () _

/-- An update changes its object in one of the ways there are. -/
theorem change_updateTo (codec : PayloadCodec α) (name : Name) (o : VersionedObject α) (s : Node) :
    o.Change (updateTo codec name (o, s)).2.1 :=
  change_absorb codec (o.client.reader.read name s).1 o (o.client.reader.read name s).2

end VersionedObject

/-- **What a call does to its object**, from every state of the object and of the node, whether it
succeeds or fails. -/
theorem ObjectCall.change (codec : PayloadCodec α) (call : ObjectCall) (o : VersionedObject α)
    (s : Node) : o.Change (call.run codec (o, s)).2.1 := by
  cases call with
  | update =>
    cases hname : o.name with
    | none =>
      rw [run, VersionedObject.update, VersionedObject.requireName_of_none hname]
      exact .kept
    | some name =>
      rw [run, VersionedObject.update_eq codec hname]
      exact VersionedObject.change_absorb ..
  | updateTo name => exact VersionedObject.change_updateTo codec name o s
  | updateFrom first => exact VersionedObject.change_absorb codec _ o _
  | publish call =>
    cases call with
    | save =>
      show o.Change (SaveCall.run codec .save (o, s)).2.1
      rw [SaveCall.run, Action.bind_pure_run]
      cases hname : o.name with
      | none =>
        rw [VersionedObject.save, VersionedObject.requireName_of_none hname]
        exact .kept
      | some name =>
        rw [VersionedObject.save_eq codec hname]
        exact VersionedObject.change_saveTo codec _ o s
    | saveTo name =>
      show o.Change (SaveCall.run codec (.saveTo name) (o, s)).2.1
      rw [SaveCall.run, Action.bind_pure_run]
      exact VersionedObject.change_saveTo codec name o s
    | saveAsGone name => exact VersionedObject.change_saveAsGone name o s
    | saveRootAsGone =>
      show o.Change (VersionedObject.saveRootAsGone (o, s)).2.1
      cases hname : o.name with
      | none =>
        rw [VersionedObject.saveRootAsGone, VersionedObject.requireName_of_none hname]
        exact .kept
      | some name =>
        rw [VersionedObject.saveRootAsGone_eq hname]
        exact VersionedObject.change_saveAsGone _ o s

end NamedContent
