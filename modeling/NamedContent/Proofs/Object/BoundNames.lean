import NamedContent.Proofs.Object.Outcomes
import NamedContent.Proofs.Stream.Assembly
import NamedContent.Proofs.Stream.Naming

/-! # The names that objects are bound to

A save binds its object to the name that it publishes under, and a fetch to that of the stream it
has read. For most names neither is named like a segment. But a save keeps a name with a version as
it is, with a segment component behind the version, while a reader is given the name without it. And
a fetch strips one segment component from the name of the object that it begins with, behind which
another one may come to light.

* `Stream.ReadsAs`: what is read from objects has one name
* `VersionedObject.SavedAs`, `VersionedObject.FetchedAs`: what an object is bound to
* `VersionedObject.bound_names`: the main theorem
* `VersionedObject.bound_to_segment`: objects that are bound to names of segments -/

namespace NamedContent

variable {α : Type} {codec : PayloadCodec α} {o : VersionedObject α} {s : Node} {name : Name}

/-- Whether what is read from any of some objects, by whomever and through whatever network, is the
stream with a name. -/
def Stream.ReadsAs (units : List ContentObject) (stream : Name) : Prop :=
  ∀ (σ : Type) (r : Reader σ), ∀ u ∈ units, ∀ t content, (r.readFrom u t).1 = .ok content →
    content.name = stream

/-- Segments are read as the stream that they are named for. -/
theorem Stream.readsAs_of_segments {units : List ContentObject} {base : Name}
    (h : ∀ u ∈ units, ∃ index, u.name = base.segment index) : ReadsAs units base.segmentRoot := by
  intro σ r u hu t content hread
  obtain ⟨index, hindex⟩ := h u hu
  rw [(Reader.readFrom_ensures r _ t trivial).2 content hread, hindex]
  exact Name.segmentRoot_segment base index

namespace VersionedObject

/-! ## Saves -/

/-- What an object is bound to once its value was published under a name. -/
structure SavedAs (codec : PayloadCodec α) (o : VersionedObject α) (s : Node) (name bound : Name)
    (left : VersionedObject α × Node) : Prop where
  /-- The object has the name. -/
  name_eq : left.1.name = some bound
  /-- It is that of a segment just when the object was saved under one below a version. -/
  isSegment_iff : bound.isSegment = true ↔ name.isVersioned = true ∧ name.isSegment = true
  /-- What was published is read as a stream, by everybody who can read it at all. -/
  published : ∃ root units s₁, SaveCall.ofValue codec o s name = .ok (root, units)
    ∧ Node.publishAll o.controller units s₁ = (.ok (), left.2)
    ∧ Stream.ReadsAs units bound.segmentRoot
    ∧ ∀ data payload, o.copy.data = some data → codec.encode data = .ok payload →
      o.client.config.Valid → Stream.Fits o.client.config payload.length →
        Stream.Reassembles o.client.config o.client.signer bound.segmentRoot payload units
  /-- The stream is not named like a segment. -/
  isSegment_stream : bound.segmentRoot.isSegment = false
  /-- It has the name of the object just when that is not a segment's. -/
  stream_eq_iff : bound.segmentRoot = bound ↔ bound.isSegment = false

/-- **A save that is made** binds the object to the name that it was saved as. -/
theorem savedAs_saveTo (h : (saveTo codec name (o, s)).1 = .ok true) :
    SavedAs codec o s name (name.versioned (Timestamp.mint s.clock s.lastMinted))
      (saveTo codec name (o, s)).2 := by
  obtain ⟨-, root, units, s₁, time, s', hpublication, -, hput, -, heq⟩ :=
    exists_of_saveTo_ok (dirty_of_saveTo_of_true h) h
  have hversioned := name.isVersioned_versioned (Timestamp.mint s.clock s.lastMinted)
  refine ⟨by rw [heq]; rfl, name.isSegment_versioned_iff _,
    ⟨root, units, s₁, hpublication, by rw [heq]; exact hput, ?_⟩,
    Name.isSegment_segmentRoot_of_isVersioned hversioned, Name.segmentRoot_eq_self_iff⟩
  obtain ⟨data, payload, hdata, hencode, -, hobjects⟩ := SaveCall.exists_of_ofValue hpublication
  refine ⟨Stream.readsAs_of_segments fun u hu => (SaveCall.ofValue_segments hpublication u hu).2,
    fun data' payload' hdata' hencode' hvalid hfit => ?_⟩
  obtain rfl := Option.some.inj (hdata.symm.trans hdata')
  obtain rfl := Except.ok.inj (hencode.symm.trans hencode')
  exact Stream.reassembles_of_objects hvalid hversioned ContentType.data_ne_gone hfit hobjects

/-- A save that finds nothing to save changes nothing. -/
theorem saveTo_of_false (h : (saveTo codec name (o, s)).1 = .ok false) :
    saveTo codec name (o, s) = (.ok false, o, s) := by
  cases hdirty : o.copy.dirty with
  | false => exact saveTo_of_clean codec name hdirty s
  | true => exact absurd (exists_of_saveTo_ok hdirty h).1 Bool.false_ne_true

/-! ## Fetches -/

/-- What an object is bound to once it has taken over the stream of an object that was found. -/
structure FetchedAs (first : ContentObject) (left : VersionedObject α) : Prop where
  /-- It has the name of the object found, with one segment component stripped. -/
  name_eq : left.name = some first.name.segmentRoot
  /-- That is a segment's just when the object found ends in two segment components. -/
  isSegment_iff : first.name.segmentRoot.isSegment = true
    ↔ first.name.isSegment = true ∧ first.name.parent.isSegment = true
  /-- It is the stream of a version when the object found is a segment of that. -/
  of_segment : ∀ (base : Name) (index : UInt64), base.isVersioned = true →
    first.name = base.segment index →
      first.name.segmentRoot = base.segmentRoot ∧ first.name.segmentRoot.isSegment = false

/-- An object is fetched as what its name says. -/
theorem FetchedAs.of_name_eq {first : ContentObject} (h : o.name = some first.name.segmentRoot) :
    FetchedAs first o := by
  refine ⟨h, Name.isSegment_segmentRoot_iff, fun base index hbase hname => ?_⟩
  rw [hname, Name.segmentRoot_segment]
  exact ⟨rfl, Name.isSegment_segmentRoot_of_isVersioned hbase⟩

/-- What is taken over and is no tombstone is a stream, and the object has the name of that. -/
theorem exists_of_absorb_ok {read : Except ReadError StreamContent}
    (h : (absorb codec read (o, s)).1 = .ok ())
    (hgone : (absorb codec read (o, s)).2.1.isGone = false) :
    ∃ stream, read = .ok stream ∧ (absorb codec read (o, s)).2.1.name = some stream.name := by
  obtain ⟨stream, data, hstream, -, heq⟩ | ⟨gone, -, heq⟩ := absorb_of_ok h
  · exact ⟨stream, hstream, by rw [heq]; rfl⟩
  · rw [heq] at hgone
    cases hgone

/-- **An update from a first segment** binds the object to the name without the segment. -/
theorem fetchedAs_updateFrom {first : ContentObject}
    (h : (updateFrom codec first (o, s)).1 = .ok ())
    (hgone : (updateFrom codec first (o, s)).2.1.isGone = false) :
    FetchedAs first (updateFrom codec first (o, s)).2.1 := by
  obtain ⟨stream, hread, hname⟩ := exists_of_absorb_ok h hgone
  refine .of_name_eq (hname.trans (congrArg some ?_))
  exact (Stream.Reader.readFrom_ensures o.client.reader first s trivial).2 stream hread

/-- An update to a name binds the object to that of the segment which is found, without the segment.
-/
theorem fetchedAs_updateTo (h : (updateTo codec name (o, s)).1 = .ok ())
    (hgone : (updateTo codec name (o, s)).2.1.isGone = false) :
    ∃ first t, o.client.reader.first name s = (.ok first, t)
      ∧ FetchedAs first (updateTo codec name (o, s)).2.1 := by
  obtain ⟨stream, hread, hname⟩ := exists_of_absorb_ok h hgone
  obtain ⟨first, t, hfirst, hrest⟩ : ∃ first t, o.client.reader.first name s = (.ok first, t)
      ∧ o.client.reader.readFrom first t = (.ok stream, (o.client.reader.read name s).2) := by
    refine Action.exists_of_bind_eq_ok ?_
    rw [← Stream.Reader.read_eq]
    exact Prod.ext hread rfl
  refine ⟨first, t, hfirst, .of_name_eq (hname.trans (congrArg some ?_))⟩
  exact (Stream.Reader.readFrom_ensures o.client.reader first t trivial).2 stream
    (congrArg Prod.fst hrest)

/-! ## All operations -/

/-- **What objects are bound to**, for every object, name and object found, in every state of the
node. A save that publishes binds its object to the name that it publishes under, and a fetch that
does not find a tombstone to that of the stream it has read. What was published is read under the
name of the object, which is none of a segment then, unless the object was saved under the name of a
segment of a version. What was fetched gives the name of a segment just when the object that the
read began with ends in two segment components. A save or an update that is given no name is one
for the root of the versions of the object's own. -/
theorem bound_names (codec : PayloadCodec α) (o : VersionedObject α) (s : Node) :
    (∀ name,
        ((saveTo codec name (o, s)).1 = .ok true →
          SavedAs codec o s name (name.versioned (Timestamp.mint s.clock s.lastMinted))
            (saveTo codec name (o, s)).2)
        ∧ ((saveTo codec name (o, s)).1 = .ok false → (saveTo codec name (o, s)).2 = (o, s)))
      ∧ (∀ name, (updateTo codec name (o, s)).1 = .ok () →
        (updateTo codec name (o, s)).2.1.isGone = false →
          ∃ first t, o.client.reader.first name s = (.ok first, t)
            ∧ FetchedAs first (updateTo codec name (o, s)).2.1)
      ∧ (∀ first, (updateFrom codec first (o, s)).1 = .ok () →
        (updateFrom codec first (o, s)).2.1.isGone = false →
          FetchedAs first (updateFrom codec first (o, s)).2.1)
      ∧ ∀ n, o.name = some n →
        save codec (o, s) = saveTo codec n.versionRoot (o, s)
          ∧ update codec (o, s) = updateTo codec n.versionRoot (o, s) :=
  ⟨fun _ => ⟨savedAs_saveTo, fun h => congrArg Prod.snd (saveTo_of_false h)⟩,
    fun _ => fetchedAs_updateTo, fun _ => fetchedAs_updateFrom,
    fun _ hname => ⟨save_eq codec hname s, update_eq codec hname s⟩⟩

/-- An object is saved, which binds it to a version, and is updated to what was published. Then it
takes over a segment of another version. -/
theorem bound_names_version :
    let codec : PayloadCodec Unit := ⟨fun _ => .ok [], fun _ => .ok ()⟩
    let root : Name := ⟨[⟨[97]⟩]⟩
    let client : Client := ⟨default, .echo, .echo, { verifySignatures := false }, 3⟩
    let w := Sharing.start 8 ⟨5⟩ root client (α := Unit) .empty
    let o := w.writer.set ()
    let saved := save codec (o, w.node)
    let updated := update codec saved.2
    let first : ContentObject := ⟨(root.withVersion ⟨7⟩).segment 0,
      ⟨default, ⟨0⟩, .data, none, some (segmentComponent 0)⟩, [], none⟩
    let taken := updateFrom codec first updated.2
    (saved.1 = .ok true ∧ SavedAs codec o w.node root (root.withVersion ⟨5⟩) saved.2)
      ∧ (updated.1 = .ok ()
        ∧ ∃ found t, saved.2.1.client.reader.first root saved.2.2 = (.ok found, t)
          ∧ FetchedAs found updated.2.1)
      ∧ taken.1 = .ok () ∧ FetchedAs first taken.2.1 := by
  intro codec root client w o saved updated first taken
  have hsaved : saved.1 = .ok true := by decide +kernel
  have hupdated : updated.1 = .ok () := by decide +kernel
  have htaken : taken.1 = .ok () := by decide +kernel
  refine ⟨⟨hsaved, ?_⟩, ⟨hupdated, ?_⟩, htaken, ?_⟩
  · obtain ⟨hsaves, -, -, hown⟩ := bound_names codec o w.node
    have heq : saved = saveTo codec root (o, w.node) := (hown root rfl).1
    rw [heq] at hsaved ⊢
    exact (hsaves root).1 hsaved
  · obtain ⟨-, hupdates, -, hown⟩ := bound_names codec saved.2.1 saved.2.2
    have heq : updated = updateTo codec root saved.2 :=
      (hown (root.withVersion ⟨5⟩) (by decide +kernel)).2
    rw [heq] at hupdated ⊢
    exact hupdates root hupdated (by decide +kernel)
  · obtain ⟨-, -, htakes, -⟩ := bound_names codec updated.2.1 updated.2.2
    exact htakes first htaken (by decide +kernel)

/-- **Objects are bound to names of segments** by a save under the name of a segment of a version,
which is read as the stream of the version, and by a fetch of an object that ends in two segment
components. -/
theorem bound_to_segment :
    let codec : PayloadCodec Unit := ⟨fun _ => .ok [], fun _ => .ok ()⟩
    let root : Name := ⟨[⟨[97]⟩]⟩
    let client : Client := ⟨default, .echo, .echo, { verifySignatures := false }, 3⟩
    let w := Sharing.start 8 ⟨5⟩ root client (α := Unit) .empty
    let version := root.withVersion ⟨1⟩
    let saved := saveTo codec (version.segment 0) (w.writer.set (), w.node)
    let inner := root.child (segmentComponent 0)
    let first : ContentObject := ⟨inner.child (segmentComponent 0),
      ⟨default, ⟨0⟩, .data, none, some (segmentComponent 0)⟩, [], none⟩
    let taken := updateFrom codec first (w.writer, w.node)
    (saved.1 = .ok true ∧ saved.2.1.name = some (version.segment 0)
        ∧ (version.segment 0).isSegment = true
        ∧ (client.reader.read version saved.2.2).1 = .ok ⟨version, [], 1⟩)
      ∧ taken.1 = .ok () ∧ taken.2.1.isGone = false ∧ taken.2.1.name = some inner
        ∧ inner.isSegment = true := by
  decide +kernel

end VersionedObject

end NamedContent
