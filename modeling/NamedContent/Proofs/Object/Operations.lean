import NamedContent.Proofs.Node.Publishing
import NamedContent.Proofs.Object.Saves

/-! # Operations of versioned objects

What saving and updating come to on a node with one publisher: saving and declaring gone add a
publication later than all before, and updating observes the last one.

* `VersionedObject.Published`: what an object has published, and nothing else is
* `VersionedObject.saveTo_eq_ok`, `VersionedObject.saveAsGone_eq_ok`: publishing
* `VersionedObject.serves_reader`: a client's reader gets right answers
* `VersionedObject.update_eq_observed`: fetching, by what the reader observes -/

namespace NamedContent

variable {α : Type}

/-- Whether an object publishes below a name, and a node holds just what it has published there. -/
structure VersionedObject.Published (root : Name) (past : List Publication)
    (o : VersionedObject α) (s : Node) : Prop where
  config : o.client.config.Valid
  history : History o.client.config o.client.signer root past
  offers : ∃ roots, (past = [] ∨ root ∈ roots) ∧ s.Offers ⟨o.controller,
    o.client.config.bufferCapacity.toNat, roots, History.units past, s.lastMinted⟩
  times : ∀ p ∈ past, p.time.ticks.toNat ≤ s.lastMinted.ticks.toNat

namespace VersionedObject.Published

variable {root : Name} {past : List Publication} {o : VersionedObject α} {s s' : Node}

/-- Whatever leaves every offer as it was leaves the publications as they were. -/
theorem of_offers (h : Published root past o s) (hs : ∀ a, s.Offers a → s'.Offers a) :
    Published root past o s' := by
  obtain ⟨roots, hasked, hoffers⟩ := h.offers
  have hoffers' := hs _ hoffers
  have hminted : s'.lastMinted = s.lastMinted := hoffers'.minted
  exact ⟨h.config, h.history, ⟨roots, hasked, hminted ▸ hoffers'⟩, hminted ▸ h.times⟩

/-- A namespace that any object adds leaves the publications as they were. -/
theorem addNamespace (h : Published root past o s) (id : ControllerId) (name : Name) :
    ∃ s', Node.addNamespace id name s = (.ok (), s') ∧ Published root past o s' := by
  obtain ⟨roots, hasked, hoffers⟩ := h.offers
  obtain ⟨s', hadd, hs'⟩ := hoffers.addNamespace id name
  refine ⟨s', hadd, ?_⟩
  by_cases hid : id = o.controller
  · rw [if_pos hid] at hs'
    have hminted : s'.lastMinted = s.lastMinted := hs'.minted
    exact ⟨h.config, h.history,
      ⟨name :: roots, hasked.imp_right (List.mem_cons_of_mem _), hminted ▸ hs'⟩,
      hminted ▸ h.times⟩
  · rw [if_neg hid] at hs'
    have hminted : s'.lastMinted = s.lastMinted := hs'.minted
    exact ⟨h.config, h.history, ⟨roots, hasked, hminted ▸ hs'⟩, hminted ▸ h.times⟩

/-- **Publishing a version**: once a time is minted, the objects of the version are put below the
namespace. -/
theorem publish (h : Published root past o s)
    (hlimit : (Timestamp.mint s.clock s.lastMinted).ticks.toNat < versionLimit) {p : Publication}
    (hp : p.Sound o.client.config o.client.signer root)
    (htime : p.time = Timestamp.mint s.clock s.lastMinted)
    (hroom : (History.units past).length + p.units.length
      ≤ o.client.config.bufferCapacity.toNat) :
    ∃ s', Node.publishBelow o.controller root p.units
        { s with lastMinted := Timestamp.mint s.clock s.lastMinted } = (.ok (), s')
      ∧ Published root (past ++ [p]) o s' := by
  obtain ⟨roots, -, hoffers⟩ := h.offers
  have hminted := hoffers.setMinted (Timestamp.mint s.clock s.lastMinted)
  obtain ⟨s₂, hadd, hs₂⟩ := hminted.addNamespace o.controller root
  rw [if_pos rfl] at hs₂
  -- a minted time is later than the last one, and so than those of all versions
  have hlater : ∀ q ∈ past, q.time < p.time := by
    intro q hq
    have hlt := UInt64.lt_iff_toNat_lt.1 (Timestamp.lt_mint hlimit)
    rw [htime]
    exact UInt64.lt_iff_toNat_lt.2 (Nat.lt_of_le_of_lt (h.times q hq) hlt)
  -- names tell versions apart, so that no object is published again
  have hnew : ∀ u ∈ p.units, ∀ v ∈ History.units past, v.name ≠ u.name := by
    intro u hu v hv
    obtain ⟨q, hq, hv⟩ := List.mem_flatMap.1 hv
    exact (h.history.sound q hq).name_ne hp (hlater q hq) hv hu
  obtain ⟨s₃, hput, hs₃⟩ := hs₂.publishAll (fun u hu => (hp.genuine u hu).1)
    (fun u hu => ⟨root, List.mem_cons_self, hp.isPrefixOf_name hu⟩) hnew hp.nodup_names hroom
  have hlast : s₃.lastMinted = Timestamp.mint s.clock s.lastMinted := hs₃.minted
  refine ⟨s₃, ?_, h.config, h.history.concat hp hlater, ?_, fun q hq => ?_⟩
  · rw [Node.publishBelow, Action.bind_run, hadd]
    exact hput
  · rw [History.units_concat, hlast]
    exact ⟨_, .inr List.mem_cons_self, hs₃⟩
  · rw [hlast]
    rcases List.mem_append.1 hq with hq | hq
    · have hlt := UInt64.lt_iff_toNat_lt.1 (Timestamp.lt_mint hlimit)
      exact Nat.le_of_lt (Nat.lt_of_le_of_lt (h.times q hq) hlt)
    · rw [List.mem_singleton.1 hq, htime]

end VersionedObject.Published

namespace VersionedObject

variable {root : Name} {past : List Publication} {o : VersionedObject α} {s : Node}
  {codec : PayloadCodec α}

/-! ## Publishing -/

/-- **Saving a changed value publishes it**, with a signer that never fails, as a version later than
all before, to whose name the object is then bound. -/
theorem saveTo_eq_ok (h : Published root past o s) (hsigns : o.client.signer.Signs)
    (hroot : root.isVersioned = false)
    (hlimit : (Timestamp.mint s.clock s.lastMinted).ticks.toNat < versionLimit)
    (hdirty : o.copy.dirty = true) {a : α} (hdata : o.copy.data = some a) {payload : Bytes}
    (hencode : codec.encode a = .ok payload) (hfit : Stream.Fits o.client.config payload.length)
    (hroom : (History.units past).length + Stream.segmentCount o.client.config payload.length
      ≤ o.client.config.bufferCapacity.toNat) :
    ∃ p time s', saveTo codec root (o, s)
        = (.ok true, ({ o with copy := o.copy.markSaved time }.bindTo (p.name root) false, s'))
      ∧ p.payload = some payload
      ∧ p.units.length = Stream.segmentCount o.client.config payload.length
      ∧ Published root (past ++ [p]) o s' := by
  have hversioned : root.versioned (Timestamp.mint s.clock s.lastMinted)
      = root.withVersion (Timestamp.mint s.clock s.lastMinted) := by
    rw [Name.versioned, hroot, if_neg Bool.false_ne_true]
  have hobjects : Stream.objects o.client.config o.client.signer s.clock
      (root.versioned (Timestamp.mint s.clock s.lastMinted)) payload .data = .ok _ :=
    Stream.objects_eq_ok hsigns ContentType.data_ne_gone
  obtain ⟨time, -, heq⟩ :=
    saveTo_of_publication hdirty (SaveCall.ofValue_eq_ok hdata hencode hobjects)
  rw [hversioned] at hobjects
  obtain ⟨s', hput, hs'⟩ := h.publish hlimit
    (Publication.sound_objects h.config hlimit hfit hobjects) rfl
    (by rwa [Stream.length_segments h.config])
  refine ⟨_, time, s', ?_, rfl, Stream.length_segments h.config, hs'⟩
  simp only [hversioned, hroot, Bool.false_eq_true, if_false,
    Name.versionRoot_of_not_isVersioned hroot] at heq
  rw [heq, hput]
  rfl

/-- **Declaring a name gone publishes a tombstone**, with a signer that never fails, as a version
later than all before, to whose name the object is then bound. -/
theorem saveAsGone_eq_ok (h : Published root past o s) (hsigns : o.client.signer.Signs)
    (hroot : root.isVersioned = false)
    (hlimit : (Timestamp.mint s.clock s.lastMinted).ticks.toNat < versionLimit)
    (hroom : (History.units past).length + 1 ≤ o.client.config.bufferCapacity.toNat) :
    ∃ p time s', saveAsGone root (o, s)
        = (.ok (), ({ o with copy := o.copy.markSaved time }.bindTo (p.name root) true, s'))
      ∧ p.payload = none ∧ p.units.length = 1 ∧ Published root (past ++ [p]) o s' := by
  have htombstone : Stream.tombstone o.client.config o.client.signer s.clock
      (root.withVersion (Timestamp.mint s.clock s.lastMinted)) = .ok _ :=
    Stream.tombstone_eq_ok hsigns (root.withVersion_ne_root _)
  obtain ⟨s', hput, hs'⟩ :=
    h.publish hlimit (Publication.sound_tombstone hlimit htombstone) rfl hroom
  obtain ⟨time, -, heq⟩ :=
    saveAsGone_of_publication (SaveCall.ofTombstone_eq_ok hroot htombstone)
  refine ⟨_, time, s', ?_, rfl, rfl, hs'⟩
  rw [heq, hput]
  rfl

/-! ## Fetching -/

/-- **A client's reader gets right answers** below a name under which all is published. -/
theorem serves_reader (client : Client) {a : Offer} (hasked : a.units = [] ∨ root ∈ a.roots) :
    client.reader.Serves (fun s => s.Offers a) root a.units := by
  intro i hi hvalid timeout htimeout s hs
  obtain ⟨hoffers, hanswers⟩ := hs.get client.face i (some timeout.toNat)
  obtain ⟨found, hfound, hright⟩ := hanswers hvalid
  refine ⟨found, _, Prod.ext hfound rfl, hright ?_ ?_, hoffers⟩
  · intro hzero
    exact htimeout (UInt64.toNat_inj.1 (Option.some.inj hzero))
  · exact hasked.imp_right fun hroot => ⟨root, hroot, hi⟩

/-- An object with a name fetches the latest version below the root of its versions. -/
theorem update_eq (codec : PayloadCodec α) {n : Name} (hname : o.name = some n) (s : Node) :
    update codec (o, s)
      = absorb codec (o.client.reader.read n.versionRoot s).1
          (o, (o.client.reader.read n.versionRoot s).2) := by
  simp only [update, updateTo, requireName, self, Action.bind_run, hname, Action.pure_run,
    Action.attempt, onNode, Action.focus]

/-- What an object is after it has observed something. -/
def afterObserving (codec : PayloadCodec α) (o : VersionedObject α) :
    Except ReadError StreamContent → Except ObjectError Unit × VersionedObject α
  | .ok stream =>
    match codec.decode stream.content with
    | .ok data => (.ok (), { o with copy := o.copy.replaceClean data }.bindTo stream.name false)
    | .error e => (.error (.marshal e), o)
  | .error (.gone name) => (.ok (), { o with copy := o.copy.markClean }.bindTo name true)
  | .error e => (.error (.read e), o)

/-- Whatever is observed, an object stays with its client. -/
@[simp] theorem afterObserving_client (codec : PayloadCodec α) (o : VersionedObject α)
    (result : Except ReadError StreamContent) :
    (afterObserving codec o result).2.client = o.client := by
  unfold afterObserving
  split
  · split <;> rfl
  · rfl
  · rfl

/-- Observing keeps the name or changes it to that of a version. -/
theorem afterObserving_name (codec : PayloadCodec α) (o : VersionedObject α) (root : Name)
    (past : List Publication) :
    (afterObserving codec o (History.observed root past)).2.name = o.name
      ∨ ∃ p : Publication,
        (afterObserving codec o (History.observed root past)).2.name = some (p.name root) := by
  rw [History.observed]
  split
  · exact .inl rfl
  · next p _ =>
    split
    · rw [afterObserving]
      split
      · exact .inr ⟨p, rfl⟩
      · exact .inl rfl
    · exact .inr ⟨p, rfl⟩

/-- Taking over what was read changes the object as it says, and no publication. -/
theorem absorb_eq {writer : VersionedObject α} (h : Published root past writer s)
    (codec : PayloadCodec α) (o : VersionedObject α) (result : Except ReadError StreamContent) :
    ∃ s', absorb codec result (o, s)
        = ((afterObserving codec o result).1, (afterObserving codec o result).2, s')
      ∧ Published root past writer s' := by
  cases result with
  | error e =>
    refine ⟨s, ?_, h⟩
    cases e <;> rfl
  | ok stream =>
    cases hdecode : codec.decode stream.content with
    | error e =>
      refine ⟨s, ?_, h⟩
      simp only [absorb, afterObserving, hdecode, mapError_error, Action.bind_run,
        Action.ofExcept_run]
    | ok data =>
      obtain ⟨s', hadd, hpublished⟩ := h.addNamespace o.controller stream.name
      refine ⟨s', ?_, hpublished⟩
      simp only [absorb, afterObserving, hdecode, mapError_ok, Action.bind_run,
        Action.ofExcept_run, addNamespace, self, Action.mapError, onNode, Action.focus, hadd,
        change, Action.modify_run]

/-- **Updating observes the last publication**, whoever asks. -/
theorem update_eq_observed {writer : VersionedObject α} (h : Published root past writer s)
    (hroot : root.isVersioned = false) {n : Name} (hname : o.name = some n)
    (hn : n.versionRoot = root)
    (hsuits : o.client.reader.Suits writer.client.config writer.client.signer)
    (hlimit : (History.units past).length < o.client.readLimit) :
    ∃ s', update codec (o, s)
        = ((afterObserving codec o (History.observed root past)).1,
            (afterObserving codec o (History.observed root past)).2, s')
      ∧ Published root past writer s' := by
  obtain ⟨roots, hasked, hoffers⟩ := h.offers
  have hunits : History.units past = [] ∨ root ∈ roots :=
    hasked.imp_left fun hnil => by rw [hnil]; rfl
  -- the reader's fetches keep the writer's offer and are answered from it
  have hserves := serves_reader o.client (a := ⟨writer.controller,
    writer.client.config.bufferCapacity.toNat, roots, History.units past, s.lastMinted⟩) hunits
  obtain ⟨s₁, hread, hs₁⟩ := Stream.Reader.read_eq_observed h.history hsuits hserves hroot hlimit
    hoffers
  have hpublished : Published root past writer s₁ := by
    have hminted : s₁.lastMinted = s.lastMinted := hs₁.minted
    exact ⟨h.config, h.history, ⟨roots, hasked, hminted ▸ hs₁⟩, hminted ▸ h.times⟩
  rw [update_eq codec hname, hn, hread]
  exact absorb_eq hpublished codec o _

end VersionedObject

end NamedContent
