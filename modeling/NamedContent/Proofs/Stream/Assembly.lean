import NamedContent.Proofs.Action
import NamedContent.Proofs.Interest.Selection
import NamedContent.Proofs.Name.Versions
import NamedContent.Proofs.Stream.Segmentation
import NamedContent.Stream.Reader

/-! # Streams are put together again

A reader that can fetch every segment of a stream by its name puts the contents together, whichever
segment it starts from. It needs no more of the writer's configuration than how indices advance: the
length of a full segment is a block, so that counting bytes leads to the same indices.

* `Config.Follows`, `Stream.Reader.Fetches`: what the reader shares with the writer and the network
* `Stream.Reader.readFrom_eq_ok`: reading from any segment of a stream -/

namespace NamedContent

/-- Whether indices advance in one configuration as in another. -/
def Config.Follows (reader writer : Config) : Prop :=
  reader.numbering = writer.numbering ∧ reader.segmentIncrement = writer.segmentIncrement

/-- After a full block of the writer, the reader's next index is the writer's. -/
theorem Config.Follows.nextIndex {reader writer : Config} (h : reader.Follows writer) (k : Nat) :
    reader.nextIndex (writer.indexAt k) writer.blockSize = writer.indexAt (k + 1) := by
  rw [← writer.nextIndex_indexAt k, Config.nextIndex, Config.nextIndex, h.1, h.2]

namespace Stream

/-! ## Segments of one stream -/

namespace IsStream

variable {config : Config} {base : Name} {units : List ContentObject}

/-- Segments at different positions have different names. -/
theorem name_inj (hs : IsStream config base units) {j k : Nat} (hj : j < units.length)
    (hk : k < units.length) (h : units[j].name = units[k].name) : j = k := by
  rw [hs.name j hj, hs.name k hk, Name.segment_inj] at h
  exact Config.indexAt_inj hs.step_ne_zero hs.fits (by omega) (by omega) h

/-- No two segments have the same name. -/
theorem nodup_names (hs : IsStream config base units) : (units.map (·.name)).Nodup := by
  rw [List.Nodup, List.pairwise_map, List.pairwise_iff_getElem]
  intro j k hj hk hjk heq
  exact absurd (hs.name_inj hj hk heq) (Nat.ne_of_lt hjk)

/-- A segment is told by its name. -/
theorem eq_of_name_eq (hs : IsStream config base units) {o p : ContentObject} (ho : o ∈ units)
    (hp : p ∈ units) (h : o.name = p.name) : o = p := by
  obtain ⟨j, hj, rfl⟩ := List.getElem_of_mem ho
  obtain ⟨k, hk, rfl⟩ := List.getElem_of_mem hp
  have hjk := hs.name_inj hj hk h
  subst hjk
  rfl

/-- **Exactly the last segment is a final block.** -/
theorem isFinalBlock_getElem (hs : IsStream config base units) {k : Nat} (hk : k < units.length) :
    units[k].isFinalBlock = decide (k + 1 = units.length) := by
  rw [ContentObject.isFinalBlock, hs.finalBlock _ (List.getElem_mem hk), hs.name k hk,
    Name.last?_segment, Bool.eq_iff_iff, decide_eq_true_iff]
  show (some _ == some _) = true ↔ _
  rw [beq_iff_eq, Option.some.injEq, segmentComponent_inj]
  constructor
  · intro h
    have := Config.indexAt_inj hs.step_ne_zero hs.fits (by omega) (Nat.le_refl _) h
    omega
  · intro h
    rw [← h, Nat.add_sub_cancel]

/-- Segments are named under the stream's name alike when that is given as a segment's. -/
theorem segmentRoot (hs : IsStream config base units)
    (hb : base.segmentRoot.segmentRoot = base.segmentRoot) :
    IsStream config base.segmentRoot units :=
  { hs with name := fun k hk => by rw [hs.name k hk, Name.segment, Name.segment, hb] }

/-- Every segment is named under the stream's name. -/
theorem segmentRoot_name (hs : IsStream config base units) {o : ContentObject} (ho : o ∈ units) :
    o.name.segmentRoot = base.segmentRoot := by
  obtain ⟨k, hk, rfl⟩ := List.getElem_of_mem ho
  rw [hs.name k hk, Name.segmentRoot_segment]

/-- No segment's name is that of a whole stream. -/
theorem isUnsegmented_name (hs : IsStream config base units) {o : ContentObject} (ho : o ∈ units) :
    o.name.isUnsegmented = false := by
  obtain ⟨k, hk, rfl⟩ := List.getElem_of_mem ho
  rw [hs.name k hk, Name.isUnsegmented, Name.isSegment_segment]
  rfl

/-- A stream has a first segment. -/
theorem length_pos (hs : IsStream config base units) : 0 < units.length :=
  List.length_pos_iff.2 hs.ne_nil

end IsStream

/-! ## Reading -/

namespace Reader

variable {σ : Type} {Inv : σ → Prop} {config : Config} {base : Name} {units : List ContentObject}
  {r : Reader σ}

/-- A network from which a reader gets each of some objects by its name, in every state of a kind
that fetching keeps. -/
def Fetches (r : Reader σ) (Inv : σ → Prop) (units : List ContentObject) : Prop :=
  ∀ o ∈ units, ∀ s, Inv s →
    ∃ s', r.fetch (.exact o.name) r.config.fetchTimeout s = (.ok (some o), s') ∧ Inv s'

/-- An object that keeps the rules, and is genuine where that is checked, may be used. -/
theorem check_eq_ok {o : ContentObject} (hv : o.Valid)
    (hg : r.config.verifySignatures = true → o.verify r.verifier = .ok true) :
    r.check o = .ok () := by
  rw [check, (ContentObject.validate_eq_ok_iff o).2 hv]
  by_cases h : r.config.verifySignatures = true
  · simp [h, hg h, mapError_ok, bind, Except.bind, pure, Except.pure]
  · simp [h, mapError_ok, bind, Except.bind, pure, Except.pure]

/-- An object may be used just when it keeps the rules and is genuine where that is checked. -/
theorem check_eq_ok_iff {o : ContentObject} :
    r.check o = .ok () ↔
      o.Valid ∧ (r.config.verifySignatures = true → o.verify r.verifier = .ok true) := by
  refine ⟨fun h => ?_, fun h => check_eq_ok h.1 h.2⟩
  obtain ⟨_, hvalid, hrest⟩ := bind_eq_ok_iff.1 h
  refine ⟨(ContentObject.validate_eq_ok_iff o).1 (mapError_eq_ok_iff.1 hvalid), fun hverify => ?_⟩
  rw [if_pos hverify] at hrest
  obtain ⟨genuine, hsigned, hgenuine⟩ := bind_eq_ok_iff.1 hrest
  rw [mapError_eq_ok_iff.1 hsigned]
  cases genuine with
  | true => rfl
  | false => cases hgenuine

/-- What can be fetched by name comes when it is required. -/
theorem Fetches.require (hf : r.Fetches Inv units) {o : ContentObject} (ho : o ∈ units) {s : σ}
    (hs : Inv s) : ∃ s', r.require (.exact o.name) o.name s = (.ok o, s') ∧ Inv s' := by
  obtain ⟨s', hfetch, hs'⟩ := hf o ho s hs
  refine ⟨s', ?_, hs'⟩
  simp [Reader.require, Action.bind_run, Action.mapError, hfetch]

/-- The last segment ends the reading. -/
theorem assemble_of_isFinalBlock {o : ContentObject} (h : o.isFinalBlock = true) (limit : Nat)
    (index : UInt64) (s : σ) : r.assemble base limit index o s = (.ok (o.content, 1), s) := by
  cases limit <;> simp [assemble, h]

/-- What a list begins with after some elements are dropped stands at that position. -/
theorem getElem_of_drop_eq_cons {α : Type} {xs rest : List α} {k : Nat} {x : α}
    (h : xs.drop k = x :: rest) : ∃ hk : k < xs.length, xs[k] = x ∧ xs.drop (k + 1) = rest := by
  have hk : k < xs.length := by
    apply Nat.lt_of_not_le
    intro hle
    rw [List.drop_eq_nil_of_le hle] at h
    exact absurd h (by simp)
  rw [List.drop_eq_getElem_cons hk] at h
  exact ⟨hk, List.cons.inj h⟩

/-- **From any position on, a reader puts together what is left of a stream.** The induction is on
the segments after that position. -/
theorem assemble_eq_ok (hstream : IsStream config base units) (hr : r.config.Follows config)
    (hf : r.Fetches Inv units) (hc : ∀ o ∈ units, r.check o = .ok ())
    {rest : List ContentObject} {k limit : Nat} {o : ContentObject} (hk : units.drop k = o :: rest)
    (hlimit : rest.length ≤ limit) {s : σ} (hs : Inv s) :
    ∃ s', r.assemble base limit (config.indexAt k) o s
        = (.ok ((o :: rest).flatMap (·.content), rest.length + 1), s') ∧ Inv s' := by
  induction rest generalizing k limit o s with
  | nil =>
    obtain ⟨hlt, ho, hnil⟩ := getElem_of_drop_eq_cons hk
    -- the last segment is the final block, and nothing is fetched after it
    have hfinal : o.isFinalBlock = true := by
      rw [← ho, hstream.isFinalBlock_getElem, decide_eq_true_iff]
      have := List.drop_eq_nil_iff.1 hnil
      omega
    refine ⟨s, ?_, hs⟩
    rw [assemble_of_isFinalBlock hfinal]
    simp
  | cons next rest ih =>
    obtain ⟨hlt, ho, hdrop⟩ := getElem_of_drop_eq_cons hk
    obtain ⟨hlt', hnext, -⟩ := getElem_of_drop_eq_cons hdrop
    have hfinal : ¬ o.isFinalBlock = true := by
      rw [← ho, hstream.isFinalBlock_getElem, decide_eq_true_iff]
      omega
    -- a segment before the last is full, so the index after it is that of the next position
    have hfull : UInt64.ofNat o.content.length = config.blockSize := by
      rw [← ho, hstream.full k hlt', UInt64.ofNat_toNat]
    have hmem : next ∈ units := hnext ▸ List.getElem_mem _
    obtain ⟨limit, rfl⟩ : ∃ l, limit = l + 1 := by
      rw [List.length_cons] at hlimit
      exact ⟨limit - 1, by omega⟩
    obtain ⟨s₁, hreq, hs₁⟩ := hf.require hmem hs
    obtain ⟨s₂, hrest, hs₂⟩ := ih hdrop (by simpa using hlimit) hs₁
    refine ⟨s₂, ?_, hs₂⟩
    have hname : base.segment (config.indexAt (k + 1)) = next.name := by
      rw [← hnext, hstream.name]
    rw [assemble, if_neg hfinal]
    simp only [hfull, hr.nextIndex, hname, Action.bind_run, hreq, Action.ofExcept_run,
      hc next hmem, hrest, Action.pure_run]
    simp

/-- **A reader that starts from any segment of a stream gets the whole of it**, under the stream's
name and with the number of its segments. -/
theorem readFrom_eq_ok (hstream : IsStream config base units)
    (hbase : base.segmentRoot.segmentRoot = base.segmentRoot) (hr : r.config.Follows config)
    (hf : r.Fetches Inv units) (hc : ∀ o ∈ units, r.check o = .ok ())
    (hlimit : units.length ≤ r.limit) {first : ContentObject} (hfirst : first ∈ units) {s : σ}
    (hs : Inv s) :
    ∃ s', r.readFrom first s
        = (.ok ⟨base.segmentRoot, units.flatMap (·.content), units.length⟩, s') ∧ Inv s' := by
  have hroot := hstream.segmentRoot_name hfirst
  obtain ⟨k, hk, rfl⟩ := List.getElem_of_mem hfirst
  obtain ⟨head, rest, hunits⟩ := List.exists_cons_of_ne_nil hstream.ne_nil
  have hhead : head ∈ units := hunits ▸ List.mem_cons_self
  have hpos := hstream.length_pos
  have hzero : units[0] = head := by simp [hunits]
  have hname : base.segmentRoot.segment firstSegment = head.name := by
    rw [← hzero, (hstream.segmentRoot hbase).name 0 hpos, Config.indexAt_zero]
  have hrest : rest.length ≤ r.limit := by
    rw [hunits, List.length_cons] at hlimit
    omega
  -- the rest of the reading, from the first segment on
  have hassemble : ∀ s, Inv s → ∃ s', r.assemble base.segmentRoot r.limit firstSegment head s
      = (.ok (units.flatMap (·.content), units.length), s') ∧ Inv s' := by
    intro s hs
    have := assemble_eq_ok (hstream.segmentRoot hbase) hr hf hc
      (show units.drop 0 = head :: rest from hunits) hrest hs
    rwa [Config.indexAt_zero, ← hunits, show rest.length + 1 = units.length by simp [hunits]]
      at this
  rw [readFrom]
  simp only [Action.bind_run, Action.ofExcept_run, hc _ (List.getElem_mem hk),
    hstream.not_gone _ (List.getElem_mem hk), hstream.isUnsegmented_name (List.getElem_mem hk),
    hroot, Bool.false_eq_true, if_false]
  by_cases h0 : units[k].name.segmentIndex? = some firstSegment
  · -- the segment at hand is the first one
    have hidx : k = 0 := by
      rw [hstream.name k hk, Name.segmentIndex?_segment, Option.some.injEq,
        ← config.indexAt_zero] at h0
      exact Config.indexAt_inj hstream.step_ne_zero hstream.fits (by omega) (by omega) h0
    subst hidx
    obtain ⟨s', hs', hinv⟩ := hassemble s hs
    refine ⟨s', ?_, hinv⟩
    rw [if_pos h0]
    simp [Action.bind_run, hzero, hs']
  · -- the first segment is fetched by its name
    obtain ⟨s₁, hreq, hs₁⟩ := hf.require hhead hs
    obtain ⟨s', hs', hinv⟩ := hassemble s₁ hs₁
    refine ⟨s', ?_, hinv⟩
    rw [if_neg h0, hname]
    simp [Action.bind_run, hreq, hc head hhead, hs']

/-- A network that holds fixed objects and answers from them as a store does. -/
def shelf (units : List ContentObject) : Fetcher Unit := fun i _ s => (.ok (i.select units), s)

/-- From a network that holds the segments of a stream each of them can be fetched. -/
theorem fetches_shelf (hstream : IsStream config base units) {r : Reader Unit}
    (h : r.fetch = shelf units) : r.Fetches (fun _ => True) units := by
  intro o ho s _
  have hanswer := Interest.answers_select (.exact o.name) units
  rw [h, shelf, hanswer.eq_of_exact ho fun p hp hname => hstream.eq_of_name_eq hp ho hname]
  exact ⟨s, rfl, trivial⟩

end Reader

/-! ## Cutting and putting together again -/

/-- What a reader gets from the segments of a payload: from each of them the stream's name, the
payload and the number of segments, in every network that answers an exact interest for a segment
with it. The limit on calls, which must be there for reading to be a function, is no less than the
number of segments. -/
def Reassembles (config : Config) (signer : Signer) (stream : Name) (payload : Bytes)
    (units : List ContentObject) : Prop :=
  ∀ (σ : Type) (r : Reader σ) (Inv : σ → Prop), r.config.Follows config →
    (r.config.verifySignatures = true → r.verifier.Trusts signer) → r.Fetches Inv units →
    units.length ≤ r.limit → ∀ first ∈ units, ∀ s, Inv s →
      ∃ s', r.readFrom first s = (.ok ⟨stream, payload, units.length⟩, s') ∧ Inv s'

/-- What a payload was cut into is put together again. -/
theorem reassembles_of_objects {config : Config} (hconfig : config.Valid) {signer : Signer}
    {now : Timestamp} {base : Name} (hbase : base.isVersioned = true) {payload : Bytes}
    {type : ContentType} (htype : type ≠ .gone) (hfit : Fits config payload.length)
    {units : List ContentObject} (h : objects config signer now base payload type = .ok units) :
    Reassembles config signer base.segmentRoot payload units := by
  intro σ r Inv hr htrust hf hlimit first hfirst s hs
  obtain ⟨rfl, hgenuine⟩ := segments_of_objects h
  have hstream : IsStream config base (segments config signer now base payload type) :=
    isStream_segments hconfig htype hfit
  have hcheck : ∀ o ∈ segments config signer now base payload type, r.check o = .ok () :=
    fun o ho => Reader.check_eq_ok (hgenuine o ho).1 fun hverify =>
      (hgenuine o ho).2 _ (htrust hverify)
  have hroot := Name.segmentRoot_segmentRoot_of_isVersioned hbase
  obtain ⟨s', hread, hs'⟩ := Reader.readFrom_eq_ok hstream hroot hr hf hcheck hlimit hfirst hs
  refine ⟨s', ?_, hs'⟩
  rw [hread, flatMap_content_segments hconfig]

/-- **Cutting a payload into segments and putting these together again is the identity.** With a
signer that never fails there is a segment for each started block and at least one, exactly the last
is a final block, and a reader that starts from any of them gets the payload back under the stream's
name. -/
theorem reassembles_objects {config : Config} (hconfig : config.Valid) {signer : Signer}
    (hsigns : signer.Signs) (now : Timestamp) {base : Name} (hbase : base.isVersioned = true)
    (payload : Bytes) {type : ContentType} (htype : type ≠ .gone)
    (hfit : Fits config payload.length) :
    ∃ units, objects config signer now base payload type = .ok units
      ∧ units.length = max 1 (payload.length ⌈/⌉ config.blockSize.toNat)
      ∧ (∀ k (hk : k < units.length), units[k].isFinalBlock = decide (k + 1 = units.length))
      ∧ Reassembles config signer base.segmentRoot payload units := by
  have hstream : IsStream config base (segments config signer now base payload type) :=
    isStream_segments hconfig htype hfit
  have hobjects : objects config signer now base payload type
      = .ok (segments config signer now base payload type) := objects_eq_ok hsigns htype
  refine ⟨_, hobjects, ?_, fun k hk => hstream.isFinalBlock_getElem hk,
    reassembles_of_objects hconfig hbase htype hfit hobjects⟩
  rw [length_segments hconfig, segmentCount_eq_ceilDiv config hconfig]

/-- Five bytes in blocks of two, numbered by bytes, read back from each of their three segments. -/
theorem reassembles_objects_five :
    let config : Config := { blockSize := 2, numbering := .byteCount }
    let base := Name.root.withVersion ⟨7⟩
    ∃ units, objects config .echo ⟨9⟩ base [1, 2, 3, 4, 5] .data = .ok units
      ∧ units.length = 3
      ∧ ∀ first ∈ units, (Reader.mk (Reader.shelf units) .echo config 3).readFrom first ()
          = (.ok ⟨base, [1, 2, 3, 4, 5], 3⟩, ()) := by
  intro config base
  have hvalid : config.Valid := by decide
  have hfit : Fits config [1, 2, 3, 4, 5].length := by decide
  obtain ⟨units, hobjects, hlen, -, hread⟩ := reassembles_objects hvalid Signer.signs_echo ⟨9⟩
    (show base.isVersioned = true by decide) [1, 2, 3, 4, 5]
    (show ContentType.data ≠ .gone by decide) hfit
  have hthree : units.length = 3 := by
    rw [hlen, Nat.ceilDiv_eq_add_pred_div, show config.blockSize.toNat = 2 from rfl]
    rfl
  have hstream : IsStream config base units := by
    rw [(segments_of_objects hobjects).1]
    exact isStream_segments hvalid (by decide) hfit
  refine ⟨units, hobjects, hthree, fun first hfirst => ?_⟩
  obtain ⟨s', hresult, -⟩ := hread Unit (Reader.mk (Reader.shelf units) .echo config 3)
    (fun _ => True) ⟨rfl, rfl⟩ (fun _ => Verifier.echo_trusts)
    (Reader.fetches_shelf hstream rfl) (Nat.le_of_eq hthree) first hfirst () trivial
  rw [hresult, hthree]
  rfl

end Stream

end NamedContent
