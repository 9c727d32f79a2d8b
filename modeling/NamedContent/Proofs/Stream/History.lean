import NamedContent.Proofs.Stream.Assembly
import NamedContent.Proofs.Stream.Discovery

/-! # The history of a name

What is published below a name is a history of versions: payloads cut into segments, and
tombstones. A reader that gets right answers from the network observes the last one of them, however
many there are and whichever of their objects it is given on the way.

* `Publication`: one version, `History`: all versions in the order of their times
* `Stream.Reader.read_eq_observed`: reading observes the last publication -/

namespace NamedContent

/-! ## Names below versions -/

namespace Name

/-- A segment of a version lies two components below the name. -/
theorem segment_withVersion (n : Name) (t : Timestamp) (i : UInt64) :
    (n.withVersion t).segment i = n.append [versionComponent t, segmentComponent i] := by
  rw [segment, segmentRoot_withVersion]
  simp [child, append, withVersion]

end Name

/-- Data is not gone. -/
theorem ContentType.data_ne_gone : ContentType.data ≠ .gone := nofun

/-- A name with a version is not the empty one. -/
theorem Name.withVersion_ne_root (n : Name) (t : Timestamp) : n.withVersion t ≠ Name.root :=
  n.child_ne_root _

/-! ## Publications -/

/-- One version as it was published. -/
structure Publication where
  /-- The time of the version. -/
  time : Timestamp
  /-- The payload; a tombstone has none. -/
  payload : Option Bytes
  /-- The objects it consists of. -/
  units : List ContentObject

namespace Publication

variable {config : Config} {signer : Signer} {root : Name} {p q : Publication}

/-- The name of the version. -/
def name (root : Name) (p : Publication) : Name := root.withVersion p.time

/-- What makes up a version: the segments of the payload, or a single tombstone. -/
def Consists (config : Config) (root : Name) (p : Publication) : Prop :=
  match p.payload with
  | some payload =>
    Stream.IsStream config (p.name root) p.units ∧ p.units.flatMap (·.content) = payload
  | none => ∃ o, p.units = [o] ∧ o.name = p.name root ∧ o.isGone = true

/-- A version as a writer publishes it. -/
structure Sound (config : Config) (signer : Signer) (root : Name) (p : Publication) : Prop where
  consists : p.Consists config root
  genuine : ∀ o ∈ p.units, o.Genuine signer
  time_lt : p.time.ticks.toNat < versionLimit

/-- What a payload was cut into is a version. -/
theorem sound_objects (hconfig : config.Valid) {now t : Timestamp}
    (ht : t.ticks.toNat < versionLimit) {payload : Bytes}
    (hfit : Stream.Fits config payload.length) {units : List ContentObject}
    (h : Stream.objects config signer now (root.withVersion t) payload .data = .ok units) :
    Sound config signer root ⟨t, some payload, units⟩ := by
  obtain ⟨rfl, hgenuine⟩ := Stream.segments_of_objects h
  exact ⟨⟨Stream.isStream_segments hconfig ContentType.data_ne_gone hfit,
    Stream.flatMap_content_segments hconfig⟩, hgenuine, ht⟩

/-- A tombstone is a version. -/
theorem sound_tombstone {now t : Timestamp} (ht : t.ticks.toNat < versionLimit) {o : ContentObject}
    (h : Stream.tombstone config signer now (root.withVersion t) = .ok o) :
    Sound config signer root ⟨t, none, [o]⟩ := by
  obtain ⟨rfl, hgenuine⟩ := Stream.gravestone_of_tombstone h
  exact ⟨⟨_, rfl, rfl, rfl⟩, List.forall_mem_singleton.2 hgenuine, ht⟩

/-- A version is the stream of a payload, or a tombstone. -/
theorem Sound.cases (h : p.Sound config signer root) :
    (∃ payload, p.payload = some payload ∧ Stream.IsStream config (p.name root) p.units
        ∧ p.units.flatMap (·.content) = payload)
      ∨ p.payload = none ∧ ∃ o, p.units = [o] ∧ o.name = p.name root ∧ o.isGone = true := by
  have hconsists := h.consists
  rw [Consists] at hconsists
  split at hconsists
  · next payload hpayload => exact .inl ⟨payload, hpayload, hconsists⟩
  · next hpayload => exact .inr ⟨hpayload, hconsists⟩

/-- A sound publication has a unit. -/
theorem Sound.ne_nil (h : p.Sound config signer root) : p.units ≠ [] := by
  obtain ⟨payload, -, hstream, -⟩ | ⟨-, o, ho, -⟩ := h.cases
  · exact hstream.ne_nil
  · rw [ho]
    exact List.cons_ne_nil _ _

/-- The objects of a version lie at its name or one component below. -/
theorem Sound.exists_name_eq (h : p.Sound config signer root) {o : ContentObject}
    (ho : o ∈ p.units) : ∃ cs, o.name = root.append (versionComponent p.time :: cs) := by
  obtain ⟨payload, -, hstream, -⟩ | ⟨-, t, ht, hname, -⟩ := h.cases
  · obtain ⟨k, hk, rfl⟩ := List.getElem_of_mem ho
    exact ⟨_, (hstream.name k hk).trans (Name.segment_withVersion _ _ _)⟩
  · rw [ht, List.mem_singleton] at ho
    exact ⟨[], ho ▸ hname⟩

/-- All its units lie below the version of its time. -/
theorem Sound.childBelow_eq (h : p.Sound config signer root) {o : ContentObject}
    (ho : o ∈ p.units) : o.childBelow root = some (versionComponent p.time) := by
  obtain ⟨cs, hname⟩ := h.exists_name_eq ho
  rw [ContentObject.childBelow, hname, Name.component?_append]

/-- All its units lie below the root. -/
theorem Sound.isPrefixOf_name (h : p.Sound config signer root) {o : ContentObject}
    (ho : o ∈ p.units) : root.isPrefixOf o.name = true := by
  obtain ⟨cs, hname⟩ := h.exists_name_eq ho
  rw [hname, Name.isPrefixOf_append]

/-- Objects of versions with different times have different names. -/
theorem Sound.name_ne (hp : p.Sound config signer root) (hq : q.Sound config signer root)
    (hlt : p.time < q.time) {o o' : ContentObject} (ho : o ∈ p.units) (ho' : o' ∈ q.units) :
    o.name ≠ o'.name := by
  intro heq
  have hchild := hp.childBelow_eq ho
  rw [ContentObject.childBelow, heq] at hchild
  have hsame := hchild.symm.trans (hq.childBelow_eq ho')
  have hless := versionComponent_lt_versionComponent hlt hq.time_lt
  rw [Option.some.inj hsame] at hless
  exact Std.lt_irrefl hless

/-- No two objects of a version have the same name. -/
theorem Sound.nodup_names (h : p.Sound config signer root) : (p.units.map (·.name)).Nodup := by
  obtain ⟨payload, -, hstream, -⟩ | ⟨-, t, ht, -⟩ := h.cases
  · exact hstream.nodup_names
  · simp [ht]

/-- An object of a version is told by its name. -/
theorem Sound.eq_of_name_eq (h : p.Sound config signer root) {o o' : ContentObject}
    (ho : o ∈ p.units) (ho' : o' ∈ p.units) (heq : o.name = o'.name) : o = o' := by
  obtain ⟨payload, -, hstream, -⟩ | ⟨-, t, ht, -⟩ := h.cases
  · exact hstream.eq_of_name_eq ho ho' heq
  · rw [ht, List.mem_singleton] at ho ho'
    rw [ho, ho']

end Publication

/-! ## Histories -/

/-- All that was published below a name, in the order of the versions' times. -/
structure History (config : Config) (signer : Signer) (root : Name) (past : List Publication) :
    Prop where
  sound : ∀ p ∈ past, p.Sound config signer root
  increasing : past.Pairwise fun p q => p.time < q.time

namespace History

variable {config : Config} {signer : Signer} {root : Name} {past : List Publication}

/-- The objects of all versions. -/
def units (past : List Publication) : List ContentObject := past.flatMap (·.units)

/-- Before the first publication there is nothing. -/
theorem nil : History config signer root [] := ⟨by simp, .nil⟩

/-- A history goes on with a later version. -/
theorem concat (h : History config signer root past) {p : Publication}
    (hp : p.Sound config signer root) (hlast : ∀ q ∈ past, q.time < p.time) :
    History config signer root (past ++ [p]) where
  sound q hq := by
    rcases List.mem_append.1 hq with hq | hq
    · exact h.sound q hq
    · rwa [List.mem_singleton.1 hq]
  increasing := by
    refine List.pairwise_append.2 ⟨h.increasing, by simp, fun q hq q' hq' => ?_⟩
    rw [List.mem_singleton.1 hq']
    exact hlast q hq

/-- All that was published has a version. -/
theorem versioned (h : History config signer root past) : Stream.Versioned root (units past) := by
  intro o ho
  obtain ⟨p, hp, ho⟩ := List.mem_flatMap.1 ho
  exact ⟨(h.sound p hp).isPrefixOf_name ho, _, isVersion_versionComponent _,
    (h.sound p hp).childBelow_eq ho⟩

section Last

variable {older : List Publication} {p : Publication}

/-- The units of the last publication come last. -/
theorem units_concat (older : List Publication) (p : Publication) :
    units (older ++ [p]) = units older ++ p.units := by
  simp [units]

/-- A unit is of the last publication or was published before. -/
theorem mem_units_concat {o : ContentObject} :
    o ∈ units (older ++ [p]) ↔ o ∈ units older ∨ o ∈ p.units := by
  rw [units_concat, List.mem_append]

/-- The objects of the last version are told from all others by their names. -/
theorem eq_of_name_eq (h : History config signer root (older ++ [p])) {o o' : ContentObject}
    (ho : o ∈ p.units) (ho' : o' ∈ units (older ++ [p])) (heq : o'.name = o.name) : o' = o := by
  have hp := h.sound p (by simp)
  rcases mem_units_concat.1 ho' with ho' | ho'
  · obtain ⟨q, hq, ho'⟩ := List.mem_flatMap.1 ho'
    have hlt : q.time < p.time := (List.pairwise_append.1 h.increasing).2.2 q hq p (by simp)
    exact absurd heq ((h.sound q (by simp [hq])).name_ne hp hlt ho' ho)
  · exact hp.eq_of_name_eq ho' ho heq

/-- **An object of the greatest version belongs to the last publication.** -/
theorem mem_of_isLatest (h : History config signer root (older ++ [p])) {o : ContentObject}
    (ho : Stream.Reader.IsLatest root (units (older ++ [p])) o) : o ∈ p.units := by
  have hp := h.sound p (by simp)
  rcases mem_units_concat.1 ho.1 with hold | hnew
  · obtain ⟨q, hq, hold⟩ := List.mem_flatMap.1 hold
    -- an object of an older version would lie below one of the last
    obtain ⟨o', rest, hrest⟩ := List.exists_cons_of_ne_nil hp.ne_nil
    have ho' : o' ∈ p.units := hrest ▸ List.mem_cons_self
    have hlt : q.time < p.time := (List.pairwise_append.1 h.increasing).2.2 q hq p (by simp)
    have hle := ho.2 o' (mem_units_concat.2 (.inr ho')) _ _ (hp.childBelow_eq ho')
      ((h.sound q (by simp [hq])).childBelow_eq hold)
    have hless := versionComponent_lt_versionComponent hlt hp.time_lt
    exact absurd hless (Std.not_lt.2 hle)
  · exact hnew

end Last

/-- What a reader observes: the last publication. -/
def observed (root : Name) (past : List Publication) : Except ReadError StreamContent :=
  match past.getLast? with
  | none => .error (.noVersionFound root)
  | some p =>
    match p.payload with
    | some payload => .ok ⟨p.name root, payload, p.units.length⟩
    | none => .error (.gone (p.name root))

end History

namespace Stream.Reader

variable {σ : Type} {Inv : σ → Prop} {r : Reader σ} {config : Config} {signer : Signer}
  {root : Name} {older past : List Publication} {p : Publication}

/-- What is needed of a reader that is to follow a writer: it shares the numbering, waits at all,
and trusts the signer if it checks signatures. -/
structure Suits (r : Reader σ) (config : Config) (signer : Signer) : Prop where
  follows : r.config.Follows config
  fetchTimeout : r.config.fetchTimeout ≠ 0
  latestVersionTimeout : r.config.latestVersionTimeout ≠ 0
  trusts : r.config.verifySignatures = true → r.verifier.Trusts signer

/-- A reader that suits a signer takes what it has signed. -/
theorem Suits.check_eq_ok (h : r.Suits config signer) {o : ContentObject}
    (ho : o.Genuine signer) : r.check o = .ok () :=
  Reader.check_eq_ok ho.1 fun hverify => ho.2 _ (h.trusts hverify)

/-- From an object of the last version the whole version is read. -/
theorem readFrom_eq_observed (h : History config signer root (older ++ [p]))
    (hr : r.Suits config signer)
    (hserve : r.Serves Inv root (History.units (older ++ [p])))
    (hlimit : p.units.length ≤ r.limit) {o : ContentObject} (ho : o ∈ p.units) {s : σ}
    (hs : Inv s) :
    ∃ s', r.readFrom o s = (History.observed root (older ++ [p]), s') ∧ Inv s' := by
  have hp := h.sound p (by simp)
  rw [History.observed, List.getLast?_concat]
  obtain ⟨payload, hpayload, hstream, hcontent⟩ | ⟨hpayload, t, ht, hname, hgone⟩ := hp.cases
  · -- the network answers an exact interest for a segment with that segment, as no other object of
    -- the whole history has its name
    have hfetches : r.Fetches Inv p.units := by
      intro o' ho' s hs
      obtain ⟨found, s', hfetch, hanswer, hs'⟩ := hserve (.exact o'.name)
        (hp.isPrefixOf_name ho') rfl _ hr.fetchTimeout s hs
      have hsome := hanswer.eq_of_exact (History.mem_units_concat.2 (.inr ho'))
        fun o'' ho'' heq => h.eq_of_name_eq ho' ho'' heq
      exact ⟨s', hsome ▸ hfetch, hs'⟩
    have hroot : (p.name root).segmentRoot = p.name root := Name.segmentRoot_withVersion _ _
    obtain ⟨s', hread, hs'⟩ := readFrom_eq_ok hstream (by rw [hroot, hroot]) hr.follows hfetches
      (fun o' ho' => hr.check_eq_ok (hp.genuine o' ho')) hlimit ho hs
    rw [hroot, hcontent] at hread
    exact ⟨s', by simp only [hpayload]; exact hread, hs'⟩
  · have hot : o = t := by rwa [ht, List.mem_singleton] at ho
    have hcheck := hr.check_eq_ok (hp.genuine o ho)
    subst hot
    refine ⟨s, ?_, hs⟩
    simp only [hpayload, readFrom, Action.bind_run, Action.ofExcept_run, hcheck, hgone, if_true,
      Action.fail_run, hname]

/-- **A reader observes the last publication**, whatever was published before it: the payload with
its version's name, the tombstone, or that nothing is there. -/
theorem read_eq_observed (h : History config signer root past) (hr : r.Suits config signer)
    (hserve : r.Serves Inv root (History.units past)) (hroot : root.isVersioned = false)
    (hlimit : (History.units past).length < r.limit) {s : σ} (hs : Inv s) :
    ∃ s', r.read root s = (History.observed root past, s') ∧ Inv s' := by
  rcases List.eq_nil_or_concat past with rfl | ⟨older, p, rfl⟩
  · -- nothing was published
    obtain ⟨s', hlatest, hs'⟩ := latest_eq_error hserve hr.fetchTimeout
      (Nat.zero_lt_of_lt hlimit) hs
    refine ⟨s', ?_, hs'⟩
    simp only [read, hroot, Action.bind_run, hlatest, Bool.false_eq_true, if_false]
    rfl
  · rw [List.concat_eq_append] at h hserve hlimit ⊢
    have hp := h.sound p (by simp)
    have hne : History.units (older ++ [p]) ≠ [] := by
      obtain ⟨o, rest, hrest⟩ := List.exists_cons_of_ne_nil hp.ne_nil
      exact List.ne_nil_of_mem (History.mem_units_concat.2 (.inr (hrest ▸ List.mem_cons_self)))
    -- the greatest version is the one published last
    obtain ⟨o, s₁, hlatest, hgreatest, hs₁⟩ := latest_eq_ok hserve h.versioned hne
      hr.fetchTimeout hr.latestVersionTimeout hlimit hs
    have hle : p.units.length ≤ r.limit := by
      rw [History.units, List.flatMap_append, List.length_append] at hlimit
      simp at hlimit
      omega
    obtain ⟨s₂, hread, hs₂⟩ := readFrom_eq_observed h hr hserve hle
      (h.mem_of_isLatest hgreatest) hs₁
    refine ⟨s₂, ?_, hs₂⟩
    simp only [read, hroot, Action.bind_run, hlatest, Bool.false_eq_true, if_false]
    exact hread

end Stream.Reader

end NamedContent
