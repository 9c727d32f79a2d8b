import Mathlib.Algebra.Order.Floor.Div
import NamedContent.Proofs.Name.Segments
import NamedContent.Proofs.Signing.Objects
import NamedContent.Stream.Segmentation

/-! # The segments of a payload

Cutting a payload gives one segment for each started block, and one for an empty payload. The
segments are numbered by multiples of one step, all but the last are full, and their contents joined
are the payload. As long as the last index fits into 64 bits no two segments have the same name, so
that exactly the last one is a final block.

* `Config.step`, `Config.indexAt`: the indices in closed form
* `Stream.segments`: what cutting a payload succeeds with, `Stream.objects_eq_ok` and
  `Stream.segments_of_objects`
* `Stream.IsStream`: what a reader may rely on, `Stream.isStream_segments` -/

namespace NamedContent

/-! ## Pieces of a byte string -/

namespace Bytes

/-- A piece for each started run of `size` bytes. -/
theorem length_chunks {size : Nat} (hs : size ≠ 0) (bytes : Bytes) :
    (chunks size bytes).length = (bytes.length + (size - 1)) / size := by
  fun_induction chunks size bytes with
  | case1 bytes h =>
    have hnil : bytes.length = 0 := h.resolve_left hs
    rw [hnil, List.length_nil, Nat.zero_add, Nat.div_eq_of_lt (by omega)]
  | case2 bytes h ih =>
    have hpos : bytes.length ≠ 0 := fun h0 => h (.inr h0)
    rw [List.length_cons, ih, List.length_drop, ← Nat.add_div_right _ (by omega)]
    rcases Nat.lt_or_ge bytes.length size with hlt | hge
    · -- one piece takes everything
      rw [show bytes.length - size + (size - 1) + size = size - 1 + 1 * size by omega,
        show bytes.length + (size - 1) = bytes.length - 1 + 1 * size by omega,
        Nat.add_mul_div_right _ _ (by omega), Nat.add_mul_div_right _ _ (by omega),
        Nat.div_eq_of_lt (by omega), Nat.div_eq_of_lt (by omega)]
    · congr 1
      omega

/-- All pieces but the last have `size` bytes. -/
theorem length_getElem_chunks {size k : Nat} {bytes : Bytes}
    (hk : k + 1 < (chunks size bytes).length) : ((chunks size bytes)[k]).length = size := by
  induction k generalizing bytes with
  | zero =>
    unfold chunks at hk ⊢
    split at hk
    · exact absurd hk (by simp)
    · -- a second piece means that the first is full
      rename_i h
      have hrest : ¬ (size = 0 ∨ (bytes.drop size).length = 0) := by
        intro h0
        rw [chunks, if_pos h0] at hk
        exact absurd hk (by simp)
      rw [List.length_drop] at hrest
      simp only [if_neg h, List.getElem_cons_zero, List.length_take]
      omega
  | succ k ih =>
    unfold chunks at hk ⊢
    split at hk
    · exact absurd hk (by simp)
    · rename_i h
      simp only [if_neg h, List.getElem_cons_succ]
      exact ih (by simpa using hk)

end Bytes

/-! ## Indices in closed form -/

namespace Config

/-- The step between the indices of consecutive full segments. -/
def step (c : Config) : UInt64 :=
  match c.numbering with
  | .fixedIncrement => c.segmentIncrement
  | .byteCount => c.blockSize

/-- The index of the segment at a position of a stream. -/
def indexAt (c : Config) (k : Nat) : UInt64 := UInt64.ofNat (k * c.step.toNat)

/-- The indices of a valid configuration go on. -/
theorem step_ne_zero {c : Config} (h : c.Valid) : c.step ≠ 0 := by
  unfold step
  split
  · exact h.2.1
  · exact h.1

/-- The first segment has the first index. -/
@[simp] theorem indexAt_zero (c : Config) : c.indexAt 0 = firstSegment := by
  rw [indexAt, Nat.zero_mul]
  rfl

/-- The index one step on is that of the next position. -/
theorem indexAt_succ (c : Config) (k : Nat) : c.indexAt (k + 1) = c.indexAt k + c.step := by
  rw [indexAt, indexAt, Nat.add_mul, Nat.one_mul, UInt64.ofNat_add, UInt64.ofNat_toNat]

/-- The index after that of a full segment. -/
theorem nextIndex_indexAt (c : Config) (k : Nat) :
    c.nextIndex (c.indexAt k) c.blockSize = c.indexAt (k + 1) := by
  rw [indexAt_succ, nextIndex, step]
  cases c.numbering <;> rfl

/-- Positions whose indices fit into 64 bits have different indices. -/
theorem indexAt_inj {c : Config} (hs : c.step ≠ 0) {j k n : Nat}
    (hfit : n * c.step.toNat < UInt64.size) (hj : j ≤ n) (hk : k ≤ n)
    (h : c.indexAt j = c.indexAt k) : j = k := by
  have hpos : 0 < c.step.toNat := Nat.pos_of_ne_zero fun h0 => hs (UInt64.toNat_inj.1 h0)
  have hle {m : Nat} (hm : m ≤ n) : m * c.step.toNat < UInt64.size :=
    Nat.lt_of_le_of_lt (Nat.mul_le_mul_right _ hm) hfit
  have hnat := congrArg UInt64.toNat h
  rw [indexAt, indexAt, UInt64.toNat_ofNat_of_lt' (hle hj), UInt64.toNat_ofNat_of_lt' (hle hk)]
    at hnat
  exact Nat.eq_of_mul_eq_mul_right hpos hnat

end Config

namespace Stream

/-- Consecutive indices are those of consecutive positions. -/
theorem indicesFrom_indexAt (config : Config) (count k : Nat) :
    indicesFrom config count (config.indexAt k) = (List.range' k count).map config.indexAt := by
  induction count generalizing k with
  | zero => rfl
  | succ count ih => rw [indicesFrom, config.nextIndex_indexAt, ih, List.range'_succ, List.map_cons]

/-- The indices of a payload are those of its positions. -/
theorem indices_eq_map (config : Config) (length : Nat) :
    indices config length = (List.range (segmentCount config length)).map config.indexAt := by
  rw [indices, ← config.indexAt_zero, indicesFrom_indexAt, List.range_eq_range']

/-- There is always a first segment. -/
theorem segmentCount_pos (config : Config) (length : Nat) : 0 < segmentCount config length :=
  Nat.lt_of_lt_of_le Nat.zero_lt_one (Nat.le_max_left _ _)

/-- One segment for each started block, and at least one. -/
theorem segmentCount_eq_ceilDiv (config : Config) (h : config.Valid) (length : Nat) :
    segmentCount config length = max 1 (length ⌈/⌉ config.blockSize.toNat) := by
  have hpos : config.blockSize.toNat ≠ 0 := fun h0 => h.1 (UInt64.toNat_inj.1 h0)
  rw [segmentCount, Nat.ceilDiv_eq_add_pred_div]
  congr 2
  omega

/-- There are as many contents as segments. -/
theorem length_blocks {config : Config} (h : config.Valid) (payload : Bytes) :
    (blocks config payload).length = segmentCount config payload.length := by
  have hpos : config.blockSize.toNat ≠ 0 := fun h0 => h.1 (UInt64.toNat_inj.1 h0)
  rw [blocks, segmentCount]
  cases payload with
  | nil =>
    have hlt : config.blockSize.toNat - 1 < config.blockSize.toNat := by omega
    simp [Nat.div_eq_of_lt hlt]
  | cons b rest =>
    -- with content there is a block, so that the minimum of one does not count
    have hone : 1 ≤ ((b :: rest).length + (config.blockSize.toNat - 1))
        / config.blockSize.toNat := by
      rw [Nat.le_div_iff_mul_le (by omega), List.length_cons]
      omega
    rw [List.isEmpty_cons, if_neg (by simp), Bytes.length_chunks hpos, Nat.max_eq_right hone]

/-- The contents joined are the payload. -/
theorem flatten_blocks {config : Config} (h : config.Valid) (payload : Bytes) :
    (blocks config payload).flatten = payload := by
  have hpos : config.blockSize.toNat ≠ 0 := fun h0 => h.1 (UInt64.toNat_inj.1 h0)
  cases payload with
  | nil => rfl
  | cons b rest => exact Bytes.flatten_chunks hpos (b :: rest)

/-- All contents but the last fill a block. -/
theorem length_getElem_blocks {config : Config} {payload : Bytes} {k : Nat}
    (hk : k + 1 < (blocks config payload).length) :
    ((blocks config payload)[k]).length = config.blockSize.toNat := by
  cases payload with
  | nil => exact absurd hk (by simp [blocks])
  | cons b rest => exact Bytes.length_getElem_chunks hk

/-! ## Signed segments -/

/-- The metadata that all segments of a payload share. -/
def segmentInfo (config : Config) (signer : Signer) (now : Timestamp) (payload : Bytes)
    (type : ContentType) : SignedInfo :=
  { signedInfo config signer now type with
    finalBlock := (indices config payload.length).getLast?.map segmentComponent }

/-- One segment before it is signed. -/
def segmentOf (base : Name) (info : SignedInfo) (part : UInt64 × Bytes) : ContentObject :=
  ⟨base.segment part.1, info, part.2, none⟩

/-- The signed segments of a payload. -/
def segments (config : Config) (signer : Signer) (now : Timestamp) (base : Name) (payload : Bytes)
    (type : ContentType) : List ContentObject :=
  ((indices config payload.length).zip (blocks config payload)).map fun part =>
    (segmentOf base (segmentInfo config signer now payload type) part).signedBy signer

/-- A segment keeps the rules unless it is a tombstone with content. -/
theorem valid_segmentOf (base : Name) {info : SignedInfo} (h : info.contentType ≠ .gone)
    (part : UInt64 × Bytes) : (segmentOf base info part).Valid :=
  ⟨Name.child_ne_root _ _, fun hgone => absurd hgone h⟩

variable {config : Config} {signer : Signer} {now : Timestamp} {base : Name} {payload : Bytes}
  {type : ContentType}

/-- **Cutting a payload succeeds** for every content type but the tombstone's, if the signer never
fails. -/
theorem objects_eq_ok (hsigns : signer.Signs) (ht : type ≠ .gone) :
    objects config signer now base payload type
      = .ok (segments config signer now base payload type) := by
  rw [objects, segments]
  refine mapM_eq_ok fun part _ => ?_
  have hinfo : (segmentInfo config signer now payload type).contentType ≠ .gone := ht
  exact ContentObject.sign_eq_ok (valid_segmentOf base hinfo part) hsigns

/-- **What cutting a payload succeeds with** are its segments, which are genuine. -/
theorem segments_of_objects {units : List ContentObject}
    (h : objects config signer now base payload type = .ok units) :
    units = segments config signer now base payload type ∧ ∀ o ∈ units, o.Genuine signer :=
  of_mapM_eq_ok h fun _ _ hsign =>
    ⟨(ContentObject.exists_of_sign hsign).1, ContentObject.genuine_of_sign hsign⟩

/-- **Cutting a payload fails only where the signer does**, unless it is to be a tombstone's. -/
theorem objects_eq_error (ht : type ≠ .gone) {e : SigningError}
    (h : objects config signer now base payload type = .error e) :
    ∃ message, signer.sign message = .error e := by
  obtain ⟨front, part, rest, -, -, hsign⟩ := mapM_eq_error_iff.1 h
  have hinfo : (segmentInfo config signer now payload type).contentType ≠ .gone := ht
  exact ContentObject.sign_eq_error (valid_segmentOf base hinfo part) hsign

/-- The single object of a tombstone. -/
def gravestone (config : Config) (signer : Signer) (now : Timestamp) (name : Name) :
    ContentObject :=
  ContentObject.signedBy ⟨name, signedInfo config signer now .gone, [], none⟩ signer

/-- **Making a tombstone succeeds** for every name but the root, if the signer never fails. -/
theorem tombstone_eq_ok (hsigns : signer.Signs) {name : Name} (h : name ≠ Name.root) :
    tombstone config signer now name = .ok (gravestone config signer now name) :=
  ContentObject.sign_eq_ok ⟨h, fun _ => rfl⟩ hsigns

/-- **What making a tombstone succeeds with** is genuine. -/
theorem gravestone_of_tombstone {name : Name} {o : ContentObject}
    (h : tombstone config signer now name = .ok o) :
    o = gravestone config signer now name ∧ o.Genuine signer :=
  ⟨(ContentObject.exists_of_sign h).1, ContentObject.genuine_of_sign h⟩

/-- **Making a tombstone fails only where the signer does**, unless it is to be the root's. -/
theorem tombstone_eq_error {name : Name} (hname : name ≠ Name.root) {e : SigningError}
    (h : tombstone config signer now name = .error e) :
    ∃ message, signer.sign message = .error e :=
  ContentObject.sign_eq_error ⟨hname, fun _ => rfl⟩ h

/-- **There is one segment for each started block, and at least one.** -/
theorem length_segments (h : config.Valid) :
    (segments config signer now base payload type).length
      = segmentCount config payload.length := by
  rw [segments, List.length_map, List.length_zip, length_indices, length_blocks h, Nat.min_self]

/-- **The contents of the segments joined are the payload.** -/
theorem flatMap_content_segments (h : config.Valid) :
    (segments config signer now base payload type).flatMap (·.content) = payload := by
  have hlen : (blocks config payload).length ≤ (indices config payload.length).length := by
    rw [length_blocks h, length_indices]
  -- signing leaves the contents as they are, which are the blocks in their order
  have hsnd : (segments config signer now base payload type).map (·.content)
      = blocks config payload := by
    rw [segments, List.map_map]
    exact List.map_snd_zip hlen
  rw [List.flatMap_def, hsnd, flatten_blocks h]

/-! ## Streams -/

/-- What a reader may rely on in a list of segments: they are numbered by position under one name,
each names the last one's component, and all but the last are full. -/
structure IsStream (config : Config) (base : Name) (units : List ContentObject) : Prop where
  /-- There is a segment. -/
  ne_nil : units ≠ []
  /-- The segment at a position has the index of that position. -/
  name : ∀ k (h : k < units.length), units[k].name = base.segment (config.indexAt k)
  /-- Every segment tells which one is the last. -/
  finalBlock : ∀ o ∈ units,
    o.signedInfo.finalBlock = some (segmentComponent (config.indexAt (units.length - 1)))
  /-- All segments but the last fill a block. -/
  full : ∀ k (h : k + 1 < units.length), units[k].content.length = config.blockSize.toNat
  /-- No segment is a tombstone. -/
  not_gone : ∀ o ∈ units, o.isGone = false
  /-- Indices advance. -/
  step_ne_zero : config.step ≠ 0
  /-- The index of the last segment fits into 64 bits. -/
  fits : (units.length - 1) * config.step.toNat < UInt64.size

/-- Whether the index of the last segment of a payload fits into 64 bits. -/
def Fits (config : Config) (length : Nat) : Prop :=
  (segmentCount config length - 1) * config.step.toNat < UInt64.size

instance (config : Config) (length : Nat) : Decidable (Fits config length) :=
  inferInstanceAs (Decidable (_ < _))

/-- The last index is that of the last segment. -/
theorem getLast?_indices (config : Config) (length : Nat) :
    (indices config length).getLast? = some (config.indexAt (segmentCount config length - 1)) := by
  have hpos := segmentCount_pos config length
  rw [indices_eq_map, List.getLast?_map, List.getLast?_range, if_neg (by omega)]
  rfl

/-- **The segments of a payload are a stream.** -/
theorem isStream_segments (h : config.Valid) (ht : type ≠ .gone)
    (hfit : Fits config payload.length) :
    IsStream config base (segments config signer now base payload type) where
  ne_nil := by
    apply List.ne_nil_of_length_pos
    rw [length_segments h]
    exact segmentCount_pos config payload.length
  name k hk := by
    simp [segments, segmentOf, indices_eq_map]
  finalBlock o ho := by
    rw [length_segments h]
    obtain ⟨part, -, rfl⟩ := List.mem_map.1 ho
    rw [ContentObject.signedBy_finalBlock]
    show (indices config payload.length).getLast?.map segmentComponent = _
    rw [getLast?_indices]
    rfl
  full k hk := by
    rw [length_segments h, ← length_blocks h] at hk
    simpa [segments, segmentOf] using length_getElem_blocks hk
  not_gone o ho := by
    obtain ⟨part, -, rfl⟩ := List.mem_map.1 ho
    show (type == ContentType.gone) = false
    simpa using ht
  step_ne_zero := Config.step_ne_zero h
  fits := by
    rw [length_segments h]
    exact hfit

end Stream

end NamedContent
