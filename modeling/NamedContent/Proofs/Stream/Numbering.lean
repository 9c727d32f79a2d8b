import Mathlib.Data.Int.GCD
import Mathlib.Data.Nat.ModEq
import NamedContent.Proofs.Stream.Segmentation

/-! # Which payloads are numbered without overflow

The indices of a payload's segments are multiples of one step, added up in 64 bits. They increase
just as long as no addition overflows, which is as long as the last multiple fits. With a step of no
more than a block it always does, for the multiples then are no greater than the offsets of the
segments. With a greater step the indices of a long payload wrap around. After a whole period of
them the same indices come again, and with them the same names and further final blocks.

* `Config.lt_nextIndex_iff`, `Stream.isChain_indicesFrom_iff`: one addition, and a run of them
* `Config.period`, `Config.indexAt_eq_iff`: when indices come again
* `Stream.fits_of_step_le`: steps with which the indices of every payload fit
* `Stream.indices_increase_iff`: when indices increase, and when segments are told apart -/

namespace NamedContent

namespace Config

variable {c : Config}

/-! ## One index after another -/

/-- After a full segment the index grows by one step, wrapping around. -/
theorem nextIndex_blockSize (c : Config) (index : UInt64) :
    c.nextIndex index c.blockSize = index + c.step := by
  rw [nextIndex, step]
  cases c.numbering <;> rfl

/-- **The next index is greater just when the addition does not overflow.** -/
theorem lt_nextIndex_iff (hstep : c.step ≠ 0) (index : UInt64) :
    index < c.nextIndex index c.blockSize ↔ index.toNat + c.step.toNat < UInt64.size := by
  have hpos : 0 < c.step.toNat := Nat.pos_of_ne_zero fun h => hstep (UInt64.toNat_inj.1 h)
  have hindex : index.toNat < UInt64.size := index.toNat_lt
  have hless : c.step.toNat < UInt64.size := c.step.toNat_lt
  rw [nextIndex_blockSize, UInt64.lt_iff_toNat_lt, UInt64.toNat_add]
  show index.toNat < (index.toNat + c.step.toNat) % UInt64.size ↔ _
  constructor
  · intro hlt
    apply Nat.lt_of_not_le
    intro hover
    -- an overflow takes off more than the step has added
    rw [Nat.mod_eq_sub_mod hover, Nat.mod_eq_of_lt (by omega)] at hlt
    omega
  · intro hfit
    rw [Nat.mod_eq_of_lt hfit]
    omega

/-- Without an overflow the next index is the sum. -/
theorem toNat_nextIndex_blockSize {index : UInt64}
    (h : index.toNat + c.step.toNat < UInt64.size) :
    (c.nextIndex index c.blockSize).toNat = index.toNat + c.step.toNat := by
  rw [nextIndex_blockSize, UInt64.toNat_add]
  exact Nat.mod_eq_of_lt h

/-! ## Indices that come again -/

/-- After how many segments the indices come again. -/
def period (c : Config) : Nat := UInt64.size / UInt64.size.gcd c.step.toNat

/-- Indices come back after at least one step. -/
theorem period_pos (c : Config) : 0 < c.period :=
  Nat.div_pos (Nat.gcd_le_left _ (by decide)) (Nat.gcd_pos_of_pos_left _ (by decide))

/-- A period of steps is a multiple of what 64 bits can count. -/
theorem size_dvd_period_mul_step (c : Config) : UInt64.size ∣ c.period * c.step.toNat := by
  obtain ⟨factor, hfactor⟩ := Nat.gcd_dvd_right UInt64.size c.step.toNat
  have hwhole : c.period * UInt64.size.gcd c.step.toNat = UInt64.size :=
    Nat.div_mul_cancel (Nat.gcd_dvd_left _ _)
  refine ⟨factor, ?_⟩
  calc c.period * c.step.toNat
      = c.period * (UInt64.size.gcd c.step.toNat * factor) := congrArg (c.period * ·) hfactor
    _ = UInt64.size * factor := by rw [← Nat.mul_assoc, hwhole]

/-- **Positions have the same index just when whole periods lie between them.** -/
theorem indexAt_eq_iff (c : Config) (j k : Nat) :
    c.indexAt j = c.indexAt k ↔ j ≡ k [MOD c.period] := by
  have hwrap : c.indexAt j = c.indexAt k
      ↔ j * c.step.toNat ≡ k * c.step.toNat [MOD UInt64.size] := by
    rw [indexAt, indexAt, ← UInt64.toNat_inj, UInt64.toNat_ofNat', UInt64.toNat_ofNat']
    exact Iff.rfl
  rw [hwrap]
  constructor
  · exact Nat.ModEq.cancel_right_div_gcd (by decide)
  · intro h
    exact (h.mul_right' _).of_dvd c.size_dvd_period_mul_step

end Config

namespace Stream

variable {config : Config} {signer : Signer} {now : Timestamp} {base : Name} {payload : Bytes}
  {type : ContentType} {length : Nat}

/-! ## Increasing indices -/

/-- **Indices increase as long as the last one fits**, by induction on their number: each is greater
than the one before just when its addition does not overflow, and then stands for the sum. -/
theorem isChain_indicesFrom_iff (hstep : config.step ≠ 0) (count : Nat) (index : UInt64) :
    (indicesFrom config (count + 1) index).IsChain (· < ·)
      ↔ index.toNat + count * config.step.toNat < UInt64.size := by
  induction count generalizing index with
  | zero =>
    rw [Nat.zero_mul, Nat.add_zero]
    exact ⟨fun _ => index.toNat_lt, fun _ => .singleton _⟩
  | succ count ih =>
    rw [indicesFrom, indicesFrom, List.isChain_cons_cons, ← indicesFrom, ih,
      Config.lt_nextIndex_iff hstep, Nat.succ_mul]
    constructor
    · rintro ⟨hfirst, hrest⟩
      rw [Config.toNat_nextIndex_blockSize hfirst] at hrest
      omega
    · intro hlast
      have hfirst : index.toNat + config.step.toNat < UInt64.size := by omega
      refine ⟨hfirst, ?_⟩
      rw [Config.toNat_nextIndex_blockSize hfirst]
      omega

/-- The indices of a payload increase just when the last one fits into 64 bits. -/
theorem pairwise_indices_iff (hstep : config.step ≠ 0) :
    (indices config length).Pairwise (· < ·) ↔ Fits config length := by
  obtain ⟨count, hcount⟩ := Nat.exists_eq_add_of_lt (segmentCount_pos config length)
  rw [Nat.zero_add] at hcount
  rw [← List.isChain_iff_pairwise, indices, Fits, hcount, isChain_indicesFrom_iff hstep,
    Nat.add_sub_cancel]
  show 0 + _ < _ ↔ _
  rw [Nat.zero_add]

/-- The indices are those of unbounded numbers just when the last one fits. -/
theorem map_toNat_indices_iff :
    (indices config length).map UInt64.toNat
        = (List.range (segmentCount config length)).map (· * config.step.toNat)
      ↔ Fits config length := by
  have hpos := segmentCount_pos config length
  rw [indices_eq_map, List.map_map, List.map_inj_left, Fits]
  constructor
  · intro h
    rw [← h _ (List.mem_range.2 (Nat.sub_lt hpos Nat.one_pos))]
    exact UInt64.toNat_lt _
  · intro hfit k hk
    have hle : k ≤ segmentCount config length - 1 := Nat.le_sub_one_of_lt (List.mem_range.1 hk)
    exact UInt64.toNat_ofNat_of_lt' (Nat.lt_of_le_of_lt (Nat.mul_le_mul_right _ hle) hfit)

/-- As something of a payload is left for the last segment, all others are full. -/
theorem segmentCount_of_pos (h : config.Valid) (hpos : 0 < length) :
    segmentCount config length = (length - 1) / config.blockSize.toNat + 1 := by
  have hblock : config.blockSize.toNat ≠ 0 := fun h0 => h.1 (UInt64.toNat_inj.1 h0)
  have hcount : (length + (config.blockSize.toNat - 1)) / config.blockSize.toNat
      = (length - 1) / config.blockSize.toNat + 1 := by
    rw [← Nat.add_div_right _ (by omega)]
    congr 1
    omega
  rw [segmentCount, hcount, Nat.max_eq_right (Nat.le_add_left 1 _)]

/-- An empty payload has one segment. -/
theorem segmentCount_zero (h : config.Valid) : segmentCount config 0 = 1 := by
  have hblock : config.blockSize.toNat ≠ 0 := fun h0 => h.1 (UInt64.toNat_inj.1 h0)
  rw [segmentCount, Nat.zero_add, Nat.div_eq_of_lt (by omega), Nat.max_eq_left (by omega)]

/-- The last segment of a payload starts within it. -/
theorem offset_last_lt (h : config.Valid) (hpos : 0 < length) :
    (segmentCount config length - 1) * config.blockSize.toNat < length := by
  rw [segmentCount_of_pos h hpos, Nat.add_sub_cancel]
  calc (length - 1) / config.blockSize.toNat * config.blockSize.toNat
      ≤ length - 1 := Nat.div_mul_le_self _ _
    _ < length := by omega

/-- **With a step of no more than a block the indices of every payload fit.** -/
theorem fits_of_step_le (h : config.Valid) (hstep : config.step ≤ config.blockSize)
    (hlength : length ≤ UInt64.size) : Fits config length := by
  rw [Fits]
  rcases Nat.eq_zero_or_pos length with rfl | hpos
  · rw [segmentCount_zero h, Nat.sub_self, Nat.zero_mul]
    decide
  · calc (segmentCount config length - 1) * config.step.toNat
        ≤ (segmentCount config length - 1) * config.blockSize.toNat :=
          Nat.mul_le_mul_left _ (UInt64.le_iff_toNat_le.1 hstep)
      _ < length := offset_last_lt h hpos
      _ ≤ UInt64.size := hlength

/-- The offset at which the last block ends fits, if the payload takes up no more than half of what
64 bits can count. -/
theorem offset_end_lt (h : config.Valid) (hlength : length ≤ 2 ^ 63) :
    segmentCount config length * config.blockSize.toNat < UInt64.size := by
  have hblock : config.blockSize.toNat < UInt64.size := config.blockSize.toNat_lt
  rcases Nat.eq_zero_or_pos length with rfl | hpos
  · rwa [segmentCount_zero h, Nat.one_mul]
  · have hlast := offset_last_lt h hpos
    have hcount := segmentCount_pos config length
    have hend : segmentCount config length * config.blockSize.toNat
        = (segmentCount config length - 1) * config.blockSize.toNat + config.blockSize.toNat := by
      rw [← Nat.succ_mul, Nat.succ_eq_add_one, Nat.sub_add_cancel hcount]
    rcases Nat.eq_or_lt_of_le hcount with hone | hmore
    · rwa [← hone, Nat.one_mul]
    · -- with a second segment the first block lies within the payload
      have hfirst : config.blockSize.toNat
          ≤ (segmentCount config length - 1) * config.blockSize.toNat :=
        Nat.le_mul_of_pos_left _ (by omega)
      have hsize : UInt64.size = 2 ^ 64 := rfl
      omega

/-! ## Names and final blocks -/

/-- Indices of a payload are different as long as they do not come again. -/
theorem nodup_indices_iff :
    (indices config length).Nodup ↔ segmentCount config length ≤ config.period := by
  rw [indices_eq_map, List.nodup_map_iff_inj_on List.nodup_range]
  constructor
  · intro h
    apply Nat.le_of_not_lt
    intro hlt
    -- the index after a whole period is the first one again
    have hagain : config.indexAt config.period = config.indexAt 0 :=
      (config.indexAt_eq_iff _ _).2 (Nat.modEq_zero_iff_dvd.2 (Nat.dvd_refl _))
    have hzero := h _ (List.mem_range.2 hlt) _
      (List.mem_range.2 (segmentCount_pos config length)) hagain
    exact absurd hzero config.period_pos.ne'
  · intro hle j hj k hk hsame
    exact Nat.ModEq.eq_of_lt_of_lt ((config.indexAt_eq_iff j k).1 hsame)
      (Nat.lt_of_lt_of_le (List.mem_range.1 hj) hle) (Nat.lt_of_lt_of_le (List.mem_range.1 hk) hle)

/-- Cutting a payload succeeds, where the signer never fails, unless the payload is to be the
content of a tombstone. -/
theorem objects_eq_ok_of_rule (hsigns : signer.Signs) (hrule : type = .gone → payload = []) :
    objects config signer now base payload type
      = .ok (segments config signer now base payload type) := by
  by_cases htype : type = .gone
  · obtain rfl := hrule htype
    rw [objects, segments]
    refine mapM_eq_ok fun part hpart => ?_
    have hcontent : part.2 = [] := List.mem_singleton.1 (List.of_mem_zip (b := part.2) hpart).2
    exact ContentObject.sign_eq_ok ⟨Name.child_ne_root _ _, fun _ => hcontent⟩ hsigns
  · exact objects_eq_ok hsigns htype

/-- The segments are named by the indices. -/
theorem map_name_segments (h : config.Valid) :
    (segments config signer now base payload type).map (·.name)
      = (indices config payload.length).map base.segment := by
  have hlen : (indices config payload.length).length ≤ (blocks config payload).length := by
    rw [length_blocks h, length_indices]
  calc (segments config signer now base payload type).map (·.name)
      = ((indices config payload.length).zip (blocks config payload)).map
          (base.segment ∘ Prod.fst) := List.map_map
    _ = (indices config payload.length).map base.segment := by
      rw [← List.map_map, List.map_fst_zip hlen]

/-- A segment is a final block just when it has the index of the last one. -/
theorem isFinalBlock_segments_iff {k : Nat}
    (hk : k < (segments config signer now base payload type).length) :
    ((segments config signer now base payload type)[k]).isFinalBlock = true
      ↔ config.indexAt k = config.indexAt (segmentCount config payload.length - 1) := by
  have hname : ((segments config signer now base payload type)[k]).name
      = base.segment (config.indexAt k) := by
    simp [segments, segmentOf, indices_eq_map]
  have hfinal : ((segments config signer now base payload type)[k]).signedInfo.finalBlock
      = some (segmentComponent (config.indexAt (segmentCount config payload.length - 1))) := by
    simp [segments, segmentOf, segmentInfo, getLast?_indices]
  rw [ContentObject.isFinalBlock, hfinal, hname, Name.last?_segment]
  show (some _ == some _) = true ↔ _
  rw [beq_iff_eq, Option.some.injEq, segmentComponent_inj]

/-- **Exactly the last segment is a final block as long as indices do not come again.** -/
theorem last_isFinalBlock_iff (h : config.Valid) :
    (∀ k (hk : k < (segments config signer now base payload type).length),
        ((segments config signer now base payload type)[k]).isFinalBlock = true
          ↔ k + 1 = (segments config signer now base payload type).length)
      ↔ segmentCount config payload.length ≤ config.period := by
  have hpos := segmentCount_pos config payload.length
  have hperiod := config.period_pos
  have hlength : (segments config signer now base payload type).length
      = segmentCount config payload.length := length_segments h
  constructor
  · intro hlast
    apply Nat.le_of_not_lt
    intro hlt
    -- a whole period before the last segment there is another with its index
    have hk : segmentCount config payload.length - 1 - config.period
        < (segments config signer now base payload type).length := by omega
    have hsame : config.indexAt (segmentCount config payload.length - 1 - config.period)
        = config.indexAt (segmentCount config payload.length - 1) := by
      rw [config.indexAt_eq_iff]
      have hadd := Nat.add_modEq_right (n := config.period)
        (a := segmentCount config payload.length - 1 - config.period)
      rw [Nat.sub_add_cancel (by omega)] at hadd
      exact hadd.symm
    have hend := (hlast _ hk).1 ((isFinalBlock_segments_iff hk).2 hsame)
    omega
  · intro hle k hk
    rw [isFinalBlock_segments_iff hk, config.indexAt_eq_iff, hlength]
    rw [hlength] at hk
    constructor
    · intro hsame
      have heq := Nat.ModEq.eq_of_lt_of_lt hsame (by omega) (by omega)
      omega
    · intro heq
      rw [← heq, Nat.add_sub_cancel]

/-- The segments have different names as long as indices do not come again. -/
theorem nodup_names_segments_iff (h : config.Valid) :
    ((segments config signer now base payload type).map (·.name)).Nodup
      ↔ segmentCount config payload.length ≤ config.period := by
  rw [map_name_segments h, ← nodup_indices_iff]
  exact List.nodup_map_iff fun i j => Name.segment_inj.1

/-! ## All together -/

/-- **When indices increase and segments are told apart.** For a configuration that keeps the rules
and a payload of any length, the indices increase just when the last one fits into 64 bits, and just
then they are those of unbounded numbers. They always fit when indices count bytes, or advance by no
more than a block; the offsets of the blocks fit in any case. Whatever is published is named by
these indices. The names are different just when there are no more segments than a period of
indices, which is so if the last index fits, and just then exactly the last segment is a final
block. -/
theorem indices_increase_iff (h : config.validate = .ok ()) (length : Nat) :
    ((indices config length).Pairwise (· < ·) ↔ Fits config length)
      ∧ ((indices config length).map UInt64.toNat
          = (List.range (segmentCount config length)).map (· * config.step.toNat)
        ↔ Fits config length)
      ∧ (config.step ≤ config.blockSize → length ≤ UInt64.size → Fits config length)
      ∧ (length ≤ 2 ^ 63 → segmentCount config length * config.blockSize.toNat < UInt64.size)
      ∧ (Fits config length → segmentCount config length ≤ config.period)
      ∧ ∀ signer now base payload type, signer.Signs → payload.length = length →
        (type = .gone → payload = []) →
        ∃ units, objects config signer now base payload type = .ok units
          ∧ units.map (·.name) = (indices config length).map base.segment
          ∧ ((units.map (·.name)).Nodup ↔ segmentCount config length ≤ config.period)
          ∧ ((∀ k (hk : k < units.length), units[k].isFinalBlock = true ↔ k + 1 = units.length)
            ↔ segmentCount config length ≤ config.period) := by
  have hvalid : config.Valid := (Config.validate_eq_ok_iff config).1 h
  have hincreasing : (indices config length).Pairwise (· < ·) ↔ Fits config length :=
    pairwise_indices_iff (Config.step_ne_zero hvalid)
  refine ⟨hincreasing, map_toNat_indices_iff, fits_of_step_le hvalid, offset_end_lt hvalid,
    fun hfit => ?_,
    fun signer now base payload type hsigns hlength hrule => ?_⟩
  · exact nodup_indices_iff.1 ((hincreasing.2 hfit).imp UInt64.ne_of_lt)
  · subst hlength
    exact ⟨_, objects_eq_ok_of_rule hsigns hrule, map_name_segments hvalid,
      nodup_names_segments_iff hvalid, last_isFinalBlock_iff hvalid⟩

/-- Two segments with the greatest step of which two make up a period. -/
theorem indices_increase_iff_half :
    let config : Config := { blockSize := 1, segmentIncrement := 0x8000000000000000 }
    (indices config 2).Pairwise (· < ·)
      ∧ ∃ units, objects config .echo ⟨0⟩ ⟨[⟨[97]⟩]⟩ [1, 2] .data = .ok units
        ∧ (units.map (·.name)).Nodup
        ∧ ∀ k (hk : k < units.length), units[k].isFinalBlock = true ↔ k + 1 = units.length := by
  intro config
  have hvalid : config.validate = .ok () := rfl
  obtain ⟨hincreasing, -, -, -, hperiod, hpublished⟩ := indices_increase_iff hvalid 2
  have hfit : Fits config 2 := by decide
  obtain ⟨units, hunits, -, hnames, hlast⟩ :=
    hpublished .echo ⟨0⟩ ⟨[⟨[97]⟩]⟩ [1, 2] .data Signer.signs_echo rfl nofun
  exact ⟨hincreasing.2 hfit, units, hunits, hnames.2 (hperiod hfit), hlast.2 (hperiod hfit)⟩

/-- With the same step the third index is the first one again, so that the first and the third
segment have one name and are both final blocks. -/
theorem third_index_wraps :
    let config : Config := { blockSize := 1, segmentIncrement := 0x8000000000000000 }
    config.validate = .ok ()
      ∧ indices config 3 = [0, 0x8000000000000000, 0]
      ∧ ¬ (indices config 3).Pairwise (· < ·)
      ∧ ∃ units, objects config .echo ⟨0⟩ ⟨[⟨[97]⟩]⟩ [1, 2, 3] .data = .ok units
        ∧ ¬ (units.map (·.name)).Nodup
        ∧ units[0]?.any (·.isFinalBlock) = true ∧ units[2]?.any (·.isFinalBlock) = true := by
  intro config
  have hvalid : config.Valid := by decide
  have hmany : ¬ segmentCount config 3 ≤ config.period := by decide
  let units := segments config .echo ⟨0⟩ ⟨[⟨[97]⟩]⟩ [1, 2, 3] .data
  have hlength : units.length = 3 := (length_segments hvalid).trans (by decide)
  have hfinal : ∀ k, k = 0 ∨ k = 2 → units[k]?.any (·.isFinalBlock) = true := by
    intro k hk
    have hlt : k < units.length := by omega
    rw [List.getElem?_eq_getElem hlt, Option.any_some, isFinalBlock_segments_iff hlt]
    rcases hk with rfl | rfl <;> decide
  exact ⟨rfl, by decide, by decide, units, objects_eq_ok_of_rule Signer.signs_echo nofun,
    mt (nodup_names_segments_iff hvalid).1 hmany, hfinal 0 (.inl rfl), hfinal 2 (.inr rfl)⟩

end Stream

end NamedContent
