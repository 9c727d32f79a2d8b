import Mathlib.Algebra.Group.Nat.Defs
import NamedContent.Proofs.Name.Segments

/-! # Each index has one segment component

The digits of a number without leading zeros are determined by the number, so that a segment
component of no more than eight digits is the one written for the index read from it. Writing an
index into a name and reading one are therefore inverse to each other, and only the names that are
written have an index.

* `Bytes.bigEndian_ofBigEndian`, `Bytes.dropWhile_bigEndian_ofBigEndian`: digits from their number
* `Component.isSegment_iff`, `Component.eq_segmentComponent`: a component from its index
* `Name.segmentIndex?_eq_some_iff`: the names with an index
* `Name.segment_codec`: both directions, with the signed form of the index -/

namespace NamedContent

/-! ## Digits from their number -/

namespace Bytes

/-- Digits write a number below the capacity of their places. -/
theorem ofBigEndian_lt (bytes : Bytes) : ofBigEndian bytes < Nat.pow 256 bytes.length := by
  induction bytes with
  | nil => exact Nat.one_pos
  | cons b rest ih =>
    have hb : b.toNat + 1 ≤ 256 := b.toNat_lt
    have hpow : Nat.pow 256 (rest.length + 1) = 256 * Nat.pow 256 rest.length := Nat.pow_succ'
    rw [ofBigEndian_cons, List.length_cons, hpow]
    calc b.toNat * Nat.pow 256 rest.length + ofBigEndian rest
        < b.toNat * Nat.pow 256 rest.length + Nat.pow 256 rest.length :=
          Nat.add_lt_add_left ih _
      _ = (b.toNat + 1) * Nat.pow 256 rest.length := (Nat.succ_mul _ _).symm
      _ ≤ 256 * Nat.pow 256 rest.length := Nat.mul_le_mul_right _ hb

/-- **Digits are those of their number**, written with as many places. -/
theorem bigEndian_ofBigEndian (bytes : Bytes) :
    bigEndian bytes.length (ofBigEndian bytes) = bytes := by
  -- the last digit is split off, as both readings go by the last place
  induction hn : bytes.length generalizing bytes with
  | zero =>
    rw [List.length_eq_zero_iff.1 hn]
    rfl
  | succ n ih =>
    obtain ⟨front, b, rfl⟩ : ∃ front b, bytes = front ++ [b] :=
      ⟨_, _, (List.dropLast_concat_getLast (List.ne_nil_of_length_eq_add_one hn)).symm⟩
    have hb := b.toNat_lt
    have hlength : front.length = n := by simpa using hn
    have hdiv : (ofBigEndian front * 256 + b.toNat) / 256 = ofBigEndian front := by omega
    have hmod : (ofBigEndian front * 256 + b.toNat) % 256 = b.toNat := by omega
    rw [ofBigEndian_concat, bigEndian, hdiv, hmod, ih front hlength, UInt8.ofNat_toNat]

/-- **Digits without a leading zero are the ones that remain** when their number is written with
places to spare and the zeros are dropped. -/
theorem dropWhile_bigEndian_ofBigEndian {digits : Bytes} {width : Nat}
    (hwidth : digits.length ≤ width) (hhead : digits.head? ≠ some 0) :
    (bigEndian width (ofBigEndian digits)).dropWhile (· == 0) = digits := by
  -- zeros in front fill the places up; they do not change the number and are dropped again
  have hdrop : (List.replicate (width - digits.length) 0 ++ digits).dropWhile (· == 0)
      = digits := by
    rw [List.dropWhile_append_of_pos fun b hb => beq_iff_eq.2 (List.eq_of_mem_replicate hb)]
    cases digits with
    | nil => rfl
    | cons b rest => exact List.dropWhile_cons_of_neg (by simpa using hhead)
  have hvalue : ofBigEndian (List.replicate (width - digits.length) 0 ++ digits)
      = ofBigEndian digits := by
    rw [← ofBigEndian_dropWhile_zero, hdrop]
  have hlength : (List.replicate (width - digits.length) (0 : UInt8) ++ digits).length
      = width := by
    rw [List.length_append, List.length_replicate, Nat.sub_add_cancel hwidth]
  have hwrite := bigEndian_ofBigEndian (List.replicate (width - digits.length) 0 ++ digits)
  rw [hlength, hvalue] at hwrite
  rw [hwrite, hdrop]

end Bytes

/-! ## Components from their index -/

namespace Component

/-- A segment component is the marker and digits without a leading zero. -/
theorem isSegment_iff {c : Component} :
    c.isSegment = true ↔ ∃ digits, c.bytes = segmentMarker :: digits ∧ digits.head? ≠ some 0 := by
  obtain ⟨bytes⟩ := c
  constructor
  · intro h
    match bytes with
    | [m] => exact ⟨[], by rw [beq_iff_eq.1 h], nofun⟩
    | m :: b :: rest =>
      obtain ⟨hm, hb⟩ := Bool.and_eq_true_iff.1 h
      exact ⟨b :: rest, by rw [beq_iff_eq.1 hm], by simpa using hb⟩
  · rintro ⟨digits, rfl, hhead⟩
    cases digits with
    | nil => rfl
    | cons b rest => simpa [isSegment] using hhead

/-- **A segment component is the one of the index that its digits write**, if there are no more than
eight. -/
theorem eq_segmentComponent {digits : Bytes} (hlength : digits.length ≤ 8)
    (hhead : digits.head? ≠ some 0) :
    (⟨segmentMarker :: digits⟩ : Component)
      = segmentComponent (UInt64.ofNat (Bytes.ofBigEndian digits)) := by
  have hlt : Bytes.ofBigEndian digits < Nat.pow 256 8 :=
    Nat.lt_of_lt_of_le (Bytes.ofBigEndian_lt digits) (Nat.pow_le_pow_right (by decide) hlength)
  rw [segmentComponent, UInt64.toNat_ofNat_of_lt' hlt,
    Bytes.dropWhile_bigEndian_ofBigEndian hlength hhead]

end Component

/-! ## Names with an index -/

namespace Name

variable {n : Name} {i : UInt64}

/-- **Just the names that end in the component of an index have that index.** -/
theorem segmentIndex?_eq_some_iff :
    n.segmentIndex? = some i ↔ n.last? = some (segmentComponent i) := by
  constructor
  · intro h
    obtain ⟨c, hlast, h⟩ := Option.bind_eq_some_iff.1 h
    cases hsegment : c.isSegment with
    | false => simp [hsegment] at h
    | true =>
      obtain ⟨digits, hdigits, hhead⟩ := Component.isSegment_iff.1 hsegment
      obtain ⟨hlength, rfl⟩ : digits.length ≤ 8 ∧ UInt64.ofNat (Bytes.ofBigEndian digits) = i := by
        simpa [hsegment, hdigits] using h
      rw [hlast, ← Component.eq_segmentComponent hlength hhead, ← hdigits]
  · intro h
    -- the index is read from the last component, which the written name has too
    have hsame : n.segmentIndex? = (n.segment i).segmentIndex? := by
      rw [segmentIndex?, segmentIndex?, h, last?_segment]
    rw [hsame, segmentIndex?_segment]

/-- A name is that of a segment in its own stream just when the index is its own. -/
theorem segment_eq_self_iff : n.segment i = n ↔ n.segmentIndex? = some i := by
  constructor
  · intro h
    rw [← h, segmentIndex?_segment]
  · intro h
    rw [segmentIndex?_eq_some_iff] at h
    have hsegment : n.isSegment = true := by
      rw [isSegment, h, Option.any_some, isSegment_segmentComponent]
    obtain ⟨c, -, hchild⟩ := exists_eq_child_of_isSegment hsegment
    rw [hchild, last?_child] at h
    rw [segment, ← Option.some.inj h, ← hchild]

/-! ## Both directions -/

/-- **Segment names and indices determine each other.** The index written into a name is read from
it, and the stream stays the same; a name from which an index is read is the one written for it.
Distinct indices have distinct components, and for each there is just one component from which it is
read. The signed form of an index is the index itself just up to the greatest signed number, and
minus one in all other cases. -/
theorem segment_codec (n : Name) :
    (∀ i, (n.segment i).segmentIndex? = some i ∧ (n.segment i).segmentRoot = n.segmentRoot)
      ∧ (∀ i, n.segmentIndex? = some i → n.segment i = n)
      ∧ (∀ i j, segmentComponent i = segmentComponent j → i = j)
      ∧ (∀ c i, (n.child c).segmentIndex? = some i ↔ c = segmentComponent i)
      ∧ (∀ i, n.segmentIndex? = some i →
        (n.signedSegmentIndex = i.toNat ↔ i.toNat ≤ 2 ^ 63 - 1))
      ∧ ((∀ i, n.segmentIndex? = some i → ¬ i.toNat ≤ 2 ^ 63 - 1) → n.signedSegmentIndex = -1) := by
  refine ⟨fun i => ⟨segmentIndex?_segment n i, segmentRoot_segment n i⟩,
    fun i h => segment_eq_self_iff.2 h, fun i j h => segmentComponent_injective h,
    fun c i => ?_, fun i h => ?_, fun h => ?_⟩
  · rw [segmentIndex?_eq_some_iff, last?_child, Option.some.injEq]
  · rw [signedSegmentIndex, h]
    show (if i.toNat < 0x8000000000000000 then (i.toNat : Int) else -1) = i.toNat ↔ _
    split <;> omega
  · rw [signedSegmentIndex]
    cases hindex : n.segmentIndex? with
    | none => rfl
    | some i => exact if_neg fun hlt => h i hindex (Nat.le_sub_one_of_lt hlt)

end Name

end NamedContent
