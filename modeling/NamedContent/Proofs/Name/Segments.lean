import NamedContent.Name.Segment

/-! # Segment components read back

The component of a segment index is recognised as one, and its digits read back as the index. A name
with such a component added therefore has the stream's name as its root, and distinct indices give
distinct names. -/

namespace NamedContent

/-! ## Digits without leading zeros -/

namespace Bytes

/-- Reading digits one by one from a starting value shifts that value by one place a digit. -/
theorem foldl_digits (acc : Nat) (bytes : Bytes) :
    bytes.foldl (fun acc b => acc * 256 + b.toNat) acc
      = acc * Nat.pow 256 bytes.length + ofBigEndian bytes := by
  induction bytes generalizing acc with
  | nil => simp [ofBigEndian]
  | cons b rest ih =>
    rw [ofBigEndian, List.foldl_cons, List.foldl_cons, ih (acc * 256 + b.toNat),
      ih (0 * 256 + b.toNat), List.length_cons,
      show Nat.pow 256 (rest.length + 1) = 256 * Nat.pow 256 rest.length from Nat.pow_succ']
    rw [Nat.add_mul, Nat.zero_mul, Nat.zero_add, Nat.mul_assoc, Nat.add_assoc]

/-- The leading digit counts with the weight of its place. -/
theorem ofBigEndian_cons (b : UInt8) (rest : Bytes) :
    ofBigEndian (b :: rest) = b.toNat * Nat.pow 256 rest.length + ofBigEndian rest := by
  rw [ofBigEndian, List.foldl_cons, foldl_digits, Nat.zero_mul, Nat.zero_add]

/-- Leading zeros do not change the number read. -/
theorem ofBigEndian_dropWhile_zero (bytes : Bytes) :
    ofBigEndian (bytes.dropWhile (· == 0)) = ofBigEndian bytes := by
  induction bytes with
  | nil => rfl
  | cons b rest ih =>
    by_cases hb : b = 0
    · subst hb
      rw [List.dropWhile_cons_of_pos (by rfl), ih, ofBigEndian_cons, UInt8.toNat_zero,
        Nat.zero_mul, Nat.zero_add]
    · rw [List.dropWhile_cons_of_neg (by simpa using hb)]

/-- A number below the capacity of the width reads back. -/
theorem ofBigEndian_bigEndian_of_lt {width n : Nat} (h : n < Nat.pow 256 width) :
    ofBigEndian (bigEndian width n) = n := by
  rw [ofBigEndian_bigEndian, Nat.mod_eq_of_lt h]

end Bytes

/-! ## The component of an index -/

/-- The digits that follow the marker in a segment component. -/
def segmentDigits (index : UInt64) : Bytes :=
  (Bytes.bigEndian 8 index.toNat).dropWhile (· == 0)

/-- The component of an index is the marker with its digits. -/
theorem segmentComponent_bytes (index : UInt64) :
    (segmentComponent index).bytes = segmentMarker :: segmentDigits index := rfl

/-- The digits of an index are no more than eight. -/
theorem length_segmentDigits_le (index : UInt64) : (segmentDigits index).length ≤ 8 := by
  have h := (List.dropWhile_sublist (fun b : UInt8 => b == 0)
    (l := Bytes.bigEndian 8 index.toNat)).length_le
  rwa [Bytes.length_bigEndian] at h

/-- The digits of an index read back as the index. -/
theorem ofBigEndian_segmentDigits (index : UInt64) :
    Bytes.ofBigEndian (segmentDigits index) = index.toNat := by
  rw [segmentDigits, Bytes.ofBigEndian_dropWhile_zero]
  exact Bytes.ofBigEndian_bigEndian_of_lt index.toNat_lt

/-- The component of an index is a segment component. -/
@[simp] theorem isSegment_segmentComponent (index : UInt64) :
    (segmentComponent index).isSegment = true := by
  have hhead := List.head?_dropWhile_not (fun b : UInt8 => b == 0)
    (Bytes.bigEndian 8 index.toNat)
  rw [Component.isSegment, segmentComponent_bytes]
  cases hd : segmentDigits index with
  | nil => simp
  | cons b rest =>
    rw [segmentDigits] at hd
    rw [hd] at hhead
    simpa [segmentMarker, bne] using hhead

/-- **Distinct indices have distinct components.** -/
theorem segmentComponent_injective {i j : UInt64} (h : segmentComponent i = segmentComponent j) :
    i = j := by
  have hd : segmentDigits i = segmentDigits j :=
    (List.cons.inj (congrArg Component.bytes h)).2
  rw [← UInt64.toNat_inj, ← ofBigEndian_segmentDigits i, hd, ofBigEndian_segmentDigits]

/-- Different indices have different components. -/
@[simp] theorem segmentComponent_inj {i j : UInt64} :
    segmentComponent i = segmentComponent j ↔ i = j :=
  ⟨segmentComponent_injective, congrArg segmentComponent⟩

/-! ## Extensions of names -/

namespace Name

/-- A name is a prefix of what it becomes by more components. -/
theorem isPrefixOf_append (n : Name) (cs : List Component) : n.isPrefixOf (n.append cs) = true :=
  (isPrefixOf_iff _ _).2 ⟨cs, rfl⟩

/-- The component behind a name in one of its extensions. -/
theorem component?_append (n : Name) (c : Component) (cs : List Component) :
    (n.append (c :: cs)).component? n.length = some c := by
  simp [component?, append, length]

end Name

/-! ## Names of segments -/

namespace Name

/-- A child is a segment if its last component is one. -/
@[simp] theorem isSegment_child (n : Name) (c : Component) :
    (n.child c).isSegment = c.isSegment := by
  simp [isSegment]

/-- The root of a name that ends in a segment component is the name before it. -/
theorem segmentRoot_child_of_isSegment (n : Name) {c : Component} (h : c.isSegment = true) :
    (n.child c).segmentRoot = n := by
  rw [segmentRoot, isSegment_child, if_pos h, parent_child]

/-- A name whose last component is no segment component is its own root. -/
theorem segmentRoot_child_of_not_isSegment (n : Name) {c : Component} (h : c.isSegment = false) :
    (n.child c).segmentRoot = n.child c := by
  rw [segmentRoot, isSegment_child, h]
  rfl

/-- A segment's name is its stream's name and a segment component. -/
theorem exists_eq_child_of_isSegment {n : Name} (h : n.isSegment = true) :
    ∃ c, c.isSegment = true ∧ n = n.segmentRoot.child c := by
  obtain ⟨c, hlast, hc⟩ := (Option.any_eq_true _ _).1 h
  obtain ⟨front, hfront⟩ := List.getLast?_eq_some_iff.1 hlast
  refine ⟨c, hc, ?_⟩
  rw [segmentRoot, if_pos h, parent, child, hfront, List.dropLast_concat, ← hfront]

/-- The stream that a segment belongs to has another name. -/
theorem segmentRoot_ne_of_isSegment {n : Name} (h : n.isSegment = true) : n.segmentRoot ≠ n := by
  obtain ⟨c, -, hchild⟩ := exists_eq_child_of_isSegment h
  intro hsame
  have hlength := congrArg length hchild
  rw [length_child, hsame] at hlength
  omega

/-- A name is that of its own stream just when it is no segment's. -/
theorem segmentRoot_eq_self_iff {n : Name} : n.segmentRoot = n ↔ n.isSegment = false := by
  refine ⟨fun h => ?_, fun h => by rw [segmentRoot, h]; rfl⟩
  cases hsegment : n.isSegment with
  | false => rfl
  | true => exact absurd h (segmentRoot_ne_of_isSegment hsegment)

/-- The stream that a name belongs to is named like a segment itself just when the name ends in two
segment components. -/
theorem isSegment_segmentRoot_iff {n : Name} :
    n.segmentRoot.isSegment = true ↔ n.isSegment = true ∧ n.parent.isSegment = true := by
  rw [segmentRoot]
  split
  · next h => exact (and_iff_right h).symm
  · next h => exact ⟨fun hsegment => absurd hsegment h, fun hboth => absurd hboth.1 h⟩

/-- What is above a segment is the name it is a segment of. -/
@[simp] theorem segmentRoot_child_segmentComponent (n : Name) (i : UInt64) :
    (n.child (segmentComponent i)).segmentRoot = n :=
  segmentRoot_child_of_isSegment n (isSegment_segmentComponent i)

/-- A segment of a name is a segment. -/
@[simp] theorem isSegment_segment (n : Name) (i : UInt64) : (n.segment i).isSegment = true := by
  rw [segment, isSegment_child, isSegment_segmentComponent]

/-- The last component of a segment is that of its index. -/
@[simp] theorem last?_segment (n : Name) (i : UInt64) :
    (n.segment i).last? = some (segmentComponent i) := last?_child _ _

/-- All segments of a stream have its name as their root. -/
@[simp] theorem segmentRoot_segment (n : Name) (i : UInt64) :
    (n.segment i).segmentRoot = n.segmentRoot :=
  segmentRoot_child_segmentComponent _ _

/-- **The index of a segment reads back.** -/
@[simp] theorem segmentIndex?_segment (n : Name) (i : UInt64) :
    (n.segment i).segmentIndex? = some i := by
  have hlen := length_segmentDigits_le i
  rw [segmentIndex?, last?_segment]
  simp [segmentComponent_bytes, ofBigEndian_segmentDigits, Nat.not_lt.2 hlen]

/-- Different indices give different segments. -/
@[simp] theorem segment_inj {n : Name} {i j : UInt64} : n.segment i = n.segment j ↔ i = j := by
  constructor
  · intro h
    have hl := congrArg Name.last? h
    simpa using hl
  · rintro rfl
    rfl

end Name

end NamedContent
