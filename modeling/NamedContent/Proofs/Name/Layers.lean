import Mathlib.Algebra.Group.Nat.Defs
import NamedContent.Proofs.Name.Versions

/-! # Versions and segments do not disturb each other

The segments of a name carry its version, its root and its time, and the segment of a segment is one
of the same stream. A version that is added to a name is found again whatever the name ends in, also
through a segment, and so is what it was added to. The time is found if it fits into a version.

* `Component.version?_versionComponent`: the time of a version component
* `Name.version?_segment`, `Name.isVersioned_segment`, `Name.versionRoot_segment`,
  `Name.versionTime_segment`, `Name.segment_segment`: the version behind a segment
* `Name.version_and_segment`: both layers on any name -/

namespace NamedContent

/-- **The time of a version component** is the one that it was made of, if that fits into six
bytes. -/
theorem Component.version?_versionComponent {t : Timestamp} (ht : t.ticks.toNat < versionLimit) :
    (versionComponent t).version? = .ok t := by
  have hdigits : Bytes.ofBigEndian (Bytes.bigEndian versionWidth t.ticks.toNat) = t.ticks.toNat :=
    Bytes.ofBigEndian_bigEndian_of_lt ht
  rw [version?, if_pos (isVersion_versionComponent t), versionComponent_bytes, List.drop_one,
    List.tail_cons, hdigits, UInt64.ofNat_toNat]

namespace Name

variable {n : Name}

/-! ## Behind a segment -/

/-- Segments carry the version of their stream. -/
@[simp] theorem version?_segment (n : Name) (i : UInt64) : (n.segment i).version? = n.version? := by
  rw [version?, version?, segmentRoot_segment]

/-- A segment of a name has a version if the name has. -/
@[simp] theorem isVersioned_segment (n : Name) (i : UInt64) :
    (n.segment i).isVersioned = n.isVersioned := by
  rw [isVersioned, isVersioned, version?_segment]

/-- The segments of a version have its root. -/
theorem versionRoot_segment (h : n.isVersioned = true) (i : UInt64) :
    (n.segment i).versionRoot = n.versionRoot := by
  rw [versionRoot, versionRoot, isVersioned_segment, segmentRoot_segment, if_pos h, if_pos h]

/-- The segments of a version have its time. -/
theorem versionTime_segment (h : n.isVersioned = true) (i : UInt64) :
    (n.segment i).versionTime = n.versionTime := by
  obtain ⟨v, hv⟩ := Option.isSome_iff_exists.1 h
  rw [versionTime, versionTime, version?_segment, hv]

/-- A segment of a segment is one of the same stream. -/
@[simp] theorem segment_segment (n : Name) (i j : UInt64) :
    (n.segment i).segment j = n.segment j := by
  rw [segment, segmentRoot_segment, ← segment]

/-- A name that carries a version gets no other. -/
theorem versioned_of_isVersioned (h : n.isVersioned = true) (fresh : Timestamp) :
    n.versioned fresh = n := if_pos h

/-! ## A version added to a name -/

/-- The time of an added version is found again, if it fits into a version. -/
theorem versionTime_withVersion (n : Name) {t : Timestamp} (ht : t.ticks.toNat < versionLimit) :
    (n.withVersion t).versionTime = .ok t := by
  rw [versionTime, version?_withVersion]
  exact Component.version?_versionComponent ht

/-! ## Both layers -/

/-- **Versions and segments are independent layers.** A version is added to a name of any shape, and
a segment to that. Both names carry the version, with the name as its root and its time as long as
it fits; the stream of the segment is the name with the version, no other version is added to the
segment, and another segment takes its place. A name without a version gets one for whatever time is
minted; without it, it is the name again, and no second one is added. -/
theorem version_and_segment (n : Name) :
    (∀ (t : Timestamp) (i j : UInt64), t.ticks.toNat < 2 ^ 48 →
        let v := n.withVersion t
        let s := v.segment i
        (s.versionRoot = n ∧ v.versionRoot = n) ∧ s.segmentRoot = v
          ∧ (s.isVersioned = true ∧ v.isVersioned = true)
          ∧ (s.versionTime = .ok t ∧ v.versionTime = .ok t)
          ∧ (∀ fresh, s.versioned fresh = s) ∧ s.segment j = v.segment j)
      ∧ (n.isVersioned = false → ∀ minted,
        (n.versioned minted).versionRoot = n
          ∧ ∀ fresh, (n.versioned minted).versioned fresh = n.versioned minted) := by
  constructor
  · intro t i j ht v s
    -- the version goes through the segment to the name that carries it
    have hv : v.isVersioned = true := isVersioned_withVersion n t
    have hs : s.isVersioned = true := by rw [isVersioned_segment, hv]
    have hroot : v.versionRoot = n := versionRoot_withVersion n t
    have htime : v.versionTime = .ok t := versionTime_withVersion n ht
    refine ⟨⟨?_, hroot⟩, ?_, ⟨hs, hv⟩, ⟨?_, htime⟩, versioned_of_isVersioned hs,
      segment_segment v i j⟩
    · rw [versionRoot_segment hv, hroot]
    · rw [segmentRoot_segment, segmentRoot_withVersion]
    · rw [versionTime_segment hv, htime]
  · intro h minted
    exact ⟨by rw [versionRoot_versioned, versionRoot_of_not_isVersioned h],
      versioned_of_isVersioned (isVersioned_versioned n minted)⟩

end Name

end NamedContent
