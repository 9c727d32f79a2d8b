import NamedContent.Name.Version
import NamedContent.Proofs.Name.Segments

/-! # Version components stand above segments

A version component is never a segment component, so looking for the version behind a segment finds
it, and the root before it is what it was added to. Digits of a fixed width order as the numbers
they write, so version components order as their times do, and a minted time gives a greater one
than all times minted before. -/

namespace NamedContent

/-! ## Digits of one width order as numbers -/

namespace Bytes

/-- Of two byte strings of one length, the lesser stays so with anything added behind. -/
theorem append_lt_append {a b : Bytes} (hl : a.length = b.length) (h : a < b) (c d : Bytes) :
    a ++ c < b ++ d := by
  induction a generalizing b with
  | nil =>
    rw [List.length_nil] at hl
    rw [List.length_eq_zero_iff.1 hl.symm] at h
    exact absurd h (List.lt_irrefl _)
  | cons x xs ih =>
    cases b with
    | nil => exact absurd h (List.not_lt_nil _)
    | cons y ys =>
      rw [List.cons_append, List.cons_append, List.cons_lt_cons_iff]
      rcases List.cons_lt_cons_iff.1 h with hxy | ⟨rfl, hrest⟩
      · exact .inl hxy
      · exact .inr ⟨rfl, ih (by simpa using hl) hrest⟩

/-- **Digits of one width order as the numbers they write.** -/
theorem bigEndian_lt_bigEndian {width m n : Nat} (h : m < n) (hn : n < Nat.pow 256 width) :
    bigEndian width m < bigEndian width n := by
  induction width generalizing m n with
  | zero =>
    have hone : n < 1 := hn
    omega
  | succ width ih =>
    have hpow : Nat.pow 256 (width + 1) = 256 * Nat.pow 256 width := Nat.pow_succ'
    have hlen : (bigEndian width (m / 256)).length = (bigEndian width (n / 256)).length := by
      rw [length_bigEndian, length_bigEndian]
    rw [bigEndian, bigEndian]
    -- either the leading digits differ already, or only the last digit does
    rcases Nat.lt_or_ge (m / 256) (n / 256) with hlead | hlead
    · exact append_lt_append hlen (ih hlead (by omega)) _ _
    · have heq : m / 256 = n / 256 := by omega
      rw [heq]
      apply List.append_left_lt
      rw [List.cons_lt_cons_iff, UInt8.lt_iff_toNat_lt]
      left
      simp only [UInt8.toNat_ofNat']
      omega

end Bytes

/-! ## Version components -/

/-- The component of a time is the marker with the last bytes of its ticks. -/
theorem versionComponent_bytes (t : Timestamp) :
    (versionComponent t).bytes = versionMarker :: Bytes.bigEndian versionWidth t.ticks.toNat := rfl

/-- The component of a time is a version. -/
@[simp] theorem isVersion_versionComponent (t : Timestamp) :
    (versionComponent t).isVersion = true := by
  simp [Component.isVersion, Component.marker?, versionComponent_bytes, versionWidth]

/-- A version component is no segment component. -/
theorem Component.isSegment_eq_false_of_isVersion {c : Component} (h : c.isVersion = true) :
    c.isSegment = false := by
  obtain ⟨bytes⟩ := c
  cases bytes with
  | nil => rfl
  | cons m rest =>
    rw [isVersion, Bool.and_eq_true] at h
    have hm : m = versionMarker := by simpa [marker?] using h.2
    subst hm
    cases rest <;> rfl

/-- The component of a time is no segment. -/
@[simp] theorem isSegment_versionComponent (t : Timestamp) :
    (versionComponent t).isSegment = false :=
  Component.isSegment_eq_false_of_isVersion (isVersion_versionComponent t)

/-- The number of times that six bytes can tell apart. -/
def versionLimit : Nat := 0x1000000000000

/-- **Version components order as their times do**, as long as these fit into six bytes. -/
theorem versionComponent_lt_versionComponent {s t : Timestamp} (h : s < t)
    (ht : t.ticks.toNat < versionLimit) : versionComponent s < versionComponent t := by
  show versionMarker :: _ < versionMarker :: _
  rw [List.cons_lt_cons_iff]
  exact .inr ⟨rfl, Bytes.bigEndian_lt_bigEndian (UInt64.lt_iff_toNat_lt.1 h) ht⟩

/-! ## Minted times -/

/-- A time minted is not before the time after the last one. -/
theorem Timestamp.next_le_mint (clock last : Timestamp) :
    last.next.ticks.toNat ≤ (mint clock last).ticks.toNat := by
  rw [mint]
  split
  · exact Nat.le_refl _
  · next h =>
    apply Nat.le_of_not_lt
    intro hlt
    exact h (UInt64.lt_iff_toNat_lt.2 hlt)

/-- **A time minted below the limit of versions is later than the one before.** -/
theorem Timestamp.lt_mint {clock last : Timestamp}
    (h : (mint clock last).ticks.toNat < versionLimit) : last < mint clock last := by
  have hle := next_le_mint clock last
  have hnext : last.next.ticks.toNat = last.ticks.toNat + 1 := by
    -- the greatest time has no next one, and lies beyond the limit of versions
    by_cases hmax : last.ticks = 0xFFFFFFFFFFFFFFFF
    · rw [next, if_pos hmax, hmax] at hle
      exact absurd (Nat.lt_of_le_of_lt hle h) (by decide)
    · rw [next, if_neg hmax, UInt64.toNat_add]
      have hlt := last.ticks.toNat_lt
      have hne : last.ticks.toNat ≠ 0xFFFFFFFFFFFFFFFF := fun heq => hmax (UInt64.toNat_inj.1 heq)
      have hone : (1 : UInt64).toNat = 1 := rfl
      omega
  exact UInt64.lt_iff_toNat_lt.2 (by omega)

/-! ## Versions of names -/

namespace Name

/-- A name that ends in a version is no segment. -/
@[simp] theorem segmentRoot_withVersion (n : Name) (t : Timestamp) :
    (n.withVersion t).segmentRoot = n.withVersion t :=
  segmentRoot_child_of_not_isSegment n (isSegment_versionComponent t)

/-- The version of a name that ends in one is that component. -/
@[simp] theorem version?_withVersion (n : Name) (t : Timestamp) :
    (n.withVersion t).version? = some (versionComponent t) := by
  rw [version?, segmentRoot_withVersion, withVersion, last?_child]
  simp

/-- A name that ends in a version is versioned. -/
@[simp] theorem isVersioned_withVersion (n : Name) (t : Timestamp) :
    (n.withVersion t).isVersioned = true := by
  rw [isVersioned, version?_withVersion]
  rfl

/-- **The root of a versioned name is what the version was added to.** -/
@[simp] theorem versionRoot_withVersion (n : Name) (t : Timestamp) :
    (n.withVersion t).versionRoot = n := by
  rw [versionRoot, isVersioned_withVersion, if_pos rfl, segmentRoot_withVersion, withVersion,
    parent_child]

/-- A name without a version is its own root. -/
theorem versionRoot_of_not_isVersioned {n : Name} (h : n.isVersioned = false) :
    n.versionRoot = n := by
  rw [versionRoot, h]
  rfl

/-- The stream's name of a versioned name ends in its version component. -/
theorem exists_segmentRoot_eq_child {n : Name} (h : n.isVersioned = true) :
    ∃ v, v.isVersion = true ∧ n.segmentRoot = n.versionRoot.child v := by
  obtain ⟨v, hv⟩ := Option.isSome_iff_exists.1 h
  obtain ⟨hlast, hversion⟩ := Option.filter_eq_some_iff.1 hv
  refine ⟨v, hversion, ?_⟩
  rw [versionRoot, if_pos h]
  obtain ⟨front, hfront⟩ := List.getLast?_eq_some_iff.1 hlast
  show n.segmentRoot = ⟨n.segmentRoot.components.dropLast ++ [v]⟩
  rw [hfront, List.dropLast_concat, ← hfront]

/-- A stream's name with a version is not a segment's name itself. -/
theorem segmentRoot_segmentRoot_of_isVersioned {n : Name} (h : n.isVersioned = true) :
    n.segmentRoot.segmentRoot = n.segmentRoot := by
  obtain ⟨v, hv, heq⟩ := exists_segmentRoot_eq_child h
  rw [heq, segmentRoot_child_of_not_isSegment _ (Component.isSegment_eq_false_of_isVersion hv)]

/-- A stream's name with a version is not named like a segment. -/
theorem isSegment_segmentRoot_of_isVersioned {n : Name} (h : n.isVersioned = true) :
    n.segmentRoot.isSegment = false :=
  segmentRoot_eq_self_iff.1 (segmentRoot_segmentRoot_of_isVersioned h)

/-- A name with a version carries the time of that. -/
theorem exists_versionTime_eq_ok {n : Name} (h : n.isVersioned = true) :
    ∃ t, n.versionTime = .ok t := by
  obtain ⟨v, hv⟩ := Option.isSome_iff_exists.1 h
  obtain ⟨-, hversion⟩ := Option.filter_eq_some_iff.1 hv
  exact ⟨_, by rw [versionTime, hv]; exact if_pos hversion⟩

/-- Versions of one name order as their times do, as long as these fit into a version. -/
theorem withVersion_lt_withVersion (n : Name) {s t : Timestamp} (h : s < t)
    (ht : t.ticks.toNat < versionLimit) : n.withVersion s < n.withVersion t :=
  List.append_left_lt (List.cons_lt_cons_iff.2 (.inl (versionComponent_lt_versionComponent h ht)))

/-- A name is versioned once it was given a version. -/
@[simp] theorem isVersioned_versioned (n : Name) (t : Timestamp) :
    (n.versioned t).isVersioned = true := by
  rw [versioned]
  split
  · assumption
  · exact isVersioned_withVersion n t

/-- A name that was given a version has the root that it had before. -/
@[simp] theorem versionRoot_versioned (n : Name) (t : Timestamp) :
    (n.versioned t).versionRoot = n.versionRoot := by
  rw [versioned]
  split
  · rfl
  · next h =>
    rw [versionRoot_withVersion, versionRoot_of_not_isVersioned (Bool.not_eq_true _ ▸ h)]

/-- A name with a version is that of a segment only if it is kept as it was. -/
theorem isSegment_versioned_iff (n : Name) (t : Timestamp) :
    (n.versioned t).isSegment = true ↔ n.isVersioned = true ∧ n.isSegment = true := by
  rw [versioned]
  split
  · next h => exact (and_iff_right h).symm
  · next h =>
    rw [withVersion, isSegment_child, isSegment_versionComponent]
    exact ⟨nofun, fun hboth => absurd hboth.1 h⟩

/-- The segments of a version lie below the root of the versions. -/
theorem isPrefixOf_segment_of_isVersioned {n : Name} (h : n.isVersioned = true) (i : UInt64) :
    n.versionRoot.isPrefixOf (n.segment i) = true := by
  obtain ⟨v, -, heq⟩ := exists_segmentRoot_eq_child h
  rw [segment, heq]
  exact (isPrefixOf_iff _ _).2 ⟨[v, segmentComponent i], by simp [child, append]⟩

end Name

end NamedContent
