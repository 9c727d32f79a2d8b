import NamedContent.Proofs.Name.Layers
import NamedContent.Proofs.Name.SegmentIndices
import NamedContent.Proofs.Stream.Discovery

/-! # Versions in the order of their times

Versions are compared byte by byte from the front. Of two with as many bytes the lesser one has the
earlier time. One with fewer bytes is compared as if zeros stood behind it, so that it can come
behind a later time, but never in front of an earlier one. Times are written with six bytes, which
keep those below the limit of versions; as many bytes are written each time, so that the versions
written order as their times. The greatest version below a name is the latest of all that have no
more bytes than it.

* `Bytes.le_iff_ofBigEndian_mul_le`: the order of digits that differ in their number
* `Component.version?_eq_ok_iff`: versions and their times
* `Component.le_iff_time_le`, `Component.lt_iff_time_lt`: the order of versions by their times
* `Component.version_byte_order`: the order, the times written, and the greatest version -/

namespace NamedContent

/-! ## The order of digits -/

namespace Bytes

variable {a b : Bytes}

/-- The digits in front count with the weight of the places behind them. -/
theorem ofBigEndian_append (a b : Bytes) :
    ofBigEndian (a ++ b) = ofBigEndian a * Nat.pow 256 b.length + ofBigEndian b := by
  rw [ofBigEndian, List.foldl_append, foldl_digits]
  rfl

/-- Of two byte strings with as many digits, that of the lesser number is the lesser. -/
theorem lt_of_ofBigEndian_lt (hl : a.length = b.length) (h : ofBigEndian a < ofBigEndian b) :
    a < b := by
  have hdigits := bigEndian_lt_bigEndian h (ofBigEndian_lt b)
  rwa [bigEndian_ofBigEndian b, ← hl, bigEndian_ofBigEndian a] at hdigits

/-- **As many digits order as the numbers they write.** -/
theorem le_iff_ofBigEndian_le (hl : a.length = b.length) :
    a ≤ b ↔ ofBigEndian a ≤ ofBigEndian b := by
  constructor
  · intro h
    apply Nat.le_of_not_lt
    intro hlt
    exact absurd (lt_of_ofBigEndian_lt hl.symm hlt) (Std.not_lt.2 h)
  · intro h
    rcases Nat.lt_or_eq_of_le h with hlt | heq
    · exact Std.le_of_lt (lt_of_ofBigEndian_lt hl hlt)
    · have hsame : a = b := by
        rw [← bigEndian_ofBigEndian a, ← bigEndian_ofBigEndian b, hl, heq]
      exact hsame ▸ List.le_refl a

/-- What stands behind as many bytes does not matter for those that come up to them. -/
theorem le_append_iff (hl : a.length = b.length) (rest : Bytes) : a ≤ b ++ rest ↔ a ≤ b := by
  constructor
  · intro h
    apply Std.not_lt.1
    intro hlt
    have hbehind := append_lt_append hl.symm hlt rest []
    rw [List.append_nil] at hbehind
    exact absurd hbehind (Std.not_lt.2 h)
  · intro h
    exact List.le_trans h (List.le_append_left)

/-- A multiple of a weight is reached with less than the weight added just when the factor is. -/
theorem mul_le_mul_add_iff {m n weight rest : Nat} (h : rest < weight) :
    m * weight ≤ n * weight + rest ↔ m ≤ n := by
  constructor
  · intro hle
    apply Nat.le_of_not_lt
    intro hlt
    have hnext : (n + 1) * weight ≤ m * weight := Nat.mul_le_mul_right _ hlt
    rw [Nat.succ_mul] at hnext
    omega
  · intro hle
    exact Nat.le_add_right_of_le (Nat.mul_le_mul_right _ hle)

/-- **Fewer digits order as if zeros stood behind them.** -/
theorem le_iff_ofBigEndian_mul_le (hl : a.length ≤ b.length) :
    a ≤ b ↔ ofBigEndian a * 256 ^ (b.length - a.length) ≤ ofBigEndian b := by
  -- only the front of the longer one, with as many digits, decides
  have hfront : a.length = (b.take a.length).length := by
    rw [List.length_take, Nat.min_eq_left hl]
  have hrest : ofBigEndian (b.drop a.length) < 256 ^ (b.length - a.length) := by
    have hlt := ofBigEndian_lt (b.drop a.length)
    rwa [List.length_drop] at hlt
  have hparts : ofBigEndian b = ofBigEndian (b.take a.length) * 256 ^ (b.length - a.length)
      + ofBigEndian (b.drop a.length) := by
    have happend := ofBigEndian_append (b.take a.length) (b.drop a.length)
    rwa [List.take_append_drop, List.length_drop] at happend
  calc a ≤ b
      ↔ a ≤ b.take a.length ++ b.drop a.length := by rw [List.take_append_drop]
    _ ↔ a ≤ b.take a.length := le_append_iff hfront _
    _ ↔ ofBigEndian a ≤ ofBigEndian (b.take a.length) := le_iff_ofBigEndian_le hfront
    _ ↔ ofBigEndian a * 256 ^ (b.length - a.length) ≤ ofBigEndian b := by
      rw [hparts, mul_le_mul_add_iff hrest]

end Bytes

/-! ## The order of versions -/

namespace Component

variable {c d : Component} {s t : Timestamp}

/-- A version is the marker and one to eight digits. -/
theorem isVersion_iff :
    c.isVersion = true
      ↔ ∃ digits, c.bytes = versionMarker :: digits ∧ 0 < digits.length ∧ digits.length ≤ 8 := by
  obtain ⟨bytes⟩ := c
  cases bytes with
  | nil => exact ⟨nofun, fun ⟨digits, h, _⟩ => by cases h⟩
  | cons m rest =>
    simp only [isVersion, marker?, List.length_cons, List.head?_cons, Bool.and_eq_true,
      decide_eq_true_iff, beq_iff_eq, Option.some.injEq, List.cons.injEq]
    constructor
    · rintro ⟨⟨hmin, hmax⟩, rfl⟩
      exact ⟨rest, ⟨rfl, rfl⟩, by omega, by omega⟩
    · rintro ⟨digits, ⟨rfl, rfl⟩, hmin, hmax⟩
      exact ⟨⟨by omega, by omega⟩, rfl⟩

/-- **Each version has the time that its digits write**, and only versions have one. -/
theorem version?_eq_ok_iff :
    c.version? = .ok t
      ↔ c.isVersion = true ∧ t.ticks.toNat = Bytes.ofBigEndian (c.bytes.drop 1) := by
  rw [version?]
  split
  · next h =>
    obtain ⟨digits, hdigits, -, hmax⟩ := isVersion_iff.1 h
    have hfit : Bytes.ofBigEndian (c.bytes.drop 1) < UInt64.size := by
      rw [hdigits]
      exact Nat.lt_of_lt_of_le (Bytes.ofBigEndian_lt digits) (Nat.pow_le_pow_right (by decide) hmax)
    rw [and_iff_right h, Except.ok.injEq, Timestamp.mk.injEq, ← UInt64.toNat_inj,
      UInt64.toNat_ofNat_of_lt' hfit, eq_comm]
  · next h =>
    constructor
    · intro herror
      cases herror
    · intro hboth
      exact absurd hboth.1 h

/-- Every version has a time. -/
theorem exists_version?_eq_ok (h : c.isVersion = true) : ∃ t, c.version? = .ok t :=
  ⟨_, if_pos h⟩

/-- **Of two versions, the one with fewer bytes is compared by its time as if zeros stood behind
it.** -/
theorem le_iff_time_le (hc : c.version? = .ok s) (hd : d.version? = .ok t)
    (hl : c.length ≤ d.length) :
    c ≤ d ↔ s.ticks.toNat * 256 ^ (d.length - c.length) ≤ t.ticks.toNat := by
  obtain ⟨hc, hs⟩ := version?_eq_ok_iff.1 hc
  obtain ⟨hd, ht⟩ := version?_eq_ok_iff.1 hd
  obtain ⟨a, ha, -⟩ := isVersion_iff.1 hc
  obtain ⟨b, hb, -⟩ := isVersion_iff.1 hd
  -- the markers are the same, so that the digits behind them decide
  have hdigits : c ≤ d ↔ a ≤ b := by
    show c.bytes ≤ d.bytes ↔ _
    rw [ha, hb, List.cons_le_cons_iff]
    rw [or_iff_right (UInt8.lt_irrefl _), and_iff_right rfl]
  rw [length, length, ha, hb, List.length_cons, List.length_cons] at hl ⊢
  rw [hs, ht, ha, hb, hdigits, Nat.add_sub_add_right]
  exact Bytes.le_iff_ofBigEndian_mul_le (Nat.le_of_succ_le_succ hl)

/-- **Versions with as many bytes order as their times.** -/
theorem lt_iff_time_lt (hc : c.version? = .ok s) (hd : d.version? = .ok t)
    (hl : c.length = d.length) : c < d ↔ s < t := by
  have hle := le_iff_time_le hd hc (Nat.le_of_eq hl.symm)
  rw [hl, Nat.sub_self, Nat.pow_zero, Nat.mul_one] at hle
  rw [← Std.not_le, hle, Nat.not_le]
  exact UInt64.lt_iff_toNat_lt.symm

/-- A version with no more bytes that does not come behind another is not later either. -/
theorem time_le_of_le (hc : c.version? = .ok s) (hd : d.version? = .ok t)
    (hl : c.length ≤ d.length) (h : c ≤ d) : s ≤ t := by
  have hscaled := (le_iff_time_le hc hd hl).1 h
  exact UInt64.le_iff_toNat_le.2
    (Nat.le_trans (Nat.le_mul_of_pos_right _ (Nat.pow_pos (by decide))) hscaled)

/-! ## The times written -/

/-- Writing a time keeps its lower 48 bits. -/
theorem version?_versionComponent_mod (t : Timestamp) :
    (versionComponent t).version? = .ok ⟨UInt64.ofNat (t.ticks.toNat % 2 ^ 48)⟩ := by
  rw [version?, if_pos (isVersion_versionComponent t), versionComponent_bytes, List.drop_one,
    List.tail_cons, Bytes.ofBigEndian_bigEndian]
  rfl

/-- Just the times below the limit of versions read back. -/
theorem version?_versionComponent_iff (t : Timestamp) :
    (versionComponent t).version? = .ok t ↔ t.ticks.toNat < 2 ^ 48 := by
  refine ⟨fun h => ?_, version?_versionComponent⟩
  rw [(version?_eq_ok_iff.1 h).2, versionComponent_bytes, List.drop_one, List.tail_cons]
  exact Nat.lt_of_lt_of_le (Bytes.ofBigEndian_lt _) (by rw [Bytes.length_bigEndian]; decide)

/-! ## The greatest version -/

/-- **When the order of versions is that of their times.** Versions with as many bytes order as
their times, and of two that differ in the number of bytes the shorter one is compared as if zeros
stood behind its time. A time that is written keeps its lower 48 bits, so that it reads back just
when it has no others. An object below the greatest version of a name, in any collection of objects,
therefore lies below the latest of all the versions there that have no more bytes. -/
theorem version_byte_order :
    (∀ c d : Component, c.isVersion = true → d.isVersion = true →
        ∃ s t, c.version? = .ok s ∧ d.version? = .ok t
          ∧ (c.length = d.length → (c < d ↔ s < t))
          ∧ (c.length ≤ d.length →
            (c ≤ d ↔ s.ticks.toNat * 256 ^ (d.length - c.length) ≤ t.ticks.toNat)))
      ∧ (∀ t : Timestamp,
        (versionComponent t).version? = .ok ⟨UInt64.ofNat (t.ticks.toNat % 2 ^ 48)⟩
          ∧ ((versionComponent t).version? = .ok t ↔ t.ticks.toNat < 2 ^ 48))
      ∧ ∀ root units o, Stream.Reader.IsNewest root units o →
        ∃ v s, o.LiesBelow root v ∧ v.version? = .ok s
          ∧ ∀ p ∈ units, ∀ w t, p.LiesBelow root w → w.version? = .ok t →
            w.length ≤ v.length → t ≤ s := by
  refine ⟨fun c d hc hd => ?_, fun t => ⟨version?_versionComponent_mod t,
    version?_versionComponent_iff t⟩, fun root units o hnewest => ?_⟩
  · obtain ⟨s, hs⟩ := exists_version?_eq_ok hc
    obtain ⟨t, ht⟩ := exists_version?_eq_ok hd
    exact ⟨s, t, hs, ht, lt_iff_time_lt hs ht, le_iff_time_le hs ht⟩
  · -- a lesser component with no more bytes has a time that is no later
    obtain ⟨v, hbelow, hv, hgreatest⟩ := hnewest.greatest
    obtain ⟨s, hs⟩ := exists_version?_eq_ok hv
    refine ⟨v, s, hbelow, hs, fun p hp w t hw ht hl => ?_⟩
    exact time_le_of_le ht hs hl (hgreatest p hp w hw (version?_eq_ok_iff.1 ht).1)

/-- The greatest of three versions that are written with one and with two bytes is the latest, as
none has more bytes than it. -/
theorem version_byte_order_two_bytes :
    let root : Name := ⟨[⟨[97]⟩]⟩
    let units := [⟨[0xFD, 4]⟩, ⟨[0xFD, 5, 0]⟩, ⟨[0xFD, 4, 0xFF]⟩].map fun c =>
      (⟨root.child c, ⟨default, ⟨0⟩, .data, none, none⟩, [], none⟩ : ContentObject)
    ((⟨[0xFD, 4, 0xFF]⟩ : Component) < ⟨[0xFD, 5, 0]⟩ ↔ (⟨0x4FF⟩ : Timestamp) < ⟨0x500⟩)
      ∧ (versionComponent ⟨0x500⟩).version? = .ok ⟨0x500⟩
      ∧ ∀ p ∈ units, ∀ w t, p.LiesBelow root w → w.version? = .ok t → t ≤ ⟨0x500⟩ := by
  intro root units
  obtain ⟨horder, hwritten, hlatest⟩ := version_byte_order
  obtain ⟨s, t, hs, ht, hlt, -⟩ := horder ⟨[0xFD, 4, 0xFF]⟩ ⟨[0xFD, 5, 0]⟩ rfl rfl
  obtain rfl : (⟨0x4FF⟩ : Timestamp) = s := Except.ok.inj hs
  obtain rfl : (⟨0x500⟩ : Timestamp) = t := Except.ok.inj ht
  have hchild : ∀ p ∈ units, ∀ w, p.LiesBelow root w → w ≤ ⟨[0xFD, 5, 0]⟩ ∧ w.length ≤ 3 := by
    intro p hp w hw
    simp only [units, List.map_cons, List.map_nil, List.mem_cons, List.not_mem_nil, or_false] at hp
    rcases hp with rfl | rfl | rfl <;> cases hw.child <;> decide
  have hnewest : Stream.Reader.IsNewest root units
      ⟨root.child ⟨[0xFD, 5, 0]⟩, ⟨default, ⟨0⟩, .data, none, none⟩, [], none⟩ :=
    ⟨by simp [units], ⟨[0xFD, 5, 0]⟩, ⟨rfl, rfl⟩, rfl, fun p hp w hw _ => (hchild p hp w hw).1⟩
  obtain ⟨v, s, hbelow, hv, hrest⟩ := hlatest root units _ hnewest
  cases hbelow.child
  obtain rfl : (⟨0x500⟩ : Timestamp) = s := Except.ok.inj hv
  exact ⟨hlt rfl, (hwritten _).2.2 (by decide),
    fun p hp w t hw ht => hrest p hp w t hw ht (hchild p hp w hw).2⟩

/-- A version of one byte comes behind one of two bytes whose time is later, and is the greatest
below its name though not the latest; the first time beyond the limit of versions is written as the
epoch. -/
theorem narrow_version_comes_last :
    let narrow : Component := ⟨[0xFD, 2]⟩
    let wide : Component := ⟨[0xFD, 1, 0]⟩
    let root : Name := ⟨[⟨[97]⟩]⟩
    let unit := fun c =>
      (⟨root.child c, ⟨default, ⟨0⟩, .data, none, none⟩, [], none⟩ : ContentObject)
    (narrow.isVersion = true ∧ wide.isVersion = true)
      ∧ (narrow.version? = .ok ⟨2⟩ ∧ wide.version? = .ok ⟨256⟩ ∧ (⟨2⟩ : Timestamp) < ⟨256⟩)
      ∧ ¬ narrow < wide ∧ wide < narrow
      ∧ Stream.Reader.IsNewest root [unit narrow, unit wide] (unit narrow)
      ∧ (versionComponent ⟨0x1000000000000⟩).version? = .ok ⟨0⟩ := by
  intro narrow wide root unit
  have hnewest : Stream.Reader.IsNewest root [unit narrow, unit wide] (unit narrow) := by
    refine ⟨List.mem_cons_self, narrow, ⟨rfl, rfl⟩, rfl, fun p hp w hw _ => ?_⟩
    simp only [List.mem_cons, List.not_mem_nil, or_false] at hp
    rcases hp with rfl | rfl <;> cases hw.child <;> decide
  exact ⟨⟨rfl, rfl⟩, ⟨rfl, rfl, by decide⟩, by decide, by decide, hnewest, rfl⟩

end Component

end NamedContent
