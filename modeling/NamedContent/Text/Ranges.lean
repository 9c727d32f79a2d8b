/-! # Classes of characters

A class of characters is a list of closed ranges of code points. The ranges of a table ascend and
lie apart, so that a search stops at the first one beyond the code point.

* `Ranges`, `Ranges.contains`: a class and its test
* `Ranges.Ascending`, `Ranges.contains_iff`: in a table in order the search misses nothing
-/

namespace NamedContent.Text

/-- Closed ranges of code points, each with its first and its last. -/
abbrev Ranges := List (Nat × Nat)

/-- Whether one of the ranges holds a code point, when they ascend. -/
def Ranges.contains : Ranges → Nat → Bool
  | [], _ => false
  | (first, last) :: rest, n =>
    if n < first then false else if n ≤ last then true else contains rest n

/-- The ranges ascend from a bound on, and none touches the next. -/
def Ranges.Ascending : Nat → Ranges → Prop
  | _, [] => True
  | low, (first, last) :: rest => low ≤ first ∧ first ≤ last ∧ Ascending (last + 2) rest

instance Ranges.decidableAscending : (low : Nat) → (rs : Ranges) → Decidable (Ascending low rs)
  | _, [] => inferInstanceAs (Decidable True)
  | low, (first, last) :: rest =>
    have := decidableAscending (last + 2) rest
    inferInstanceAs (Decidable (low ≤ first ∧ first ≤ last ∧ Ascending (last + 2) rest))

/-- Every range of a table starts at the bound or beyond it. -/
theorem Ranges.low_le_of_mem {low : Nat} {rs : Ranges} (h : Ascending low rs) {r : Nat × Nat}
    (hr : r ∈ rs) : low ≤ r.1 := by
  induction rs generalizing low with
  | nil => simp at hr
  | cons s rest ih =>
    obtain ⟨h1, h2, h3⟩ := h
    rcases List.mem_cons.1 hr with rfl | hr
    · exact h1
    · have := ih h3 hr
      omega

/-- In a table in order the search finds every code point of a range. -/
theorem Ranges.contains_iff {low : Nat} {rs : Ranges} (h : Ascending low rs) (n : Nat) :
    rs.contains n = true ↔ ∃ r ∈ rs, r.1 ≤ n ∧ n ≤ r.2 := by
  induction rs generalizing low with
  | nil => simp [contains]
  | cons s rest ih =>
    obtain ⟨first, last⟩ := s
    obtain ⟨h1, h2, h3⟩ := h
    simp only [contains]
    split
    · constructor
      · simp
      · rintro ⟨r, hr, h4, h5⟩
        rcases List.mem_cons.1 hr with rfl | hr
        · simp only at h4
          omega
        · have := low_le_of_mem h3 hr
          omega
    · split
      · simp only [List.mem_cons, true_iff]
        exact ⟨(first, last), .inl rfl, by simp only; omega, by simp only; omega⟩
      · -- behind the first range it is for the rest of the table to say
        rw [ih h3]
        constructor
        · rintro ⟨r, hr, h4⟩
          exact ⟨r, List.mem_cons_of_mem _ hr, h4⟩
        · rintro ⟨r, hr, h4, h5⟩
          rcases List.mem_cons.1 hr with rfl | hr
          · simp only at h5
            omega
          · exact ⟨r, hr, h4, h5⟩

end NamedContent.Text
