/-! # Ordered sets

A finite set as the strictly increasing list of its elements.

* `OrderedSet`: the type, with `OrderedSet.insert`, `OrderedSet.erase` and `OrderedSet.contains`
* `OrderedSet.mem_insert`, `OrderedSet.mem_erase`: membership after an operation
* `OrderedSet.ofList_toList`: a set from its elements
-/

namespace NamedContent

/-- A finite set of elements of an ordered type. -/
structure OrderedSet (α : Type) [LT α] where
  /-- The elements in increasing order. -/
  toList : List α
  /-- Each element is less than all after it. -/
  increasing : toList.Pairwise (· < ·)
  deriving DecidableEq

namespace OrderedSet

variable {α : Type} [LT α]

/-- The set without elements. -/
def empty : OrderedSet α := ⟨[], List.Pairwise.nil⟩

instance : Inhabited (OrderedSet α) := ⟨empty⟩

instance : Membership α (OrderedSet α) := ⟨fun s a => a ∈ s.toList⟩

/-- Sets with the same elements in order are the same. -/
theorem toList_inj {s t : OrderedSet α} : s.toList = t.toList ↔ s = t := by
  cases s
  cases t
  simp

/-- The elements of a set are those of its list. -/
theorem mem_toList {s : OrderedSet α} {a : α} : a ∈ s.toList ↔ a ∈ s := Iff.rfl

/-- Whether the set has no element. -/
def isEmpty (s : OrderedSet α) : Bool := s.toList.isEmpty

/-- The number of elements. -/
def size (s : OrderedSet α) : Nat := s.toList.length

/-- Whether an element belongs to the set. -/
def contains [DecidableEq α] (s : OrderedSet α) (a : α) : Bool := decide (a ∈ s.toList)

/-- The set without an element. -/
def erase [DecidableEq α] (s : OrderedSet α) (a : α) : OrderedSet α :=
  ⟨s.toList.filter (· ≠ a), s.increasing.sublist List.filter_sublist⟩

section Insert

variable [DecidableLT α]

/-- The increasing list with an element put in its place. -/
def place (a : α) : List α → List α
  | [] => [a]
  | b :: rest => if a < b then a :: b :: rest else if b < a then b :: place a rest else b :: rest

/-- Nothing but the new element comes into a list. -/
theorem mem_of_mem_place {a c : α} {xs : List α} (h : c ∈ place a xs) : c = a ∨ c ∈ xs := by
  induction xs with
  | nil => simpa [place] using h
  | cons b rest ih =>
    simp only [place] at h
    split at h
    · simpa using h
    · split at h
      · rcases List.mem_cons.1 h with rfl | h
        · simp
        · rcases ih h with rfl | h <;> simp_all
      · exact .inr h

/-- The new element comes into the list, and all others stay. -/
theorem mem_place [Std.Trichotomous (fun a b : α => a < b)] {a c : α} {xs : List α} :
    c ∈ place a xs ↔ c = a ∨ c ∈ xs := by
  refine ⟨mem_of_mem_place, fun h => ?_⟩
  induction xs with
  | nil => simpa [place] using h
  | cons b rest ih =>
    simp only [place]
    split
    · simpa using h
    · rename_i hab
      split
      · simp only [List.mem_cons] at h ⊢
        rcases h with h | h | h
        · exact .inr (ih (.inl h))
        · exact .inl h
        · exact .inr (ih (.inr h))
      · rename_i hba
        -- neither before nor behind the first element: it is the same
        have : a = b := Std.Trichotomous.trichotomous a b hab hba
        simp only [List.mem_cons] at h ⊢
        rcases h with h | h | h
        · exact .inl (h.trans this)
        · exact .inl h
        · exact .inr h

/-- A list becomes longer by one element at most. -/
theorem length_place_le (a : α) (xs : List α) : (place a xs).length ≤ xs.length + 1 := by
  induction xs with
  | nil => exact Nat.le_refl _
  | cons b rest ih =>
    rw [place]
    split
    · exact Nat.le_refl _
    · split
      · exact Nat.succ_le_succ ih
      · exact Nat.le_succ _

/-- An element greater than all others is placed behind them. -/
theorem place_of_lt [Std.Asymm (fun a b : α => a < b)] {a : α} {xs : List α}
    (h : ∀ b ∈ xs, b < a) : place a xs = xs ++ [a] := by
  induction xs with
  | nil => rfl
  | cons b rest ih =>
    have hba : b < a := h b (by simp)
    have hab : ¬a < b := fun hab => Std.Asymm.asymm a b hab hba
    rw [place, if_neg hab, if_pos hba, ih fun c hc => h c (by simp [hc]), List.cons_append]

variable [Trans (fun a b : α => a < b) (fun a b : α => a < b) (fun a b : α => a < b)]

/-- A list stays in increasing order. -/
theorem pairwise_place (a : α) {xs : List α} (h : xs.Pairwise (· < ·)) :
    (place a xs).Pairwise (· < ·) := by
  induction xs with
  | nil => simp [place]
  | cons b rest ih =>
    have hb := List.pairwise_cons.1 h
    simp only [place]
    split
    · rename_i hab
      -- the new element comes first, before all that follow
      refine List.pairwise_cons.2 ⟨fun c hc => ?_, h⟩
      rcases List.mem_cons.1 hc with rfl | hc
      · exact hab
      · exact Std.lt_trans hab (hb.1 c hc)
    · split
      · rename_i hba
        -- the first element stays in front of the new one and of the others
        refine List.pairwise_cons.2 ⟨fun c hc => ?_, ih hb.2⟩
        rcases mem_of_mem_place hc with rfl | hc
        · exact hba
        · exact hb.1 c hc
      · exact h

/-- The set with an element added. -/
def insert (s : OrderedSet α) (a : α) : OrderedSet α :=
  ⟨place a s.toList, pairwise_place a s.increasing⟩

/-- The set of the elements of a list. -/
def ofList (xs : List α) : OrderedSet α := xs.foldl insert empty

/-- An element is in the set that it is added to, with all that were. -/
@[simp] theorem mem_insert [Std.Trichotomous (fun a b : α => a < b)] {s : OrderedSet α} {a c : α} :
    c ∈ s.insert a ↔ c = a ∨ c ∈ s :=
  mem_place

/-- The set of the elements of a list has no others, and no more of them. -/
theorem ofList_subset (xs : List α) :
    (ofList xs).toList.length ≤ xs.length ∧ ∀ c ∈ (ofList xs).toList, c ∈ xs := by
  -- what is true of elements that are added to any set
  have hfold : ∀ (xs : List α) (t : OrderedSet α),
      (xs.foldl insert t).toList.length ≤ t.toList.length + xs.length
        ∧ ∀ c ∈ (xs.foldl insert t).toList, c ∈ t.toList ∨ c ∈ xs := by
    intro xs
    induction xs with
    | nil => exact fun t => ⟨Nat.le_refl _, fun c hc => .inl hc⟩
    | cons a rest ih =>
      intro t
      obtain ⟨hlength, hmem⟩ := ih (t.insert a)
      have hplace : (t.insert a).toList.length ≤ t.toList.length + 1 := length_place_le a t.toList
      refine ⟨?_, fun c hc => ?_⟩
      · rw [List.foldl_cons, List.length_cons]
        omega
      · obtain hc | hc := hmem c hc
        · obtain rfl | hc := mem_of_mem_place hc
          · exact .inr (by simp)
          · exact .inl hc
        · exact .inr (by simp [hc])
  obtain ⟨hlength, hmem⟩ := hfold xs empty
  refine ⟨by simpa [ofList, empty] using hlength, fun c hc => ?_⟩
  exact (hmem c hc).resolve_left (by simp [empty])

/-- **The set of an increasing list** has it as its elements. -/
theorem ofList_toList [Std.Asymm (fun a b : α => a < b)] (s : OrderedSet α) :
    ofList s.toList = s := by
  have hfold : ∀ (xs : List α) (t : OrderedSet α), (t.toList ++ xs).Pairwise (· < ·) →
      (xs.foldl insert t).toList = t.toList ++ xs := by
    intro xs
    induction xs with
    | nil => simp
    | cons a rest ih =>
      intro t ht
      have hlast : (t.insert a).toList = t.toList ++ [a] :=
        place_of_lt fun b hb => (List.pairwise_append.1 ht).2.2 b hb a (by simp)
      have hrest := ih (t.insert a) (by rw [hlast]; simpa using ht)
      rw [List.foldl_cons, hrest, hlast, List.append_assoc, List.singleton_append]
  exact toList_inj.1 (hfold s.toList empty s.increasing)

end Insert

/-- All but one element are left when it is taken away. -/
@[simp] theorem mem_erase [DecidableEq α] {s : OrderedSet α} {a c : α} :
    c ∈ s.erase a ↔ c ∈ s ∧ c ≠ a := by
  simp [← mem_toList, erase]

/-- The test for an element says whether it is in the set. -/
@[simp] theorem contains_iff [DecidableEq α] {s : OrderedSet α} {a : α} :
    s.contains a = true ↔ a ∈ s := by
  simp [← mem_toList, contains]

end OrderedSet

end NamedContent
