import NamedContent.Name.Component

/-! # Hierarchical names

A name is a sequence of components. Names are ordered component by component, with a name
before its extensions.

* `Name`: the type; `Name.child`, `Name.append`, `Name.take` and `Name.parent` build names
* `Name.isPrefixOf`: whether one name leads another
* `Name.compare`, `Name.sorted`: the three-way order, and lists in order
-/

namespace NamedContent

/-- A hierarchical name. -/
structure Name where
  /-- The components, from the root down. -/
  components : List Component
  deriving DecidableEq, Inhabited, Repr

namespace Name

/-- The empty name. -/
def root : Name := ⟨[]⟩

instance : LT Name := ⟨fun a b => a.components < b.components⟩

instance : LE Name := ⟨fun a b => a.components ≤ b.components⟩

instance : DecidableLT Name := fun a b => inferInstanceAs (Decidable (a.components < b.components))

instance : DecidableLE Name := fun a b => inferInstanceAs (Decidable (a.components ≤ b.components))

instance : Std.IsLinearOrder Name where
  le_refl a := List.le_refl a.components
  le_trans _ _ _ := List.le_trans
  le_antisymm a b hab hba := by
    cases a; cases b; exact congrArg Name.mk (Std.le_antisymm hab hba)
  le_total a b := List.le_total a.components b.components

instance : Std.LawfulOrderLT Name where
  lt_iff a b := Std.LawfulOrderLT.lt_iff a.components b.components

instance : Trans (fun a b : Name => a < b) (fun a b : Name => a < b) (fun a b : Name => a < b) :=
  ⟨Std.lt_trans⟩

/-- The number of components. -/
def length (n : Name) : Nat := n.components.length

/-- Whether the name has no component. -/
def isEmpty (n : Name) : Bool := n.components.isEmpty

/-- The component at a position. -/
def component? (n : Name) (index : Nat) : Option Component := n.components[index]?

/-- The last component. -/
def last? (n : Name) : Option Component := n.components.getLast?

/-- The name with one component added at the end. -/
def child (n : Name) (c : Component) : Name := ⟨n.components ++ [c]⟩

/-- The name with components added at the end. -/
def append (n : Name) (cs : List Component) : Name := ⟨n.components ++ cs⟩

/-- The first `count` components, or the whole name when it has no more. -/
def take (n : Name) (count : Nat) : Name := ⟨n.components.take count⟩

/-- The name without its last component; the root is its own parent. -/
def parent (n : Name) : Name := ⟨n.components.dropLast⟩

/-- Whether the components of the first name lead those of the second. -/
def isPrefixOf (a b : Name) : Bool := a.components.isPrefixOf b.components

/-- The three-way order of names. -/
def compare (a b : Name) : Ordering :=
  if a < b then .lt else if a = b then .eq else .gt

/-- The names in increasing order. -/
def sorted (names : List Name) : List Name := names.mergeSort fun a b => decide (a ≤ b)

/-- A child has one component more. -/
@[simp] theorem components_child (n : Name) (c : Component) :
    (n.child c).components = n.components ++ [c] := rfl

/-- The last component of a child is the one it was made with. -/
@[simp] theorem last?_child (n : Name) (c : Component) : (n.child c).last? = some c := by
  simp [last?, child]

/-- The parent of a child is the name it was made from. -/
@[simp] theorem parent_child (n : Name) (c : Component) : (n.child c).parent = n := by
  simp [parent, child]

/-- A child is longer by one. -/
@[simp] theorem length_child (n : Name) (c : Component) :
    (n.child c).length = n.length + 1 := by
  simp [length, child]

/-- A name with a component added is not the root. -/
theorem child_ne_root (n : Name) (c : Component) : n.child c ≠ root := by
  intro h
  have hlength := congrArg length h
  rw [length_child] at hlength
  exact Nat.succ_ne_zero _ hlength

/-- A name is a prefix of those that it becomes by more components. -/
theorem isPrefixOf_iff (a b : Name) :
    a.isPrefixOf b = true ↔ ∃ cs, b = a.append cs := by
  rw [isPrefixOf, List.isPrefixOf_iff_prefix]
  constructor
  · rintro ⟨cs, h⟩
    exact ⟨cs, by cases b; simp_all [append]⟩
  · rintro ⟨cs, rfl⟩
    exact ⟨cs, rfl⟩

/-- Every name is a prefix of itself. -/
@[simp] theorem isPrefixOf_refl (n : Name) : n.isPrefixOf n = true :=
  (isPrefixOf_iff n n).2 ⟨[], by simp [append]⟩

end Name

end NamedContent
