import NamedContent.Interest.Basic

/-! # What a selection finds

Among some candidates an interest selects one that answers it, and selects none only when no
candidate does, whichever end of the order it prefers; no other is nearer to that end. An exact
interest is answered by the objects of its name and by no others.

* `Interest.nearest`: comparing candidates one by one, whichever end is preferred
* `Interest.selectOn_eq_none`, `Interest.mem_of_selectOn`, `Interest.prefers_of_selectOn`: selecting
  among candidates
* `Interest.Answers`: an answer that is right for some published objects
* `Interest.accepts_exact`: exact interests -/

namespace NamedContent

namespace Interest

/-! ## Selecting -/

section Nearest

variable {α : Type} {keeps : α → α → Bool} {xs : List α} {x : α}

/-- The candidate that is left when, from the last one on, each is compared with the one before. -/
def nearest (keeps : α → α → Bool) : List α → Option α
  | [] => none
  | c :: rest =>
    match nearest keeps rest with
    | none => some c
    | some best => if keeps best c then some best else some c

/-- The first of some candidates is left, or the one that is left of the others. -/
theorem nearest_cons_cases (keeps : α → α → Bool) (c : α) (rest : List α) :
    rest = [] ∧ nearest keeps (c :: rest) = some c
      ∨ ∃ best, nearest keeps rest = some best
        ∧ (keeps best c = true ∧ nearest keeps (c :: rest) = some best
          ∨ keeps best c = false ∧ nearest keeps (c :: rest) = some c) := by
  rw [nearest]
  cases hrest : nearest keeps rest with
  | none =>
    cases rest with
    | nil => exact .inl ⟨rfl, rfl⟩
    | cons d rest =>
      rw [nearest] at hrest
      split at hrest
      · cases hrest
      · split at hrest <;> cases hrest
  | some best =>
    refine .inr ⟨best, rfl, ?_⟩
    cases hkeeps : keeps best c with
    | true => exact .inl ⟨rfl, if_pos hkeeps⟩
    | false => exact .inr ⟨rfl, by simp [hkeeps]⟩

/-- There is a nearest element unless there is none at all. -/
theorem nearest_eq_none : nearest keeps xs = none ↔ xs = [] := by
  cases xs with
  | nil => simp [nearest]
  | cons c rest =>
    obtain ⟨-, h⟩ | ⟨best, -, ⟨-, h⟩ | ⟨-, h⟩⟩ := nearest_cons_cases keeps c rest <;> simp [h]

/-- The nearest element is one of the list. -/
theorem mem_of_nearest (h : nearest keeps xs = some x) : x ∈ xs := by
  induction xs with
  | nil => cases h
  | cons c rest ih =>
    obtain ⟨-, hc⟩ | ⟨best, hbest, ⟨-, hc⟩ | ⟨-, hc⟩⟩ := nearest_cons_cases keeps c rest <;>
      obtain rfl := Option.some.inj (hc.symm.trans h)
    · exact List.mem_cons_self
    · exact List.mem_cons_of_mem c (ih hbest)
    · exact List.mem_cons_self

/-- **The candidate that is left comes before all others** in an order by which each comparison
goes. -/
theorem nearest_before {R : α → α → Prop} (hrefl : ∀ a, R a a)
    (htrans : ∀ {a b c}, R a b → R b c → R a c) (hkeeps : ∀ {a b}, keeps a b = true → R a b)
    (hdrops : ∀ {a b}, keeps a b = false → R b a) {y : α} (h : nearest keeps xs = some x)
    (hy : y ∈ xs) : R x y := by
  induction xs generalizing x with
  | nil => cases hy
  | cons c rest ih =>
    obtain ⟨rfl, hc⟩ | ⟨best, hbest, ⟨hkept, hc⟩ | ⟨hdropped, hc⟩⟩ :=
      nearest_cons_cases keeps c rest <;> obtain rfl := Option.some.inj (hc.symm.trans h)
    · rw [List.mem_singleton.1 hy]
      exact hrefl _
    · rcases List.mem_cons.1 hy with rfl | hy
      · exact hkeeps hkept
      · exact ih hbest hy
    · rcases List.mem_cons.1 hy with rfl | hy
      · exact hrefl _
      · exact htrans (hdrops hdropped) (ih hbest hy)

/-- The nearest of the images is the image of the nearest. -/
theorem nearest_map {β : Type} (g : β → α) (xs : List β) :
    nearest keeps (xs.map g) = (nearest (fun a b => keeps (g a) (g b)) xs).map g := by
  induction xs with
  | nil => rfl
  | cons c rest ih =>
    rw [List.map_cons, nearest, nearest, ih]
    cases nearest (fun a b => keeps (g a) (g b)) rest with
    | none => rfl
    | some best =>
      simp only [Option.map_some]
      split <;> rfl

/-- The leftmost element gives way to those with smaller names only. -/
theorem leftmost_eq (name : α → Name) (xs : List α) :
    leftmost name xs = nearest (fun best c => decide (name best < name c)) xs := by
  induction xs with
  | nil => rfl
  | cons c rest ih =>
    rw [leftmost, nearest, ih]
    cases nearest (fun best c => decide (name best < name c)) rest <;> simp

/-- The rightmost element gives way to all that do not have a smaller name. -/
theorem rightmost_eq (name : α → Name) (xs : List α) :
    rightmost name xs = nearest (fun best c => !decide (name best < name c)) xs := by
  induction xs with
  | nil => rfl
  | cons c rest ih =>
    rw [rightmost, nearest, ih]
    cases nearest (fun best c => !decide (name best < name c)) rest <;> simp

end Nearest

section Select

variable {α : Type} {object : α → ContentObject} {i : Interest} {xs : List α}

/-- Whether an interest keeps an object in place of one that stands before it. -/
def keeps (i : Interest) (best o : ContentObject) : Bool :=
  match i.selector with
  | .leftmost => decide (best.name < o.name)
  | .rightmost => !decide (best.name < o.name)

/-- Whichever end an interest prefers, it compares the candidates that answer it one by one. -/
theorem selectOn_eq (i : Interest) (object : α → ContentObject) (xs : List α) :
    i.selectOn object xs = nearest (fun best c => i.keeps (object best) (object c))
      (xs.filter fun c => i.accepts (object c)) := by
  simp only [selectOn, keeps]
  cases i.selector with
  | leftmost => exact leftmost_eq _ _
  | rightmost => exact rightmost_eq _ _

/-- What is selected is a candidate that answers the interest. -/
theorem mem_of_selectOn {x : α} (h : i.selectOn object xs = some x) :
    x ∈ xs ∧ i.accepts (object x) = true := by
  rw [selectOn_eq] at h
  exact List.mem_filter.1 (mem_of_nearest h)

/-- Nothing is selected exactly when no candidate answers the interest. -/
theorem selectOn_eq_none :
    i.selectOn object xs = none ↔ ∀ x ∈ xs, i.accepts (object x) = false := by
  rw [selectOn_eq, nearest_eq_none, List.filter_eq_nil_iff]
  simp only [Bool.not_eq_true]

/-- Whether an object comes no later than another, from the end that an interest prefers. -/
def Prefers (i : Interest) (o o' : ContentObject) : Prop :=
  match i.selector with
  | .leftmost => o.name ≤ o'.name
  | .rightmost => o'.name ≤ o.name

/-- An object is as good as itself. -/
theorem Prefers.refl (i : Interest) (o : ContentObject) : i.Prefers o o := by
  rw [Prefers]
  split <;> exact Std.le_refl _

/-- What is preferred to an object is preferred to what that is preferred to. -/
theorem Prefers.trans {a b c : ContentObject} (h : i.Prefers a b) (h' : i.Prefers b c) :
    i.Prefers a c := by
  rw [Prefers] at h h' ⊢
  cases hsel : i.selector <;> rw [hsel] at h h'
  · exact Std.le_trans h h'
  · exact Std.le_trans h' h

/-- An object that is kept is preferred. -/
theorem prefers_of_keeps {best o : ContentObject} (h : i.keeps best o = true) :
    i.Prefers best o := by
  rw [keeps] at h
  rw [Prefers]
  cases hsel : i.selector <;> rw [hsel] at h
  · exact Std.le_of_lt (of_decide_eq_true h)
  · exact Std.not_lt.1 (by simpa using h)

/-- An object that is not kept gives way to one that is preferred. -/
theorem prefers_of_not_keeps {best o : ContentObject} (h : i.keeps best o = false) :
    i.Prefers o best := by
  rw [keeps] at h
  rw [Prefers]
  cases hsel : i.selector <;> rw [hsel] at h
  · exact Std.not_lt.1 (of_decide_eq_false h)
  · exact Std.le_of_lt (by simpa using h)

/-- **What is selected is preferred** to every candidate that answers the interest. -/
theorem prefers_of_selectOn {x y : α} (h : i.selectOn object xs = some x) (hy : y ∈ xs)
    (haccepts : i.accepts (object y) = true) : i.Prefers (object x) (object y) := by
  rw [selectOn_eq] at h
  exact nearest_before (R := fun a b => i.Prefers (object a) (object b))
    (fun a => .refl i _)
    .trans prefers_of_keeps prefers_of_not_keeps h (List.mem_filter.2 ⟨hy, haccepts⟩)

/-- Selecting among objects is selecting among what holds them. -/
theorem select_map (i : Interest) (object : α → ContentObject) (xs : List α) :
    i.select (xs.map object) = (i.selectOn object xs).map object := by
  have hmatching : (xs.map object).filter (fun o => i.accepts (id o))
      = (xs.filter fun c => i.accepts (object c)).map object := by
    rw [List.filter_map]
    rfl
  rw [select, selectOn_eq, selectOn_eq, hmatching, nearest_map]
  rfl

end Select

/-! ## Right answers -/

/-- Whether an answer is right when some objects are published: one of them that answers the
interest, or nothing if none does. -/
def Answers (i : Interest) (units : List ContentObject) : Option ContentObject → Prop
  | some o => o ∈ units ∧ i.accepts o = true
  | none => ∀ o ∈ units, i.accepts o = false

/-- **A selection among the published objects is a right answer.** -/
theorem answers_select (i : Interest) (units : List ContentObject) :
    i.Answers units (i.select units) := by
  cases h : i.select units with
  | none => exact selectOn_eq_none.1 h
  | some o => exact mem_of_selectOn h

/-! ## Exact interests -/

/-- **An exact interest is answered by the objects of its name.** -/
theorem accepts_exact {n : Name} {o : ContentObject} :
    (exact n).accepts o = true ↔ o.name = n := by
  simp only [accepts, matchesName, exact, below, Exclude.none, Option.all_none, Bool.true_and,
    Option.all_some, Bool.and_true, Bool.and_eq_true]
  constructor
  · rintro ⟨⟨hbelow, hlen⟩, -⟩
    obtain ⟨cs, hcs⟩ := (Name.isPrefixOf_iff n o.name).1 hbelow
    -- an exact interest allows no components behind its name
    have hzero : cs.length = 0 := by
      rw [hcs] at hlen
      simpa [Name.length, Name.append] using hlen
    rw [hcs, List.length_eq_zero_iff.1 hzero, Name.append, List.append_nil]
  · rintro rfl
    simp [Name.component?, Name.length]

/-- Where names tell objects apart, an exact interest has one right answer. -/
theorem Answers.eq_of_exact {units : List ContentObject} {o : ContentObject} (ho : o ∈ units)
    (hinj : ∀ p ∈ units, p.name = o.name → p = o) {found : Option ContentObject}
    (h : (exact o.name).Answers units found) : found = some o := by
  cases found with
  | none =>
    have hno : (exact o.name).accepts o = false := h o ho
    rw [accepts_exact.2 rfl] at hno
    exact absurd hno (by simp)
  | some p => rw [hinj p h.1 (accepts_exact.1 h.2)]

end Interest

end NamedContent
