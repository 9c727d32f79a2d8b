/-! # Tables

A table holds values under keys, each key at most once when it is built by insertion.

* `Table`: the type, read with `List.lookup`
* `Table.insert`, `Table.erase`: changes, with what a look-up finds after them
* `Table.nodup_insert`, `Table.nodup_erase`: no key comes twice
-/

namespace NamedContent

/-- Values under keys. -/
abbrev Table (κ α : Type) := List (κ × α)

namespace Table

variable {κ α : Type} [DecidableEq κ]

/-- The table without a key. -/
def erase (t : Table κ α) (key : κ) : Table κ α := t.filter fun p => p.1 ≠ key

/-- The table with a value under a key, in place of the one that was there. -/
def insert (t : Table κ α) (key : κ) (a : α) : Table κ α := (key, a) :: t.erase key

/-- Nothing is taken out of an empty table. -/
@[simp] theorem erase_nil (key : κ) : erase ([] : Table κ α) key = [] := rfl

/-- The first value is taken out if it is under the key. -/
theorem erase_cons (k : κ) (a : α) (t : Table κ α) (key : κ) :
    erase ((k, a) :: t) key = if k = key then t.erase key else (k, a) :: t.erase key := by
  by_cases h : k = key <;> simp [erase, h]

/-- Nothing is found under a key that was taken out. -/
@[simp] theorem lookup_erase_self (t : Table κ α) (key : κ) : (t.erase key).lookup key = none := by
  induction t with
  | nil => rfl
  | cons p rest ih =>
    obtain ⟨k, a⟩ := p
    rw [erase_cons]
    split
    · exact ih
    · next h => simp [List.lookup_cons, ih, show (key == k) = false by simp [Ne.symm h]]

/-- What is found under another key is as before. -/
theorem lookup_erase_of_ne (t : Table κ α) {key other : κ} (h : other ≠ key) :
    (t.erase key).lookup other = t.lookup other := by
  induction t with
  | nil => rfl
  | cons p rest ih =>
    obtain ⟨k, a⟩ := p
    rw [erase_cons]
    split
    · next hk =>
      simp [List.lookup_cons, ih, show (other == k) = false by simp [hk, h]]
    · simp [List.lookup_cons, ih]

/-- What was put under a key is found under it. -/
@[simp] theorem lookup_insert_self (t : Table κ α) (key : κ) (a : α) :
    (t.insert key a).lookup key = some a := by
  simp [insert]

/-- What is found under another key is as before. -/
theorem lookup_insert_of_ne (t : Table κ α) {key other : κ} (h : other ≠ key) (a : α) :
    (t.insert key a).lookup other = t.lookup other := by
  simp [insert, List.lookup_cons, lookup_erase_of_ne t h, show (other == key) = false by simp [h]]

/-- Keys stay different when one is taken out. -/
theorem nodup_erase {t : Table κ α} (h : (t.map (·.1)).Nodup) (key : κ) :
    ((t.erase key).map (·.1)).Nodup :=
  h.sublist (List.filter_sublist.map _)

/-- Keys stay different when a value is put under one. -/
theorem nodup_insert {t : Table κ α} (h : (t.map (·.1)).Nodup) (key : κ) (a : α) :
    ((t.insert key a).map (·.1)).Nodup := by
  rw [insert, List.map_cons, List.nodup_cons]
  refine ⟨fun hmem => ?_, nodup_erase h key⟩
  obtain ⟨p, hp, hkey⟩ := List.mem_map.1 hmem
  exact of_decide_eq_true (List.mem_filter.1 hp).2 hkey

end Table

end NamedContent
