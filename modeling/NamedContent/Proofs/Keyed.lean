import Mathlib.Data.List.Nodup
import Mathlib.Data.List.Perm.Basic

/-! # Lists in which keys differ

Where no two elements of a list have the same key, an element is found by its key, and the others
are those with other keys. Removing an element may change the order of the others.

* `find?_key`, `perm_filter_key`: an element and its key
* `filter_key_not_mem_take`: leaving out the first keys
* `swapRemove`: removing an element by moving the last one into its place -/

namespace NamedContent

variable {α κ : Type} [DecidableEq κ] {key : α → κ} {l : List α} {a : α}

/-- An element is found by its key. -/
theorem find?_key (hdistinct : (l.map key).Nodup) (ha : a ∈ l) :
    l.find? (key · = key a) = some a := by
  obtain ⟨b, hb⟩ : ∃ b, l.find? (key · = key a) = some b :=
    Option.isSome_iff_exists.1 (List.find?_isSome.2 ⟨a, ha, by simp⟩)
  have hkey : key b = key a := by simpa using List.find?_some hb
  rw [hb, List.inj_on_of_nodup_map hdistinct (List.mem_of_find?_eq_some hb) ha hkey]

/-- A list in which keys differ is one element and those with other keys. -/
theorem perm_filter_key (hdistinct : (l.map key).Nodup) (ha : a ∈ l) :
    l.Perm (a :: l.filter (key · ≠ key a)) := by
  obtain ⟨front, back, rfl⟩ := List.append_of_mem ha
  rw [List.map_append, List.map_cons, List.nodup_middle, List.nodup_cons,
    List.mem_append] at hdistinct
  have hother : ∀ b ∈ front ++ back, key b ≠ key a := by
    intro b hb heq
    refine hdistinct.1 ?_
    rw [← heq, ← List.mem_append, ← List.map_append]
    exact List.mem_map_of_mem hb
  have hrest : (front ++ a :: back).filter (key · ≠ key a) = front ++ back := by
    rw [List.filter_append, List.filter_cons_of_neg (by simp), ← List.filter_append]
    exact List.filter_eq_self.2 fun b hb => by simpa using hother b hb
  rw [hrest]
  exact List.perm_middle

/-- Leaving out the elements with the first keys leaves out the first elements. -/
theorem filter_key_not_mem_take (hdistinct : (l.map key).Nodup) (n : Nat) :
    l.filter (fun a => !((l.map key).take n).contains (key a)) = l.drop n := by
  have hfront : ∀ a ∈ l.take n, key a ∈ (l.map key).take n := by
    intro a ha
    rw [← List.map_take]
    exact List.mem_map_of_mem ha
  -- as the keys are different, those behind are not among the first
  have hback : ∀ a ∈ l.drop n, key a ∉ (l.map key).take n := by
    intro a ha hmem
    rw [← List.take_append_drop n (l.map key)] at hdistinct
    refine (List.nodup_append.1 hdistinct).2.2 (key a) hmem (key a) ?_ rfl
    rw [← List.map_drop]
    exact List.mem_map_of_mem ha
  calc l.filter (fun a => !((l.map key).take n).contains (key a))
      = (l.take n).filter (fun a => !((l.map key).take n).contains (key a))
          ++ (l.drop n).filter (fun a => !((l.map key).take n).contains (key a)) := by
        rw [← List.filter_append, List.take_append_drop]
    _ = [] ++ l.drop n := by
        rw [List.filter_eq_nil_iff.2 fun a ha => by simpa using hfront a ha,
          List.filter_eq_self.2 fun a ha => by simpa using hback a ha]
    _ = l.drop n := List.nil_append _

/-- A list without one of its elements, in whose place the last one is moved. -/
def swapRemove (l : List α) (k : Nat) : List α :=
  match l.getLast? with
  | some last => (l.set k last).dropLast
  | none => []

/-- Removing an element by exchanging it with the last one leaves all others, in some order. -/
theorem perm_swapRemove {l : List α} {k : Nat} (hk : k < l.length) :
    l.Perm (l[k] :: swapRemove l k) := by
  obtain rfl | ⟨front, last, rfl⟩ := List.eq_nil_or_concat l
  · exact absurd hk (by simp)
  rw [List.concat_eq_append, List.length_append, List.length_singleton] at hk
  simp only [List.concat_eq_append, swapRemove, List.getLast?_concat]
  obtain hfront | rfl := Nat.lt_succ_iff_lt_or_eq.1 hk
  · rw [List.set_append_left _ _ hfront, List.dropLast_concat, List.getElem_append_left hfront]
    calc List.Perm (front ++ [last]) (last :: front) := List.perm_append_singleton last front
      List.Perm _ (last :: front[k] :: front.eraseIdx k) :=
        (List.getElem_cons_eraseIdx_perm hfront).symm.cons last
      List.Perm _ (front[k] :: last :: front.eraseIdx k) := .swap _ _ _
      List.Perm _ (front[k] :: front.set k last) :=
        (List.set_perm_cons_eraseIdx hfront last).symm.cons _
  · simp

end NamedContent
