import NamedContent.Flow.Controller
import NamedContent.Proofs.Interest.Selection

/-! # The operations of a flow controller

What a flow controller keeps after an interest has arrived and after an object was put, and what it
lets out. An interest that it holds stays held until an object comes that answers it; whatever
object that is, one goes out.

* `FlowControl.objects`: the objects in the buffer
* `FlowControl.receive_eq_some`, `FlowControl.receive_eq_none`: an interest arrives
* `FlowControl.accept_eq_none`, `FlowControl.accept_eq_some`: an object is put -/

namespace NamedContent

namespace OrderedSet

variable {α : Type} [LT α] [DecidableEq α] [DecidableLT α]

/-- The other elements of an increasing list stay in their places. -/
theorem filter_place {a : α} {xs : List α} (h : a ∉ xs) : (place a xs).filter (· ≠ a) = xs := by
  induction xs with
  | nil => simp [place]
  | cons b rest ih =>
    have hkeep : (b :: rest).filter (· ≠ a) = b :: rest := by
      refine List.filter_eq_self.2 fun c hc => decide_eq_true ?_
      rintro rfl
      exact h hc
    have hb : b ≠ a := fun heq => h (heq ▸ List.mem_cons_self)
    rw [place]
    split
    · rw [List.filter_cons_of_neg (by simp)]
      exact hkeep
    · split
      · rw [List.filter_cons_of_pos (by simpa using hb),
          ih fun hmem => h (List.mem_cons_of_mem b hmem)]
      · exact hkeep

/-- Taking away an element that was added to a set brings the set back. -/
theorem erase_insert [Trans (fun a b : α => a < b) (fun a b : α => a < b) (fun a b : α => a < b)]
    {s : OrderedSet α} {a : α} (h : a ∉ s) : (s.insert a).erase a = s := by
  obtain ⟨xs, hxs⟩ := s
  have hplace : (place a xs).filter (· ≠ a) = xs := filter_place h
  simpa [insert, erase] using hplace

end OrderedSet

namespace FlowControl

variable {c : FlowControl} {i : Interest} {o : ContentObject}

/-- The objects in the buffer. -/
def objects (c : FlowControl) : List ContentObject := c.buffer.map (·.2)

/-! ## Interests -/

/-- The selected object is let out, and nothing else changes. -/
theorem receive_eq_some (h : i.select c.objects = some o) : c.receive i = (some o, c) := by
  rw [receive, show i.select (c.buffer.map (·.2)) = some o from h]

/-- An interest without an answer is held. -/
theorem receive_eq_none (h : i.select c.objects = none) :
    c.receive i = (none, { c with held := holdIn c.limits.maxHeld c.held i }) := by
  rw [receive, show i.select (c.buffer.map (·.2)) = none from h]

/-- An interest does not change the buffer. -/
theorem receive_buffer (c : FlowControl) (i : Interest) : (c.receive i).2.buffer = c.buffer := by
  cases h : i.select c.objects with
  | none => rw [receive_eq_none h]
  | some o => rw [receive_eq_some h]

/-- With room for one more, no held interest gives way. -/
theorem holdIn_of_lt {limit : Nat} {held : List Interest} (h : held.length < limit) :
    holdIn limit held i = held ++ [i] := by
  rw [holdIn, if_neg (Nat.not_le.2 h)]

/-! ## Objects -/

/-- Keeping an object does not touch the held interests. -/
@[simp] theorem keep_held (c : FlowControl) (o : ContentObject) : (c.keep o).held = c.held := by
  rw [keep]
  split <;> rfl

/-- Keeping an object does not touch the namespaces. -/
@[simp] theorem keep_namespaces (c : FlowControl) (o : ContentObject) :
    (c.keep o).namespaces = c.namespaces := by
  rw [keep]
  split <;> rfl

/-- Letting objects go does not touch the held interests. -/
@[simp] theorem evict_held (c : FlowControl) : c.evict.held = c.held := rfl

/-- Letting objects go does not touch the namespaces. -/
@[simp] theorem evict_namespaces (c : FlowControl) : c.evict.namespaces = c.namespaces := rfl

/-- Keeping an object brings no other one. -/
theorem mem_objects_keep {p : ContentObject} (h : p ∈ (c.keep o).objects) :
    p = o ∨ p ∈ c.objects := by
  obtain ⟨⟨n, q⟩, hq, rfl⟩ := List.mem_map.1 h
  rw [keep] at hq
  split at hq
  · obtain ⟨⟨m, r⟩, hr, heq⟩ := List.mem_map.1 hq
    by_cases hm : m = o.name
    · simp only [if_pos hm] at heq
      exact .inl (Prod.mk.inj heq).2.symm
    · simp only [if_neg hm] at heq
      exact .inr (List.mem_map.2 ⟨(m, r), hr, (Prod.mk.inj heq).2⟩)
  · rcases List.mem_append.1 hq with hq | hq
    · exact .inr (List.mem_map.2 ⟨(n, q), hq, rfl⟩)
    · exact .inl (Prod.mk.inj (List.mem_singleton.1 hq)).2

/-- What gives way was there. -/
theorem mem_objects_evict {p : ContentObject} (h : p ∈ c.evict.objects) : p ∈ c.objects := by
  obtain ⟨q, hq, rfl⟩ := List.mem_map.1 h
  exact List.mem_map_of_mem (List.mem_filter.1 hq).1

/-- An object that answers no held interest is only kept. -/
theorem accept_eq_none (h : c.held.find? (·.accepts o) = none) :
    c.accept o = (none, (c.keep o).evict) := by
  rw [accept]
  simp only [evict_held, keep_held, h]

/-- An object that answers a held interest is kept, and uses up the oldest one. -/
theorem accept_eq_some (h : c.held.find? (·.accepts o) = some i) :
    c.accept o = (some i, { (c.keep o).evict with held := c.held.erase i }) := by
  rw [accept]
  simp only [evict_held, keep_held, h]

/-- Putting an object brings no other one. -/
theorem mem_objects_accept {p : ContentObject} (h : p ∈ (c.accept o).2.objects) :
    p = o ∨ p ∈ c.objects := by
  have hkept : p ∈ (c.keep o).evict.objects := by
    cases hfind : c.held.find? (·.accepts o) with
    | none => rwa [accept_eq_none hfind] at h
    | some i => rwa [accept_eq_some hfind] at h
  exact mem_objects_keep (mem_objects_evict hkept)

/-- **A held interest stays held unless the object put answers it.** -/
theorem mem_held_accept (hi : i ∈ c.held) (h : i.accepts o = false) : i ∈ (c.accept o).2.held := by
  cases hfind : c.held.find? (·.accepts o) with
  | none => simpa [accept_eq_none hfind] using hi
  | some j =>
    have hj : j.accepts o = true := by simpa using List.find?_some hfind
    have hne : i ≠ j := by
      rintro rfl
      rw [h] at hj
      exact absurd hj (by simp)
    rw [accept_eq_some hfind]
    exact (List.mem_erase_of_ne hne).2 hi

/-- Putting an object does not touch the namespaces. -/
@[simp] theorem accept_namespaces (c : FlowControl) (o : ContentObject) :
    (c.accept o).2.namespaces = c.namespaces := by
  cases hfind : c.held.find? (·.accepts o) with
  | none => simp [accept_eq_none hfind]
  | some i => simp [accept_eq_some hfind]

/-- Putting an object brings no held interest. -/
theorem mem_held_of_accept (h : i ∈ (c.accept o).2.held) : i ∈ c.held := by
  cases hfind : c.held.find? (·.accepts o) with
  | none => simpa [accept_eq_none hfind] using h
  | some j =>
    rw [accept_eq_some hfind] at h
    exact List.mem_of_mem_erase h

/-- An object goes out in answer to an interest that was held. -/
theorem mem_held_of_accept_eq_some {flow : FlowControl} (h : c.accept o = (some i, flow)) :
    i ∈ c.held ∧ i.accepts o = true := by
  cases hfind : c.held.find? (·.accepts o) with
  | none =>
    rw [accept_eq_none hfind] at h
    exact absurd (Prod.mk.inj h).1 (by simp)
  | some j =>
    rw [accept_eq_some hfind] at h
    obtain rfl := Option.some.inj (Prod.mk.inj h).1
    exact ⟨List.mem_of_find?_eq_some hfind, by simpa using List.find?_some hfind⟩

/-! ## Namespaces -/

/-- Taking away a namespace that was added brings the controller back. -/
theorem removeNamespace_addNamespace {root : Name} (h : root ∉ c.namespaces) :
    (c.addNamespace root).removeNamespace root = c := by
  rw [removeNamespace, addNamespace, OrderedSet.erase_insert h]

end FlowControl

end NamedContent
