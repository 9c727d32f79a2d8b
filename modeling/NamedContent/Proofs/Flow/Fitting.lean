import NamedContent.Proofs.Flow.Buffer

/-! # Lists of objects that fit into the buffer

Objects that are put one after the other make older ones give way. A name that is new comes last,
and gives way only when as many others have come after it as there is room for. An object that
takes the place of another keeps that one's age, and so may give way to the objects put after it,
however few they are.

* `FlowControl.acceptAll`: a controller after objects were taken in
* `FlowControl.newcomers`: the names that came new with them
* `FlowControl.Within.exists_gone`: what came and what gave way
* `FlowControl.Within.retains`: what stays of a list that fits
* `Node.published_stay`: the main theorem -/

namespace NamedContent

/-- When the front of a list is gone, an element that does not come again is left just if more
elements are left than come after it. -/
theorem mem_rest_iff {α : Type} {a : α} {gone left front behind : List α}
    (h : gone ++ left = front ++ a :: behind) (ha : a ∉ behind) :
    a ∈ left ↔ behind.length < left.length := by
  have hleft : left <:+ front ++ a :: behind := ⟨gone, h⟩
  have hbehind : a :: behind <:+ front ++ a :: behind := ⟨front, rfl⟩
  constructor
  · intro hmem
    by_contra hle
    have hsuffix := List.suffix_of_suffix_length_le hleft
      ((List.suffix_cons a behind).trans hbehind) (Nat.le_of_not_lt hle)
    exact ha (hsuffix.mem hmem)
  · intro hlt
    exact (List.suffix_of_suffix_length_le hbehind hleft hlt).mem List.mem_cons_self

namespace FlowControl

variable {c : FlowControl} {o p : ContentObject} {n : Name} {objects rest : List ContentObject}

/-! ## Several objects -/

/-- A controller after objects were taken in, one after the other. -/
def acceptAll (objects : List ContentObject) (c : FlowControl) : FlowControl :=
  objects.foldl (fun c o => (c.accept o).2) c

/-- Putting no objects changes nothing. -/
@[simp] theorem acceptAll_nil (c : FlowControl) : acceptAll [] c = c := rfl

/-- The first object is put first. -/
@[simp] theorem acceptAll_cons (o : ContentObject) (rest : List ContentObject) (c : FlowControl) :
    acceptAll (o :: rest) c = acceptAll rest (c.accept o).2 := rfl

/-- Some objects are put, and then the others. -/
theorem acceptAll_append (first rest : List ContentObject) (c : FlowControl) :
    acceptAll (first ++ rest) c = acceptAll rest (acceptAll first c) :=
  List.foldl_append

/-- The names that are not there yet when objects are put, one after the other. -/
def newcomers : List ContentObject → FlowControl → List Name
  | [], _ => []
  | o :: rest, c =>
    if o.name ∈ c.arrivals then newcomers rest (c.accept o).2
    else o.name :: newcomers rest (c.accept o).2

/-- There are no more newcomers than objects. -/
theorem length_newcomers_le (objects : List ContentObject) (c : FlowControl) :
    (newcomers objects c).length ≤ objects.length := by
  induction objects generalizing c with
  | nil => exact Nat.le_refl 0
  | cons o rest ih =>
    rw [newcomers]
    split
    · exact Nat.le_succ_of_le (ih _)
    · exact Nat.succ_le_succ (ih _)

/-- A newcomer is the name of one of the objects. -/
theorem mem_map_of_mem_newcomers (h : n ∈ newcomers objects c) : n ∈ objects.map (·.name) := by
  induction objects generalizing c with
  | nil => exact absurd h List.not_mem_nil
  | cons o rest ih =>
    rw [newcomers] at h
    split at h
    · exact List.mem_cons_of_mem _ (ih h)
    · rcases List.mem_cons.1 h with rfl | h
      · exact List.mem_cons_self
      · exact List.mem_cons_of_mem _ (ih h)

/-! ## What gives way -/

/-- Whether the two lists of a controller are in step and within its capacity. -/
structure Within (c : FlowControl) : Prop extends InStep c where
  /-- There are at most as many objects as there is room for. -/
  room : c.arrivals.length ≤ c.limits.bufferCapacity

/-- After all moves the buffer is in step and within its capacity. -/
theorem within_after (limits : FlowLimits) (moves : List Move) : (after limits moves).Within :=
  ⟨inStep_after limits moves, (limits_after limits moves).symm ▸ length_arrivals_after limits moves⟩

/-- Putting an object changes no limit. -/
@[simp] theorem limits_accept (c : FlowControl) (o : ContentObject) :
    (c.accept o).2.limits = c.limits :=
  (accept_lists c o).2.2

namespace Within

/-- An object is put, and the buffer stays within its capacity. -/
theorem accept (h : c.Within) (o : ContentObject) : (c.accept o).2.Within := by
  refine ⟨h.toInStep.accept o, ?_⟩
  obtain ⟨-, harrivals, hlimits⟩ := accept_lists c o
  have hle := length_evict_le (c.keep o)
  rwa [keep_limits, ← harrivals, ← hlimits] at hle

/-- Several objects are put, and the buffer stays within its capacity. By induction on the objects.
-/
theorem acceptAll (h : c.Within) (objects : List ContentObject) :
    (c.acceptAll objects).Within ∧ (c.acceptAll objects).limits = c.limits := by
  induction objects generalizing c with
  | nil => exact ⟨h, rfl⟩
  | cons o rest ih =>
    obtain ⟨hwithin, hlimits⟩ := ih (h.accept o)
    exact ⟨hwithin, hlimits.trans (limits_accept c o)⟩

/-- **What came and what gave way**: the names that are left with those that gave way in front of
them are the names from before with the new ones behind them, and names give way only when there is
no room. By induction on the objects. -/
theorem exists_gone (h : c.Within) (objects : List ContentObject) :
    ∃ gone, gone ++ (c.acceptAll objects).arrivals = c.arrivals ++ newcomers objects c
      ∧ (gone ≠ [] → (c.acceptAll objects).arrivals.length = c.limits.bufferCapacity) := by
  induction objects generalizing c with
  | nil => exact ⟨[], (List.append_nil _).symm, fun hne => absurd rfl hne⟩
  | cons o rest ih =>
    obtain ⟨first, hfirst, hfull⟩ := (h.takes_accept o).front
    obtain ⟨later, hlater, hfull'⟩ := ih (h.accept o)
    rw [limits_accept] at hfull'
    rw [acceptAll_cons]
    refine ⟨first ++ later, ?_, fun hne => ?_⟩
    · calc first ++ later ++ ((c.accept o).2.acceptAll rest).arrivals
          = first ++ ((c.accept o).2.arrivals ++ newcomers rest (c.accept o).2) := by
            rw [List.append_assoc, hlater]
        _ = c.joined o.name ++ newcomers rest (c.accept o).2 := by
            rw [← List.append_assoc, hfirst]
        _ = c.arrivals ++ newcomers (o :: rest) c := by
            rw [joined, newcomers]
            split
            · rfl
            · exact List.append_assoc ..
    · by_cases hnone : later = []
      · -- only the first object made others give way, and there has been no room since
        have hroom := ((h.accept o).acceptAll rest).1.room
        rw [((h.accept o).acceptAll rest).2, limits_accept] at hroom
        have hlength := congrArg List.length hlater
        rw [hnone, List.nil_append, List.length_append] at hlength
        have hfirst' := hfull fun hnil => hne (by rw [hnil, hnone]; rfl)
        omega
      · exact hfull' hnone

/-- **A name stays while there is room** for it with all names that came after it. -/
theorem mem_arrivals_iff (h : c.Within) {older newer : List Name}
    (hsplit : c.arrivals = older ++ n :: newer) (hother : n ∉ rest.map (·.name)) :
    n ∈ (c.acceptAll rest).arrivals
      ↔ newer.length + (newcomers rest c).length < c.limits.bufferCapacity := by
  obtain ⟨gone, hgone, hfull⟩ := h.exists_gone rest
  have hroom := (h.acceptAll rest).1.room
  rw [(h.acceptAll rest).2] at hroom
  -- the name is not among those that came after it
  have hlater : n ∉ newer ++ newcomers rest c := by
    have hnodup := h.nodup
    rw [hsplit] at hnodup
    have hnewer := (List.nodup_cons.1 (List.nodup_append.1 hnodup).2.1).1
    exact fun hmem => (List.mem_append.1 hmem).elim hnewer (mt mem_map_of_mem_newcomers hother)
  rw [hsplit, List.append_assoc, List.cons_append] at hgone
  rw [mem_rest_iff hgone hlater, List.length_append]
  constructor
  · omega
  · intro hfits
    by_cases hnone : gone = []
    · -- nothing gave way, so the name itself is left besides those after it
      have hlength := congrArg List.length hgone
      simp only [hnone, List.nil_append, List.length_append, List.length_cons] at hlength
      omega
    · rwa [hfull hnone]

/-- A name that is not there does not come with objects of other names. -/
theorem not_mem_arrivals (h : c.Within) (hn : n ∉ c.arrivals) (hother : n ∉ rest.map (·.name)) :
    n ∉ (c.acceptAll rest).arrivals := by
  obtain ⟨gone, hgone, -⟩ := h.exists_gone rest
  intro hmem
  have hlater := List.mem_append_right gone hmem
  rw [hgone] at hlater
  exact (List.mem_append.1 hlater).elim hn (mt mem_map_of_mem_newcomers hother)

/-- Objects of other names leave an object as it is, or make it give way. -/
theorem mem_buffer_iff (h : c.Within) (hp : (n, p) ∈ c.buffer) (hother : n ∉ rest.map (·.name)) :
    (n, p) ∈ (c.acceptAll rest).buffer ↔ n ∈ (c.acceptAll rest).arrivals := by
  refine ⟨fun hmem => (h.acceptAll rest).1.mem_arrivals hmem, fun hmem => ?_⟩
  induction rest generalizing c with
  | nil => exact hp
  | cons o rest ih =>
    rw [List.map_cons, List.mem_cons, not_or] at hother
    have hstays : n ∈ (c.accept o).2.arrivals := by
      by_contra hgone
      exact (h.accept o).not_mem_arrivals hgone hother.2 hmem
    refine ih (h.accept o) (((h.takes_accept o).entries n p).2 ⟨hstays, ?_⟩) hother.2 hmem
    rwa [if_neg hother.1]

/-! ## One object of a list -/

/-- The object that is put is there. -/
theorem mem_accept (h : c.Within) (o : ContentObject) (hroom : 1 ≤ c.limits.bufferCapacity) :
    (o.name, o) ∈ (c.accept o).2.buffer :=
  h.toInStep.mem_accept o hroom h.room

/-- A new name comes last. -/
theorem exists_last (h : c.Within) (hroom : 1 ≤ c.limits.bufferCapacity)
    (hnew : o.name ∉ c.arrivals) : ∃ older, (c.accept o).2.arrivals = older ++ [o.name] := by
  obtain ⟨gone, hgone, -⟩ := (h.takes_accept o).front
  rw [joined, if_neg hnew] at hgone
  have hmem := (h.accept o).mem_arrivals (h.mem_accept o hroom)
  obtain ⟨older, holder⟩ := List.suffix_of_suffix_length_le ⟨c.arrivals, rfl⟩ ⟨gone, hgone⟩
    (List.length_pos_of_mem hmem)
  exact ⟨older, holder.symm⟩

/-- **An object of a list that is put** is there in the end just if there is room for it with the
names that are newer than its own and those that come new after it. -/
theorem mem_acceptAll_iff (h : c.Within) (hroom : 1 ≤ c.limits.bufferCapacity)
    {older newer : List Name} (hsplit : (c.accept o).2.arrivals = older ++ o.name :: newer)
    (hother : o.name ∉ rest.map (·.name)) :
    (o.name, o) ∈ (c.acceptAll (o :: rest)).buffer
      ↔ newer.length + (newcomers rest (c.accept o).2).length < c.limits.bufferCapacity := by
  rw [acceptAll_cons, (h.accept o).mem_buffer_iff (h.mem_accept o hroom) hother,
    (h.accept o).mem_arrivals_iff hsplit hother, limits_accept]

/-- An object whose name is new stays when no more objects come after it than fit beside it. -/
theorem mem_acceptAll_of_new (h : c.Within) (hfits : rest.length < c.limits.bufferCapacity)
    (hnew : o.name ∉ c.arrivals) (hother : o.name ∉ rest.map (·.name)) :
    (o.name, o) ∈ (c.acceptAll (o :: rest)).buffer := by
  have hroom : 1 ≤ c.limits.bufferCapacity := Nat.one_le_of_lt hfits
  obtain ⟨older, hlast⟩ := h.exists_last hroom hnew
  rw [h.mem_acceptAll_iff hroom hlast hother, List.length_nil, Nat.zero_add]
  exact Nat.lt_of_le_of_lt (length_newcomers_le rest _) hfits

end Within

/-- What of a list of objects is in the buffer after they were put into a controller one after the
other. -/
structure Retains (c : FlowControl) (objects : List ContentObject) : Prop where
  /-- An object whose name was not there when it was put. -/
  new : ∀ first o rest, objects = first ++ o :: rest → o.name ∉ (c.acceptAll first).arrivals →
    (o.name, o) ∈ (c.acceptAll objects).buffer
  /-- Any object, just if there is room for it with the names that were newer than its own when it
  was put and those that came new after it. -/
  room : ∀ first o rest older newer, objects = first ++ o :: rest →
    (c.acceptAll (first ++ [o])).arrivals = older ++ o.name :: newer →
    ((o.name, o) ∈ (c.acceptAll objects).buffer
      ↔ newer.length + (newcomers rest (c.acceptAll (first ++ [o]))).length
        < c.limits.bufferCapacity)
  /-- All objects, if none of their names was there before. -/
  all : (∀ o ∈ objects, o.name ∉ c.arrivals) → ∀ o ∈ objects,
    (o.name, o) ∈ (c.acceptAll objects).buffer

/-- **What stays of a list that fits**, if its objects have different names. -/
theorem Within.retains (h : c.Within) (hdistinct : (objects.map (·.name)).Nodup)
    (hfits : objects.length ≤ c.limits.bufferCapacity) : c.Retains objects := by
  -- each object has a name of its own, and fewer come after it than there is room for
  have hsplit : ∀ first o rest, objects = first ++ o :: rest →
      o.name ∉ first.map (·.name) ∧ o.name ∉ rest.map (·.name)
        ∧ rest.length < c.limits.bufferCapacity := by
    rintro first o rest rfl
    rw [List.map_append, List.map_cons] at hdistinct
    obtain ⟨-, hrest, hfirst⟩ := List.nodup_append.1 hdistinct
    refine ⟨fun hmem => hfirst _ hmem _ List.mem_cons_self rfl, (List.nodup_cons.1 hrest).1, ?_⟩
    rw [List.length_append, List.length_cons] at hfits
    omega
  -- so one whose name is new when it is put outlasts the others
  have hnew : ∀ first o rest, objects = first ++ o :: rest →
      o.name ∉ (c.acceptAll first).arrivals → (o.name, o) ∈ (c.acceptAll objects).buffer := by
    intro first o rest hobjects habsent
    obtain ⟨-, hother, hlt⟩ := hsplit first o rest hobjects
    obtain ⟨hwithin, hlimits⟩ := h.acceptAll first
    rw [hobjects, acceptAll_append]
    exact hwithin.mem_acceptAll_of_new (hlimits ▸ hlt) habsent hother
  refine ⟨hnew, fun first o rest older newer hobjects harrivals => ?_, fun habsent o ho => ?_⟩
  · obtain ⟨-, hother, hlt⟩ := hsplit first o rest hobjects
    obtain ⟨hwithin, hlimits⟩ := h.acceptAll first
    rw [acceptAll_append] at harrivals
    rw [hobjects, acceptAll_append, acceptAll_append,
      hwithin.mem_acceptAll_iff (hlimits ▸ Nat.one_le_of_lt hlt) harrivals hother, hlimits]
    rfl
  · obtain ⟨first, rest, hobjects⟩ := List.append_of_mem ho
    exact hnew first o rest hobjects
      (h.not_mem_arrivals (habsent o ho) (hsplit first o rest hobjects).1)

end FlowControl

/-! ## Publishing -/

namespace Node

variable {s : Node} {id : ControllerId} {d : Controller} {o : ContentObject}
  {objects : List ContentObject}

/-- An object that is published was taken in by its controller. -/
theorem publish_eq_ok (hd : s.controller? id = some d) (h : (publish id o s).1 = .ok ()) :
    (publish id o s).2.controller? id = some { d with flow := (d.flow.accept o).2 } := by
  cases hvalid : o.validate with
  | error e => exact absurd h (by simp [publish, hvalid, mapError_error, Action.bind_run])
  | ok u =>
    cases hcovers : d.flow.covers o.name with
    | false =>
      exact absurd h (by
        simp [publish, hvalid, hcovers, mapError_ok, Action.bind_run, withController, hd])
    | true =>
      obtain ⟨-, hagrees⟩ | ⟨cause, hfails, -, -⟩ := publish_cases hvalid hd hcovers
      · exact (hagrees.controllers id).trans (controller?_released hd o)
      · exact absurd (hfails.symm.trans h) (by simp)

/-- **Objects that are published** were taken in by their controller, one after the other. By
induction on the objects, each put into the controller that the ones before have left. -/
theorem publishAll_eq_ok (hd : s.controller? id = some d)
    (h : (publishAll id objects s).1 = .ok ()) :
    (publishAll id objects s).2.controller? id
      = some { d with flow := d.flow.acceptAll objects } := by
  induction objects generalizing s d with
  | nil => exact hd
  | cons o rest ih =>
    have hfirst := publish_eq_ok (o := o) hd
    rw [publishAll_cons, Action.bind_run] at h ⊢
    generalize publish id o s = done at hfirst h ⊢
    obtain ⟨result, s₁⟩ := done
    cases result with
    | error e => exact absurd h (by simp)
    | ok u => exact ih (hfirst rfl) h

/-- **What of a publication stays.** When objects of different names, no more than there is room
for, are published through a controller in any state that it can come to, one is in the buffer
afterwards just if there is room for it with the names newer than its own. So every object stays
whose name was new when it was put; one that took the place of another may have given way to those
put after it. -/
theorem published_stay {limits : FlowLimits} {moves : List FlowControl.Move}
    (hd : s.controller? id = some d) (hreached : d.flow = .after limits moves)
    (hdistinct : (objects.map (·.name)).Nodup) (hfits : objects.length ≤ limits.bufferCapacity)
    (hok : (publishAll id objects s).1 = .ok ()) :
    (publishAll id objects s).2.controller? id
        = some { d with flow := d.flow.acceptAll objects }
      ∧ d.flow.Retains objects := by
  refine ⟨publishAll_eq_ok hd hok, ?_⟩
  rw [hreached]
  exact (FlowControl.within_after limits moves).retains hdistinct
    (by rwa [FlowControl.limits_after])

/-- With room for two objects, one that takes the place of the newer one of two stays when another
is put after it. -/
theorem published_stay_newer :
    let root : Name := ⟨[⟨[97]⟩]⟩
    let o (n content : UInt8) : ContentObject :=
      ⟨root.child ⟨[n]⟩, ⟨default, ⟨0⟩, .data, none, none⟩, [content], none⟩
    let flow := FlowControl.after ⟨2, 4⟩ [.addNamespace root, .put (o 49 1), .put (o 50 1)]
    let d : Controller := ⟨⟨7⟩, ⟨1⟩, flow⟩
    let s : Node := { Node.new 8 ⟨0⟩ with controllers := [(⟨1⟩, d)] }
    (publishAll ⟨1⟩ [o 50 2, o 51 2] s).1 = .ok ()
      ∧ ((o 50 2).name, o 50 2) ∈ (flow.acceptAll [o 50 2, o 51 2]).buffer
      ∧ ((o 51 2).name, o 51 2) ∈ (flow.acceptAll [o 50 2, o 51 2]).buffer := by
  intro root o flow d s
  have hok : (publishAll ⟨1⟩ [o 50 2, o 51 2] s).1 = .ok () := by decide +kernel
  obtain ⟨-, hstay⟩ := published_stay (s := s) (d := d) rfl rfl (by decide +kernel)
    (by decide) hok
  refine ⟨hok, ?_, hstay.new [o 50 2] (o 51 2) [] rfl (by decide +kernel)⟩
  exact (hstay.room [] (o 50 2) [o 51 2] [(o 49 1).name] [] rfl (by decide +kernel)).2
    (by decide +kernel)

/-- **A list that fits may lose an object.** With room for two objects, one that takes the place of
the older one of two is gone when another has been put after it, though both were published. -/
theorem published_list_loses_first :
    let root : Name := ⟨[⟨[97]⟩]⟩
    let o (n content : UInt8) : ContentObject :=
      ⟨root.child ⟨[n]⟩, ⟨default, ⟨0⟩, .data, none, none⟩, [content], none⟩
    let made := Node.openController (ε := Empty) ⟨7⟩ ⟨2, 4⟩ (Node.new 8 ⟨0⟩)
    let added := (Node.addNamespace ⟨1⟩ root made.2).2
    let before := publishAll ⟨1⟩ [o 49 1, o 50 1] added
    let objects := [o 49 2, o 51 2]
    let after := publishAll ⟨1⟩ objects before.2
    (∀ o ∈ objects, o.Valid) ∧ (objects.map (·.name)).Nodup ∧ objects.length ≤ 2
      ∧ (before.2.controller? ⟨1⟩).map (·.flow.objects) = some [o 49 1, o 50 1]
      ∧ after.1 = .ok ()
      ∧ (after.2.controller? ⟨1⟩).map (·.flow.objects) = some [o 50 1, o 51 2]
      ∧ ¬ ∀ o ∈ objects, ∃ d ∈ after.2.controller? ⟨1⟩, o ∈ d.flow.objects := by
  decide +kernel

end Node

end NamedContent
