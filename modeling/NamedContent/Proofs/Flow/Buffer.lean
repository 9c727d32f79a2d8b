import Mathlib.Data.List.Induction
import NamedContent.Proofs.Keyed
import NamedContent.Proofs.Node.Controllers

/-! # The buffer of a flow controller

A controller keeps its objects in two lists that have to stay in step: the objects by name, and the
names by age. The responder and those who put objects and change namespaces take turns at them; each
turn is one move. After any moves the two lists name the same objects in the same order, within the
capacity, and only the oldest give way.

* `FlowControl.Move`, `FlowControl.after`: what is done with a controller at once, and its state
* `FlowControl.InStep`: the two lists are in step
* `FlowControl.Takes`: an object is taken in
* `FlowControl.Buffered`: what the buffer is after the moves
* `FlowControl.buffer_in_step`: the main theorem
* `LiveController.exists_moves`, `NodeCall.exists_moves`: controllers at work -/

namespace NamedContent

namespace FlowControl

variable {c : FlowControl} {o p : ContentObject}

/-! ## The two lists -/

/-- The buffer and the names by age are in step. -/
structure InStep (c : FlowControl) : Prop where
  /-- They name the same objects in the same order. -/
  keys : c.buffer.map (·.1) = c.arrivals
  /-- No name comes twice. -/
  nodup : c.arrivals.Nodup
  /-- Each object is kept under its name. -/
  named : ∀ e ∈ c.buffer, e.1 = e.2.name

/-- The name of an object in the buffer is among those that arrived. -/
theorem InStep.mem_arrivals (h : c.InStep) {n : Name} {p : ContentObject}
    (hmem : (n, p) ∈ c.buffer) : n ∈ c.arrivals := by
  rw [← h.keys]
  exact List.mem_map_of_mem hmem

/-- An object is in the buffer just if its name is among them. -/
theorem InStep.any_buffer (h : c.InStep) (n : Name) :
    c.buffer.any (·.1 = n) = true ↔ n ∈ c.arrivals := by
  rw [← h.keys]
  simp

/-! ### Keeping an object -/

/-- Keeping an object changes no limit. -/
@[simp] theorem keep_limits (c : FlowControl) (o : ContentObject) :
    (c.keep o).limits = c.limits := by
  rw [keep]
  split <;> rfl

/-- The names by age once an object is kept. -/
def joined (c : FlowControl) (n : Name) : List Name :=
  if n ∈ c.arrivals then c.arrivals else c.arrivals ++ [n]

/-- The name of an object that is kept comes last, unless it is there. -/
theorem InStep.keep_arrivals (h : c.InStep) (o : ContentObject) :
    (c.keep o).arrivals = c.joined o.name := by
  rw [keep, joined]
  by_cases hmem : o.name ∈ c.arrivals
  · rw [if_pos ((h.any_buffer _).2 hmem), if_pos hmem]
  · rw [if_neg (mt (h.any_buffer _).1 hmem), if_neg hmem]

/-- An object that is kept takes the place of one of its name, and the others stay. -/
theorem InStep.mem_keep (h : c.InStep) (o : ContentObject) (n : Name) (p : ContentObject) :
    (n, p) ∈ (c.keep o).buffer ↔
      if n = o.name then p = o else (n, p) ∈ c.buffer := by
  rw [keep]
  by_cases hmem : o.name ∈ c.arrivals
  · rw [if_pos ((h.any_buffer _).2 hmem)]
    simp only [List.mem_map, Prod.exists]
    split
    · next hn =>
      -- an object of that name is there, and the new one takes its place
      constructor
      · rintro ⟨m, q, -, heq⟩
        split at heq
        · exact (Prod.mk.inj heq).2.symm
        · next hm => exact absurd ((Prod.mk.inj heq).1.trans hn) hm
      · rintro rfl
        rw [← h.keys] at hmem
        obtain ⟨⟨m, q⟩, hq, hm⟩ := List.mem_map.1 hmem
        exact ⟨m, q, hq, by rw [if_pos hm, hn, ← hm]⟩
    · next hn =>
      constructor
      · rintro ⟨m, q, hq, heq⟩
        split at heq
        · next hm => exact absurd ((Prod.mk.inj heq).1.symm.trans hm) hn
        · rwa [← heq]
      · exact fun hp => ⟨n, p, hp, if_neg hn⟩
  · rw [if_neg (mt (h.any_buffer _).1 hmem)]
    simp only [List.mem_append, List.mem_singleton, Prod.mk.injEq]
    split
    · next hn =>
      subst hn
      constructor
      · exact fun hp => (hp.resolve_left fun hp => hmem (h.mem_arrivals hp)).2
      · exact fun hp => .inr ⟨rfl, hp⟩
    · next hn => exact ⟨fun hp => hp.resolve_right fun hp => hn hp.1, .inl⟩

/-- Keeping an object keeps buffer and names in step. -/
theorem InStep.keep (h : c.InStep) (o : ContentObject) : (c.keep o).InStep where
  keys := by
    rw [FlowControl.keep]
    split
    · -- the names stay where they are
      rw [List.map_map]
      refine (List.map_congr_left fun e _ => ?_).trans h.keys
      rw [Function.comp_apply]
      dsimp only
      split <;> rfl
    · simp [h.keys]
  nodup := by
    rw [h.keep_arrivals, joined]
    split
    · exact h.nodup
    · next hmem =>
      -- a new name comes last
      refine List.nodup_append.2 ⟨h.nodup, List.nodup_singleton _, fun n hn m hm heq => hmem ?_⟩
      rwa [← List.mem_singleton.1 hm, ← heq]
  named := by
    rintro ⟨n, p⟩ hp
    rw [h.mem_keep] at hp
    split at hp
    · next hn => rw [hp, hn]
    · exact h.named _ hp

/-! ### Giving way -/

/-- **What gives way is in front**, in both lists. -/
theorem InStep.evict_eq (h : c.InStep) :
    c.evict = { c with
      buffer := c.buffer.drop (c.arrivals.length - c.limits.bufferCapacity)
      arrivals := c.arrivals.drop (c.arrivals.length - c.limits.bufferCapacity) } := by
  have hdistinct : (c.buffer.map (·.1)).Nodup := h.keys ▸ h.nodup
  rw [evict]
  simp only
  rw [← filter_key_not_mem_take hdistinct, h.keys]

/-- Letting the first objects go keeps them in step. -/
theorem InStep.evict (h : c.InStep) : c.evict.InStep := by
  rw [h.evict_eq]
  exact ⟨by rw [List.map_drop, h.keys], h.nodup.sublist (List.drop_sublist ..),
    fun e he => h.named e (List.mem_of_mem_drop he)⟩

/-- No more names are left than there is room for. -/
theorem length_evict_le (c : FlowControl) :
    c.evict.arrivals.length ≤ c.limits.bufferCapacity := by
  rw [FlowControl.evict, List.length_drop]
  omega

/-- An object that is in the buffer is found by its name. -/
theorem InStep.eq_of_mem (h : c.InStep) {n : Name} (hp : (n, p) ∈ c.buffer)
    (ho : (n, o) ∈ c.buffer) : p = o := by
  have hdistinct : (c.buffer.map (·.1)).Nodup := h.keys ▸ h.nodup
  exact (Prod.mk.inj (List.inj_on_of_nodup_map hdistinct hp ho rfl)).2

/-- After objects have given way, the rest is as it was. -/
theorem InStep.mem_evict (h : c.InStep) (n : Name) (p : ContentObject) :
    (n, p) ∈ c.evict.buffer ↔ n ∈ c.evict.arrivals ∧ (n, p) ∈ c.buffer := by
  constructor
  · intro hp
    refine ⟨h.evict.mem_arrivals hp, ?_⟩
    rw [h.evict_eq] at hp
    exact List.mem_of_mem_drop hp
  · rintro ⟨hn, hp⟩
    rw [← h.evict.keys] at hn
    obtain ⟨⟨m, q⟩, hq, rfl⟩ := List.mem_map.1 hn
    have hq' : (m, q) ∈ c.buffer := by
      rw [h.evict_eq] at hq
      exact List.mem_of_mem_drop hq
    rwa [h.eq_of_mem hp hq']

/-! ## Taking in an object -/

/-- Whether an object is admitted: it breaks no rule and lies in a namespace. -/
def Admits (c : FlowControl) (o : ContentObject) : Prop := o.Valid ∧ c.covers o.name = true

instance (c : FlowControl) (o : ContentObject) : Decidable (c.Admits o) :=
  inferInstanceAs (Decidable (_ ∧ _))

/-- How an object is taken into the buffer. -/
structure Takes (c : FlowControl) (o : ContentObject) (c' : FlowControl) : Prop where
  /-- A new name comes last. Names in front give way, and only while there are too many. -/
  front : ∃ gone, gone ++ c'.arrivals = c.joined o.name
    ∧ (gone ≠ [] → c'.arrivals.length = c.limits.bufferCapacity)
  /-- Of the names that are left, the one of the object has it, and the others have what they
  had. -/
  entries : ∀ n p, (n, p) ∈ c'.buffer ↔
    n ∈ c'.arrivals ∧ if n = o.name then p = o else (n, p) ∈ c.buffer

/-- An object that is put is kept, and others may go: the held interests do not matter. -/
theorem accept_lists (c : FlowControl) (o : ContentObject) :
    (c.accept o).2.buffer = (c.keep o).evict.buffer
      ∧ (c.accept o).2.arrivals = (c.keep o).evict.arrivals
      ∧ (c.accept o).2.limits = c.limits := by
  cases hfind : c.held.find? (·.accepts o) with
  | none => exact accept_eq_none hfind ▸ ⟨rfl, rfl, keep_limits c o⟩
  | some i => exact accept_eq_some hfind ▸ ⟨rfl, rfl, keep_limits c o⟩

/-- Whether they are in step is a matter of the two lists alone. -/
theorem InStep.congr {c' : FlowControl} (h : c.InStep) (hbuffer : c'.buffer = c.buffer)
    (harrivals : c'.arrivals = c.arrivals) : c'.InStep :=
  ⟨by rw [hbuffer, harrivals, h.keys], by rw [harrivals]; exact h.nodup,
    by rw [hbuffer]; exact h.named⟩

/-- Putting an object keeps them in step. -/
theorem InStep.accept (h : c.InStep) (o : ContentObject) : (c.accept o).2.InStep :=
  (h.keep o).evict.congr (accept_lists c o).1 (accept_lists c o).2.1

/-- **Accepting an object takes it in.** -/
theorem InStep.takes_accept (h : c.InStep) (o : ContentObject) : c.Takes o (c.accept o).2 := by
  obtain ⟨hbuffer, harrivals, -⟩ := accept_lists c o
  refine ⟨?_, fun n p => ?_⟩
  · let excess := (c.keep o).arrivals.length - (c.keep o).limits.bufferCapacity
    have hleft : (c.accept o).2.arrivals = (c.keep o).arrivals.drop excess := by
      rw [harrivals, (h.keep o).evict_eq]
    refine ⟨(c.keep o).arrivals.take excess, ?_, fun hgone => ?_⟩
    · rw [hleft, List.take_append_drop, h.keep_arrivals]
    · have hpos : 0 < excess :=
        Nat.pos_of_ne_zero fun hzero => hgone (by rw [hzero, List.take_zero])
      have hexcess : excess = (c.keep o).arrivals.length - c.limits.bufferCapacity :=
        congrArg (_ - ·.bufferCapacity) (keep_limits c o)
      rw [hleft, List.length_drop]
      omega
  · rw [hbuffer, harrivals, (h.keep o).mem_evict, h.mem_keep]

/-- The object that is taken in is there, unless there is no room for any. -/
theorem InStep.mem_accept (h : c.InStep) (o : ContentObject) (hroom : 1 ≤ c.limits.bufferCapacity)
    (hfull : c.arrivals.length ≤ c.limits.bufferCapacity) :
    (o.name, o) ∈ (c.accept o).2.buffer := by
  obtain ⟨⟨gone, hgone, hlength⟩, hentries⟩ := h.takes_accept o
  refine (hentries _ _).2 ⟨?_, by rw [if_pos rfl]⟩
  rw [joined] at hgone
  split at hgone
  · next hmem =>
    -- the name was there, so nothing is new and nothing gives way
    obtain rfl : gone = [] := by
      by_contra hne
      have hsum := congrArg List.length hgone
      rw [List.length_append, hlength hne] at hsum
      exact hne (List.eq_nil_of_length_eq_zero (by omega))
    rw [List.nil_append] at hgone
    rwa [hgone]
  · -- the new name is last, and what is left is not empty
    have hne : (c.accept o).2.arrivals ≠ [] := by
      intro hnil
      have hsum := congrArg List.length hgone
      rw [hnil, List.append_nil, List.length_append, List.length_singleton] at hsum
      have hcapacity := hlength (List.ne_nil_of_length_eq_add_one hsum)
      rw [hnil, List.length_nil] at hcapacity
      omega
    have hlast := congrArg List.getLast? hgone
    rw [List.getLast?_append_of_ne_nil _ hne, List.getLast?_concat] at hlast
    exact List.mem_of_getLast? hlast

/-! ## Moves -/

/-- What is done with a controller at once, before anybody else gets at it. -/
inductive Move where
  /-- The responder looks for an answer to an interest, which is held without one. -/
  | receive (i : Interest)
  /-- An object is put, and refused if it is not admitted. -/
  | put (o : ContentObject)
  /-- A namespace is added. -/
  | addNamespace (root : Name)
  /-- A namespace is taken away: by a call for that, or when its filter cannot be set. -/
  | removeNamespace (root : Name)

/-- A controller after a move. -/
def move (c : FlowControl) : Move → FlowControl
  | .receive i => (c.receive i).2
  | .put o => if c.Admits o then (c.accept o).2 else c
  | .addNamespace root => c.addNamespace root
  | .removeNamespace root => c.removeNamespace root

/-- A new controller after some moves. -/
def after (limits : FlowLimits) (moves : List Move) : FlowControl := moves.foldl move (new limits)

/-- The last move comes after the others. -/
theorem after_concat (limits : FlowLimits) (moves : List Move) (m : Move) :
    after limits (moves ++ [m]) = (after limits moves).move m := by
  rw [after, List.foldl_append]
  rfl

/-- **What a move does to the buffer**: an object that is put and admitted is taken in, and anything
else leaves the buffer as it is. -/
theorem move_cases (c : FlowControl) (m : Move) :
    (∃ o, m = .put o ∧ c.Admits o ∧ c.move m = (c.accept o).2)
      ∨ (∃ o, m = .put o ∧ ¬ c.Admits o ∧ c.move m = c)
      ∨ (∀ o, m ≠ .put o) ∧ (c.move m).buffer = c.buffer ∧ (c.move m).arrivals = c.arrivals
        ∧ (c.move m).limits = c.limits := by
  cases m with
  | receive i =>
    refine .inr (.inr ⟨fun o h => Move.noConfusion h, ?_⟩)
    rw [move]
    cases hselect : i.select c.objects with
    | none => exact receive_eq_none hselect ▸ ⟨rfl, rfl, rfl⟩
    | some o => exact receive_eq_some hselect ▸ ⟨rfl, rfl, rfl⟩
  | put o =>
    by_cases hadmits : c.Admits o
    · exact .inl ⟨o, rfl, hadmits, if_pos hadmits⟩
    · exact .inr (.inl ⟨o, rfl, hadmits, if_neg hadmits⟩)
  | addNamespace root => exact .inr (.inr ⟨fun o h => Move.noConfusion h, rfl, rfl, rfl⟩)
  | removeNamespace root => exact .inr (.inr ⟨fun o h => Move.noConfusion h, rfl, rfl, rfl⟩)

/-- No move changes the limits. -/
@[simp] theorem limits_after (limits : FlowLimits) (moves : List Move) :
    (after limits moves).limits = limits := by
  induction moves using List.reverseRecOn with
  | nil => rfl
  | append_singleton moves m ih =>
    rw [after_concat]
    obtain ⟨o, -, -, heq⟩ | ⟨o, -, -, heq⟩ | ⟨-, -, -, heq⟩ := (after limits moves).move_cases m
    · rw [heq, (accept_lists _ o).2.2, ih]
    · rw [heq, ih]
    · rw [heq, ih]

/-- **The two lists stay in step**, by induction on the moves, with the last one split off. -/
theorem inStep_after (limits : FlowLimits) (moves : List Move) : (after limits moves).InStep := by
  induction moves using List.reverseRecOn with
  | nil => exact ⟨rfl, List.nodup_nil, List.forall_mem_nil _⟩
  | append_singleton moves m ih =>
    rw [after_concat]
    obtain ⟨o, -, -, heq⟩ | ⟨o, -, -, heq⟩ | ⟨-, hbuffer, harrivals, -⟩ :=
      (after limits moves).move_cases m
    · rw [heq]
      exact ih.accept o
    · rwa [heq]
    · exact ih.congr hbuffer harrivals

/-- There is never more in the buffer than there is room for. -/
theorem length_arrivals_after (limits : FlowLimits) (moves : List Move) :
    (after limits moves).arrivals.length ≤ limits.bufferCapacity := by
  induction moves using List.reverseRecOn with
  | nil => exact Nat.zero_le _
  | append_singleton moves m ih =>
    rw [after_concat]
    obtain ⟨o, -, -, heq⟩ | ⟨o, -, -, heq⟩ | ⟨-, -, harrivals, -⟩ :=
      (after limits moves).move_cases m
    · have hle := length_evict_le ((after limits moves).keep o)
      rwa [keep_limits, limits_after, ← (accept_lists _ o).2.1, ← heq] at hle
    · rwa [heq]
    · rwa [harrivals]

/-! ## When objects came -/

variable {limits : FlowLimits} {moves : List Move}

/-- Whether a move, by its number, puts an object that is admitted. -/
def PutAt (limits : FlowLimits) (moves : List Move) (k : Nat) (o : ContentObject) : Prop :=
  moves[k]? = some (.put o) ∧ (after limits (moves.take k)).Admits o

/-- Objects are put at moves that are made. -/
theorem PutAt.lt {k : Nat} (h : PutAt limits moves k o) : k < moves.length :=
  (List.getElem?_eq_some_iff.1 h.1).1

/-- An object was put before, or is put in the last move. -/
theorem putAt_concat {m : Move} {k : Nat} :
    PutAt limits (moves ++ [m]) k o ↔
      PutAt limits moves k o
        ∨ k = moves.length ∧ m = .put o ∧ (after limits moves).Admits o := by
  obtain hlt | rfl | hgt := Nat.lt_trichotomy k moves.length
  · rw [PutAt, PutAt, List.getElem?_append_left hlt,
      List.take_append_of_le_length (Nat.le_of_lt hlt)]
    simp [Nat.ne_of_lt hlt]
  · simp [PutAt]
  · have hpast : (moves ++ [m])[k]? = none := by simp; omega
    have hpast' : moves[k]? = none := by simp; omega
    simp [PutAt, hpast, hpast', Nat.ne_of_gt hgt]

/-- Whether a name came into the buffer with a move, by its number, and has been there since. -/
def InSince (limits : FlowLimits) (moves : List Move) (n : Name) (k : Nat) : Prop :=
  (∃ o, PutAt limits moves k o ∧ o.name = n)
    ∧ n ∉ (after limits (moves.take k)).arrivals
    ∧ ∀ j, k < j → n ∈ (after limits (moves.take j)).arrivals

/-- Names are in since moves that are made. -/
theorem InSince.lt {n : Name} {k : Nat} (h : InSince limits moves n k) : k < moves.length := by
  obtain ⟨⟨o, hput, -⟩, -⟩ := h
  exact hput.lt

/-- A name that is still there has been there since the same move. -/
theorem InSince.concat {m : Move} {n : Name} {k : Nat} (h : InSince limits moves n k)
    (hn : n ∈ (after limits (moves ++ [m])).arrivals) : InSince limits (moves ++ [m]) n k := by
  obtain ⟨⟨o, hput, hname⟩, habsent, hstays⟩ := h
  refine ⟨⟨o, putAt_concat.2 (.inl hput), hname⟩, ?_, fun j hj => ?_⟩
  · rwa [List.take_append_of_le_length (Nat.le_of_lt hput.lt)]
  · obtain hle | hgt := Nat.lt_or_ge moves.length j
    · rwa [List.take_of_length_le (by simp; omega)]
    · rw [List.take_append_of_le_length hgt]
      exact hstays j hj

/-- A name that was not there and now is came with the last move. -/
theorem inSince_last {m : Move} (hm : m = .put o) (hadmits : (after limits moves).Admits o)
    (habsent : o.name ∉ (after limits moves).arrivals)
    (hn : o.name ∈ (after limits (moves ++ [m])).arrivals) :
    InSince limits (moves ++ [m]) o.name moves.length := by
  refine ⟨⟨o, putAt_concat.2 (.inr ⟨rfl, hm, hadmits⟩), rfl⟩, ?_, fun j hj => ?_⟩
  · rwa [List.take_left]
  · rwa [List.take_of_length_le (by simp; omega)]

/-- Several names are in since moves that are made. -/
theorem lt_of_inSince {names : List Name} {ks : List Nat}
    (h : List.Forall₂ (InSince limits moves) names ks) : ∀ k ∈ ks, k < moves.length :=
  have hflip : List.Forall₂ (fun k n => k < moves.length ∧ InSince limits moves n k) ks names :=
    List.Forall₂.flip (h.imp fun _ _ hnk => ⟨hnk.lt, hnk⟩)
  ((List.forall₂_and_left _ _).1 hflip).1

/-- Names of which those in front have gone are in the order in which they came, if each that is
left came with the move of its number. -/
theorem exists_inSince_of_front {gone names : List Name} {ks : List Nat}
    (hnames : gone ++ (after limits moves).arrivals = names)
    (h : List.Forall₂ (fun n k => n ∈ (after limits moves).arrivals → InSince limits moves n k)
      names ks) (hincreasing : ks.Pairwise (· < ·)) :
    ∃ ks : List Nat, List.Forall₂ (InSince limits moves) (after limits moves).arrivals ks
      ∧ ks.Pairwise (· < ·) := by
  have hleft := List.forall₂_drop gone.length h
  rw [← hnames, List.drop_left] at hleft
  exact ⟨ks.drop gone.length,
    ((List.forall₂_and_left _ _).2 ⟨fun n hn => hn, hleft⟩).imp fun n k hnk => hnk.2 hnk.1,
    hincreasing.drop⟩

/-- **The names are in the order in which they came**, by induction on the moves, with the last one
split off. -/
theorem exists_inSince (limits : FlowLimits) (moves : List Move) :
    ∃ ks : List Nat, List.Forall₂ (InSince limits moves) (after limits moves).arrivals ks
      ∧ ks.Pairwise (· < ·) := by
  induction moves using List.reverseRecOn with
  | nil => exact ⟨[], .nil, .nil⟩
  | append_singleton moves m ih =>
    obtain ⟨ks, hks, hincreasing⟩ := ih
    have hstill := hks.imp fun n k h (hn : n ∈ (after limits (moves ++ [m])).arrivals) =>
      h.concat hn
    have hmove := after_concat limits moves m
    obtain ⟨o, hm, hadmits, heq⟩ | ⟨o, -, -, heq⟩ | ⟨-, -, harrivals, -⟩ :=
      (after limits moves).move_cases m
    · obtain ⟨gone, hgone, -⟩ := ((inStep_after limits moves).takes_accept o).front
      rw [← heq, ← hmove, joined] at hgone
      split at hgone
      · exact exists_inSince_of_front hgone hstill hincreasing
      · next habsent =>
        -- the new name has the number of the last move, which is greater than all before
        refine exists_inSince_of_front hgone
          (List.rel_append hstill (.cons (inSince_last hm hadmits habsent) .nil)) ?_
        refine List.pairwise_append.2 ⟨hincreasing, List.pairwise_singleton _ _, ?_⟩
        rintro k hk j hj
        rw [List.mem_singleton.1 hj]
        exact lt_of_inSince hks k hk
    · exact exists_inSince_of_front (show [] ++ _ = _ by rw [hmove, heq]; rfl) hstill hincreasing
    · exact exists_inSince_of_front (show [] ++ _ = _ by rw [hmove, harrivals]; rfl) hstill
        hincreasing

/-- **Each object in the buffer is the latest of its name** that was put, by induction on the
moves. -/
theorem exists_putAt (limits : FlowLimits) (moves : List Move) :
    ∀ e ∈ (after limits moves).buffer, ∃ k, PutAt limits moves k e.2
      ∧ ∀ j p, k < j → PutAt limits moves j p → p.name ≠ e.1 := by
  induction moves using List.reverseRecOn with
  | nil => exact List.forall_mem_nil _
  | append_singleton moves m ih =>
    -- an object that stays is the latest of its name, unless the last move puts another one
    have hstays : ∀ e ∈ (after limits moves).buffer,
        (∀ o, m = .put o → (after limits moves).Admits o → o.name ≠ e.1) →
          ∃ k, PutAt limits (moves ++ [m]) k e.2
            ∧ ∀ j p, k < j → PutAt limits (moves ++ [m]) j p → p.name ≠ e.1 := by
      intro e he hother
      obtain ⟨k, hput, hlatest⟩ := ih e he
      refine ⟨k, putAt_concat.2 (.inl hput), fun j p hj hp => ?_⟩
      obtain hp | ⟨-, hm, hadmits⟩ := putAt_concat.1 hp
      · exact hlatest j p hj hp
      · exact hother p hm hadmits
    rw [after_concat]
    obtain ⟨o, hm, hadmits, heq⟩ | ⟨o, hm, hrefused, heq⟩ | ⟨hother, hbuffer, -, -⟩ :=
      (after limits moves).move_cases m
    · rintro ⟨n, p⟩ hp
      rw [heq] at hp
      obtain ⟨-, hp⟩ := (((inStep_after limits moves).takes_accept o).entries n p).1 hp
      split at hp
      · -- the object is the one that the last move puts
        subst hp
        refine ⟨moves.length, putAt_concat.2 (.inr ⟨rfl, hm, hadmits⟩), fun j q hj hq => ?_⟩
        exact absurd hq.lt (by simp; omega)
      · next hn =>
        refine hstays (n, p) hp fun q hq _ => ?_
        obtain rfl := Move.put.inj (hm.symm.trans hq)
        exact Ne.symm hn
    · rw [heq]
      refine fun e he => hstays e he fun q hq hadmits => absurd hadmits ?_
      obtain rfl := Move.put.inj (hm.symm.trans hq)
      exact hrefused
    · rw [hbuffer]
      exact fun e he => hstays e he fun q hq _ => absurd hq (hother q)

/-- **The object put last is there** if there is room for any, by induction on the moves. -/
theorem mem_buffer_of_latest (hroom : 1 ≤ limits.bufferCapacity) {k : Nat}
    (hput : PutAt limits moves k o) (hlatest : ∀ j p, PutAt limits moves j p → j ≤ k) :
    (o.name, o) ∈ (after limits moves).buffer := by
  induction moves using List.reverseRecOn with
  | nil => exact absurd hput.lt (Nat.not_lt_zero k)
  | append_singleton moves m ih =>
    rw [after_concat]
    -- an admitted put in the last move is the latest one
    have hlast : ∀ p, m = .put p → (after limits moves).Admits p → moves.length ≤ k :=
      fun p hm hadmits => hlatest _ p (putAt_concat.2 (.inr ⟨rfl, hm, hadmits⟩))
    obtain hput | ⟨-, rfl, hadmits⟩ := putAt_concat.1 hput
    · have hbefore := ih hput fun j p hp => hlatest j p (putAt_concat.2 (.inl hp))
      have hk := hput.lt
      obtain ⟨p, hm, hadmits, -⟩ | ⟨p, -, -, heq⟩ | ⟨-, hbuffer, -, -⟩ :=
        (after limits moves).move_cases m
      · exact absurd (hlast p hm hadmits) (by omega)
      · rwa [heq]
      · rwa [hbuffer]
    · rw [move, if_pos hadmits]
      refine (inStep_after limits moves).mem_accept o ?_ ?_
      · rwa [limits_after]
      · rw [limits_after]
        exact length_arrivals_after limits moves

end FlowControl

/-! ## Controllers at work -/

namespace LiveController

/-- A step of a controller among others is at most one move of it. -/
theorem exists_move_take (c : LiveController) (step : Step) :
    (c.take step).flow = c.flow ∨ ∃ m, (c.take step).flow = c.flow.move m := by
  cases step with
  | network step => exact .inl rfl
  | handle =>
    cases hhead : c.queue.head? with
    | none => exact .inl (congrArg flow (handle_of_none hhead))
    | some i =>
      refine .inr ⟨.receive i, ?_⟩
      rw [take, handle, Mail.next_of_head? hhead]
      rfl
  | accept o =>
    refine .inr ⟨.put o, ?_⟩
    by_cases hadmits : c.flow.Admits o
    · rw [take, FlowControl.move, if_pos hadmits]
      -- whether the object goes out makes no difference to the buffer
      cases hfind : c.flow.held.find? (·.accepts o) with
      | none => rw [accept_of_none hadmits hfind, FlowControl.accept_eq_none hfind]
      | some i => rw [accept_of_some hadmits hfind, FlowControl.accept_eq_some hfind]
    · rw [take, accept_of_not_admits hadmits, FlowControl.move, if_neg hadmits]
  | emit position reaches =>
    rw [take]
    cases ho : c.inFlight[position]? with
    | none => exact .inl (congrArg flow (emit_of_none ho reaches))
    | some o =>
      rw [emit_of_some ho]
      exact .inl rfl
  | addNamespace root reaches =>
    rw [take, addNamespace]
    split
    · exact .inl rfl
    · split
      · exact .inr ⟨.addNamespace root, rfl⟩
      · exact .inl rfl
  | removeNamespace root reaches =>
    rw [take, removeNamespace]
    split
    · split <;> exact .inr ⟨.removeNamespace root, rfl⟩
    · exact .inl rfl

/-- **A controller among others** is a new one after some moves. -/
theorem exists_moves (network : Network) (owner : OwnerId) (listener : ListenerId)
    (limits : FlowLimits) (steps : List Step) :
    ∃ moves, (run steps (start network owner listener limits)).flow
      = FlowControl.after limits moves := by
  induction steps using List.reverseRecOn with
  | nil => exact ⟨[], rfl⟩
  | append_singleton steps step ih =>
    obtain ⟨moves, hmoves⟩ := ih
    rw [run_append, run_cons, run_nil]
    obtain heq | ⟨m, heq⟩ := exists_move_take (run steps (start network owner listener limits)) step
    · exact ⟨moves, heq.trans hmoves⟩
    · exact ⟨moves ++ [m], by rw [heq, hmoves, FlowControl.after_concat]⟩

end LiveController

/-- **A controller of a node**, whatever calls are made after it was opened, is a new one after some
moves. -/
theorem NodeCall.exists_moves {ε : Type} {s : Node} (hdistinct : s.Distinct)
    (hfresh : s.controller? ⟨s.nextId⟩ = none) (face : OwnerId) (limits : FlowLimits)
    (calls : List NodeCall) :
    ∃ d moves, (calls.foldl make (Node.openController (ε := ε) face limits s).2).controller?
        ⟨s.nextId⟩ = some d ∧ d.flow = FlowControl.after limits moves := by
  obtain ⟨parts, -, hlive⟩ :=
    live_run_openController (ε := ε) hdistinct hfresh face limits calls
  obtain ⟨moves, hmoves⟩ :=
    LiveController.exists_moves s.network face ⟨s.nextId⟩ limits parts.flatten
  obtain ⟨d, hd, heq⟩ := Option.map_eq_some_iff.1 hlive
  exact ⟨d, moves, hd, (congrArg LiveController.flow heq).trans hmoves⟩

namespace FlowControl

/-! ## The buffer after the moves -/

/-- What the buffer of a new controller is after some moves. -/
structure Buffered (limits : FlowLimits) (moves : List Move) : Prop
    extends InStep (after limits moves) where
  /-- There are at most as many objects as there is room for. -/
  room : (after limits moves).arrivals.length ≤ limits.bufferCapacity
  /-- The names are in the order in which they came, those that went and came back by the last
  time. -/
  order : ∃ ks : List Nat, List.Forall₂ (InSince limits moves) (after limits moves).arrivals ks
    ∧ ks.Pairwise (· < ·)
  /-- Each object was valid and in a namespace when it was put, and is the latest of its name. -/
  putIn : ∀ e ∈ (after limits moves).buffer, ∃ k, PutAt limits moves k e.2
    ∧ ∀ j p, k < j → PutAt limits moves j p → p.name ≠ e.1
  /-- Each object that was put and admitted was taken in; only names in front gave way to it. -/
  taken : ∀ first o rest, moves = first ++ .put o :: rest → (after limits first).Admits o →
    (after limits first).Takes o (after limits (first ++ [.put o]))
  /-- An object that was refused changed nothing. -/
  refused : ∀ first o rest, moves = first ++ .put o :: rest → ¬ (after limits first).Admits o →
    after limits (first ++ [.put o]) = after limits first
  /-- Whatever else was done left the buffer as it was. -/
  untouched : ∀ first m rest, moves = first ++ m :: rest → (∀ o, m ≠ .put o) →
    (after limits (first ++ [m])).buffer = (after limits first).buffer
      ∧ (after limits (first ++ [m])).arrivals = (after limits first).arrivals
  /-- The object put last is there if there is room for any. -/
  latest : 1 ≤ limits.bufferCapacity → ∀ k o, PutAt limits moves k o →
    (∀ j p, PutAt limits moves j p → j ≤ k) → (o.name, o) ∈ (after limits moves).buffer

/-- **The buffer stays in step.** After any moves of a new controller, for any capacity, its two
lists name the same objects in the order in which they came, and a controller among others is always
a new one after some moves. A node whose controller does not admit an object stays as it was when
that is put. -/
theorem buffer_in_step (limits : FlowLimits) :
    (∀ moves, Buffered limits moves)
      ∧ (∀ network owner listener steps, ∃ moves,
        (LiveController.run steps (.start network owner listener limits)).flow
          = after limits moves)
      ∧ ∀ (s : Node) (id : ControllerId) (d : Controller), s.controller? id = some d →
        ∀ o : ContentObject,
          (∀ e, o.validate = .error e → Node.publish id o s = (.error (.codec e), s))
            ∧ (o.validate = .ok () → d.flow.covers o.name = false →
              Node.publish id o s = (.error (.outsideNamespace o.name), s)) := by
  refine ⟨fun moves => ⟨inStep_after limits moves, length_arrivals_after limits moves,
    exists_inSince limits moves, exists_putAt limits moves, ?_, ?_, ?_,
    fun hroom k o hput hlatest => mem_buffer_of_latest hroom hput hlatest⟩,
    fun network owner listener steps =>
      LiveController.exists_moves network owner listener limits steps, ?_⟩
  · -- an object that is admitted takes its place, and the oldest give way
    rintro first o rest - hadmits
    rw [after_concat, move, if_pos hadmits]
    exact (inStep_after limits first).takes_accept o
  · -- one that is not changes nothing
    rintro first o rest - hrefused
    rw [after_concat, move, if_neg hrefused]
  · -- nor do moves that put none
    rintro first m rest - hother
    rw [after_concat]
    obtain ⟨o, hm, -⟩ | ⟨o, hm, -⟩ | ⟨-, hbuffer, harrivals, -⟩ :=
      (after limits first).move_cases m
    · exact absurd hm (hother o)
    · exact absurd hm (hother o)
    · exact ⟨hbuffer, harrivals⟩
  · -- a node says why it does not admit an object
    intro s id d hd o
    refine ⟨fun e he => ?_, fun hvalid hcovers => ?_⟩
    · simp [Node.publish, he, mapError_error, Action.bind_run]
    · simp [Node.publish, hvalid, hcovers, mapError_ok, Action.bind_run, Node.withController, hd]

/-- With room for one object, the second one that is put takes the place of the first, and one that
lies in no namespace is refused. -/
theorem buffer_in_step_one :
    let root : Name := ⟨[⟨[97]⟩]⟩
    let o (n : Name) : ContentObject := ⟨n, ⟨default, ⟨0⟩, .data, none, none⟩, [1], none⟩
    let first := o (root.child ⟨[49]⟩)
    let second := o (root.child ⟨[50]⟩)
    let other := o ⟨[⟨[98]⟩]⟩
    let d : Controller := ⟨⟨7⟩, ⟨1⟩, after ⟨1, 4⟩ [.addNamespace root]⟩
    let s : Node := { Node.new 8 ⟨0⟩ with controllers := [(⟨1⟩, d)] }
    (after ⟨1, 4⟩ [.addNamespace root, .put first, .put second]).arrivals = [second.name]
      ∧ (second.name, second) ∈ (after ⟨1, 4⟩ [.addNamespace root, .put first, .put second]).buffer
      ∧ Node.publish ⟨1⟩ other s = (.error (.outsideNamespace other.name), s) := by
  intro root o first second other d s
  obtain ⟨hbuffered, -, hrefused⟩ := buffer_in_step ⟨1, 4⟩
  have hput : PutAt ⟨1, 4⟩ [.addNamespace root, .put first, .put second] 2 second := by
    refine ⟨rfl, ?_⟩
    decide +kernel
  -- the second object is the latest of its name, and there is room for one
  have hlatest := (hbuffered [.addNamespace root, .put first, .put second]).latest (by decide) 2
    second hput fun j p hp => Nat.le_of_lt_succ hp.lt
  exact ⟨by decide +kernel, hlatest,
    (hrefused s ⟨1⟩ d rfl other).2 (by decide +kernel) (by decide +kernel)⟩

end FlowControl

end NamedContent
