import Mathlib.Data.List.Sort
import NamedContent.Proofs.Flow.Bookkeeping
import NamedContent.Proofs.Flow.Buffer

/-! # The interests that are held

A controller holds the interests that nothing has answered yet, up to a limit. The responder puts
them behind each other, and an object that is put takes one of them out, wherever it stands. They
are always in the order in which they came. An interest that is to be held makes room for itself
and is held then, so that one is held under a limit of none too: the limit counts as one at least.

* `FlowControl.move_held`: what a move does with the held interests
* `FlowControl.holdIn_eq_drop`: the newest ones are held
* `FlowControl.Holding`: what is held after the moves
* `LiveController.sublist_arrivals`: the order in which the interests came to the controller
* `FlowControl.held_at_most`: the main theorem -/

namespace NamedContent

namespace FlowControl

variable {c : FlowControl} {limits : FlowLimits} {moves : List Move} {held : List Interest}
  {i : Interest} {limit : Nat}

/-! ## One move -/

/-- **The newest interests are held**, and at least one. -/
theorem holdIn_eq_drop (h : held.length ≤ max 1 limit) (i : Interest) :
    holdIn limit held i = (held ++ [i]).drop (held.length + 1 - max 1 limit) := by
  rw [holdIn]
  split
  · cases held with
    | nil => rw [show [].length + 1 - max 1 limit = 0 by rw [List.length_nil]; omega]; rfl
    | cons first rest =>
      rw [show (first :: rest).length + 1 - max 1 limit = 1 by
        rw [List.length_cons] at *; omega]
      rfl
  · rw [show held.length + 1 - max 1 limit = 0 by omega, List.drop_zero]

/-- One more interest is held within the limit, or in place of the oldest. -/
theorem length_holdIn_le (h : held.length ≤ max 1 limit) (i : Interest) :
    (holdIn limit held i).length ≤ max 1 limit := by
  rw [holdIn_eq_drop h, List.length_drop, List.length_append, List.length_singleton]
  omega

/-- The interest that a move brings. -/
def Move.received : Move → List Interest
  | .receive i => [i]
  | _ => []

/-- **What a move does with the held interests**: nothing, or one comes that has no answer, or an
object that is put takes one out. -/
theorem move_held (c : FlowControl) (m : Move) :
    (c.move m).held = c.held
      ∨ (∃ i, m = .receive i ∧ i.select c.objects = none
        ∧ (c.move m).held = holdIn c.limits.maxHeld c.held i)
      ∨ ∃ o i, m = .put o ∧ c.Admits o ∧ c.held.find? (·.accepts o) = some i
        ∧ (c.move m).held = c.held.erase i := by
  cases m with
  | receive i =>
    cases hselect : i.select c.objects with
    | none => exact .inr (.inl ⟨i, rfl, hselect, by rw [move, receive_eq_none hselect]⟩)
    | some o => exact .inl (by rw [move, receive_eq_some hselect])
  | put o =>
    rw [move]
    split
    · next hadmits =>
      cases hfind : c.held.find? (·.accepts o) with
      | none => exact .inl (by rw [accept_eq_none hfind, evict_held, keep_held])
      | some i => exact .inr (.inr ⟨o, i, rfl, hadmits, hfind, by rw [accept_eq_some hfind]⟩)
    · exact .inl rfl
  | addNamespace root => exact .inl rfl
  | removeNamespace root => exact .inl rfl

/-! ## All moves -/

/-- The interests that the moves bring, in their order. -/
def received (moves : List Move) : List Interest := moves.flatMap Move.received

/-- What the last move brings is received last. -/
theorem received_concat (moves : List Move) (m : Move) :
    received (moves ++ [m]) = received moves ++ m.received := by
  rw [received, List.flatMap_append, List.flatMap_singleton]
  rfl

/-- No more interests are held than the limit says, or one. By induction on the moves. -/
theorem length_held_le (limits : FlowLimits) (moves : List Move) :
    (after limits moves).held.length ≤ max 1 limits.maxHeld := by
  induction moves using List.reverseRecOn with
  | nil => exact Nat.zero_le _
  | append_singleton moves m ih =>
    rw [after_concat]
    obtain heq | ⟨i, -, -, heq⟩ | ⟨o, i, -, -, -, heq⟩ := (after limits moves).move_held m
    · rwa [heq]
    · rw [heq, limits_after]
      exact length_holdIn_le ih i
    · rw [heq]
      exact List.length_erase_le.trans ih

/-- The held interests are in the order of the moves that brought them. By induction on the moves,
with the last one split off. -/
theorem sublist_received (limits : FlowLimits) (moves : List Move) :
    (after limits moves).held.Sublist (received moves) := by
  induction moves using List.reverseRecOn with
  | nil => exact List.Sublist.slnil
  | append_singleton moves m ih =>
    rw [after_concat, received_concat]
    obtain heq | ⟨i, rfl, -, heq⟩ | ⟨o, i, -, -, -, heq⟩ := (after limits moves).move_held m
    · rw [heq]
      exact ih.trans (List.sublist_append_left ..)
    · rw [heq, holdIn_eq_drop ((limits_after limits moves).symm ▸ length_held_le limits moves)]
      exact (List.drop_sublist ..).trans (ih.append_right _)
    · rw [heq]
      exact (List.erase_sublist.trans ih).trans (List.sublist_append_left ..)

/-- What a new controller holds after some moves. -/
structure Holding (limits : FlowLimits) (moves : List Move) : Prop where
  /-- As many interests as the limit says are held at most, or one. -/
  room : (after limits moves).held.length ≤ max 1 limits.maxHeld
  /-- They are in the order in which they came. -/
  order : (after limits moves).held.Sublist (received moves)
  /-- One that comes without an answer is held; the oldest one gives way if there is no room. -/
  newest : ∀ i, i.select (after limits moves).objects = none →
    (after limits (moves ++ [.receive i])).held
      = ((after limits moves).held ++ [i]).drop
          ((after limits moves).held.length + 1 - max 1 limits.maxHeld)

/-- What is held after all moves. -/
theorem holding (limits : FlowLimits) (moves : List Move) : Holding limits moves where
  room := length_held_le limits moves
  order := sublist_received limits moves
  newest i hselect := by
    rw [after_concat, move, receive_eq_none hselect, limits_after]
    exact holdIn_eq_drop (length_held_le limits moves) i

end FlowControl

/-! ## Controllers at work -/

namespace LiveController

/-- Elements that stand with increasing places in a list are in the order of the list. -/
theorem sublist_of_places {α : Type} {came : List α} {placed : List (α × Nat)}
    (hplaces : placed ⊆ came.zipIdx) (hincreasing : placed.Pairwise fun a b => a.2 < b.2) :
    (placed.map (·.1)).Sublist came := by
  have hnodup : placed.Nodup := hincreasing.imp fun hlt heq => absurd (heq ▸ hlt) (Nat.lt_irrefl _)
  have hsorted : came.zipIdx.Pairwise fun a b => a.2 < b.2 :=
    List.pairwise_map.1 (List.zipIdx_map_snd .. ▸ List.pairwise_lt_range')
  have : Std.Antisymm fun a b : α × Nat => a.2 < b.2 :=
    ⟨fun a b hab hba => absurd hab (Nat.lt_asymm hba)⟩
  have hsub := List.sublist_of_subperm_of_pairwise (List.subperm_of_subset hnodup hplaces)
    hincreasing hsorted
  simpa using hsub.map (·.1)

/-- **The held interests are in the order in which they came** to the controller, and those in the
queue came after them. -/
theorem sublist_arrivals {c : LiveController} (hheld : c.flow.held = [])
    (hinFlight : c.inFlight = []) (steps : List Step) :
    ((run steps c).flow.held ++ (run steps c).queue).Sublist (c.queue ++ delivered steps c) := by
  have h := matches_ledger hheld hinFlight steps
  rw [← h.held, ← h.waiting, ← List.map_append, ← came_ledger]
  refine sublist_of_places (fun a ha => h.places.subset ?_) h.ordered
  rcases List.mem_append.1 ha with ha | ha <;> simp [Ledger.places, ha]

end LiveController

namespace FlowControl

/-- **What a controller holds at most.** After any moves of a new controller, for any limit, as many
interests as the limit says are held at most, and one if it says none; they are in the order in
which they came. So it is for a controller among others, after any steps of it and of them. -/
theorem held_at_most (limits : FlowLimits) :
    (∀ moves, Holding limits moves)
      ∧ ∀ network owner listener steps,
        let c := LiveController.start network owner listener limits
        (c.run steps).flow.held.length ≤ max 1 limits.maxHeld
          ∧ ((c.run steps).flow.held ++ (c.run steps).queue).Sublist
            (c.queue ++ LiveController.delivered steps c) := by
  refine ⟨holding limits, fun network owner listener steps => ⟨?_, ?_⟩⟩
  · obtain ⟨moves, hmoves⟩ := LiveController.exists_moves network owner listener limits steps
    rw [hmoves]
    exact length_held_le limits moves
  · exact LiveController.sublist_arrivals rfl rfl steps

end FlowControl

/-- **A limit of none is not kept.** A configuration that says that no interest is held is allowed,
and its controller holds one. -/
theorem Client.holds_one_over_limit :
    let config : Config := { maxHeldInterests := 0 }
    let client : Client := ⟨⟨7⟩, .ofSeed [], .ed25519, config, 100⟩
    let root : Name := ⟨[⟨[97]⟩]⟩
    let made := Node.openController (ε := Empty) client.face client.flowLimits (Node.new 8 ⟨0⟩)
    let calls : List NodeCall :=
      [.addNamespace ⟨1⟩ root, .network (.beginGet (.below root) true), .settle]
    let held := ((calls.foldl NodeCall.make made.2).controller? ⟨1⟩).map (·.flow.held)
    config.validate = .ok () ∧ held = some [.below root]
      ∧ ¬ (held.getD []).length ≤ config.maxHeldInterests.toNat := by
  decide +kernel

end NamedContent
