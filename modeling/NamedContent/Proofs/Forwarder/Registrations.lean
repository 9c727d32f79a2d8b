import NamedContent.Proofs.Forwarder.Operations

/-! # What is registered at the forwarder

Filters and standing interests change only when one is set or expressed, which happens once for
each, or taken away.

* `Network.setFilter_cases`, `Network.cancelFilter_cases`: the calls on filters
* `Forwarder.express_cases`, `Network.cancelInterest_cases`: the calls on standing interests
* `Network.registered_take`: every other step leaves both
* `Network.filters_take_sublist`: every step but one that sets a filter adds none -/

namespace NamedContent

namespace Forwarder

variable {f : Forwarder}

/-- An object that arrives changes no standing interest. -/
@[simp] theorem receive_standing (o : ContentObject) (d : Digest) (f : Forwarder) :
    (f.receive o d).1.standing = f.standing := by
  rw [receive]
  split <;> rfl

/-- A get that begins changes no standing interest. -/
@[simp] theorem start_standing (i : Interest) (wait : Bool) (f : Forwarder) :
    (f.start i wait).2.1.standing = f.standing := by
  rw [start]
  split
  · rfl
  · split <;> rfl

/-- Looking for the result of a get concerns no registration. -/
theorem wake_registered (id : Nat) (f : Forwarder) :
    (f.wake id).2.filters = f.filters ∧ (f.wake id).2.standing = f.standing := by
  rw [wake]
  split
  · exact ⟨rfl, rfl⟩
  · split <;> exact ⟨rfl, rfl⟩

/-- A get whose deadline comes changes neither filters nor standing interests. -/
theorem expire_registered (id : Nat) (f : Forwarder) :
    (f.expire id).2.filters = f.filters ∧ (f.expire id).2.standing = f.standing := by
  have hwake := f.wake_registered id
  rw [expire]
  split <;> next h =>
    rw [h] at hwake
    exact hwake

end Forwarder

/-- Whether a step is a call on filters or standing interests. -/
def NetworkStep.Registers : NetworkStep → Prop
  | .setFilter _ | .cancelFilter _ | .express _ | .cancelInterest _ => True
  | _ => False

namespace Network

variable {n : Network} {g h : InterestFilter}

/-! ## Filters -/

/-- **A filter is set** once, and only at an open forwarder. -/
theorem setFilter_cases (g : InterestFilter) (n : Network) :
    (setFilter g n).2 = n
        ∧ (n.forwarder.closed = true ∨ g ∈ n.forwarder.filters)
      ∨ n.forwarder.closed = false ∧ g ∉ n.forwarder.filters
        ∧ (setFilter g n).2 = { n with
          forwarder := { n.forwarder with filters := n.forwarder.filters ++ [g] } } := by
  rw [setFilter, step, Forwarder.setFilter]
  obtain hclosed | hopen := Bool.eq_false_or_eq_true n.forwarder.closed
  · simp [Forwarder.ensureOpen, hclosed, bind, Except.bind]
  · rw [Forwarder.ensureOpen_eq_ok_iff.2 hopen]
    by_cases hg : g ∈ n.forwarder.filters <;>
      simp [hg, hopen, bind, Except.bind, pure, Except.pure]

/-- **A filter is taken away**, at an open forwarder. -/
theorem cancelFilter_cases (g : InterestFilter) (n : Network) :
    n.forwarder.closed = true ∧ (cancelFilter g n).2 = n
      ∨ n.forwarder.closed = false ∧ (cancelFilter g n).2 = { n with
        forwarder := { n.forwarder with filters := n.forwarder.filters.filter (· ≠ g) } } := by
  rw [cancelFilter, step, Forwarder.cancelFilter]
  obtain hclosed | hopen := Bool.eq_false_or_eq_true n.forwarder.closed
  · simp [Forwarder.ensureOpen, hclosed, bind, Except.bind]
  · rw [Forwarder.ensureOpen_eq_ok_iff.2 hopen]
    exact .inr ⟨hopen, rfl⟩

/-- Setting a filter adds it to the others. -/
theorem mem_filters_setFilter (hopen : n.forwarder.closed = false) :
    h ∈ (setFilter g n).2.forwarder.filters ↔ h = g ∨ h ∈ n.forwarder.filters := by
  obtain ⟨heq, hclosed | hg⟩ | ⟨-, -, heq⟩ := setFilter_cases g n
  · exact absurd (hopen.symm.trans hclosed) (by simp)
  · rw [heq]
    exact ⟨.inr, fun hmem => hmem.elim (fun hhg => hhg ▸ hg) id⟩
  · rw [heq]
    exact List.mem_append.trans (or_comm.trans (or_congr_left List.mem_singleton))

/-- No filter is there twice. -/
theorem nodup_setFilter (hnodup : n.forwarder.filters.Nodup) :
    (setFilter g n).2.forwarder.filters.Nodup := by
  obtain ⟨heq, -⟩ | ⟨-, hg, heq⟩ := setFilter_cases g n <;> rw [heq]
  · exact hnodup
  · refine List.nodup_append.2 ⟨hnodup, by simp, fun a ha b hb => ?_⟩
    rw [List.mem_singleton.1 hb]
    exact fun hab => hg (hab ▸ ha)

/-- Taking a filter away leaves the others. -/
theorem mem_filters_cancelFilter (hopen : n.forwarder.closed = false) :
    h ∈ (cancelFilter g n).2.forwarder.filters ↔ h ∈ n.forwarder.filters ∧ h ≠ g := by
  obtain ⟨hclosed, -⟩ | ⟨-, heq⟩ := cancelFilter_cases g n
  · exact absurd (hopen.symm.trans hclosed) (by simp)
  · rw [heq]
    exact List.mem_filter.trans (and_congr_right fun _ => decide_eq_true_iff)

/-- Taking a filter away adds none, also if the forwarder is shut down. -/
theorem cancelFilter_sublist (g : InterestFilter) (n : Network) :
    (cancelFilter g n).2.forwarder.filters.Sublist n.forwarder.filters := by
  obtain ⟨-, heq⟩ | ⟨-, heq⟩ := cancelFilter_cases g n
  · simp [heq]
  · rw [heq]
    exact List.filter_sublist

/-- Setting a filter shuts no forwarder down. -/
theorem closed_setFilter (g : InterestFilter) (n : Network) :
    (setFilter g n).2.forwarder.closed = n.forwarder.closed := by
  obtain ⟨heq, -⟩ | ⟨-, -, heq⟩ := setFilter_cases g n <;> rw [heq]

/-- Taking a filter away shuts no forwarder down. -/
theorem closed_cancelFilter (g : InterestFilter) (n : Network) :
    (cancelFilter g n).2.forwarder.closed = n.forwarder.closed := by
  obtain ⟨-, heq⟩ | ⟨-, heq⟩ := cancelFilter_cases g n <;> rw [heq]

/-- Setting a filter does not touch the standing interests. -/
theorem setFilter_standing (g : InterestFilter) (n : Network) :
    (setFilter g n).2.forwarder.standing = n.forwarder.standing := by
  obtain ⟨heq, -⟩ | ⟨-, -, heq⟩ := setFilter_cases g n <;> rw [heq]

/-- Taking a filter away does not touch the standing interests. -/
theorem cancelFilter_standing (g : InterestFilter) (n : Network) :
    (cancelFilter g n).2.forwarder.standing = n.forwarder.standing := by
  obtain ⟨-, heq⟩ | ⟨-, heq⟩ := cancelFilter_cases g n <;> rw [heq]

/-! ## Standing interests -/

/-- **A standing interest is taken back**, at an open forwarder. -/
theorem cancelInterest_cases (s : StandingInterest) (n : Network) :
    n.forwarder.closed = true ∧ (cancelInterest s n).2 = n
      ∨ n.forwarder.closed = false ∧ (cancelInterest s n).2 = { n with
        forwarder := { n.forwarder with standing := n.forwarder.standing.filter (· ≠ s) } } := by
  rw [cancelInterest, step, Forwarder.cancelInterest]
  obtain hclosed | hopen := Bool.eq_false_or_eq_true n.forwarder.closed
  · simp [Forwarder.ensureOpen, hclosed, bind, Except.bind]
  · rw [Forwarder.ensureOpen_eq_ok_iff.2 hopen]
    exact .inr ⟨hopen, rfl⟩

/-! ## All steps -/

/-- A put changes neither filters nor standing interests. -/
theorem put_registered (o : ContentObject) (n : Network) :
    (put o n).2.forwarder.filters = n.forwarder.filters
      ∧ (put o n).2.forwarder.standing = n.forwarder.standing := by
  rw [put]
  cases h : n.forwarder.put o with
  | error e => exact ⟨rfl, rfl⟩
  | ok r =>
    obtain ⟨-, d, -, rfl⟩ := Forwarder.exists_of_put_eq_ok h
    exact ⟨by simp, by simp⟩

/-- **Steps of other kinds leave what is registered.** -/
theorem registered_take {step : NetworkStep} (hstep : ¬ step.Registers) :
    (n.take step).2.forwarder.filters = n.forwarder.filters
      ∧ (n.take step).2.forwarder.standing = n.forwarder.standing := by
  cases step with
  | put o =>
    rw [take, ofAction_snd]
    exact put_registered o n
  | beginGet i wait =>
    rw [take, ofAction_snd, beginGet]
    cases h : n.forwarder.beginGet i wait with
    | error e => exact ⟨rfl, rfl⟩
    | ok r =>
      obtain ⟨-, -, rfl⟩ := Forwarder.exists_of_beginGet_eq_ok h
      exact ⟨by simp, by simp⟩
  | wake id =>
    have htake : (n.take (.wake id)).2 = (n.wake id).2 := by
      rw [take]
      split <;> next h => rw [h]
    rw [htake]
    exact n.forwarder.wake_registered id
  | expire id =>
    rw [take, ofAction_snd]
    exact n.forwarder.expire_registered id
  | close => exact ⟨rfl, rfl⟩
  | takeInterest l => exact ⟨rfl, rfl⟩
  | takeObject l => exact ⟨rfl, rfl⟩
  | setFilter g | cancelFilter g | express s | cancelInterest s => exact absurd trivial hstep

/-- **Only setting a filter adds one.** -/
theorem filters_take_sublist {step : NetworkStep} (hset : ∀ g, step ≠ .setFilter g) :
    (n.take step).2.forwarder.filters.Sublist n.forwarder.filters := by
  by_cases hregisters : step.Registers
  · cases step with
    | setFilter g => exact absurd rfl (hset g)
    | cancelFilter g =>
      rw [take, ofAction_snd]
      exact cancelFilter_sublist g n
    | express s =>
      rw [take, ofAction_snd, express]
      cases h : n.forwarder.express s with
      | error e => exact .refl _
      | ok r => obtain ⟨-, rfl⟩ | ⟨-, hit, store, -, rfl⟩ := Forwarder.express_cases h <;> simp
    | cancelInterest s =>
      rw [take, ofAction_snd]
      obtain ⟨-, heq⟩ | ⟨-, heq⟩ := cancelInterest_cases s n <;> simp [heq]
    | _ => exact hregisters.elim
  · simp [(registered_take hregisters).1]

/-- Only the shutdown shuts the forwarder down. -/
theorem closed_take {step : NetworkStep} (hclose : step ≠ .close) :
    (n.take step).2.forwarder.closed = n.forwarder.closed := by
  cases step with
  | close => exact absurd rfl hclose
  | takeInterest k => rfl
  | _ =>
    refine (advances_take (l := ⟨0⟩) n ?_).forwarder.closed
    trivial

end Network

end NamedContent
