import Mathlib.Data.List.Chain
import Mathlib.Data.List.Perm.Basic
import NamedContent.Proofs.Node.Minting

/-! # Times minted by calls that overlap

A call that mints a time reads the clock first, and later exchanges the last minted time for the
new one in one step. Between the two other calls may take theirs. The time that the call returns it
works out once more, from its reading and from what the exchange found. As long as the times fit
into a version, each exchange sets the last minted time forward, so that the times returned and the
versions of a name made of them increase in the order of the exchanges, however the clock runs.

* `Minter`, `Minter.Step`, `Minter.run`: the last minted time and the calls underway
* `Minter.Call`, `Minter.calls`: the calls that come to their end in a run
* `Minter.Increasing`: what a run keeps
* `Minter.versions_increase`: minted versions never repeat or go back -/

namespace NamedContent

instance : Trans (fun s t : Timestamp => s < t) (fun s t : Timestamp => s < t)
    (fun s t : Timestamp => s < t) :=
  ⟨fun h h' => UInt64.lt_trans h h'⟩

/-- A time minted is at most one tick past the last one, or what the clock reads. -/
theorem Timestamp.mint_le {reading last : Timestamp} {bound : Nat}
    (hreading : reading.ticks.toNat ≤ bound) (hlast : last.ticks.toNat ≤ bound) :
    (mint reading last).ticks.toNat ≤ bound + 1 := by
  rcases mint_cases reading last with h | h
  · rw [h]
    omega
  · rw [h, next]
    split
    · omega
    · have hone : (1 : UInt64).toNat = 1 := rfl
      rw [UInt64.toNat_add]
      omega

/-- The last minted time, and the calls that have read the clock without exchanging it yet. -/
structure Minter where
  /-- The last minted time. -/
  last : Timestamp
  /-- What the calls underway have read. -/
  waiting : List Timestamp

namespace Minter

/-! ## Calls step by step -/

/-- A step of one of the calls. -/
inductive Step where
  /-- A call begins: it reads the clock. -/
  | read (reading : Timestamp)
  /-- The call underway at a position exchanges the last minted time, and is over. -/
  | exchange (position : Nat)

/-- A call that is over. -/
structure Call where
  /-- What it has read from the clock. -/
  reading : Timestamp
  /-- The last minted time that its exchange found. -/
  found : Timestamp
  /-- The last minted time that its exchange left. -/
  left : Timestamp

/-- The time that a call returns. -/
def Call.value (call : Call) : Timestamp := .mint call.reading call.found

/-- Nothing is minted, and no call is underway. -/
def start : Minter := ⟨⟨0⟩, []⟩

variable {m : Minter} {steps : List Step} {call : Call} {bound : Nat}

/-- The state after a step. -/
def take (m : Minter) : Step → Minter
  | .read reading => { m with waiting := m.waiting ++ [reading] }
  | .exchange position =>
    match m.waiting[position]? with
    | none => m
    | some reading => ⟨.mint reading m.last, m.waiting.eraseIdx position⟩

/-- The call that a step ends. -/
def ended (m : Minter) : Step → List Call
  | .read _ => []
  | .exchange position =>
    m.waiting[position]?.toList.map fun reading =>
      ⟨reading, m.last, (m.take (.exchange position)).last⟩

/-- The state after the steps of a run. -/
def run (steps : List Step) (m : Minter) : Minter := steps.foldl take m

/-- The calls that come to their end in a run, in the order of their exchanges. -/
def calls : List Step → Minter → List Call
  | [], _ => []
  | step :: rest, m => m.ended step ++ calls rest (m.take step)

/-- What the calls of a run read from the clock. -/
def readings (steps : List Step) : List Timestamp :=
  steps.filterMap fun
    | .read reading => some reading
    | .exchange _ => none

/-- A call that no other comes between mints as a node does. -/
theorem calls_alone {ε : Type} (s : Node) :
    (calls [.read s.clock, .exchange 0] ⟨s.lastMinted, []⟩).map
        (fun call => ((.ok call.value : Except ε Timestamp), call.left))
      = [((Node.mint s).1, (Node.mint s : Except ε Timestamp × Node).2.lastMinted)] := rfl

/-! ## What a step does -/

/-- Without a call at the position nothing happens. -/
theorem exchange_of_none {position : Nat} (h : m.waiting[position]? = none) :
    m.take (.exchange position) = m ∧ m.ended (.exchange position) = [] := by
  rw [take, ended, h]
  exact ⟨rfl, rfl⟩

/-- An exchange ends the call at its position, and leaves the time that the call returns. -/
theorem exchange_of_some {position : Nat} {reading : Timestamp}
    (h : m.waiting[position]? = some reading) :
    m.take (.exchange position) = ⟨.mint reading m.last, m.waiting.eraseIdx position⟩
      ∧ m.ended (.exchange position) = [⟨reading, m.last, .mint reading m.last⟩] := by
  have htake : m.take (.exchange position)
      = ⟨.mint reading m.last, m.waiting.eraseIdx position⟩ := by
    rw [take, h]
  refine ⟨htake, ?_⟩
  rw [ended, htake, h]
  rfl

/-- The call that an exchange ends and those that are left are the calls before it. -/
theorem perm_of_exchange {position : Nat} {reading : Timestamp}
    (h : m.waiting[position]? = some reading) (steps : List Step) :
    (reading :: (m.waiting.eraseIdx position ++ readings steps)).Perm
      (m.waiting ++ readings (.exchange position :: steps)) := by
  obtain ⟨hlt, hget⟩ := List.getElem?_eq_some_iff.1 h
  rw [← hget]
  exact (List.getElem_cons_eraseIdx_perm hlt).append_right _

/-- A call returns the time that its exchange leaves, although it works it out itself. -/
theorem value_eq_left (h : call ∈ calls steps m) : call.value = call.left := by
  induction steps generalizing m with
  | nil => exact absurd h List.not_mem_nil
  | cons step rest ih =>
    rcases List.mem_append.1 h with h | h
    · cases step with
      | read reading => exact absurd h List.not_mem_nil
      | exchange position =>
        cases hat : m.waiting[position]? with
        | none =>
          rw [(exchange_of_none hat).2] at h
          exact absurd h List.not_mem_nil
        | some reading =>
          rw [(exchange_of_some hat).2, List.mem_singleton] at h
          rw [h]
          rfl
    · exact ih h

/-- No call is lost: those that are over and those underway are the ones that have begun. -/
theorem perm_readings (steps : List Step) (m : Minter) :
    ((calls steps m).map Call.reading ++ (run steps m).waiting).Perm
      (m.waiting ++ readings steps) := by
  induction steps generalizing m with
  | nil =>
    rw [readings, List.filterMap_nil, List.append_nil]
    exact List.Perm.refl _
  | cons step rest ih =>
    have hrest := ih (m.take step)
    cases step with
    | read reading =>
      -- a call begins: its reading waits from now on
      rw [take, List.append_assoc] at hrest
      exact hrest
    | exchange position =>
      rw [calls, run, List.foldl_cons]
      -- a call ends: its reading is one of those that waited
      cases hat : m.waiting[position]? with
      | none =>
        rw [(exchange_of_none hat).1] at hrest ⊢
        rw [(exchange_of_none hat).2]
        exact hrest
      | some reading =>
        rw [(exchange_of_some hat).1] at hrest ⊢
        rw [(exchange_of_some hat).2]
        exact (hrest.cons reading).trans (perm_of_exchange hat rest)

/-! ## What a run keeps -/

/-- Whether calls return times that increase from the last minted time on and stay within the limit
of versions. -/
structure Increasing (m : Minter) (ended : List Call) : Prop where
  chain : (m.last :: ended.map Call.value).IsChain (· < ·)
  below : ∀ call ∈ ended, call.value.ticks.toNat < versionLimit

/-- **The times that calls return increase in the order of the exchanges**, if there is room for as
many ticks as calls between the greatest time and the limit of versions. Each exchange takes one
call and at most one tick of that room. -/
theorem increasing_calls (hlast : m.last.ticks.toNat ≤ bound)
    (hreadings : ∀ t ∈ m.waiting ++ readings steps, t.ticks.toNat ≤ bound)
    (hroom : bound + (m.waiting ++ readings steps).length < versionLimit) :
    m.Increasing (calls steps m) := by
  induction steps generalizing m bound with
  | nil => exact ⟨.singleton _, fun _ h => absurd h List.not_mem_nil⟩
  | cons step rest ih =>
    cases step with
    | read reading =>
      -- the reading moves from the calls to come to those underway
      have hpending : (m.take (.read reading)).waiting ++ readings rest
          = m.waiting ++ readings (.read reading :: rest) := List.append_assoc ..
      rw [← hpending] at hreadings hroom
      obtain ⟨hchain, hbelow⟩ := ih (m := m.take (.read reading)) hlast hreadings hroom
      exact ⟨hchain, hbelow⟩
    | exchange position =>
      cases hat : m.waiting[position]? with
      | none =>
        rw [calls, (exchange_of_none hat).1, (exchange_of_none hat).2]
        exact ih hlast hreadings hroom
      | some reading =>
        -- the bound rises by a tick at most while the calls to come are one fewer
        have hpending := perm_of_exchange hat rest
        have hreading : reading.ticks.toNat ≤ bound :=
          hreadings reading (hpending.subset List.mem_cons_self)
        have hmint := Timestamp.mint_le hreading hlast
        have hless : bound + 1 + (m.waiting.eraseIdx position ++ readings rest).length
            < versionLimit := by
          rw [← hpending.length_eq, List.length_cons] at hroom
          omega
        have hrest : (⟨.mint reading m.last, m.waiting.eraseIdx position⟩ : Minter).Increasing
            (calls rest ⟨.mint reading m.last, m.waiting.eraseIdx position⟩) :=
          ih hmint (fun t ht => Nat.le_succ_of_le
            (hreadings t (hpending.subset (List.mem_cons_of_mem _ ht)))) hless
        have hlimit : (Timestamp.mint reading m.last).ticks.toNat < versionLimit := by omega
        rw [calls, (exchange_of_some hat).1, (exchange_of_some hat).2]
        refine ⟨hrest.chain.cons_cons (Timestamp.lt_mint hlimit), fun call hcall => ?_⟩
        rcases List.mem_cons.1 hcall with rfl | hcall
        · exact hlimit
        · exact hrest.below call hcall

/-- The same from the start on, where there is nothing before the first reading. -/
theorem increasing_calls_start
    (hroom : ∀ t ∈ readings steps, t.ticks.toNat + (readings steps).length < versionLimit) :
    start.Increasing (calls steps start) := by
  -- without readings there are no calls
  have hcount : (readings steps).length < versionLimit := by
    cases hreadings : readings steps with
    | nil => decide
    | cons t rest =>
      rw [← hreadings]
      have ht := hroom t (hreadings ▸ List.mem_cons_self)
      omega
  have hreadings : ∀ t ∈ start.waiting ++ readings steps,
      t.ticks.toNat ≤ versionLimit - 1 - (readings steps).length := by
    intro t ht
    have hroom := hroom t ht
    omega
  have htotal : versionLimit - 1 - (readings steps).length
      + (start.waiting ++ readings steps).length < versionLimit := by
    show _ + (readings steps).length < _
    omega
  exact increasing_calls (Nat.zero_le _) hreadings htotal

/-! ## Versions -/

/-- **Minted versions never repeat or go back.** Any number of calls mint times, each reading a
clock that may run as it likes and making its exchange later, with the steps of the calls in any
order. As long as the greatest reading and the number of calls together stay below the limit of
versions, the times returned increase in the order of the exchanges, and with them the versions of
an unversioned name made of them, so that no two of these are the same. Each time is at least what
its call has read, and is what its exchange leaves as the last minted time. The calls that are over
and those still underway are all that have begun. -/
theorem versions_increase (root : Name) (hroot : root.isVersioned = false) (steps : List Step)
    (hroom : ∀ t ∈ readings steps, t.ticks.toNat + (readings steps).length < versionLimit) :
    ((calls steps start).map Call.value).Pairwise (· < ·)
      ∧ (∀ call ∈ calls steps start, call.reading ≤ call.value ∧ call.value = call.left)
      ∧ ((calls steps start).map fun call => root.versioned call.value).Pairwise (· < ·)
      ∧ ((calls steps start).map fun call => root.versioned call.value).Nodup
      ∧ ((calls steps start).map Call.reading ++ (run steps start).waiting).Perm
          (readings steps) := by
  have hincreasing := increasing_calls_start hroom
  have hvalues : ((calls steps start).map Call.value).Pairwise (· < ·) :=
    hincreasing.chain.pairwise.tail
  have hnames : ((calls steps start).map fun call => root.versioned call.value).Pairwise
      (· < ·) := by
    rw [List.pairwise_map] at hvalues ⊢
    refine hvalues.imp_of_mem fun {a b} _ hb hlt => ?_
    rw [Name.versioned, Name.versioned, hroot]
    exact Name.withVersion_lt_withVersion root hlt (hincreasing.below b hb)
  exact ⟨hvalues, fun call hcall =>
      ⟨UInt64.le_iff_toNat_le.2 (Timestamp.reading_le_mint _ _), value_eq_left hcall⟩,
    hnames, hnames.imp Std.ne_of_lt, perm_readings steps start⟩

/-- Three calls overlap, the clock goes back between the first two readings and stands still before
the third: the second call is the first to end, and the last one is bumped past the first. -/
theorem versions_increase_overlapping :
    let steps : List Step :=
      [.read ⟨100⟩, .read ⟨5⟩, .exchange 1, .read ⟨5⟩, .exchange 0, .exchange 0]
    (calls steps start).map Call.value = [⟨5⟩, ⟨100⟩, ⟨101⟩]
      ∧ ((calls steps start).map fun call => Name.versioned ⟨[⟨[97]⟩]⟩ call.value).Pairwise (· < ·)
      ∧ ((calls steps start).map fun call => Name.versioned ⟨[⟨[97]⟩]⟩ call.value).Nodup := by
  intro steps
  have hroom : ∀ t ∈ readings steps, t.ticks.toNat + (readings steps).length < versionLimit := by
    decide
  obtain ⟨-, -, hnames, hdistinct, -⟩ := versions_increase ⟨[⟨[97]⟩]⟩ rfl steps hroom
  exact ⟨rfl, hnames, hdistinct⟩

end Minter

end NamedContent
