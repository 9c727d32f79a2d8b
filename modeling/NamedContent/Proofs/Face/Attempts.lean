import NamedContent.Proofs.Face.Calls

/-! # Which attempts a call makes

A call goes on from attempt to attempt while it is interrupted, and ends in one of three ways: an
attempt is not interrupted, the face is seen to be cancelled before an attempt, or the policy allows
no attempt after one that was interrupted. The policy is asked first: a face that is cancelled
during the last attempt allowed does not change how the call ends.

The policy is asked only after an attempt, and by 32-bit numbers. So one attempt is made under a
limit of none too, and the greatest limit is none at all, because the number after it is zero.

* `RetryPolicy.limit`: how many attempts a policy allows in fact
* `Attempts.nth`, `Attempts.Interrupted`, `Attempts.Cancelled`: what befalls the attempts
* `Attempts.Made`: which attempts are made
* `Attempts.Ending`: the three ways to end
* `Attempts.ending_retry`: so every call ends -/

namespace NamedContent

/-! ## Policies -/

namespace RetryPolicy

variable {p : RetryPolicy} {number : UInt32}

/-- How many attempts a policy allows in fact. -/
def limit (p : RetryPolicy) : Option Nat :=
  p.maxAttempts.bind fun most =>
    if most.toNat + 1 = UInt32.size then none else some (max 1 most.toNat)

/-- How many attempts a policy is to allow. -/
def total (p : RetryPolicy) : Option Nat := p.maxAttempts.map UInt32.toNat

/-- The limit of a policy that is to allow an attempt is as it says, except for the greatest
number. -/
theorem limit_cases (hpos : ∀ most ∈ p.maxAttempts, 1 ≤ most.toNat) :
    p.limit = p.total ∨ p.limit = none ∧ p.total = some (UInt32.size - 1) := by
  rw [limit, total]
  cases hmost : p.maxAttempts with
  | none => exact .inl rfl
  | some most =>
    rw [Option.bind_some, Option.map_some]
    split
    · exact .inr ⟨rfl, congrArg some (by omega)⟩
    · exact .inl (by rw [Nat.max_eq_right (hpos most hmost)])

/-- Whether an attempt with a number may be made where the numbers of all attempts before were
allowed. -/
def Reaches (p : RetryPolicy) (number : UInt32) : Prop :=
  ∀ n ∈ p.limit, 1 ≤ number.toNat ∧ number.toNat ≤ n

/-- How many attempts are left from the one with a number on. -/
def left (p : RetryPolicy) (number : UInt32) : Option Nat := p.limit.map (· + 1 - number.toNat)

/-- Every policy comes to a first attempt. -/
theorem reaches_one (p : RetryPolicy) : p.Reaches 1 := by
  intro n hn
  obtain ⟨most, -, hmost⟩ := Option.bind_eq_some_iff.1 hn
  split at hmost
  · exact absurd hmost (by simp)
  · obtain rfl := Option.some.inj hmost
    exact ⟨Nat.le_refl 1, Nat.le_max_left ..⟩

/-- Before the first attempt all are left. -/
@[simp] theorem left_one (p : RetryPolicy) : p.left 1 = p.limit := by
  rw [left, show (1 : UInt32).toNat = 1 from rfl]
  simp

/-- At an attempt that a policy comes to, at least one is left. -/
theorem Reaches.lt_left (h : p.Reaches number) : ∀ n ∈ p.left number, 0 < n := by
  intro n hn
  obtain ⟨most, hmost, rfl⟩ := Option.map_eq_some_iff.1 hn
  have hle := (h most hmost).2
  omega

/-- **The policy after an interrupted attempt**: it allows another, of which it knows the number, or
the limit is reached. -/
theorem Reaches.next (h : p.Reaches number) :
    (p.allows (number + 1) = true ∧ p.Reaches (number + 1)
        ∧ p.left number = (p.left (number + 1)).map (· + 1))
      ∨ p.allows (number + 1) = false ∧ p.left number = some 1
        ∧ p.limit = some number.toNat := by
  rw [left, left]
  cases hmost : p.maxAttempts with
  | none => exact .inl (by simp [allows, Reaches, limit, hmost])
  | some most =>
    by_cases hlast : most.toNat + 1 = UInt32.size
    · -- every number is at most the greatest one
      have hlimit : p.limit = none := by rw [limit, hmost, Option.bind_some, if_pos hlast]
      have hle : number + 1 ≤ most := by
        have := (number + 1).toNat_lt_size
        exact UInt32.le_iff_toNat_le.2 (by omega)
      exact .inl (by simp [allows, Reaches, hlimit, hmost, hle])
    · have hlimit : p.limit = some (max 1 most.toNat) := by
        rw [limit, hmost, Option.bind_some, if_neg hlast]
      obtain ⟨hpos, hle⟩ := h _ hlimit
      have hmost_lt := most.toNat_lt_size
      have hsize : UInt32.size = 4294967296 := rfl
      -- the number does not pass the end of the 32-bit numbers
      have hnext : (number + 1).toNat = number.toNat + 1 := by
        rw [UInt32.toNat_add, show (1 : UInt32).toNat = 1 from rfl]
        omega
      have hallows : p.allows (number + 1) = decide (number.toNat + 1 ≤ most.toNat) := by
        simp [allows, hmost, UInt32.le_iff_toNat_le, hnext]
      rw [hlimit, hallows, Option.map_some, Option.map_some, Option.map_some, hnext]
      by_cases hroom : number.toNat + 1 ≤ most.toNat
      · refine .inl ⟨decide_eq_true hroom, fun n hn => ?_, congrArg some (by omega)⟩
        rw [hlimit] at hn
        obtain rfl := Option.some.inj hn
        rw [hnext]
        omega
      · exact .inr ⟨decide_eq_false hroom, congrArg some (by omega), congrArg some (by omega)⟩

end RetryPolicy

namespace Attempts

variable {σ α : Type} {x : Nat → Action σ TransportError α} {policy : RetryPolicy}
  {operation : Operation} {schedule rest : List Attempt} {a : Attempt} {cancelled : Bool}
  {total limit : Option Nat} {elapsed j k : Nat} {s : σ} {o : Outcome σ α}

/-! ## What befalls the attempts -/

/-- What befalls the attempt with a number, the first one being that with none. -/
def nth (schedule : List Attempt) (k : Nat) : Attempt := schedule[k]?.getD {}

/-- Whether all attempts before one are interrupted. -/
def Interrupted (schedule : List Attempt) (k : Nat) : Prop :=
  ∀ j < k, (nth schedule j).failure = some .interrupted

/-- Whether the face is seen to be cancelled before an attempt: it was so from the start, or was
cancelled during an earlier one. -/
def Cancelled (cancelled : Bool) (schedule : List Attempt) (k : Nat) : Prop :=
  cancelled = true ∨ ∃ j < k, (nth schedule j).cancels = true

/-- How many milliseconds the attempts before one take. -/
def spent : List Attempt → Nat → Nat
  | a :: rest, k + 1 => a.elapsed + spent rest k
  | _, _ => 0

/-- The first attempt is the first of the schedule. -/
@[simp] theorem nth_cons_zero (a : Attempt) (rest : List Attempt) : nth (a :: rest) 0 = a := rfl

/-- The attempts after the first are those of the rest of the schedule. -/
@[simp] theorem nth_cons_succ (a : Attempt) (rest : List Attempt) (k : Nat) :
    nth (a :: rest) (k + 1) = nth rest k := rfl

/-- No attempts take no time. -/
@[simp] theorem spent_zero (schedule : List Attempt) : spent schedule 0 = 0 := by
  cases schedule <;> rfl

/-- The first attempt takes its time, and the others take theirs. -/
@[simp] theorem spent_cons_succ (a : Attempt) (rest : List Attempt) (k : Nat) :
    spent (a :: rest) (k + 1) = a.elapsed + spent rest k := rfl

/-- There is none to be interrupted among no attempts. -/
theorem interrupted_zero (schedule : List Attempt) : Interrupted schedule 0 :=
  fun _ hj => absurd hj (Nat.not_lt_zero _)

/-- Attempts are interrupted if the first one is and the others are. -/
theorem interrupted_cons_succ :
    Interrupted (a :: rest) (k + 1) ↔ a.failure = some .interrupted ∧ Interrupted rest k :=
  Nat.forall_lt_succ_left

/-- If attempts are interrupted, so are the first of them. -/
theorem Interrupted.mono (h : Interrupted schedule k) (hjk : j ≤ k) : Interrupted schedule j :=
  fun i hi => h i (Nat.lt_of_lt_of_le hi hjk)

/-- Before all attempts a face is cancelled only if it was. -/
theorem cancelled_zero : Cancelled cancelled schedule 0 ↔ cancelled = true :=
  ⟨fun h => h.resolve_right fun ⟨_, hj, _⟩ => Nat.not_lt_zero _ hj, .inl⟩

/-- A face is cancelled in the first attempt or in one of the others. -/
theorem cancelled_cons_succ :
    Cancelled false (a :: rest) (k + 1) ↔ Cancelled a.cancels rest k := by
  rw [Cancelled, Cancelled, Nat.exists_lt_succ_left]
  simp

/-- A face that is cancelled stays so. -/
theorem Cancelled.mono (h : Cancelled cancelled schedule j) (hjk : j ≤ k) :
    Cancelled cancelled schedule k :=
  h.imp_right fun ⟨i, hi, hcancels⟩ => ⟨i, Nat.lt_of_lt_of_le hi hjk, hcancels⟩

/-! ## Which attempts are made -/

/-- Whether an attempt is made under a limit: all before were interrupted, the face is not cancelled
by then, and the limit allows it. -/
structure Made (limit : Option Nat) (cancelled : Bool) (schedule : List Attempt) (k : Nat) :
    Prop where
  interrupted : Interrupted schedule k
  active : ¬ Cancelled cancelled schedule k
  room : ∀ n ∈ limit, k < n

/-- If an attempt is made, so are those before it. -/
theorem Made.mono (h : Made limit cancelled schedule k) (hjk : j ≤ k) :
    Made limit cancelled schedule j :=
  ⟨h.interrupted.mono hjk, mt (·.mono hjk) h.active,
    fun n hn => Nat.lt_of_le_of_lt hjk (h.room n hn)⟩

/-- Where the first attempt is interrupted, the others are those of a call that starts with the
second. -/
theorem Made.cons (ha : a.failure = some .interrupted) (h : Made limit a.cancels rest k) :
    Made (limit.map (· + 1)) false (a :: rest) (k + 1) := by
  refine ⟨interrupted_cons_succ.2 ⟨ha, h.interrupted⟩, mt cancelled_cons_succ.1 h.active, ?_⟩
  intro n hn
  obtain ⟨m, hm, rfl⟩ := Option.map_eq_some_iff.1 hn
  exact Nat.succ_lt_succ (h.room m hm)

/-! ## How a call ends -/

/-- The result of an attempt that is not interrupted, and the state that it leaves behind. -/
def answer (x : Nat → Action σ TransportError α) (a : Attempt) (elapsed : Nat) (s : σ) :
    Except FaceError α × σ :=
  match a.failure with
  | none => ((x elapsed s).1.mapError .transport, (x elapsed s).2)
  | some e => (.error (.transport e), s)

/-- An attempt fails by the network alone. -/
theorem exists_of_answer_error {e : FaceError} (h : (answer x a elapsed s).1 = .error e) :
    ∃ cause, e = .transport cause := by
  rw [answer] at h
  cases hfailure : a.failure with
  | some cause =>
    rw [hfailure] at h
    exact ⟨cause, (Except.error.inj h).symm⟩
  | none =>
    rw [hfailure] at h
    cases hresult : (x elapsed s).1 with
    | error cause =>
      rw [hresult] at h
      exact ⟨cause, (Except.error.inj h).symm⟩
    | ok answer =>
      rw [hresult] at h
      cases h

/-- How a call ends that may make a number of attempts in total, of which some are left, and for
which some time was spent before. -/
inductive Ending (total : Option Nat) (operation : Operation)
    (x : Nat → Action σ TransportError α) (limit : Option Nat) (cancelled : Bool)
    (schedule : List Attempt) (elapsed : Nat) (s : σ) (o : Outcome σ α) : Prop
  /-- An attempt is not interrupted. -/
  | answered (k : Nat) (made : Made limit cancelled schedule k)
    (last : (nth schedule k).failure ≠ some .interrupted)
    (eq : o = ⟨(answer x (nth schedule k) (elapsed + spent schedule k) s).1,
      (answer x (nth schedule k) (elapsed + spent schedule k) s).2, (nth schedule k).cancels, k + 1,
      schedule.drop (k + 1)⟩)
  /-- The face is cancelled. -/
  | cancelled (k : Nat) (interrupted : Interrupted schedule k)
    (before : ∀ j < k, ¬ Cancelled cancelled schedule j) (now : Cancelled cancelled schedule k)
    (room : ∀ n ∈ limit, k < n) (eq : o = ⟨.error .cancelled, s, true, k, schedule.drop k⟩)
  /-- The policy allows no further attempt. -/
  | exhausted (k : Nat) (attempts : UInt32) (made : Made limit cancelled schedule k)
    (interrupted : (nth schedule k).failure = some .interrupted) (full : limit = some (k + 1))
    (reported : total = some attempts.toNat)
    (eq : o = ⟨.error (.retriesExhausted operation attempts), s, (nth schedule k).cancels, k + 1,
      schedule.drop (k + 1)⟩)

namespace Ending

/-- **A call makes just the attempts that are to be made.** -/
theorem lt_calls_iff (h : Ending total operation x limit cancelled schedule elapsed s o) :
    k < o.calls ↔ Made limit cancelled schedule k := by
  cases h with
  | answered last made hlast eq =>
    rw [eq]
    exact ⟨fun hk => made.mono (Nat.le_of_lt_succ hk), fun hmade =>
      Nat.lt_of_not_le fun hlt => hlast (hmade.interrupted last hlt)⟩
  | cancelled last interrupted before now room eq =>
    rw [eq]
    exact ⟨fun hk => ⟨interrupted.mono (Nat.le_of_lt hk), before k hk,
        fun n hn => Nat.lt_trans hk (room n hn)⟩, fun hmade =>
      Nat.lt_of_not_le fun hle => hmade.active (now.mono hle)⟩
  | exhausted last attempts made interrupted full reported eq =>
    rw [eq]
    exact ⟨fun hk => made.mono (Nat.le_of_lt_succ hk), fun hmade => hmade.room _ full⟩

/-- A call ends with an attempt that is made and not interrupted. -/
theorem eq_of_made (h : Ending total operation x limit cancelled schedule elapsed s o)
    (hmade : Made limit cancelled schedule k)
    (hlast : (nth schedule k).failure ≠ some .interrupted) :
    o = ⟨(answer x (nth schedule k) (elapsed + spent schedule k) s).1,
      (answer x (nth schedule k) (elapsed + spent schedule k) s).2, (nth schedule k).cancels, k + 1,
      schedule.drop (k + 1)⟩ := by
  cases h with
  | answered last made hanswered eq =>
    obtain hlt | rfl | hlt := Nat.lt_trichotomy k last
    · exact absurd (made.interrupted k hlt) hlast
    · exact eq
    · exact absurd (hmade.interrupted last hlt) hanswered
  | cancelled last interrupted before now room eq =>
    have hlt := Nat.lt_of_not_le fun hle => hmade.active (now.mono hle)
    exact absurd (interrupted k hlt) hlast
  | exhausted last attempts made interrupted full reported eq =>
    obtain hlt | rfl := Nat.lt_or_eq_of_le (Nat.le_of_lt_succ (hmade.room _ full))
    · exact absurd (made.interrupted k hlt) hlast
    · exact absurd interrupted hlast

/-- A call whose first attempt is interrupted goes on like one that starts with the second. -/
theorem counted (ha : a.failure = some .interrupted)
    (h : Ending total operation x limit a.cancels rest (elapsed + a.elapsed) s o) :
    Ending total operation x (limit.map (· + 1)) false (a :: rest) elapsed s o.counted := by
  cases h with
  | answered k made last eq =>
    rw [Nat.add_assoc] at eq
    exact .answered (k + 1) (made.cons ha) last (by rw [eq, spent_cons_succ]; rfl)
  | cancelled k interrupted before now room eq =>
    refine .cancelled (k + 1) (interrupted_cons_succ.2 ⟨ha, interrupted⟩) ?_
      (cancelled_cons_succ.2 now) ?_ (by rw [eq]; rfl)
    · -- the face was not cancelled before, in the first attempt or in a later one
      intro j hj
      cases j with
      | zero => simp [cancelled_zero]
      | succ j => exact mt cancelled_cons_succ.1 (before j (Nat.lt_of_succ_lt_succ hj))
    · intro n hn
      obtain ⟨m, hm, rfl⟩ := Option.map_eq_some_iff.1 hn
      exact Nat.succ_lt_succ (room m hm)
  | exhausted k attempts made interrupted full reported eq =>
    exact .exhausted (k + 1) attempts (made.cons ha) interrupted (by rw [full]; rfl) reported
      (by rw [eq]; rfl)

end Ending

/-- An attempt is made at once if the face is not cancelled. -/
theorem made_zero (hroom : ∀ n ∈ limit, 0 < n) (schedule : List Attempt) :
    Made limit false schedule 0 :=
  ⟨interrupted_zero schedule, mt cancelled_zero.1 Bool.false_ne_true, hroom⟩

/-- **How a call ends** whose first attempt has a number. By induction on what befalls the
attempts. -/
theorem ending_retry_from (number : UInt32) (hreaches : policy.Reaches number)
    (operation : Operation) (x : Nat → Action σ TransportError α) (schedule : List Attempt)
    (elapsed : Nat) (cancelled : Bool) (s : σ) :
    Ending policy.limit operation x (policy.left number) cancelled schedule elapsed s
      (retry policy operation x schedule number elapsed cancelled s) := by
  have hroom := hreaches.lt_left
  induction schedule generalizing number elapsed cancelled with
  | nil =>
    cases cancelled with
    | true =>
      exact .cancelled 0 (interrupted_zero []) (fun j hj => absurd hj (Nat.not_lt_zero j))
        (.inl rfl) hroom rfl
    | false =>
      refine .answered 0 (made_zero hroom []) (by simp [nth]) ?_
      rw [retry, reach_eq]
      rfl
  | cons a rest ih =>
    cases cancelled with
    | true =>
      exact .cancelled 0 (interrupted_zero _) (fun j hj => absurd hj (Nat.not_lt_zero j))
        (.inl rfl) hroom rfl
    | false =>
      -- the face is not cancelled, so the first attempt is made, and may reach the forwarder
      have hmade := made_zero hroom (a :: rest)
      rw [retry]
      split
      · next hreached =>
        refine .answered 0 hmade (by simp [hreached]) ?_
        rw [reach_eq, nth_cons_zero, answer, hreached]
        rfl
      · next hinterrupted =>
        -- it was interrupted: the policy allows the next attempt, or there is none left
        obtain ⟨hallows, hnext, hleft⟩ | ⟨hallows, hleft, hlimit⟩ := hreaches.next
        · rw [if_pos hallows, hleft]
          exact (ih (number + 1) hnext (elapsed + a.elapsed) a.cancels hnext.lt_left).counted
            hinterrupted
        · rw [if_neg (by simp [hallows])]
          exact .exhausted 0 number hmade hinterrupted hleft hlimit rfl
      · next e hother hfailure =>
        refine .answered 0 hmade (by simpa [hfailure] using hother) ?_
        rw [nth_cons_zero, answer, hfailure]
        rfl

/-- **How a call ends**, from its first attempt on. -/
theorem ending_retry (policy : RetryPolicy) (operation : Operation)
    (x : Nat → Action σ TransportError α) (schedule : List Attempt) (cancelled : Bool) (s : σ) :
    Ending policy.limit operation x policy.limit cancelled schedule 0 s
      (retry policy operation x schedule 1 0 cancelled s) :=
  policy.left_one ▸
    ending_retry_from 1 policy.reaches_one operation x schedule 0 cancelled s

/-! ## Policies that are to allow an attempt -/

/-- If a number of attempts in a row are not all interrupted, fewer are. -/
theorem lt_of_interrupted {n : Nat} (hfew : ¬ Interrupted schedule n)
    (h : Interrupted schedule k) : k < n :=
  Nat.lt_of_not_le fun hle => hfew (h.mono hle)

/-- With too few interruptions to pass the 32-bit numbers, those attempts are made that the policy
is to allow. -/
theorem made_limit_iff (hpos : ∀ most ∈ policy.maxAttempts, 1 ≤ most.toNat)
    (hfew : ¬ Interrupted schedule (UInt32.size - 1)) :
    Made policy.limit cancelled schedule k ↔ Made policy.total cancelled schedule k := by
  obtain hsame | ⟨hnone, htotal⟩ := RetryPolicy.limit_cases hpos
  · rw [hsame]
  · rw [hnone, htotal]
    refine ⟨fun h => ⟨h.interrupted, h.active, fun n hn => ?_⟩,
      fun h => ⟨h.interrupted, h.active, fun n hn => nomatch hn⟩⟩
    obtain rfl := Option.some.inj hn
    exact lt_of_interrupted hfew h.interrupted

/-- So the call ends as the policy says. -/
theorem Ending.of_limit (hpos : ∀ most ∈ policy.maxAttempts, 1 ≤ most.toNat)
    (hfew : ¬ Interrupted schedule (UInt32.size - 1))
    (h : Ending policy.limit operation x policy.limit cancelled schedule elapsed s o) :
    Ending policy.total operation x policy.total cancelled schedule elapsed s o := by
  obtain hsame | ⟨hnone, htotal⟩ := RetryPolicy.limit_cases hpos
  · rwa [hsame] at h
  · cases h with
    | answered k made last eq => exact .answered k ((made_limit_iff hpos hfew).1 made) last eq
    | cancelled k interrupted before now room eq =>
      refine .cancelled k interrupted before now (fun n hn => ?_) eq
      rw [htotal] at hn
      obtain rfl := Option.some.inj hn
      exact lt_of_interrupted hfew interrupted
    | exhausted k attempts made interrupted full reported eq =>
      exact absurd (hnone.symm.trans full) (by simp)

end Attempts

end NamedContent
