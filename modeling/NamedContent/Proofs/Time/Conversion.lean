import Mathlib.Algebra.Group.Nat.Defs
import Mathlib.Logic.Function.Iterate
import NamedContent.Timestamp

/-! # Times as seconds and nanoseconds, and back

A tick is 244140.625 nanoseconds. Turning a time into seconds and nanoseconds rounds down, and so
does turning these into a time. A time that is a whole number of nanoseconds, which is every eighth
tick, comes back as it was. Any other comes back as the tick before, so that repeated conversions
go down to the eighth tick below and stay there.

* `WallClock.toTicks`: the ticks of a wall-clock time in unbounded numbers
* `Timestamp.converted`: a time turned into seconds and nanoseconds and back
* `Timestamp.toNat_converted`, `Timestamp.toNat_iterate_converted`: one conversion, and many
* `Timestamp.conversion_loss`: which times stay, and where the others go -/

namespace NamedContent

/-- The whole ticks up to a wall-clock time, in numbers of any size. -/
def WallClock.toTicks (clock : WallClock) : Nat :=
  clock.seconds.toNat * 4096 + clock.nanos.toNat * 4096 / 1000000000

/-- Ticks rounded down to nanoseconds and then to ticks again are the same just for every eighth
tick, and else one less. -/
theorem ticks_of_nanoseconds (r : Nat) :
    r * 1000000000 / 4096 * 4096 / 1000000000 = if r % 8 = 0 then r else r - 1 := by
  -- what the first rounding cuts off is less than a tick, and nothing just for every eighth one
  have hcut : r * 1000000000 % 4096 = r * 5 % 8 * 512 := by omega
  have hnone : r * 5 % 8 = 0 ↔ r % 8 = 0 := by omega
  split <;> omega

namespace Timestamp

variable {t : Timestamp}

/-! ## Neither direction overflows -/

/-- The seconds of a time are its ticks by 4096, without the rest. -/
theorem toNat_seconds (t : Timestamp) : t.toWallClock.seconds.toNat = t.ticks.toNat / 4096 :=
  UInt64.toNat_div _ _

/-- The nanoseconds are worked out without overflow. -/
theorem toNat_nanos (t : Timestamp) :
    t.toWallClock.nanos.toNat = t.ticks.toNat % 4096 * 1000000000 / 4096 := by
  have hless : t.ticks.toNat % 4096 * 1000000000 < 2 ^ 64 := by omega
  have hmod : (t.ticks % ticksPerSecond).toNat = t.ticks.toNat % 4096 := UInt64.toNat_mod _ _
  show ((t.ticks % ticksPerSecond * nanosPerSecond) / ticksPerSecond).toNat = _
  rw [UInt64.toNat_div, UInt64.toNat_mul, hmod]
  exact congrArg (· / 4096) (Nat.mod_eq_of_lt hless)

/-- The nanoseconds are less than a second. -/
theorem nanos_lt (t : Timestamp) : t.toWallClock.nanos.toNat < 1000000000 := by
  rw [toNat_nanos]
  omega

/-- The ticks of a wall-clock time are worked out without overflow, if there are not too many. -/
theorem toNat_ofWallClock {clock : WallClock} (hnanos : clock.nanos.toNat < 1000000000)
    (hfit : clock.toTicks < 2 ^ 64) : (ofWallClock clock).ticks.toNat = clock.toTicks := by
  have hless : clock.nanos.toNat * 4096 < 2 ^ 64 := by omega
  have hseconds : clock.seconds.toNat * 4096 < 2 ^ 64 :=
    Nat.lt_of_le_of_lt (Nat.le_add_right _ _) hfit
  have hwhole : (clock.seconds * ticksPerSecond).toNat = clock.seconds.toNat * 4096 := by
    rw [UInt64.toNat_mul]
    exact Nat.mod_eq_of_lt hseconds
  have hpart : (clock.nanos * ticksPerSecond / nanosPerSecond).toNat
      = clock.nanos.toNat * 4096 / 1000000000 := by
    rw [UInt64.toNat_div, UInt64.toNat_mul]
    exact congrArg (· / 1000000000) (Nat.mod_eq_of_lt hless)
  show (clock.seconds * ticksPerSecond + clock.nanos * ticksPerSecond / nanosPerSecond).toNat = _
  rw [UInt64.toNat_add, hwhole, hpart]
  exact Nat.mod_eq_of_lt hfit

/-! ## There and back -/

/-- A time turned into seconds and nanoseconds and back. -/
def converted (t : Timestamp) : Timestamp := ofDistance false t.toWallClock

/-- In numbers of any size, a time is at most a tick behind after both conversions. -/
theorem toTicks_toWallClock (t : Timestamp) :
    t.toWallClock.toTicks
      = if t.ticks.toNat % 8 = 0 then t.ticks.toNat else t.ticks.toNat - 1 := by
  have hsecond := ticks_of_nanoseconds (t.ticks.toNat % 4096)
  rw [WallClock.toTicks, toNat_seconds, toNat_nanos, hsecond]
  split <;> split <;> omega

/-- Both conversions together do not overflow either. -/
theorem toNat_converted_eq_toTicks (t : Timestamp) :
    t.converted.ticks.toNat = t.toWallClock.toTicks := by
  have hfit : t.toWallClock.toTicks < 2 ^ 64 := by
    have hlt := t.ticks.toNat_lt
    rw [toTicks_toWallClock]
    split <;> omega
  exact toNat_ofWallClock (nanos_lt t) hfit

/-- **A conversion keeps every eighth tick and puts the others back by one.** -/
theorem toNat_converted (t : Timestamp) :
    t.converted.ticks.toNat
      = if t.ticks.toNat % 8 = 0 then t.ticks.toNat else t.ticks.toNat - 1 := by
  rw [toNat_converted_eq_toTicks, toTicks_toWallClock]

/-- Just the times of every eighth tick come back as they were. -/
theorem converted_eq_self_iff : t.converted = t ↔ 8 ∣ t.ticks.toNat := by
  rw [Nat.dvd_iff_mod_eq_zero]
  constructor
  · intro h
    have hticks := toNat_converted t
    rw [h] at hticks
    split at hticks <;> omega
  · intro h
    have hticks := toNat_converted t
    rw [if_pos h] at hticks
    exact congrArg Timestamp.mk (UInt64.toNat_inj.1 hticks)

/-- **Repeated conversions put a time back tick by tick to the eighth one below it**, by induction
on their number: each takes the time that the ones before have left. -/
theorem toNat_iterate_converted (t : Timestamp) (n : Nat) :
    (converted^[n] t).ticks.toNat = max (t.ticks.toNat / 8 * 8) (t.ticks.toNat - n) := by
  induction n with
  | zero =>
    rw [Function.iterate_zero_apply]
    omega
  | succ n ih =>
    rw [Function.iterate_succ_apply', toNat_converted, ih]
    split <;> omega

/-- **Which times conversions keep.** Neither direction overflows: the seconds, the nanoseconds and
the ticks that come back are those of unbounded numbers. A time comes back as it was just when its
ticks are a multiple of eight; after any number of conversions it has gone back by as many ticks,
but not beyond the multiple of eight below it. -/
theorem conversion_loss (t : Timestamp) :
    (t.toWallClock.seconds.toNat = t.ticks.toNat / 4096
        ∧ t.toWallClock.nanos.toNat = t.ticks.toNat % 4096 * 1000000000 / 4096
        ∧ t.toWallClock.nanos.toNat < 1000000000
        ∧ t.converted.ticks.toNat = t.toWallClock.toTicks)
      ∧ (t.converted = t ↔ 8 ∣ t.ticks.toNat)
      ∧ ∀ n, (converted^[n] t).ticks.toNat = max (t.ticks.toNat / 8 * 8) (t.ticks.toNat - n) :=
  ⟨⟨toNat_seconds t, toNat_nanos t, nanos_lt t, toNat_converted_eq_toTicks t⟩,
    converted_eq_self_iff, toNat_iterate_converted t⟩

/-- The first tick after the epoch comes back as the epoch. -/
theorem converted_first_tick :
    (⟨1⟩ : Timestamp).toWallClock = ⟨0, 244140⟩ ∧ (⟨1⟩ : Timestamp).converted = ⟨0⟩
      ∧ ¬ ∀ t : Timestamp, t.converted = t := by
  have hfirst : (⟨1⟩ : Timestamp).converted = ⟨0⟩ := by decide
  refine ⟨by decide, hfirst, fun h => ?_⟩
  have hkept := (h ⟨1⟩).symm.trans hfirst
  exact absurd hkept (by decide)

end Timestamp

end NamedContent
