/-! # Timestamps

Time is counted in ticks of 1/4096 second since the Unix epoch.

* `Timestamp`: the type, with `Timestamp.display`
* `WallClock`: seconds and nanoseconds since the epoch, with the conversions
* `Timestamp.mint`: a reading bumped past the last time handed out
-/

namespace NamedContent

/-- A time in ticks since the Unix epoch. -/
structure Timestamp where
  /-- The number of ticks. -/
  ticks : UInt64
  deriving DecidableEq, Inhabited, Repr

/-- A time since the Unix epoch as whole seconds and nanoseconds. -/
structure WallClock where
  /-- Whole seconds. -/
  seconds : UInt64
  /-- Nanoseconds, below a second. -/
  nanos : UInt64
  deriving DecidableEq, Inhabited, Repr

/-- The number of ticks in a second. -/
def ticksPerSecond : UInt64 := 4096

/-- The number of nanoseconds in a second. -/
def nanosPerSecond : UInt64 := 1000000000

namespace Timestamp

instance : LT Timestamp := ⟨fun a b => a.ticks < b.ticks⟩

instance : LE Timestamp := ⟨fun a b => a.ticks ≤ b.ticks⟩

instance : DecidableLT Timestamp := fun a b => inferInstanceAs (Decidable (a.ticks < b.ticks))

instance : DecidableLE Timestamp := fun a b => inferInstanceAs (Decidable (a.ticks ≤ b.ticks))

/-- The last tick not after a wall-clock time. -/
def ofWallClock (clock : WallClock) : Timestamp :=
  ⟨clock.seconds * ticksPerSecond + clock.nanos * ticksPerSecond / nanosPerSecond⟩

/-- The last tick not after a moment at a distance from the epoch. A moment before the epoch counts
as the epoch. -/
def ofDistance (before : Bool) (distance : WallClock) : Timestamp :=
  if before then ⟨0⟩ else ofWallClock distance

/-- The last nanosecond not after a tick. -/
def toWallClock (t : Timestamp) : WallClock where
  seconds := t.ticks / ticksPerSecond
  nanos := t.ticks % ticksPerSecond * nanosPerSecond / ticksPerSecond

/-! ## Text -/

/-- Three decimal digits of a number below 1000. -/
def threeDigits (n : Nat) : String :=
  let text := toString n
  if n < 10 then "00" ++ text else if n < 100 then "0" ++ text else text

/-- Seconds with three decimal places, cut off. -/
def display (t : Timestamp) : String :=
  toString (t.ticks / ticksPerSecond).toNat ++ "."
    ++ threeDigits (t.ticks % ticksPerSecond * 1000 / ticksPerSecond).toNat

/-- The readable form for diagnostics. -/
def debugText (t : Timestamp) : String := "CcnTime(" ++ t.display ++ ")"

/-! ## Minting -/

/-- The time after `t`, or `t` itself at the end of the range. -/
def next (t : Timestamp) : Timestamp :=
  if t.ticks = 0xFFFFFFFFFFFFFFFF then t else ⟨t.ticks + 1⟩

/-- The clock reading, or the time after the last one handed out when that is later. -/
def mint (reading last : Timestamp) : Timestamp :=
  if reading < last.next then last.next else reading

end Timestamp

end NamedContent
