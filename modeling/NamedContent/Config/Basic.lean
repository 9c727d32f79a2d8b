import NamedContent.Name.Segment

/-! # Configuration

The tunables that a client's writing, reading and flow control share.

* `RetryPolicy`: how often an interrupted call is made again
* `Config`: the tunables, with `Config.default` and `Config.validate`
* `Config.nextIndex`: the index of the segment after one
-/

namespace NamedContent

/-- How often an interrupted call is made again. -/
structure RetryPolicy where
  /-- The number of attempts allowed, the first one included; absent for no limit. -/
  maxAttempts : Option UInt32 := none
  deriving DecidableEq, Inhabited, Repr

/-- Whether the attempt with a number, counted from one, may be made. -/
def RetryPolicy.allows (p : RetryPolicy) (attempt : UInt32) : Bool :=
  p.maxAttempts.all fun limit => attempt ≤ limit

/-- The tunables of a client. -/
structure Config where
  /-- The number of payload bytes in a segment. -/
  blockSize : UInt64 := 4096
  /-- The step between segment indices under fixed-increment numbering. -/
  segmentIncrement : UInt64 := 1
  /-- How segment indices advance. -/
  numbering : SegmentNumbering := .fixedIncrement
  /-- How many milliseconds a reader waits for a segment. -/
  fetchTimeout : UInt64 := 4000
  /-- How many milliseconds version discovery waits for something newer. -/
  latestVersionTimeout : UInt64 := 500
  /-- Whether readers check signatures. -/
  verifySignatures : Bool := true
  /-- How many seconds published objects stay fresh. -/
  freshnessSeconds : Option UInt32 := none
  /-- How many unanswered interests a flow controller holds. -/
  maxHeldInterests : UInt64 := 1024
  /-- How many published objects a flow controller keeps. -/
  bufferCapacity : UInt64 := 4096
  /-- How often interrupted calls are made again. -/
  retry : RetryPolicy := {}
  deriving DecidableEq, Inhabited, Repr

/-- Why a configuration is refused. -/
inductive ConfigError where
  /-- The text is no configuration. -/
  | malformed
  /-- The value of a key is zero. -/
  | notPositive (key : String)
  deriving DecidableEq, Repr

/-- The wording of an error. -/
def ConfigError.message : ConfigError → String
  | .malformed => "config parse error"
  | .notPositive key => "invalid config: " ++ key ++ " must be positive"

namespace Config

/-- The rules for configurations: segments hold something, indices advance, and a flow controller
keeps something. -/
def validate (c : Config) : Except ConfigError Unit := do
  if c.blockSize = 0 then throw (.notPositive "block_size")
  if c.segmentIncrement = 0 then throw (.notPositive "segment_increment")
  if c.bufferCapacity = 0 then throw (.notPositive "flow_buffer_capacity")

/-- Whether the configuration keeps the rules. -/
def Valid (c : Config) : Prop :=
  c.blockSize ≠ 0 ∧ c.segmentIncrement ≠ 0 ∧ c.bufferCapacity ≠ 0

instance (c : Config) : Decidable c.Valid := inferInstanceAs (Decidable (_ ∧ _))

/-- The check passes just for what is valid. -/
theorem validate_eq_ok_iff (c : Config) : c.validate = .ok () ↔ c.Valid := by
  by_cases h₁ : c.blockSize = 0 <;> by_cases h₂ : c.segmentIncrement = 0 <;>
    by_cases h₃ : c.bufferCapacity = 0 <;>
    simp [validate, Valid, h₁, h₂, h₃, bind, Except.bind, throw, throwThe, MonadExceptOf.throw,
      pure, Except.pure]

/-- The index of the segment after the one with an index and a number of bytes. -/
def nextIndex (c : Config) (index : UInt64) (length : UInt64) : UInt64 :=
  match c.numbering with
  | .fixedIncrement => index + c.segmentIncrement
  | .byteCount => index + length

end Config

end NamedContent
