import NamedContent.Cbor.Head

/-! # Decoders for typed values

Values are read straight off the bytes, without an intermediate tree of items. Tags in front of a
value are skipped. A fixed run of elements may end before the array that holds it does; what is
left over is read by whoever comes next.

* `Decoder.untagged`: the next head behind its tags
* `Decoder.integer`, `Decoder.word`, `Decoder.signed64`: numbers
* `Decoder.byteString`, `Decoder.text`, `Decoder.boolean`, `Decoder.optional`: single values
* `Decoder.sequence`, `Decoder.exactly`: runs of elements
* `Decoder.key`, `Decoder.variant`, `Decoder.fields`: the parts of a record
-/

namespace NamedContent.Cbor.Decoder

/-! ## Runs of items -/

/-- Runs a step `n` times. -/
def iterate {σ : Type} (step : σ → Decoder σ) : Nat → σ → Decoder σ
  | 0, s => pure s
  | n + 1, s => do iterate step n (← step s)

/-- Runs a step until the end of an indefinite item, at most `fuel` heads away. -/
def untilStopWithin {σ : Type} (step : σ → Decoder σ) : (fuel : Nat) → σ → Decoder σ
  | 0, _ => failure
  | fuel + 1, s => fun input =>
    match Head.read input with
    | some (.stop, rest) => some (s, rest)
    | some _ => (do untilStopWithin step fuel (← step s)) input
    | none => none

/-- Runs a step for every item of an array or every entry of a map. The bytes left bound the
number of items of an indefinite one. -/
def forItems {σ : Type} (count : Option Nat) (step : σ → Decoder σ) (s : σ) : Decoder σ :=
  match count with
  | some n => iterate step n s
  | none => fun input => untilStopWithin step input.length s input

/-- The items of an array, each read by one decoder. -/
def items {α : Type} (count : Option Nat) (element : Decoder α) : Decoder (List α) :=
  List.reverse <$> forItems count (fun acc => (· :: acc) <$> element) []

/-! ## Heads behind tags -/

/-- The next head that is not a tag. -/
def untagged (input : Bytes) : Option (Head × Bytes) :=
  match h : Head.read input with
  | some (.tag _, rest) =>
    have := Head.length_read h
    untagged rest
  | other => other
termination_by input.length

/-- The segments of a byte string or text: one of a definite length, or those up to the end of
an indefinite one. Segments may nest; `depth` counts the inner ends still to come. -/
def segmentsWithin (select : Head → Option (Option Nat)) :
    (fuel depth : Nat) → Decoder (List Bytes)
  | 0, _ => failure
  | fuel + 1, depth => do
    match ← Head.read with
    | .stop => if depth = 0 then pure [] else segmentsWithin select fuel (depth - 1)
    | h =>
      match select h with
      | none => failure
      | some none => segmentsWithin select fuel (depth + 1)
      | some (some n) => do
        let segment ← bytes n
        return segment :: (← segmentsWithin select fuel depth)

/-- The segments of a byte string or text whose head announced a length. -/
def segments (select : Head → Option (Option Nat)) : (length : Option Nat) → Decoder (List Bytes)
  | some n => do return [← bytes n]
  | none => fun input => segmentsWithin select input.length 0 input

/-- The length in the head of a byte string. -/
def bytesLength? : Head → Option (Option Nat)
  | .bytes length => some length
  | _ => none

/-- The length in the head of a text. -/
def textLength? : Head → Option (Option Nat)
  | .text length => some length
  | _ => none

/-- The segments of a byte string, joined. -/
def byteSegments (length : Option Nat) : Decoder Bytes :=
  List.flatten <$> segments bytesLength? length

/-- The text that bytes encode, if they are valid UTF-8. -/
def utf8? (bytes : Bytes) : Option String := String.fromUTF8? bytes.toByteArray

/-- The segments of a text, each of them valid UTF-8, joined. -/
def textSegments (length : Option Nat) : Decoder String := do
  let texts ← StateT.lift ((← segments textLength? length).mapM utf8?)
  return String.join texts

/-! ## Numbers -/

/-- The most bytes that the number of a bignum takes. -/
def bignumLimit : Nat := 16

/-- The number in the byte string behind a bignum's tag, whose leading zeros do not count. -/
def bignum : Decoder Nat := do
  match ← Head.read with
  | .bytes length =>
    let digits := (← byteSegments length).dropWhile (· == 0)
    if digits.length ≤ bignumLimit then pure (Bytes.ofBigEndian digits) else failure
  | _ => failure

/-- An integer: a number of either sign, or a bignum. Other tags are skipped. -/
def integer (input : Bytes) : Option (Int × Bytes) :=
  match h : Head.read input with
  | some (.unsigned n, rest) => some (n, rest)
  | some (.negative n, rest) => some (-1 - n, rest)
  | some (.tag 2, rest) => (bignum rest).map fun (n, rest) => ((n : Int), rest)
  | some (.tag 3, rest) => (bignum rest).map fun (n, rest) => (-1 - (n : Int), rest)
  | some (.tag _, rest) =>
    have := Head.length_read h
    integer rest
  | _ => none
termination_by input.length

/-- An unsigned integer below a limit. -/
def natBelow (limit : Nat) : Decoder Nat := do
  match ← (integer : Decoder Int) with
  | .ofNat n => if n < limit then pure n else failure
  | .negSucc _ => failure

/-- An unsigned byte. -/
def byte : Decoder UInt8 := UInt8.ofNat <$> natBelow UInt8.size

/-- An unsigned 32-bit integer. -/
def word32 : Decoder UInt32 := UInt32.ofNat <$> natBelow UInt32.size

/-- An unsigned 64-bit integer. -/
def word64 : Decoder UInt64 := UInt64.ofNat <$> natBelow UInt64.size

/-- A signed 64-bit integer. -/
def signed64 : Decoder Int := do
  let n ← (integer : Decoder Int)
  if -0x8000000000000000 ≤ n ∧ n < 0x8000000000000000 then pure n else failure

/-! ## Single values -/

/-- A byte string, or an array of bytes. -/
def byteString : Decoder Bytes := do
  match ← (untagged : Decoder Head) with
  | .bytes length => byteSegments length
  | .array count => items count byte
  | _ => failure

/-- A text, in one or more segments. -/
def text : Decoder String := do
  match ← (untagged : Decoder Head) with
  | .text length => textSegments length
  | _ => failure

/-- A truth value. -/
def boolean : Decoder Bool := do
  match ← (untagged : Decoder Head) with
  | .simple 20 => pure false
  | .simple 21 => pure true
  | _ => failure

/-- A value that may be null or undefined. A tag in front makes it a value. -/
def optional {α : Type} (value : Decoder α) : Decoder (Option α) := fun input =>
  match Head.read input with
  | some (.simple 22, rest) => some (none, rest)
  | some (.simple 23, rest) => some (none, rest)
  | _ => (some <$> value) input

/-! ## Arrays -/

/-- A list: an array of elements, or a byte string whose bytes are the elements. -/
def sequence {α : Type} (ofByte : UInt8 → Option α) (element : Decoder α) : Decoder (List α) := do
  match ← (untagged : Decoder Head) with
  | .array count => items count element
  | .bytes length => do StateT.lift ((← byteSegments length).mapM ofByte)
  | _ => failure

/-- Exactly `n` elements off the front of an array, or of the bytes of a byte string. Elements of
the array beyond them are left where they are. -/
def exactly (n : Nat) : Decoder Bytes := do
  match ← (untagged : Decoder Head) with
  | .array (some count) => if n ≤ count then items (some n) byte else failure
  | .array none => items (some n) byte
  | .bytes length =>
    let all ← byteSegments length
    if n ≤ all.length then pure (all.take n) else failure
  | _ => failure

/-! ## Records -/

/-- The longest key or variant name that is read. -/
def nameLimit : Nat := 4096

/-- A key of a record: a text or a byte string of definite length. -/
def key : Decoder Bytes := do
  match ← (untagged : Decoder Head) with
  | .text (some n) =>
    if nameLimit < n then failure
    let name ← bytes n
    if (utf8? name).isSome then pure name else failure
  | .bytes (some n) => if nameLimit < n then failure else bytes n
  | _ => failure

/-- The name of a variant: a text, or the key of a map that announces one entry. -/
def variant : Decoder Bytes := do
  match ← (untagged : Decoder Head) with
  | .text (some n) =>
    if nameLimit < n then failure
    let name ← bytes n
    if (utf8? name).isSome then pure name else failure
  | .map (some 1) => key
  | _ => failure

/-- Reads a value into an empty slot; a second value for the slot is refused. -/
def fill {α : Type} (slot : Option α) (value : Decoder α) : Decoder (Option α) :=
  if slot.isSome then failure else some <$> value

/-- Folds the entries of a map: the step reads the value of the key that it is given. -/
def fields {σ : Type} (step : Bytes → σ → Decoder σ) (s : σ) : Decoder σ := do
  match ← (untagged : Decoder Head) with
  | .map count => forItems count (fun s => do step (← key) s) s
  | _ => failure

/-! ## Unknown values -/

/-- The greatest depth of nested items. -/
def depthLimit : Nat := 256

/-- Skips what follows a tag. Behind the tag of a bignum a short byte string is its number, which
is negative behind tag 3 and then may not go below -2^127. Anything else, a longer byte string or
one in segments included, is an item nested in the tag. -/
def skipTagged (tag : Nat) (inner : Decoder Unit) : Decoder Unit := fun input =>
  match Head.read input with
  | some (.bytes (some n), rest) =>
    if (tag = 2 ∨ tag = 3) ∧ n ≤ bignumLimit then
      match takeBytes n rest with
      | some (digits, rest) =>
        if tag = 2 ∨ Bytes.ofBigEndian digits < 0x80000000000000000000000000000000 then
          some ((), rest)
        else none
      | none => none
    else inner input
  | _ => inner input

/-- Skips one item; `inner` skips the items nested in it. -/
def skipWith (inner : Decoder Unit) : Decoder Unit := do
  match ← Head.read with
  | .unsigned _ => pure ()
  | .negative _ => pure ()
  | .float => pure ()
  | .simple n => if 20 ≤ n ∧ n ≤ 23 then pure () else failure
  | .bytes length => discard (byteSegments length)
  | .text length => discard (textSegments length)
  | .array count => forItems count (fun _ => inner) ()
  | .map count => forItems count (fun _ => do inner; inner) ()
  | .tag n => skipTagged n inner
  | .stop => failure

/-- Skips one well-formed item whose nested items go no deeper than `depth`. -/
def skip : (depth : Nat) → Decoder Unit
  | 0 => skipFlat
  | depth + 1 => skipWith (skip depth)
where
  /-- Skips one item without nested items; an empty array or map counts as nested. -/
  skipFlat : Decoder Unit := fun input =>
    match Head.read input with
    | some (.array _, _) => none
    | some (.map _, _) => none
    | _ => skipWith failure input

end NamedContent.Cbor.Decoder
