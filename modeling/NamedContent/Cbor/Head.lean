import NamedContent.Bytes

/-! # Heads of CBOR items

An item starts with a head: three bits of major type and an argument, which is written in the
fewest bytes and read in any of its widths.

* `Cbor.Decoder`: reading a value off the front of a byte string
* `Cbor.Major`, `Cbor.head`: writing a head
* `Cbor.Head`, `Cbor.Head.read`: reading one
-/

namespace NamedContent.Cbor

/-! ## Decoders -/

/-- A decoder takes a value off the front of a byte string, or fails. -/
abbrev Decoder := StateT Bytes Option

namespace Decoder

/-- Takes exactly `n` bytes off the front. -/
def takeBytes (n : Nat) (input : Bytes) : Option (Bytes × Bytes) :=
  let taken := input.take n
  if taken.length = n then some (taken, input.drop n) else none

/-- The next `n` bytes. -/
def bytes (n : Nat) : Decoder Bytes := takeBytes n

/-- The number in the next `width` bytes. -/
def number (width : Nat) : Decoder Nat := Bytes.ofBigEndian <$> bytes width

/-- Bytes are taken off the input that begins with them. -/
theorem takeBytes_append (xs rest : Bytes) :
    takeBytes xs.length (xs ++ rest) = some (xs, rest) := by
  simp [takeBytes]

/-- The bytes that are taken off, and what is left, are the input. -/
theorem append_of_takeBytes {n : Nat} {input xs rest : Bytes}
    (h : takeBytes n input = some (xs, rest)) : input = xs ++ rest ∧ xs.length = n := by
  simp only [takeBytes] at h
  split at h
  · rename_i hl
    simp only [Option.some.injEq, Prod.mk.injEq] at h
    obtain ⟨rfl, rfl⟩ := h
    exact ⟨(List.take_append_drop n input).symm, hl⟩
  · simp at h

end Decoder

/-! ## Writing -/

/-- The major types that carry an argument. -/
inductive Major where
  /-- An unsigned number. -/
  | unsigned
  /-- The negative number -1 - n. -/
  | negative
  /-- A byte string. -/
  | bytes
  /-- A text. -/
  | text
  /-- An array. -/
  | array
  /-- A map. -/
  | map
  /-- A tag in front of an item. -/
  | tag
  deriving DecidableEq, Repr

/-- The number in the upper three bits of the head. -/
def Major.code : Major → Nat
  | .unsigned => 0
  | .negative => 1
  | .bytes => 2
  | .text => 3
  | .array => 4
  | .map => 5
  | .tag => 6

/-- The head of a major type with its argument in the fewest bytes. -/
def head (m : Major) (n : Nat) : Bytes :=
  let initial (low : Nat) : UInt8 := UInt8.ofNat (32 * m.code + low)
  if n < 24 then [initial n]
  else if n < UInt8.size then initial 24 :: Bytes.bigEndian 1 n
  else if n < UInt16.size then initial 25 :: Bytes.bigEndian 2 n
  else if n < UInt32.size then initial 26 :: Bytes.bigEndian 4 n
  else initial 27 :: Bytes.bigEndian 8 n

/-! ## Reading -/

/-- The argument of a head. -/
inductive Argument where
  /-- A number, read from so many bytes after the first. -/
  | value (width n : Nat)
  /-- No number: an indefinite length, or the end of one. -/
  | indefinite
  deriving DecidableEq, Repr

/-- The argument that the lower five bits of the first byte announce. -/
def Argument.read (low : Nat) : Decoder Argument :=
  if low < 24 then pure (.value 0 low)
  else if low = 24 then .value 1 <$> Decoder.number 1
  else if low = 25 then .value 2 <$> Decoder.number 2
  else if low = 26 then .value 4 <$> Decoder.number 4
  else if low = 27 then .value 8 <$> Decoder.number 8
  else if low = 31 then pure .indefinite
  else failure

/-- The head of an item. A length or count is absent where it is indefinite. -/
inductive Head where
  /-- An unsigned number. -/
  | unsigned (n : Nat)
  /-- The negative number -1 - n. -/
  | negative (n : Nat)
  /-- A byte string. -/
  | bytes (length : Option Nat)
  /-- A text. -/
  | text (length : Option Nat)
  /-- An array. -/
  | array (count : Option Nat)
  /-- A map, with its number of entries. -/
  | map (count : Option Nat)
  /-- A tag; the tagged item follows. -/
  | tag (n : Nat)
  /-- A simple value. -/
  | simple (n : Nat)
  /-- A floating-point number, whose value no decoder asks for. -/
  | float
  /-- The end of an item of indefinite length. -/
  | stop
  deriving DecidableEq, Repr

/-- The head with a major type and an argument, where they go together. -/
def Head.ofArgument? : (major : Nat) → Argument → Option Head
  | 0, .value _ n => some (.unsigned n)
  | 1, .value _ n => some (.negative n)
  | 2, .value _ n => some (.bytes (some n))
  | 2, .indefinite => some (.bytes none)
  | 3, .value _ n => some (.text (some n))
  | 3, .indefinite => some (.text none)
  | 4, .value _ n => some (.array (some n))
  | 4, .indefinite => some (.array none)
  | 5, .value _ n => some (.map (some n))
  | 5, .indefinite => some (.map none)
  | 6, .value _ n => some (.tag n)
  | 7, .value width n => some (if width ≤ 1 then .simple n else .float)
  | 7, .indefinite => some .stop
  | _, _ => none

/-- The head at the front of a byte string. -/
def Head.read : Decoder Head := fun input =>
  match input with
  | [] => none
  | b :: rest => do
    let (argument, rest) ← Argument.read (b.toNat % 32) rest
    let h ← Head.ofArgument? (b.toNat / 32) argument
    return (h, rest)

/-! ## What a head consumes -/

/-- Reading a number does not make the input longer. -/
theorem Decoder.length_number {width n : Nat} {input rest : Bytes}
    (h : Decoder.number width input = some (n, rest)) : rest.length ≤ input.length := by
  simp only [Decoder.number, Functor.map, StateT.map, Decoder.bytes] at h
  cases ht : Decoder.takeBytes width input with
  | none => simp [ht] at h
  | some p =>
    obtain ⟨xs, ys⟩ := p
    obtain ⟨rfl, -⟩ := Decoder.append_of_takeBytes ht
    simp [ht] at h
    simp [h.2]

/-- Reading the argument of a head does not make the input longer. -/
theorem Argument.length_read {low : Nat} {a : Argument} {input rest : Bytes}
    (h : Argument.read low input = some (a, rest)) : rest.length ≤ input.length := by
  have map_case {width : Nat}
      (h : (Argument.value width <$> Decoder.number width : Decoder Argument) input
        = some (a, rest)) : rest.length ≤ input.length := by
    simp only [Functor.map, StateT.map] at h
    cases hn : Decoder.number width input with
    | none => simp [hn] at h
    | some p =>
      obtain ⟨n, ys⟩ := p
      simp [hn] at h
      exact h.2 ▸ Decoder.length_number hn
  -- a small argument stands in the head; another is a number of its width, or missing
  unfold Argument.read at h
  split at h
  · have h : some (Argument.value 0 low, input) = some (a, rest) := h
    simp only [Option.some.injEq, Prod.mk.injEq] at h
    simp [h.2]
  · repeat' split at h
    · exact map_case h
    · exact map_case h
    · exact map_case h
    · exact map_case h
    · have h : some (Argument.indefinite, input) = some (a, rest) := h
      simp only [Option.some.injEq, Prod.mk.injEq] at h
      simp [h.2]
    · simp [failure, StateT.failure] at h

/-- A head takes at least one byte. -/
theorem Head.length_read {hd : Head} {input rest : Bytes}
    (h : Head.read input = some (hd, rest)) : rest.length < input.length := by
  cases input with
  | nil => simp [Head.read] at h
  | cons b input =>
    simp only [Head.read] at h
    cases ha : Argument.read (b.toNat % 32) input with
    | none => simp [ha] at h
    | some p =>
      obtain ⟨a, ys⟩ := p
      cases ho : Head.ofArgument? (b.toNat / 32) a with
      | none => simp [ha, ho] at h
      | some hd' =>
        simp [ha, ho] at h
        have := Argument.length_read ha
        simp [← h.2]
        omega

end NamedContent.Cbor
