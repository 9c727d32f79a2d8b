/-! # Byte strings

Byte strings are lists of bytes, ordered lexicographically with a shorter list before its
extensions. This module holds their positional readings and their hexadecimal text.

* `Bytes.bigEndian` and `Bytes.ofBigEndian`: fixed-width big-endian writing and reading
* `Bytes.littleEndian` and `Bytes.ofLittleEndian`: the same with the least byte first
* `Bytes.chunks`: cutting into pieces of one size
* `Bytes.toHex` and `Bytes.ofHex?`: two hexadecimal digits a byte, written in lower case
-/

namespace NamedContent

/-- A byte string. -/
abbrev Bytes := List UInt8

namespace Bytes

/-! ## Positional readings -/

/-- The number whose big-endian digits in base 256 are the bytes. -/
def ofBigEndian (bytes : Bytes) : Nat :=
  bytes.foldl (fun acc b => acc * 256 + b.toNat) 0

/-- The last `width` digits of `n` in base 256, greatest first. -/
def bigEndian : (width : Nat) → (n : Nat) → Bytes
  | 0, _ => []
  | width + 1, n => bigEndian width (n / 256) ++ [UInt8.ofNat (n % 256)]

/-- The number whose little-endian digits in base 256 are the bytes. -/
def ofLittleEndian : Bytes → Nat
  | [] => 0
  | b :: rest => b.toNat + 256 * ofLittleEndian rest

/-- The last `width` digits of `n` in base 256, least first. -/
def littleEndian : (width : Nat) → (n : Nat) → Bytes
  | 0, _ => []
  | width + 1, n => UInt8.ofNat (n % 256) :: littleEndian width (n / 256)

/-- No bytes are the number zero. -/
@[simp] theorem ofBigEndian_nil : ofBigEndian [] = 0 := rfl

/-- The last byte is the least significant. -/
@[simp] theorem ofBigEndian_concat (bytes : Bytes) (b : UInt8) :
    ofBigEndian (bytes ++ [b]) = ofBigEndian bytes * 256 + b.toNat := by
  simp [ofBigEndian]

/-- A number is written in as many bytes as it is given. -/
@[simp] theorem length_bigEndian (width n : Nat) : (bigEndian width n).length = width := by
  induction width generalizing n with
  | zero => rfl
  | succ width ih => simp [bigEndian, ih]

/-- A number is written in as many bytes as it is given, also with the least significant one first.
-/
@[simp] theorem length_littleEndian (width n : Nat) : (littleEndian width n).length = width := by
  induction width generalizing n with
  | zero => rfl
  | succ width ih => simp [littleEndian, ih]

/-- Reading back `width` digits keeps what fits into them. -/
theorem ofBigEndian_bigEndian (width n : Nat) :
    ofBigEndian (bigEndian width n) = n % Nat.pow 256 width := by
  induction width generalizing n with
  | zero => simp [bigEndian, Nat.mod_one]
  | succ width ih =>
    have hpow : Nat.pow 256 (width + 1) = 256 * Nat.pow 256 width := Nat.pow_succ'
    rw [bigEndian, ofBigEndian_concat, ih, hpow, Nat.mod_mul]
    simp only [UInt8.toNat_ofNat']
    omega

/-! ## Pieces -/

/-- Pieces of `size` bytes in order, the last one possibly shorter; none of an empty byte string
or for the size zero. -/
def chunks (size : Nat) (bytes : Bytes) : List Bytes :=
  if size = 0 ∨ bytes.length = 0 then []
  else bytes.take size :: chunks size (bytes.drop size)
termination_by bytes.length
decreasing_by simp only [List.length_drop]; omega

/-- The byte string as a vector, when it has exactly `size` bytes. -/
def toVector? (size : Nat) (bytes : Bytes) : Option (Vector UInt8 size) :=
  if h : bytes.length = size then some ⟨bytes.toArray, by simp [h]⟩ else none

/-- Chunks put together again are the bytes that were cut. -/
@[simp] theorem flatten_chunks {size : Nat} (hs : size ≠ 0) (bytes : Bytes) :
    (chunks size bytes).flatten = bytes := by
  fun_induction chunks size bytes with
  | case1 bytes h =>
    have : bytes = [] := List.length_eq_zero_iff.1 (h.resolve_left hs)
    simp [this]
  | case2 bytes h ih => simp [ih, List.take_append_drop]

/-! ## Hexadecimal text -/

/-- The lower-case digit of a number below 16. -/
def hexDigit (n : Nat) : Char :=
  Char.ofNat (if n < 10 then 48 + n else 87 + n)

/-- Two lower-case hexadecimal digits a byte. -/
def toHex (bytes : Bytes) : String :=
  String.ofList (bytes.flatMap fun b => [hexDigit (b.toNat / 16), hexDigit (b.toNat % 16)])

/-- The value of a hexadecimal digit of either case. -/
def hexValue? (c : Char) : Option Nat :=
  if '0' ≤ c ∧ c ≤ '9' then some (c.toNat - 48)
  else if 'a' ≤ c ∧ c ≤ 'f' then some (c.toNat - 87)
  else if 'A' ≤ c ∧ c ≤ 'F' then some (c.toNat - 55)
  else none

/-- The bytes that pairs of hexadecimal digits stand for. -/
def ofHexDigits? : List Char → Option Bytes
  | [] => some []
  | [_] => none
  | high :: low :: rest => do
    let h ← hexValue? high
    let l ← hexValue? low
    let bytes ← ofHexDigits? rest
    return UInt8.ofNat (16 * h + l) :: bytes

/-- The byte string of a hexadecimal text. -/
def ofHex? (text : String) : Option Bytes := ofHexDigits? text.toList

/-- The byte string of a text in its UTF-8 encoding. -/
def ofString (text : String) : Bytes :=
  text.toUTF8.toList

end Bytes

end NamedContent
