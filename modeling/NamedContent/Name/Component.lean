import NamedContent.Bytes

/-! # Name components

A component is an opaque byte string. Components are ordered by their bytes, read as unsigned
numbers, with a strict prefix before its extensions.

* `Component`: the type, with `Component.marker?` for its first byte
* `Component.escaped`: the text of a component inside a URI
* `Component.ofEscaped?`: reading that text
-/

namespace NamedContent

/-- One opaque component of a name. -/
structure Component where
  /-- The bytes of the component. -/
  bytes : Bytes
  deriving DecidableEq, Inhabited, Repr

namespace Component

instance : LT Component := ⟨fun a b => a.bytes < b.bytes⟩

instance : LE Component := ⟨fun a b => a.bytes ≤ b.bytes⟩

instance : DecidableLT Component := fun a b => inferInstanceAs (Decidable (a.bytes < b.bytes))

instance : DecidableLE Component := fun a b => inferInstanceAs (Decidable (a.bytes ≤ b.bytes))

instance : Std.IsLinearOrder Component where
  le_refl a := List.le_refl a.bytes
  le_trans _ _ _ := List.le_trans
  le_antisymm a b hab hba := by
    cases a; cases b; exact congrArg Component.mk (Std.le_antisymm hab hba)
  le_total a b := List.le_total a.bytes b.bytes

instance : Std.LawfulOrderLT Component where
  lt_iff a b := Std.LawfulOrderLT.lt_iff a.bytes b.bytes

instance : Trans (fun a b : Component => a < b) (fun a b : Component => a < b)
    (fun a b : Component => a < b) :=
  ⟨Std.lt_trans⟩

/-- The component that holds a text in UTF-8. -/
def ofString (text : String) : Component := ⟨Bytes.ofString text⟩

/-- The first byte, by which marked components are told apart. -/
def marker? (c : Component) : Option UInt8 := c.bytes.head?

/-- The number of bytes. -/
def length (c : Component) : Nat := c.bytes.length

/-! ## Escaped text -/

/-- The byte of a full stop. -/
def dot : UInt8 := 46

/-- Whether a byte stands for itself in a URI: ASCII letters and digits, hyphen, full stop,
underscore and tilde. -/
def isUnreserved (b : UInt8) : Bool :=
  (48 ≤ b && b ≤ 57) || (65 ≤ b && b ≤ 90) || (97 ≤ b && b ≤ 122)
    || b == 45 || b == dot || b == 95 || b == 126

/-- The upper-case digit of a number below 16. -/
def upperHexDigit (n : Nat) : Char :=
  Char.ofNat (if n < 10 then 48 + n else 55 + n)

/-- The text of one byte: itself, or a percent sign and two upper-case hexadecimal digits. -/
def escapeByte (b : UInt8) : List Char :=
  if isUnreserved b then [Char.ofNat b.toNat]
  else ['%', upperHexDigit (b.toNat / 16), upperHexDigit (b.toNat % 16)]

/-- Whether a byte string consists of full stops only; the empty one does. -/
def allDots (bytes : Bytes) : Bool := bytes.all (· == dot)

/-- The characters of a component inside a URI. A component of full stops only carries three
more in front, so that no component reads as empty, as `.` or as `..`. -/
def escapedChars (c : Component) : List Char :=
  (if allDots c.bytes then ['.', '.', '.'] else []) ++ c.bytes.flatMap escapeByte

/-- The text of a component inside a URI. -/
def escaped (c : Component) : String := String.ofList c.escapedChars

/-! ## Reading escaped text -/

/-- The byte written by the two characters after a percent sign: two hexadecimal digits, or a
plus sign and one. -/
def hexPair? (high low : Char) : Option UInt8 := do
  let h ← if high = '+' then some 0 else Bytes.hexValue? high
  let l ← Bytes.hexValue? low
  return UInt8.ofNat (16 * h + l)

/-- The bytes of an escaped text, before the rule on full stops. A character that is not
escaped stands for its UTF-8 bytes. -/
def unescape? : List Char → Option Bytes
  | [] => some []
  | '%' :: high :: low :: rest => do
    let b ← hexPair? high low
    let bytes ← unescape? rest
    return b :: bytes
  | c :: rest =>
    if c = '%' then none
    else (unescape? rest).map (String.utf8EncodeChar c ++ ·)

/-- The component that an escaped text stands for. A text that decodes to full stops only has
three too many; with fewer than three it stands for no component. -/
def ofEscaped? (text : List Char) : Option Component := do
  let bytes ← unescape? text
  if allDots bytes then
    if bytes.length < 3 then none else return ⟨bytes.drop 3⟩
  else return ⟨bytes⟩

/-- The readable form for diagnostics. -/
def debugText (c : Component) : String := "Component(" ++ c.escaped ++ ")"

end Component

end NamedContent
