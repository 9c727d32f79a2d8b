import NamedContent.Cbor.Head

/-! # Encoders for typed values

Every value has one written form: shortest heads, definite lengths, and the fields of a record in
the order in which the record lists them.

* `Cbor.unsigned`, `Cbor.signed`, `Cbor.boolean`, `Cbor.byteString`, `Cbor.text`: single values
* `Cbor.array`, `Cbor.octets`: arrays, and byte strings as arrays of numbers
* `Cbor.optional`, `Cbor.record`: null for an absent value, and maps with text keys
-/

namespace NamedContent.Cbor

/-- An unsigned number. -/
def unsigned (n : Nat) : Bytes := head .unsigned n

/-- A number of either sign. -/
def signed : Int → Bytes
  | .ofNat n => head .unsigned n
  | .negSucc n => head .negative n

/-- A truth value. -/
def boolean (b : Bool) : Bytes := [if b then 0xF5 else 0xF4]

/-- A byte string. -/
def byteString (bytes : Bytes) : Bytes := head .bytes bytes.length ++ bytes

/-- A text. -/
def text (t : String) : Bytes :=
  let bytes := Bytes.ofString t
  head .text bytes.length ++ bytes

/-- An array of encoded elements. -/
def array (elements : List Bytes) : Bytes := head .array elements.length ++ elements.flatten

/-- A byte string as an array of numbers. -/
def octets (bytes : Bytes) : Bytes := array (bytes.map fun b => unsigned b.toNat)

/-- An encoded value, or null for none. -/
def optional {α : Type} (encode : α → Bytes) : Option α → Bytes
  | none => [0xF6]
  | some a => encode a

/-- A map from texts to encoded values, in the order given. -/
def record (entries : List (String × Bytes)) : Bytes :=
  head .map entries.length ++ entries.flatMap fun (key, value) => text key ++ value

end NamedContent.Cbor
