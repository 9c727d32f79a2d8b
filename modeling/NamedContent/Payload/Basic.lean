import NamedContent.Cbor.Decoder
import NamedContent.Cbor.Encoder

/-! # Payload codecs

A payload codec turns application values into the bytes of a stream and back. Reading takes one
item off the front and ignores what follows.

* `PayloadError`, `PayloadCodec`: the interface
* `PayloadCodec.ofCbor`: a codec from an encoder and a decoder
* `PayloadCodec.text`, `PayloadCodec.integers`, `PayloadCodec.flag`, `PayloadCodec.table`: codecs
* `Note`, `PayloadCodec.note`: a record of two texts
-/

namespace NamedContent

open Cbor

/-- Why a value cannot be turned into bytes or back. -/
inductive PayloadError where
  /-- The value has no bytes. -/
  | unencodable
  /-- The bytes are no value. -/
  | undecodable
  deriving DecidableEq, Repr

/-- The wording of an error. -/
def PayloadError.message : PayloadError → String
  | .unencodable => "encode error"
  | .undecodable => "decode error"

/-- Turns values into bytes and back. -/
structure PayloadCodec (α : Type) where
  /-- The bytes of a value. -/
  encode : α → Except PayloadError Bytes
  /-- The value of bytes. -/
  decode : Bytes → Except PayloadError α

namespace PayloadCodec

/-- The bytes of a value read back as that value. -/
def RoundTrips {α : Type} (c : PayloadCodec α) : Prop :=
  ∀ a bytes, c.encode a = .ok bytes → c.decode bytes = .ok a

/-- The codec that writes and reads one CBOR item. -/
def ofCbor {α : Type} (encode : α → Bytes) (decoder : Decoder α) : PayloadCodec α where
  encode a := .ok (encode a)
  decode bytes :=
    match decoder bytes with
    | some (a, _) => .ok a
    | none => .error .undecodable

/-- Texts. -/
def text : PayloadCodec String := ofCbor Cbor.text Decoder.text

/-- Lists of signed 64-bit numbers. -/
def integers : PayloadCodec (List Int) :=
  ofCbor (fun ns => array (ns.map signed))
    (Decoder.sequence (fun b => some (b.toNat : Int)) Decoder.signed64)

/-- Truth values that may be absent. -/
def flag : PayloadCodec (Option Bool) :=
  ofCbor (optional boolean) (Decoder.optional Decoder.boolean)

/-! ## Tables -/

/-- The entries of a table with one added in the order of the keys' bytes; a key occurs once. -/
def setEntry (key : String) (numbers : List UInt32) :
    List (String × List UInt32) → List (String × List UInt32)
  | [] => [(key, numbers)]
  | (k, ns) :: rest =>
    if k = key then (key, numbers) :: rest
    else if Bytes.ofString key < Bytes.ofString k then (key, numbers) :: (k, ns) :: rest
    else (k, ns) :: setEntry key numbers rest

/-- Reads a table: a map from texts to lists of numbers. -/
def tableOfCbor : Decoder (List (String × List UInt32)) := do
  match ← (Decoder.untagged : Decoder Head) with
  | .map count =>
    Decoder.forItems count (fun entries => do
      let key ← Decoder.text
      let numbers ← Decoder.sequence (fun b => some b.toUInt32) Decoder.word32
      return setEntry key numbers entries) []
  | _ => failure

/-- Ordered tables from texts to lists of numbers. -/
def table : PayloadCodec (List (String × List UInt32)) :=
  ofCbor
    (fun entries => record (entries.map fun (key, numbers) =>
      (key, array (numbers.map fun n => unsigned n.toNat))))
    tableOfCbor

end PayloadCodec

/-! ## Notes -/

/-- A titled text. -/
structure Note where
  /-- The title. -/
  title : String
  /-- The text. -/
  body : String
  deriving DecidableEq, Inhabited, Repr

namespace Note

/-- The record of a note. -/
def toCbor (n : Note) : Bytes := record [("title", Cbor.text n.title), ("body", Cbor.text n.body)]

/-- The fields of a note read so far. -/
structure Draft where
  /-- The title. -/
  title : Option String := none
  /-- The text. -/
  body : Option String := none

/-- Reads the value of one field; the value of an unknown key is skipped. -/
def Draft.read (key : Bytes) (d : Draft) : Decoder Draft :=
  if key = Bytes.ofString "title" then do
    return { d with title := ← Decoder.fill d.title Decoder.text }
  else if key = Bytes.ofString "body" then do
    return { d with body := ← Decoder.fill d.body Decoder.text }
  else do
    Decoder.skip (Decoder.depthLimit - 1)
    return d

/-- Reads the record of a note. -/
def ofCbor : Decoder Note := do
  let d ← Decoder.fields Draft.read {}
  return ⟨← StateT.lift d.title, ← StateT.lift d.body⟩

end Note

/-- Notes. -/
def PayloadCodec.note : PayloadCodec Note := ofCbor Note.toCbor Note.ofCbor

end NamedContent
