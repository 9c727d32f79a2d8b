import NamedContent.Cbor.Decoder
import NamedContent.Cbor.Encoder
import NamedContent.Content.Basic

/-! # The wire form of content objects

Objects travel as CBOR records. Names are arrays of byte strings, keys and content arrays of
numbers, and absent values null. Only objects that keep the rules are written or read.

* `ContentObject.encode`, `ContentObject.decode`: writing and reading
* `ContentObject.signedPortion`, `ContentObject.signedDigest`: what a signature covers
* `ContentObject.digest`: the content address
-/

namespace NamedContent

open Cbor

/-! ## Names and fixed-size byte strings -/

/-- A component as a byte string. -/
def Component.toCbor (c : Component) : Bytes := byteString c.bytes

/-- Reads a component: a byte string or an array of bytes. -/
def Component.ofCbor : Decoder Component := Component.mk <$> Decoder.byteString

/-- A name as the array of its components. -/
def Name.toCbor (n : Name) : Bytes := array (n.components.map Component.toCbor)

/-- Reads a name: an array of components, or an empty byte string for the root. -/
def Name.ofCbor : Decoder Name := Name.mk <$> Decoder.sequence (fun _ => none) Component.ofCbor

/-- A key as an array of numbers. -/
def PublisherKey.toCbor (key : PublisherKey) : Bytes := octets key.bytes.toList

/-- Reads a key: the first 32 elements of an array or bytes of a byte string. -/
def PublisherKey.ofCbor : Decoder PublisherKey := do
  let key ← Decoder.exactly 32
  StateT.lift ((Bytes.toVector? 32 key).map PublisherKey.mk)

/-- A signature as a byte string. -/
def Signature.toCbor (s : Signature) : Bytes := byteString s.bytes.toList

/-- Reads a signature of exactly 64 bytes. -/
def Signature.ofCbor : Decoder Signature := do
  let s ← Decoder.byteString
  StateT.lift ((Bytes.toVector? 64 s).map Signature.mk)

/-! ## The publisher's metadata -/

/-- The record of the metadata. -/
def SignedInfo.toCbor (info : SignedInfo) : Bytes :=
  record [
    ("publisher", info.publisher.toCbor),
    ("timestamp", unsigned info.timestamp.ticks.toNat),
    ("content_type", unsigned info.contentType.tag.toNat),
    ("freshness_seconds", optional (fun s : UInt32 => unsigned s.toNat) info.freshnessSeconds),
    ("final_block_id", optional Component.toCbor info.finalBlock)]

/-- The fields of the metadata read so far. -/
structure SignedInfo.Draft where
  /-- The publisher. -/
  publisher : Option PublisherKey := none
  /-- When the object was made. -/
  timestamp : Option UInt64 := none
  /-- What the content is. -/
  contentType : Option ContentType := none
  /-- How long a cached copy stays fresh. -/
  freshnessSeconds : Option (Option UInt32) := none
  /-- The last component of the last segment. -/
  finalBlock : Option (Option Component) := none

/-- Reads a content type by its tag. -/
def ContentType.ofCbor : Decoder ContentType := do
  StateT.lift (ContentType.ofTag? (← Decoder.word32))

/-- Reads the value of one field; the value of an unknown key is skipped. -/
def SignedInfo.Draft.read (key : Bytes) (d : Draft) : Decoder Draft :=
  if key = Bytes.ofString "publisher" then do
    return { d with publisher := ← Decoder.fill d.publisher PublisherKey.ofCbor }
  else if key = Bytes.ofString "timestamp" then do
    return { d with timestamp := ← Decoder.fill d.timestamp Decoder.word64 }
  else if key = Bytes.ofString "content_type" then do
    return { d with contentType := ← Decoder.fill d.contentType ContentType.ofCbor }
  else if key = Bytes.ofString "freshness_seconds" then do
    return { d with
      freshnessSeconds := ← Decoder.fill d.freshnessSeconds (Decoder.optional Decoder.word32) }
  else if key = Bytes.ofString "final_block_id" then do
    return { d with
      finalBlock := ← Decoder.fill d.finalBlock (Decoder.optional Component.ofCbor) }
  else do
    Decoder.skip (Decoder.depthLimit - 2)
    return d

/-- The metadata, once the fields that must be there are. -/
def SignedInfo.Draft.finish? (d : Draft) : Option SignedInfo := do
  return {
    publisher := ← d.publisher
    timestamp := ⟨← d.timestamp⟩
    contentType := ← d.contentType
    freshnessSeconds := d.freshnessSeconds.join
    finalBlock := d.finalBlock.join }

/-- Reads the record of the metadata. -/
def SignedInfo.ofCbor : Decoder SignedInfo := do
  let d ← Decoder.fields SignedInfo.Draft.read {}
  StateT.lift d.finish?

/-! ## Objects -/

namespace ContentObject

/-- The record of an object. -/
def toCbor (o : ContentObject) : Bytes :=
  record [
    ("name", o.name.toCbor),
    ("signed_info", o.signedInfo.toCbor),
    ("content", octets o.content),
    ("signature", optional Signature.toCbor o.signature)]

/-- The fields of an object read so far. -/
structure Draft where
  /-- The name. -/
  name : Option Name := none
  /-- The publisher's metadata. -/
  signedInfo : Option SignedInfo := none
  /-- The data. -/
  content : Option Bytes := none
  /-- The signature. -/
  signature : Option (Option Signature) := none

/-- Reads the value of one field; the value of an unknown key is skipped. -/
def Draft.read (key : Bytes) (d : Draft) : Decoder Draft :=
  if key = Bytes.ofString "name" then do
    return { d with name := ← Decoder.fill d.name Name.ofCbor }
  else if key = Bytes.ofString "signed_info" then do
    return { d with signedInfo := ← Decoder.fill d.signedInfo SignedInfo.ofCbor }
  else if key = Bytes.ofString "content" then do
    return { d with content := ← Decoder.fill d.content (Decoder.sequence some Decoder.byte) }
  else if key = Bytes.ofString "signature" then do
    return { d with
      signature := ← Decoder.fill d.signature (Decoder.optional Signature.ofCbor) }
  else do
    Decoder.skip (Decoder.depthLimit - 1)
    return d

/-- The object, once the fields that must be there are. -/
def Draft.finish? (d : Draft) : Option ContentObject := do
  return {
    name := ← d.name
    signedInfo := ← d.signedInfo
    content := ← d.content
    signature := d.signature.join }

/-- Reads the record of an object. -/
def ofCbor : Decoder ContentObject := do
  let d ← Decoder.fields Draft.read {}
  StateT.lift d.finish?

/-- The bytes of an object that keeps the rules. -/
def encode (o : ContentObject) : Except FormatError Bytes := do
  o.validate
  return o.toCbor

/-- The object at the front of a byte string; what follows it is ignored. -/
def decode (bytes : Bytes) : Except FormatError ContentObject :=
  match ofCbor bytes with
  | none => .error .malformed
  | some (o, _) => do
    o.validate
    return o

/-- The content address: the digest of the encoded object. -/
def digest (o : ContentObject) : Except FormatError Digest := do
  return Digest.ofBytes (← o.encode)

/-! ## What a signature covers -/

/-- The record that a signature covers: the name, the metadata and the digest of the content. -/
def signedPortion (o : ContentObject) : Bytes :=
  record [
    ("name", o.name.toCbor),
    ("signed_info", o.signedInfo.toCbor),
    ("content_digest", octets (Digest.ofBytes o.content).toList)]

/-- The digest that is signed. -/
def signedDigest (o : ContentObject) : Except FormatError Digest := do
  o.validate
  return Digest.ofBytes o.signedPortion

end ContentObject

end NamedContent
