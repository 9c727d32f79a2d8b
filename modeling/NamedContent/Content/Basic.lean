import NamedContent.Digest.Blake3
import NamedContent.Name.Version

/-! # Content objects

A content object is an immutable named unit of data with the publisher's metadata and, once
signed, a signature.

* `PublisherKey`, `Signature`: the fixed-size byte strings of signing
* `ContentType`, with its numeric `ContentType.tag`
* `SignedInfo`, `ContentObject`
* `ContentObject.validate`: the rules every object that is sent or read obeys
* `FormatError`: why an object or interest is refused
-/

namespace NamedContent

/-! ## Fixed-size byte strings -/

/-- The public key that identifies a publisher. -/
structure PublisherKey where
  /-- The 32 bytes of the key. -/
  bytes : Vector UInt8 32
  deriving DecidableEq

instance : Inhabited PublisherKey := ⟨⟨Vector.replicate 32 0⟩⟩

/-- The hexadecimal text of a key. -/
def PublisherKey.toHex (key : PublisherKey) : String := Bytes.toHex key.bytes.toList

/-- The readable form for diagnostics: the first eight bytes. -/
def PublisherKey.debugText (key : PublisherKey) : String :=
  "PublisherKey(" ++ Bytes.toHex (key.bytes.toList.take 8) ++ ")"

/-- A signature over an object's signed portion. -/
structure Signature where
  /-- The 64 bytes of the signature. -/
  bytes : Vector UInt8 64
  deriving DecidableEq

/-! ## Content types -/

/-- What the content of an object is. -/
inductive ContentType where
  /-- Application data. -/
  | data
  /-- Encrypted data. -/
  | encrypted
  /-- A tombstone: nothing exists at or below this name. -/
  | gone
  /-- A key. -/
  | key
  /-- A link to another name. -/
  | link
  /-- A negative acknowledgement. -/
  | nack
  deriving DecidableEq, Inhabited, Repr

/-- The number that stands for a type. -/
def ContentType.tag : ContentType → UInt32
  | .data => 0x0C04C0
  | .encrypted => 0x10D091
  | .gone => 0x18E344
  | .key => 0x28463F
  | .link => 0x2C834A
  | .nack => 0x34008A

/-- The type that a number stands for. -/
def ContentType.ofTag? (tag : UInt32) : Option ContentType :=
  [.data, .encrypted, .gone, .key, .link, .nack].find? (·.tag = tag)

/-- A type is known by its tag. -/
@[simp] theorem ContentType.ofTag?_tag (t : ContentType) : ofTag? t.tag = some t := by
  cases t <;> decide

/-! ## Errors -/

/-- Why an object or an interest is refused. -/
inductive FormatError where
  /-- The bytes are no such item. -/
  | malformed
  /-- The object breaks a rule. -/
  | invalidObject (reason : String)
  /-- The interest breaks a rule. -/
  | invalidInterest (reason : String)
  /-- No content type has this tag. -/
  | unknownContentType (tag : UInt32)
  deriving DecidableEq, Repr

/-- Lower-case hexadecimal digits, filled up with zeros to `width`. -/
def paddedHex (width n : Nat) : String :=
  let digits := Nat.toDigits 16 n
  String.ofList (List.replicate (width - digits.length) '0' ++ digits)

/-- The wording of an error. -/
def FormatError.message : FormatError → String
  | .malformed => "decode error"
  | .invalidObject reason => "invalid content object: " ++ reason
  | .invalidInterest reason => "invalid interest: " ++ reason
  | .unknownContentType tag => "unknown content type tag 0x" ++ paddedHex 6 tag.toNat

/-- The type that a number stands for, or the error that none has it. -/
def ContentType.ofTag (tag : UInt32) : Except FormatError ContentType :=
  match ofTag? tag with
  | some t => .ok t
  | none => .error (.unknownContentType tag)

/-! ## Objects -/

/-- The publisher's metadata, covered by the signature. -/
structure SignedInfo where
  /-- The publisher. -/
  publisher : PublisherKey
  /-- When the object was made. -/
  timestamp : Timestamp
  /-- What the content is. -/
  contentType : ContentType
  /-- How many seconds a cached copy stays fresh, where that is bounded. -/
  freshnessSeconds : Option UInt32
  /-- The last component of the last segment of the stream, where that is known. -/
  finalBlock : Option Component
  deriving DecidableEq

/-- A named unit of data. -/
structure ContentObject where
  /-- The name under which the object is asked for. -/
  name : Name
  /-- The publisher's metadata. -/
  signedInfo : SignedInfo
  /-- The data. -/
  content : Bytes
  /-- The signature, once there is one. -/
  signature : Option Signature
  deriving DecidableEq

namespace ContentObject

/-- What the content is. -/
def contentType (o : ContentObject) : ContentType := o.signedInfo.contentType

/-- Whether the object is a tombstone. -/
def isGone (o : ContentObject) : Bool := o.contentType == .gone

/-- The rules for objects: a name with a component, and no content in a tombstone. -/
def validate (o : ContentObject) : Except FormatError Unit := do
  if o.name.isEmpty then throw (.invalidObject "name must not be empty")
  if o.isGone && !o.content.isEmpty then throw (.invalidObject "gone content must be empty")

/-- Whether the object keeps the rules. -/
def Valid (o : ContentObject) : Prop :=
  o.name ≠ Name.root ∧ (o.contentType = .gone → o.content = [])

instance (o : ContentObject) : Decidable o.Valid :=
  inferInstanceAs (Decidable (_ ∧ _))

/-- Whether the object is the last one of its stream. One that does not tell which is the last is
a stream by itself. -/
def isFinalBlock (o : ContentObject) : Bool :=
  match o.signedInfo.finalBlock with
  | none => true
  | some last => o.name.last? == some last

/-- The check passes just for what is valid. -/
theorem validate_eq_ok_iff (o : ContentObject) : o.validate = .ok () ↔ o.Valid := by
  obtain ⟨⟨components⟩, info, content, signature⟩ := o
  cases components <;> cases content <;> cases hi : info.contentType <;>
    simp [validate, Valid, Name.isEmpty, Name.root, isGone, contentType, hi, bind, Except.bind,
      throw, throwThe, MonadExceptOf.throw, pure, Except.pure, BEq.beq]

end ContentObject

end NamedContent
