import NamedContent.Content.Wire
import NamedContent.Signing.Ed25519

/-! # Signing and verifying objects

A signer stands for a publisher; a verifier checks a signature against a publisher's key. Both are
values, so that what depends on them can be stated for any scheme, and both may fail.

* `Signer`, `Verifier`: the two sides of a scheme
* `Signer.Signs`, `Verifier.Trusts`: a signer that never fails, and a verifier that goes with it
* `Signer.ed25519`, `Verifier.ed25519`: the scheme in use
* `publisherSecret`: the secret derived from a seed
* `ContentObject.sign`, `ContentObject.verify`: whole objects
-/

namespace NamedContent

/-! ## Schemes -/

/-- Why an object cannot be signed or its signature not be checked. -/
inductive SigningError where
  /-- The publisher's key is no public key. -/
  | invalidPublicKey (key : PublisherKey)
  /-- The object has no signature. -/
  | missingSignature
  /-- The object breaks a rule and so has no signed portion. -/
  | undigestible (cause : FormatError)
  deriving DecidableEq

/-- The wording of an error. -/
def SigningError.message : SigningError → String
  | .invalidPublicKey key => "invalid publisher key " ++ key.toHex
  | .missingSignature => "content object is unsigned"
  | .undigestible cause => "cannot digest signed portion: " ++ cause.message

/-- One publisher's side of a signature scheme. -/
structure Signer where
  /-- The key under which signatures verify. -/
  key : PublisherKey
  /-- The signature of a message, or why there is none. -/
  sign : Bytes → Except SigningError Signature

/-- The checking side of a signature scheme. -/
structure Verifier where
  /-- Whether a signature is the publisher's over a message. -/
  verify : PublisherKey → Bytes → Signature → Except SigningError Bool

/-- The signer has a signature for every message. -/
def Signer.Signs (s : Signer) : Prop := ∀ message, ∃ signature, s.sign message = .ok signature

/-- The verifier finds what the signer signed to be genuine. -/
def Verifier.Trusts (v : Verifier) (s : Signer) : Prop :=
  ∀ message signature, s.sign message = .ok signature →
    v.verify s.key message signature = .ok true

/-! ## Ed25519 -/

/-- The signer with a secret. -/
def Signer.ed25519 (secret : Bytes) : Signer where
  key := ⟨⟨(Ed25519.publicKey secret).toArray, by simp⟩⟩
  sign message := .ok ⟨⟨(Ed25519.sign secret message).toArray, by simp⟩⟩

/-- The scheme in use has a signature for every message. -/
theorem Signer.signs_ed25519 (secret : Bytes) : (ed25519 secret).Signs := fun _ => ⟨_, rfl⟩

/-- The verifier of Ed25519 signatures. -/
def Verifier.ed25519 : Verifier where
  verify key message signature :=
    match Ed25519.verify? key.bytes.toList message signature.bytes.toList with
    | some genuine => .ok genuine
    | none => .error (.invalidPublicKey key)

/-- What is hashed in front of a seed. -/
def secretDomain : Bytes := Bytes.ofString "ccn/publisher-secret/v1"

/-- The secret derived from a seed. -/
def publisherSecret (seed : Bytes) : Bytes := (Digest.ofBytes (secretDomain ++ seed)).toList

/-- The signer whose secret is derived from a seed. -/
def Signer.ofSeed (seed : Bytes) : Signer := .ed25519 (publisherSecret seed)

/-! ## Objects -/

namespace ContentObject

/-- The object as published by a signer, with a signature over its signed portion. -/
def sign (o : ContentObject) (signer : Signer) : Except SigningError ContentObject :=
  let o := { o with signedInfo := { o.signedInfo with publisher := signer.key } }
  match o.signedDigest with
  | .ok digest => do
    let signature ← signer.sign digest.toList
    return { o with signature := some signature }
  | .error cause => .error (.undigestible cause)

/-- Whether the object's signature is that of its publisher. -/
def verify (o : ContentObject) (verifier : Verifier) : Except SigningError Bool :=
  match o.signature with
  | none => .error .missingSignature
  | some signature =>
    match o.signedDigest with
    | .ok digest => verifier.verify o.signedInfo.publisher digest.toList signature
    | .error cause => .error (.undigestible cause)

end ContentObject

end NamedContent
