import NamedContent.Proofs.Action
import NamedContent.Signing.Basic

/-! # Signed objects verify

Signing an object that keeps the rules fails only where its signer does. It changes nothing but the
publisher and the signature, and a verifier that trusts the signer finds the result genuine.

* `ContentObject.signedBy`: what a signer makes of an object, with `ContentObject.sign_eq`
* `ContentObject.Genuine`: objects that verify, with `ContentObject.genuine_of_sign` -/

namespace NamedContent

namespace ContentObject

/-- What a signer publishes in place of an object: its key as the publisher and its signature over
the signed portion, if it has one. -/
def signedBy (o : ContentObject) (signer : Signer) : ContentObject :=
  let o := { o with signedInfo := { o.signedInfo with publisher := signer.key } }
  { o with signature := (signer.sign (Digest.ofBytes o.signedPortion).toList).toOption }

/-- Signing does not touch the name. -/
@[simp] theorem signedBy_name (o : ContentObject) (signer : Signer) :
    (o.signedBy signer).name = o.name := rfl

/-- Signing does not touch the content. -/
@[simp] theorem signedBy_content (o : ContentObject) (signer : Signer) :
    (o.signedBy signer).content = o.content := rfl

/-- Signing does not touch what is said of the final block. -/
@[simp] theorem signedBy_finalBlock (o : ContentObject) (signer : Signer) :
    (o.signedBy signer).signedInfo.finalBlock = o.signedInfo.finalBlock := rfl

/-- Signing does not touch what the rules are about. -/
@[simp] theorem valid_signedBy (o : ContentObject) (signer : Signer) :
    (o.signedBy signer).Valid ↔ o.Valid := Iff.rfl

/-- The signed portion of an object that keeps the rules has a digest. -/
theorem signedDigest_eq_ok {o : ContentObject} (h : o.Valid) :
    o.signedDigest = .ok (Digest.ofBytes o.signedPortion) := by
  rw [signedDigest, (validate_eq_ok_iff o).2 h]
  rfl

/-- An object that keeps the rules has an address. -/
theorem digest_eq_ok {o : ContentObject} (h : o.Valid) :
    o.digest = .ok (Digest.ofBytes o.toCbor) := by
  rw [digest, encode, (validate_eq_ok_iff o).2 h]
  rfl

/-- An object that has an address keeps the rules. -/
theorem valid_of_digest_eq_ok {o : ContentObject} {d : Digest} (h : o.digest = .ok d) :
    o.Valid := by
  obtain ⟨bytes, hencode, -⟩ := bind_eq_ok_iff.1 h
  obtain ⟨_, hvalidate, -⟩ := bind_eq_ok_iff.1 hencode
  exact (validate_eq_ok_iff o).1 hvalidate

/-- **Signing an object that keeps the rules** comes to what its signer makes of the message. -/
theorem sign_eq {o : ContentObject} (h : o.Valid) (signer : Signer) :
    o.sign signer = (signer.sign (Digest.ofBytes (o.signedBy signer).signedPortion).toList).map
      fun _ => o.signedBy signer := by
  have hv : ({ o with signedInfo := { o.signedInfo with publisher := signer.key } } :
      ContentObject).Valid := h
  rw [sign, signedBy]
  simp only [signedDigest_eq_ok hv]
  -- the record that is hashed does not hold the signature
  show _ = (signer.sign (Digest.ofBytes (signedPortion { o with signedInfo := _ })).toList).map _
  cases signer.sign _ <;> rfl

/-- **Signing an object that keeps the rules succeeds** if the signer never fails. -/
theorem sign_eq_ok {o : ContentObject} (h : o.Valid) {signer : Signer} (hsigns : signer.Signs) :
    o.sign signer = .ok (o.signedBy signer) := by
  obtain ⟨signature, hsignature⟩ := hsigns (Digest.ofBytes (o.signedBy signer).signedPortion).toList
  rw [sign_eq h, hsignature]
  rfl

/-- **Signing an object that keeps the rules fails only where its signer does.** -/
theorem sign_eq_error {o : ContentObject} (h : o.Valid) {signer : Signer} {e : SigningError}
    (herror : o.sign signer = .error e) : ∃ message, signer.sign message = .error e := by
  rw [sign_eq h] at herror
  refine ⟨(Digest.ofBytes (o.signedBy signer).signedPortion).toList, ?_⟩
  cases hsignature : signer.sign (Digest.ofBytes (o.signedBy signer).signedPortion).toList with
  | error cause =>
    rw [hsignature] at herror
    exact congrArg Except.error (Except.error.inj herror)
  | ok signature =>
    rw [hsignature] at herror
    cases herror

/-- An object that a signer could sign keeps the rules. -/
theorem valid_of_sign {o p : ContentObject} {signer : Signer} (h : o.sign signer = .ok p) :
    o.Valid := by
  cases hv : o.validate with
  | ok u => exact (validate_eq_ok_iff o).1 hv
  | error cause =>
    have hv' : ({ o with signedInfo := { o.signedInfo with publisher := signer.key } } :
        ContentObject).validate = .error cause := hv
    rw [sign, signedDigest, hv'] at h
    cases h

/-- **What signing succeeds with**: the message has a signature, which the result carries. -/
theorem exists_of_sign {o p : ContentObject} {signer : Signer} (h : o.sign signer = .ok p) :
    p = o.signedBy signer ∧ ∃ signature, p.signature = some signature
      ∧ signer.sign (Digest.ofBytes p.signedPortion).toList = .ok signature := by
  rw [sign_eq (valid_of_sign h)] at h
  cases hsignature : signer.sign (Digest.ofBytes (o.signedBy signer).signedPortion).toList with
  | error e =>
    rw [hsignature] at h
    cases h
  | ok signature =>
    rw [hsignature] at h
    obtain rfl : o.signedBy signer = p := Except.ok.inj h
    exact ⟨rfl, signature, congrArg Except.toOption hsignature, hsignature⟩

/-- An object with a signature is verified by what its verifier finds of that over the message. -/
theorem verify_eq {o : ContentObject} (h : o.Valid) {signature : Signature}
    (hsignature : o.signature = some signature) (v : Verifier) :
    o.verify v
      = v.verify o.signedInfo.publisher (Digest.ofBytes o.signedPortion).toList signature := by
  rw [verify, hsignature]
  simp only [signedDigest_eq_ok h]

/-- An object that keeps the rules and is found genuine by every verifier that trusts a signer. -/
def Genuine (signer : Signer) (o : ContentObject) : Prop :=
  o.Valid ∧ ∀ v : Verifier, v.Trusts signer → o.verify v = .ok true

/-- **What signing succeeds with is genuine** to every verifier that trusts the signer. -/
theorem genuine_of_sign {o p : ContentObject} {signer : Signer} (h : o.sign signer = .ok p) :
    p.Genuine signer := by
  obtain ⟨rfl, signature, hcarries, hsigned⟩ := exists_of_sign h
  have hvalid := (valid_signedBy o signer).2 (valid_of_sign h)
  exact ⟨hvalid, fun v hv => (verify_eq hvalid hcarries v).trans (hv _ signature hsigned)⟩

end ContentObject

/-! ## A scheme for examples -/

/-- A signer whose signature is the front of the message itself. -/
def Signer.echo : Signer where
  key := default
  sign message := .ok ⟨Vector.ofFn fun i => message.getD i 0⟩

/-- The echo has a signature for every message. -/
theorem Signer.signs_echo : Signer.echo.Signs := fun _ => ⟨_, rfl⟩

/-- The verifier that compares a signature with the front of the message. -/
def Verifier.echo : Verifier where
  verify _ message signature := .ok (decide (Signer.echo.sign message = .ok signature))

/-- What echoes is found genuine. -/
theorem Verifier.echo_trusts : Verifier.echo.Trusts Signer.echo := fun _ _ h =>
  congrArg Except.ok (decide_eq_true h)

end NamedContent
