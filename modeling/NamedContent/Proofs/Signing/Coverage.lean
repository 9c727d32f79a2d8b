import NamedContent.Proofs.Content.Wire
import NamedContent.Proofs.Signing.Objects

/-! # What a signature covers

A signature is made over the digest of a record that holds the name of an object, its metadata and
the digest of its content. The record is read back field by field, so that two objects share it
only if they agree in all three, whatever the lengths of their parts and whichever of these are
absent. The signature is not among them: it may be added and exchanged while the record stays.

* `ContentObject.AgreesWith`: two objects agree in what a signature covers
* `Digest.TellsApart`: the digest tells two byte strings apart
* `ContentObject.signedPortion_eq_iff`: the record tells apart what it holds
* `ContentObject.signature_covers`: records, signed messages, and signing with verification -/

namespace NamedContent

open Cbor Cbor.Decoder

/-- Whether the digest tells two byte strings apart, if they differ. -/
def Digest.TellsApart (xs ys : Bytes) : Prop := Digest.ofBytes xs = Digest.ofBytes ys → xs = ys

/-- How the scheme in use signs. -/
theorem Signer.sign_ed25519 (secret message : Bytes) : (Signer.ed25519 secret).sign message
    = .ok ⟨⟨(Ed25519.sign secret message).toArray, by simp⟩⟩ := rfl

/-- How the scheme in use verifies. The function stands whole: applied, it would be compared by
running it. -/
theorem Verifier.verify_ed25519 : Verifier.ed25519.verify = fun key message signature =>
    match Ed25519.verify? key.bytes.toList message signature.bytes.toList with
    | some genuine => .ok genuine
    | none => .error (.invalidPublicKey key) := rfl

/-- What the scheme in use finds, its verifier reports. -/
theorem Verifier.ed25519_eq_ok {key : PublisherKey} {message : Bytes} {signature : Signature}
    {genuine : Bool}
    (h : Ed25519.verify? key.bytes.toList message signature.bytes.toList = some genuine) :
    Verifier.ed25519.verify key message signature = .ok genuine := by
  rw [Verifier.verify_ed25519]
  simp only [h]

namespace ContentObject

variable {x y : ContentObject}

/-! ## The record -/

/-- Whether two objects agree in what a signature covers: the name, the metadata and the digest of
the content. -/
structure AgreesWith (x y : ContentObject) : Prop where
  name : x.name = y.name
  signedInfo : x.signedInfo = y.signedInfo
  contentDigest : Digest.ofBytes x.content = Digest.ofBytes y.content

/-- The bytes of the record: a head, and every field behind its key. -/
theorem signedPortion_eq (o : ContentObject) :
    o.signedPortion = head .map 3 ++ (text "name" ++ (o.name.toCbor
      ++ (text "signed_info" ++ (o.signedInfo.toCbor
      ++ (text "content_digest" ++ (octets (Digest.ofBytes o.content).toList ++ [])))))) := by
  simp [signedPortion, record, List.append_assoc]

/-- **The record tells apart what it holds.** Its keys stand at the same places in any two records,
and each field is read before what follows it. -/
theorem signedPortion_eq_iff (hx : x.Fits (2 ^ 64)) (hy : y.Fits (2 ^ 64)) :
    x.signedPortion = y.signedPortion ↔ x.AgreesWith y := by
  constructor
  · intro h
    -- the keys are cancelled and the values read in turn; reading finds where a value ends, which
    -- its length alone would not say
    rw [signedPortion_eq, signedPortion_eq, List.append_cancel_left_eq,
      List.append_cancel_left_eq] at h
    obtain ⟨hname, h⟩ := (Name.reads_ofCbor hx.1).inj (Name.reads_ofCbor hy.1) h
    rw [List.append_cancel_left_eq] at h
    obtain ⟨hinfo, h⟩ := (SignedInfo.reads_ofCbor hx.2.1).inj (SignedInfo.reads_ofCbor hy.2.1) h
    rw [List.append_cancel_left_eq] at h
    have hread : ∀ d : Digest, Reads (exactly 32) (octets d.toList) d.toList := fun d =>
      reads_exactly (by decide) d.length_toList
    obtain ⟨hdigest, -⟩ := (hread _).inj (hread _) h
    exact ⟨hname, hinfo, Vector.toList_inj.1 hdigest⟩
  · rintro ⟨hname, hinfo, hdigest⟩
    rw [signedPortion, signedPortion, hname, hinfo, hdigest]

/-! ## The message that is signed -/

/-- Two objects that keep the rules share the message if their records share the digest. -/
theorem signedDigest_eq_iff (hx : x.Valid) (hy : y.Valid) :
    x.signedDigest = y.signedDigest
      ↔ Digest.ofBytes x.signedPortion = Digest.ofBytes y.signedPortion := by
  rw [signedDigest_eq_ok hx, signedDigest_eq_ok hy, Except.ok.injEq]

/-- The signature is no part of the message. -/
theorem signedDigest_withSignature (o : ContentObject) (s : Option Signature) :
    ({ o with signature := s } : ContentObject).signedDigest = o.signedDigest := rfl

/-- Where the digest tells their records apart, two objects share the message only if they agree in
what the signature covers. -/
theorem signedDigest_eq_iff_agrees (hx : x.Valid) (hy : y.Valid) (hxfits : x.Fits (2 ^ 64))
    (hyfits : y.Fits (2 ^ 64)) (happart : Digest.TellsApart x.signedPortion y.signedPortion) :
    x.signedDigest = y.signedDigest ↔ x.AgreesWith y := by
  rw [signedDigest_eq_iff hx hy, ← signedPortion_eq_iff hxfits hyfits]
  exact ⟨happart, congrArg Digest.ofBytes⟩

/-- Where the digest tells their contents apart too, objects that agree in what the signature covers
differ in nothing but the signature. -/
theorem agreesWith_iff (happart : Digest.TellsApart x.content y.content) :
    x.AgreesWith y ↔ y = { x with signature := y.signature } := by
  constructor
  · rintro ⟨hname, hinfo, hdigest⟩
    rw [hname, hinfo, happart hdigest]
  · intro h
    rw [h]
    exact ⟨rfl, rfl, rfl⟩

/-! ## Signatures -/

/-- **A signature covers everything but itself.** The record that is hashed tells two objects apart
just when they differ in their names, metadata or the digests of their contents, as long as their
parts are few enough to be counted in machine words. Where the digest tells the records apart, so
does the message that is signed, and with the contents told apart too it is the same only for
objects that differ in their signatures alone. Signing a named object, empty if it marks that
something is gone, succeeds with a signer that never fails and sets its publisher and its signature,
nothing else. The signature is made over the message of the result, which a verifier that accepts
that signature finds genuine. -/
theorem signature_covers :
    (∀ x y : ContentObject, x.validate = .ok () → y.validate = .ok () → x.Fits (2 ^ 64) →
        y.Fits (2 ^ 64) →
        (x.signedPortion = y.signedPortion ↔ x.AgreesWith y)
          ∧ (Digest.TellsApart x.signedPortion y.signedPortion →
            (x.signedDigest = y.signedDigest ↔ x.AgreesWith y)
              ∧ (Digest.TellsApart x.content y.content →
                (x.signedDigest = y.signedDigest ↔ y = { x with signature := y.signature }))))
      ∧ (∀ (x : ContentObject) (s : Option Signature),
        ({ x with signature := s } : ContentObject).signedDigest = x.signedDigest)
      ∧ ∀ (signer : Signer) (x : ContentObject), signer.Signs → x.name ≠ Name.root →
        (x.contentType = .gone → x.content = []) →
        ∃ (digest : Digest) (signature : Signature) (signed : ContentObject),
          x.sign signer = .ok signed
          ∧ signed = { x with
              signedInfo := { x.signedInfo with publisher := signer.key }
              signature := some signature }
          ∧ signed.signedDigest = .ok digest
          ∧ signer.sign digest.toList = .ok signature
          ∧ ∀ v : Verifier, v.verify signer.key digest.toList signature = .ok true →
            signed.verify v = .ok true := by
  refine ⟨fun x y hx hy hxfits hyfits => ?_, signedDigest_withSignature,
    fun signer x hsigns hname hgone => ?_⟩
  · rw [validate_eq_ok_iff] at hx hy
    refine ⟨signedPortion_eq_iff hxfits hyfits, fun happart => ?_⟩
    have hmessage := signedDigest_eq_iff_agrees hx hy hxfits hyfits happart
    exact ⟨hmessage, fun hcontent => hmessage.trans (agreesWith_iff hcontent)⟩
  · -- signing asks for a valid object and keeps it valid
    have hx : x.Valid := ⟨hname, hgone⟩
    have hsigned := (valid_signedBy x signer).2 hx
    have hsign := sign_eq_ok hx hsigns
    obtain ⟨-, signature, hcarries, hmessage⟩ := exists_of_sign hsign
    refine ⟨Digest.ofBytes (x.signedBy signer).signedPortion, signature, x.signedBy signer, hsign,
      ?_, signedDigest_eq_ok hsigned, hmessage,
      fun v hv => (verify_eq hsigned hcarries v).trans hv⟩
    rw [← hcarries]
    rfl

/-- Two names with the same bytes in all are told apart by where their components end, and a
signature taken from one object leaves the message of the other as it was. What the scheme in use
signs, it finds genuine. -/
theorem signature_covers_names :
    let info : SignedInfo := ⟨default, ⟨1⟩, .data, some 24, none⟩
    let x : ContentObject := ⟨⟨[⟨[97, 98]⟩]⟩, info, [7], none⟩
    let y : ContentObject := { x with
      name := ⟨[⟨[97]⟩, ⟨[98]⟩]⟩
      signature := some ⟨Vector.replicate 64 0⟩ }
    x.signedPortion ≠ y.signedPortion ∧ x.signedDigest ≠ y.signedDigest
      ∧ ({ x with signature := y.signature } : ContentObject).signedDigest = x.signedDigest
      ∧ ∃ signed, x.sign (.ed25519 [1]) = .ok signed ∧ signed.verify .ed25519 = .ok true := by
  intro info x y
  have hxfits : x.Fits (2 ^ 64) := by
    simp [Fits, Name.Fits, SignedInfo.Fits, Component.Fits, x, info]
  have hyfits : y.Fits (2 ^ 64) := by
    simp [Fits, Name.Fits, SignedInfo.Fits, Component.Fits, x, y, info]
  have happart : Digest.TellsApart x.signedPortion y.signedPortion := fun h =>
    absurd h (by decide +kernel)
  have hdiffer : ¬ x.AgreesWith y := fun h => absurd h.name (by decide)
  obtain ⟨hportion, hmessage⟩ := signature_covers.1 x y rfl rfl hxfits hyfits
  have hgenuine : ∀ (digest : Digest) (signature : Signature),
      (x.signedBy (.ed25519 [1])).signedDigest = .ok digest →
      (Signer.ed25519 [1]).sign digest.toList = .ok signature →
      Verifier.ed25519.verify (Signer.ed25519 [1]).key digest.toList signature = .ok true := by
    intro digest signature hdigest hsignature
    rw [signedDigest_eq_ok (by decide), Except.ok.injEq] at hdigest
    rw [Signer.sign_ed25519, Except.ok.injEq] at hsignature
    subst hdigest hsignature
    exact Verifier.ed25519_eq_ok (by decide +kernel)
  have hsigns := Signer.signs_ed25519 [1]
  -- From here on the signer is any that the verifier accepts, so that no step computes a signature.
  generalize Signer.ed25519 [1] = signer at hgenuine hsigns ⊢
  obtain ⟨digest, signature, signed, hsign, hsigned, hdigest, hmade, hverify⟩ :=
    signature_covers.2.2 signer x hsigns (by decide) (by decide)
  refine ⟨fun h => hdiffer (hportion.1 h), fun h => hdiffer ((hmessage happart).1.1 h),
    signature_covers.2.1 x y.signature, signed, hsign,
    hverify .ed25519 (hgenuine digest signature ?_ hmade)⟩
  rw [hsigned] at hdigest
  exact (signedDigest_withSignature (x.signedBy signer) _).symm.trans hdigest

end ContentObject

end NamedContent
