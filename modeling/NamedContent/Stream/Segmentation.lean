import NamedContent.Config.Basic
import NamedContent.Signing.Basic

/-! # Cutting a payload into segments

A payload is published as signed segments of the configured size under one base name. Every
segment carries the component of the last one, so that a reader knows where the stream ends.

* `Stream.indices`: the segment indices of a payload
* `Stream.objects`: the signed segments of a payload
* `Stream.tombstone`: the single object that says that a name is gone
-/

namespace NamedContent.Stream

/-- Consecutive indices of full segments from one on. -/
def indicesFrom (config : Config) : (count : Nat) → (index : UInt64) → List UInt64
  | 0, _ => []
  | count + 1, index => index :: indicesFrom config count (config.nextIndex index config.blockSize)

/-- The number of segments of a payload with `length` bytes; an empty one has one. -/
def segmentCount (config : Config) (length : Nat) : Nat :=
  max 1 ((length + (config.blockSize.toNat - 1)) / config.blockSize.toNat)

/-- The segment indices of a payload with `length` bytes. -/
def indices (config : Config) (length : Nat) : List UInt64 :=
  indicesFrom config (segmentCount config length) firstSegment

/-- The contents of the segments of a payload. -/
def blocks (config : Config) (payload : Bytes) : List Bytes :=
  if payload.isEmpty then [[]] else Bytes.chunks config.blockSize.toNat payload

/-- The metadata of an object published now. -/
def signedInfo (config : Config) (signer : Signer) (now : Timestamp) (type : ContentType) :
    SignedInfo where
  publisher := signer.key
  timestamp := now
  contentType := type
  freshnessSeconds := config.freshnessSeconds
  finalBlock := none

/-- The signed segments of a payload, all with one timestamp. -/
def objects (config : Config) (signer : Signer) (now : Timestamp) (base : Name) (payload : Bytes)
    (type : ContentType) : Except SigningError (List ContentObject) :=
  let all := indices config payload.length
  let info :=
    { signedInfo config signer now type with finalBlock := all.getLast?.map segmentComponent }
  (all.zip (blocks config payload)).mapM fun (index, block) =>
    ContentObject.sign ⟨base.segment index, info, block, none⟩ signer

/-- The signed object that says that a name is gone. -/
def tombstone (config : Config) (signer : Signer) (now : Timestamp) (name : Name) :
    Except SigningError ContentObject :=
  ContentObject.sign ⟨name, signedInfo config signer now .gone, [], none⟩ signer

/-- There are as many indices as are asked for. -/
@[simp] theorem length_indicesFrom (config : Config) (count : Nat) (index : UInt64) :
    (indicesFrom config count index).length = count := by
  induction count generalizing index with
  | zero => rfl
  | succ count ih => simp [indicesFrom, ih]

/-- There are as many indices as segments. -/
@[simp] theorem length_indices (config : Config) (length : Nat) :
    (indices config length).length = segmentCount config length := by
  simp [indices]

end NamedContent.Stream
