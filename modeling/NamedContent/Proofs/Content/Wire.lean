import Mathlib.Tactic.SplitIfs
import NamedContent.Content.Wire
import NamedContent.Proofs.Action
import NamedContent.Proofs.Cbor.Bounds
import NamedContent.Proofs.Cbor.Reading

/-! # Content objects read back

An object is read back from the bytes that are written for it, part by part: its name, the
publisher's metadata with whatever is absent there, the content and the signature.

* `ContentObject.Fits`: the object is one that a machine can hold
* `ContentObject.reads_ofCbor`: its record is read
* `ContentObject.consumes_ofCbor`: what was read has no more parts than there were bytes
* `ContentObject.decode_encode`, `ContentObject.decode_again`: the round trip, from either side -/

namespace NamedContent

open Cbor Cbor.Decoder

/-! ## Names and fixed-size byte strings -/

/-- Whether a component has fewer bytes than a limit. -/
def Component.Fits (limit : Nat) (c : Component) : Prop := c.bytes.length < limit

/-- Whether a name has fewer components than a limit, and each of them fewer bytes. -/
def Name.Fits (limit : Nat) (n : Name) : Prop :=
  n.components.length < limit ∧ ∀ c ∈ n.components, c.Fits limit

/-- A component is read from its encoding. -/
theorem Component.reads_ofCbor {c : Component} (hc : c.Fits (2 ^ 64)) : Reads ofCbor c.toCbor c :=
  (reads_byteString hc).map Component.mk

/-- A name is read from its encoding. -/
theorem Name.reads_ofCbor {n : Name} (hn : n.Fits (2 ^ 64)) : Reads ofCbor n.toCbor n :=
  (reads_sequence (fun c hc => Component.reads_ofCbor (hn.2 c hc)) hn.1).map Name.mk

/-- A vector is found again from its bytes. -/
theorem Bytes.toVector?_toList {size : Nat} (v : Vector UInt8 size) :
    Bytes.toVector? size v.toList = some v := by
  rw [toVector?, dif_pos v.length_toList]
  congr

/-- A key is read from its encoding. -/
theorem PublisherKey.reads_ofCbor (key : PublisherKey) : Reads ofCbor key.toCbor key :=
  (reads_exactly (by decide) key.bytes.length_toList).lift (by rw [Bytes.toVector?_toList]; rfl)

/-- A signature is read from its encoding. -/
theorem Signature.reads_ofCbor (s : Signature) : Reads ofCbor s.toCbor s := by
  have hlength : s.bytes.toList.length < 2 ^ 64 := by simp
  exact (reads_byteString hlength).lift (by rw [Bytes.toVector?_toList]; rfl)

/-- A type is read from its tag. -/
theorem ContentType.reads_ofCbor (t : ContentType) : Reads ofCbor (unsigned t.tag.toNat) t :=
  (reads_word32 t.tag).lift (ofTag?_tag t)

/-! ## The publisher's metadata -/

/-- Whether the component in the metadata has fewer bytes than a limit. -/
def SignedInfo.Fits (limit : Nat) (info : SignedInfo) : Prop :=
  ∀ c ∈ info.finalBlock, c.Fits limit

/-- Signed information is read from its encoding. -/
theorem SignedInfo.reads_ofCbor {info : SignedInfo} (hinfo : info.Fits (2 ^ 64)) :
    Reads ofCbor info.toCbor info := by
  -- each field fills its own place in the draft, in the order in which it was written
  have hfields : Reads (fields Draft.read {}) info.toCbor ⟨some info.publisher,
      some info.timestamp.ticks, some info.contentType, some info.freshnessSeconds,
      some info.finalBlock⟩ := by
    refine reads_fields ?_ (by simp)
    apply Fills.cons (by decide)
    · simp only [Draft.read, if_true]
      exact (PublisherKey.reads_ofCbor _).fill.bind_pure _
    apply Fills.cons (by decide)
    · simp only [Draft.read, Bytes.ofString_inj, String.reduceEq, if_true, if_false]
      exact (reads_word64 _).fill.bind_pure _
    apply Fills.cons (by decide)
    · simp only [Draft.read, Bytes.ofString_inj, String.reduceEq, if_true, if_false]
      exact (ContentType.reads_ofCbor _).fill.bind_pure _
    apply Fills.cons (by decide)
    · simp only [Draft.read, Bytes.ofString_inj, String.reduceEq, if_true, if_false]
      refine (reads_optional fun s _ => ?_).fill.bind_pure _
      exact ⟨headed_unsigned (Nat.lt_trans s.toNat_lt (by decide)), reads_word32 s⟩
    apply Fills.cons (by decide)
    · simp only [Draft.read, Bytes.ofString_inj, String.reduceEq, if_true, if_false]
      refine (reads_optional fun c hc => ?_).fill.bind_pure _
      exact ⟨headed_byteString (hinfo c hc), Component.reads_ofCbor (hinfo c hc)⟩
    exact .nil _
  exact hfields.lift rfl

/-! ## Objects -/

namespace ContentObject

variable {o : ContentObject}

/-- Whether the parts of an object are fewer than a limit. Below 2^64 they can be counted in machine
words, as can those of every object that a machine holds. -/
def Fits (limit : Nat) (o : ContentObject) : Prop :=
  o.name.Fits limit ∧ o.signedInfo.Fits limit ∧ o.content.length < limit

/-- **The record of an object is read.** -/
theorem reads_ofCbor (ho : o.Fits (2 ^ 64)) : Reads ofCbor o.toCbor o := by
  have hfields : Reads (fields Draft.read {}) o.toCbor ⟨some o.name, some o.signedInfo,
      some o.content, some o.signature⟩ := by
    refine reads_fields ?_ (by simp)
    apply Fills.cons (by decide)
    · simp only [Draft.read, if_true]
      exact (Name.reads_ofCbor ho.1).fill.bind_pure _
    apply Fills.cons (by decide)
    · simp only [Draft.read, Bytes.ofString_inj, String.reduceEq, if_true, if_false]
      exact (SignedInfo.reads_ofCbor ho.2.1).fill.bind_pure _
    apply Fills.cons (by decide)
    · simp only [Draft.read, Bytes.ofString_inj, String.reduceEq, if_true, if_false]
      exact (reads_sequence (fun b _ => reads_byte b) ho.2.2).fill.bind_pure _
    apply Fills.cons (by decide)
    · simp only [Draft.read, Bytes.ofString_inj, String.reduceEq, if_true, if_false]
      refine (reads_optional fun s _ => ?_).fill.bind_pure _
      exact ⟨headed_byteString (by simp), Signature.reads_ofCbor s⟩
    exact .nil _
  exact hfields.lift rfl

/-- **An object that keeps the rules reads back.** -/
theorem decode_encode (hvalid : o.Valid) (ho : o.Fits (2 ^ 64)) :
    ∃ bytes, o.encode = .ok bytes ∧ decode bytes = .ok o := by
  have hvalidate : o.validate = .ok () := (validate_eq_ok_iff o).2 hvalid
  refine ⟨o.toCbor, by rw [encode, hvalidate]; rfl, ?_⟩
  have hread := reads_ofCbor ho []
  rw [List.append_nil] at hread
  rw [decode, hread]
  simp only [hvalidate]
  rfl

end ContentObject

/-! ## How long the parts are -/

/-- A component that fits a length fits a greater one. -/
theorem Component.Fits.mono {k l : Nat} {c : Component} (hc : c.Fits k) (h : k ≤ l) : c.Fits l :=
  Nat.lt_of_lt_of_le hc h

/-- A name that fits a length fits a greater one. -/
theorem Name.Fits.mono {k l : Nat} {n : Name} (hn : n.Fits k) (h : k ≤ l) : n.Fits l :=
  ⟨Nat.lt_of_lt_of_le hn.1 h, fun c hc => (hn.2 c hc).mono h⟩

/-- Signed information that fits a length fits a greater one. -/
theorem SignedInfo.Fits.mono {k l : Nat} {info : SignedInfo} (hinfo : info.Fits k) (h : k ≤ l) :
    info.Fits l := fun c hc => (hinfo c hc).mono h

/-- A component that was read fits the bytes it was read from. -/
theorem Component.consumes_ofCbor : Consumes ofCbor fun k c => c.Fits k :=
  consumes_byteString.map fun _ _ h => h

/-- Components that are read one after the other have at least a byte each. -/
theorem Component.consumes_element : Consumes ofCbor fun k c => 0 < k ∧ c.Fits k :=
  consumes_ofCbor.mono fun _ _ h => ⟨Nat.lt_of_le_of_lt (Nat.zero_le _) h, h⟩

/-- Components that were read fit them, and are fewer. -/
theorem Component.consumes_sequence : Consumes (sequence (fun _ => none) ofCbor) fun k cs =>
    cs.length < k ∧ ∀ c ∈ cs, c.Fits k :=
  Decoder.consumes_sequence (fun k l _ hc => hc.mono (Nat.le_add_right k l))
    (fun _ _ h => by cases h) consumes_element

/-- A name that was read fits the bytes it was read from. -/
theorem Name.consumes_ofCbor : Consumes ofCbor fun k n => n.Fits k :=
  Component.consumes_sequence.map fun _ _ h => h

/-- A key is taken off the input. -/
theorem PublisherKey.consumes_ofCbor : Consumes ofCbor fun _ _ => True :=
  (consumes_exactly 32).lift fun _ _ _ _ _ => trivial

/-- A signature is taken off the input. -/
theorem Signature.consumes_ofCbor : Consumes ofCbor fun _ _ => True :=
  consumes_byteString.lift fun _ _ _ _ _ => trivial

/-- A type is taken off the input. -/
theorem ContentType.consumes_ofCbor : Consumes ofCbor fun _ _ => True :=
  consumes_word32.lift fun _ _ _ _ _ => trivial

/-- Signed information that was read fits the bytes it was read from. -/
theorem SignedInfo.consumes_ofCbor : Consumes ofCbor fun k info => info.Fits k := by
  -- what has been filled in so far is within the bytes read so far
  let I : Nat → Draft → Prop := fun k d => ∀ c ∈ d.finalBlock.join, c.Fits k
  have hmono : ∀ k l d, I k d → I (k + l) d := fun k l d hd c hc =>
    (hd c hc).mono (Nat.le_add_right k l)
  have hstep : ∀ key k d, I k d → Consumes (Draft.read key d) fun l d' => I (k + l) d' := by
    intro key k d hd
    rw [Draft.read]
    split_ifs
    · exact (PublisherKey.consumes_ofCbor.fill _).bind_pure fun l _ _ => hmono k l d hd
    · exact (consumes_word64.fill _).bind_pure fun l _ _ => hmono k l d hd
    · exact (ContentType.consumes_ofCbor.fill _).bind_pure fun l _ _ => hmono k l d hd
    · exact ((consumes_optional consumes_word32).fill _).bind_pure fun l _ _ => hmono k l d hd
    · refine ((consumes_optional Component.consumes_ofCbor).fill _).bind_pure ?_
      intro l finalBlock hfinal c hc
      have hread : finalBlock = some (some c) := Option.join_eq_some_iff.1 hc
      exact (hfinal (some c) hread c rfl).mono (Nat.le_add_left l k)
    · exact (consumes_skip _).bind_pure fun l _ _ => hmono k l d hd
  refine (consumes_fields hmono hstep (by simp [I])).lift fun k d info hd hfinish => ?_
  simp only [Draft.finish?, Option.bind_eq_bind, Option.bind_eq_some_iff] at hfinish
  obtain ⟨publisher, -, ticks, -, type, -, hinfo⟩ := hfinish
  obtain rfl := Option.some.inj hinfo
  exact hd

namespace ContentObject

variable {o : ContentObject}

/-- An object has no more parts than bytes were read for it. -/
theorem consumes_ofCbor : Consumes ofCbor fun k o => o.Fits k := by
  -- as above; a draft may still lack the parts that must be there
  let I : Nat → Draft → Prop := fun k d =>
    (∀ n ∈ d.name, n.Fits k) ∧ (∀ info ∈ d.signedInfo, info.Fits k)
      ∧ ∀ xs ∈ d.content, xs.length < k
  have hmono : ∀ k l d, I k d → I (k + l) d := by
    rintro k l d ⟨hname, hinfo, hcontent⟩
    have hle := Nat.le_add_right k l
    exact ⟨fun n hn => (hname n hn).mono hle, fun info hi => (hinfo info hi).mono hle,
      fun xs hxs => Nat.lt_of_lt_of_le (hcontent xs hxs) hle⟩
  have hstep : ∀ key k d, I k d → Consumes (Draft.read key d) fun l d' => I (k + l) d' := by
    intro key k d hd
    have hkept : ∀ l, I (k + l) d := fun l => hmono k l d hd
    rw [Draft.read]
    split_ifs
    · refine (Name.consumes_ofCbor.fill _).bind_pure fun l name hname => ⟨?_, (hkept l).2⟩
      exact fun n hn => (hname n hn).mono (Nat.le_add_left l k)
    · refine (SignedInfo.consumes_ofCbor.fill _).bind_pure fun l signedInfo hinfo =>
        ⟨(hkept l).1, ?_, (hkept l).2.2⟩
      exact fun info hi => (hinfo info hi).mono (Nat.le_add_left l k)
    · have hbytes : Consumes (sequence some byte) fun k xs => xs.length < k ∧ ∀ _ ∈ xs, True :=
        consumes_sequence (fun _ _ _ _ => trivial) (fun _ _ _ => trivial)
          (consumes_byte.mono fun _ _ h => ⟨h, trivial⟩)
      refine (hbytes.fill _).bind_pure fun l content hcontent =>
        ⟨(hkept l).1, (hkept l).2.1, fun xs hxs => ?_⟩
      exact Nat.lt_of_lt_of_le (hcontent xs hxs).1 (Nat.le_add_left l k)
    · exact ((consumes_optional Signature.consumes_ofCbor).fill _).bind_pure fun l _ _ => hkept l
    · exact (consumes_skip _).bind_pure fun l _ _ => hkept l
  refine (consumes_fields hmono hstep (by simp [I])).lift fun k d o hd hfinish => ?_
  simp only [Draft.finish?, Option.bind_eq_bind, Option.bind_eq_some_iff] at hfinish
  obtain ⟨name, hname, info, hinfo, content, hcontent, ho⟩ := hfinish
  obtain rfl := Option.some.inj ho
  exact ⟨hd.1 name hname, hd.2.1 info hinfo, hd.2.2 content hcontent⟩

/-- An object that fits a length fits a greater one. -/
theorem Fits.mono {k l : Nat} (ho : o.Fits k) (h : k ≤ l) : o.Fits l :=
  ⟨ho.1.mono h, ho.2.1.mono h, Nat.lt_of_lt_of_le ho.2.2 h⟩

/-- What is decoded keeps the rules, and has no more parts than there were bytes. -/
theorem valid_of_decode {bytes : Bytes} (h : decode bytes = .ok o) :
    o.Valid ∧ o.Fits bytes.length := by
  rw [decode] at h
  split at h
  · cases h
  · next read rest hread =>
    obtain ⟨_, hvalidate, hreturn⟩ := bind_eq_ok_iff.1 h
    obtain rfl := Except.ok.inj hreturn
    obtain ⟨k, hk, hfits⟩ := consumes_ofCbor bytes read rest hread
    exact ⟨(validate_eq_ok_iff read).1 hvalidate, hfits.mono (hk ▸ Nat.le_add_right k _)⟩

/-- **What is decoded reads back** from what is written for it. -/
theorem decode_again {bytes : Bytes} (hbytes : bytes.length < 2 ^ 64) (h : decode bytes = .ok o) :
    o.validate = .ok () ∧ ∃ again, o.encode = .ok again ∧ decode again = .ok o := by
  obtain ⟨hvalid, hfits⟩ := valid_of_decode h
  exact ⟨(validate_eq_ok_iff o).2 hvalid,
    decode_encode hvalid (hfits.mono (Nat.le_of_lt hbytes))⟩

end ContentObject

end NamedContent
