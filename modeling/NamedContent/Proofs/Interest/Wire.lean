import NamedContent.Interest.Wire
import NamedContent.Proofs.Content.Wire

/-! # Interests read back

An interest is read back from the bytes that are written for it: its bounds whatever their width,
its selector, and the excluded components in their order. With the same of content objects, the
wire form loses nothing.

* `Interest.Fits`: the interest is one that a machine can hold
* `Interest.reads_ofCbor`: its record is read
* `Interest.consumes_ofCbor`: what was read has no more parts than there were bytes
* `Interest.decode_encode`, `Interest.decode_again`: the round trip, from either side
* `wire_round_trip`: both round trips, of objects and of interests -/

namespace NamedContent

open Cbor Cbor.Decoder

/-- A child selector is read from its name. -/
theorem ChildSelector.reads_ofCbor (s : ChildSelector) : Reads ofCbor (Cbor.text s.text) s := by
  have hlength : s.text.utf8ByteSize ≤ nameLimit := by cases s <;> decide
  refine (reads_variant hlength).lift ?_
  cases s <;> simp [ChildSelector.text]

/-! ## Exclusion -/

namespace Exclude

variable {e : Exclude}

/-- Whether the parts of an exclusion are fewer than a limit. -/
def Fits (limit : Nat) (e : Exclude) : Prop :=
  (∀ c ∈ e.through, c.Fits limit) ∧ e.components.toList.length < limit
    ∧ ∀ c ∈ e.components.toList, c.Fits limit

/-- An exclusion is read from its encoding. -/
theorem reads_ofCbor (he : e.Fits (2 ^ 64)) : Reads ofCbor e.toCbor e := by
  have hfields : Reads (fields Draft.read {}) e.toCbor
      ⟨some e.through, some e.components.toList⟩ := by
    refine reads_fields ?_ (by simp)
    apply Fills.cons (by decide)
    · simp only [Draft.read, if_true]
      refine (reads_optional fun c hc => ?_).fill.bind_pure _
      exact ⟨headed_byteString (he.1 c hc), Component.reads_ofCbor (he.1 c hc)⟩
    apply Fills.cons (by decide)
    · simp only [Draft.read, Bytes.ofString_inj, String.reduceEq, if_true, if_false]
      exact (reads_sequence (fun c hc => Component.reads_ofCbor (he.2.2 c hc))
        he.2.1).fill.bind_pure _
    exact .nil _
  intro rest
  show (fields Draft.read {} (e.toCbor ++ rest) >>= fun r => _) = _
  rw [hfields]
  show some ((⟨e.through, .ofList e.components.toList⟩ : Exclude), rest) = some (e, rest)
  rw [OrderedSet.ofList_toList]

end Exclude

/-! ## Interests -/

namespace Interest

variable {i : Interest}

/-- Whether the parts of an interest are fewer than a limit. Below 2^64 they can be counted in
machine words, as can those of every interest that a machine holds. -/
def Fits (limit : Nat) (i : Interest) : Prop := i.name.Fits limit ∧ i.exclude.Fits limit

/-- **The record of an interest is read.** -/
theorem reads_ofCbor (hi : i.Fits (2 ^ 64)) : Reads ofCbor i.toCbor i := by
  have hfields : Reads (fields Draft.read {}) i.toCbor ⟨some i.name, some i.minSuffix,
      some i.maxSuffix, some i.selector, some i.exclude, some i.publisher⟩ := by
    refine reads_fields ?_ (by simp)
    apply Fills.cons (by decide)
    · simp only [Draft.read, if_true]
      exact (Name.reads_ofCbor hi.1).fill.bind_pure _
    apply Fills.cons (by decide)
    · simp only [Draft.read, Bytes.ofString_inj, String.reduceEq, if_true, if_false]
      refine (reads_optional fun n _ => ?_).fill.bind_pure _
      exact ⟨headed_unsigned n.toNat_lt, reads_word64 n⟩
    apply Fills.cons (by decide)
    · simp only [Draft.read, Bytes.ofString_inj, String.reduceEq, if_true, if_false]
      refine (reads_optional fun n _ => ?_).fill.bind_pure _
      exact ⟨headed_unsigned n.toNat_lt, reads_word64 n⟩
    apply Fills.cons (by decide)
    · simp only [Draft.read, Bytes.ofString_inj, String.reduceEq, if_true, if_false]
      exact (ChildSelector.reads_ofCbor _).fill.bind_pure _
    apply Fills.cons (by decide)
    · simp only [Draft.read, Bytes.ofString_inj, String.reduceEq, if_true, if_false]
      exact (Exclude.reads_ofCbor hi.2).fill.bind_pure _
    apply Fills.cons (by decide)
    · simp only [Draft.read, Bytes.ofString_inj, String.reduceEq, if_true, if_false]
      refine (reads_optional fun key _ => ?_).fill.bind_pure _
      exact ⟨headed_octets (by simp), PublisherKey.reads_ofCbor key⟩
    exact .nil _
  exact hfields.lift rfl

/-- **An interest that keeps the rule reads back.** -/
theorem decode_encode (hvalid : i.Valid) (hi : i.Fits (2 ^ 64)) :
    ∃ bytes, i.encode = .ok bytes ∧ decode bytes = .ok i := by
  have hvalidate : i.validate = .ok () := hvalid
  refine ⟨i.toCbor, by rw [encode, hvalidate]; rfl, ?_⟩
  have hread := reads_ofCbor hi []
  rw [List.append_nil] at hread
  rw [decode, hread]
  simp only [hvalidate]
  rfl

end Interest

/-! ## How long the parts are -/

/-- A child selector is taken off the input. -/
theorem ChildSelector.consumes_ofCbor : Consumes ofCbor fun _ _ => True :=
  consumes_variant.lift fun _ _ _ _ _ => trivial

namespace Exclude

/-- An exclusion that fits a length fits a greater one. -/
theorem Fits.mono {k l : Nat} {e : Exclude} (he : e.Fits k) (h : k ≤ l) : e.Fits l :=
  ⟨fun c hc => (he.1 c hc).mono h, Nat.lt_of_lt_of_le he.2.1 h, fun c hc => (he.2.2 c hc).mono h⟩

/-- An exclusion that was read fits the bytes it was read from. -/
theorem consumes_ofCbor : Consumes ofCbor fun k e => e.Fits k := by
  let I : Nat → Draft → Prop := fun k d =>
    (∀ c ∈ d.through.join, c.Fits k)
      ∧ ∀ cs ∈ d.components, cs.length < k ∧ ∀ c ∈ cs, c.Fits k
  have hmono : ∀ k l d, I k d → I (k + l) d := by
    rintro k l d ⟨hthrough, hcomponents⟩
    have hle := Nat.le_add_right k l
    refine ⟨fun c hc => (hthrough c hc).mono hle, fun cs hcs => ?_⟩
    obtain ⟨hlength, hall⟩ := hcomponents cs hcs
    exact ⟨Nat.lt_of_lt_of_le hlength hle, fun c hc => (hall c hc).mono hle⟩
  have hstep : ∀ key k d, I k d → Consumes (Draft.read key d) fun l d' => I (k + l) d' := by
    intro key k d hd
    have hkept : ∀ l, I (k + l) d := fun l => hmono k l d hd
    rw [Draft.read]
    split_ifs
    · refine ((consumes_optional Component.consumes_ofCbor).fill _).bind_pure ?_
      intro l through hthrough
      refine ⟨fun c hc => ?_, (hkept l).2⟩
      have hread : through = some (some c) := Option.join_eq_some_iff.1 hc
      exact (hthrough (some c) hread c rfl).mono (Nat.le_add_left l k)
    · refine (Component.consumes_sequence.fill _).bind_pure fun l components hcomponents =>
        ⟨(hkept l).1, fun cs hcs => ?_⟩
      obtain ⟨hlength, hall⟩ := hcomponents cs hcs
      have hle := Nat.le_add_left l k
      exact ⟨Nat.lt_of_lt_of_le hlength hle, fun c hc => (hall c hc).mono hle⟩
    · exact (consumes_skip _).bind_pure fun l _ _ => hkept l
  refine (consumes_fields hmono hstep (by simp [I])).bind fun k d hd => ?_
  -- the components of the draft are put in order, which makes them no more
  have hcomponents : Consumes (StateT.lift d.components) fun l cs => cs.length < k + l
      ∧ ∀ c ∈ cs, c.Fits (k + l) := consumes_lift hd.2
  refine hcomponents.bind_pure fun l cs hcs => ?_
  obtain ⟨hlength, hmem⟩ := OrderedSet.ofList_subset cs
  exact ⟨fun c hc => (hd.1 c hc).mono (Nat.le_add_right k l), Nat.lt_of_le_of_lt hlength hcs.1,
    fun c hc => hcs.2 c (hmem c hc)⟩

end Exclude

namespace Interest

variable {i : Interest}

/-- An interest has no more parts than bytes were read for it. -/
theorem consumes_ofCbor : Consumes ofCbor fun k i => i.Fits k := by
  -- what the draft has by then fits what was read for it so far
  let I : Nat → Draft → Prop := fun k d => (∀ n ∈ d.name, n.Fits k) ∧ ∀ e ∈ d.exclude, e.Fits k
  have hmono : ∀ k l d, I k d → I (k + l) d := by
    rintro k l d ⟨hname, hexclude⟩
    have hle := Nat.le_add_right k l
    exact ⟨fun n hn => (hname n hn).mono hle, fun e he => (hexclude e he).mono hle⟩
  have hstep : ∀ key k d, I k d → Consumes (Draft.read key d) fun l d' => I (k + l) d' := by
    intro key k d hd
    have hkept : ∀ l, I (k + l) d := fun l => hmono k l d hd
    rw [Draft.read]
    split_ifs
    · refine (Name.consumes_ofCbor.fill _).bind_pure fun l name hname => ⟨?_, (hkept l).2⟩
      exact fun n hn => (hname n hn).mono (Nat.le_add_left l k)
    · exact ((consumes_optional consumes_word64).fill _).bind_pure fun l _ _ => hkept l
    · exact ((consumes_optional consumes_word64).fill _).bind_pure fun l _ _ => hkept l
    · exact (ChildSelector.consumes_ofCbor.fill _).bind_pure fun l _ _ => hkept l
    · refine (Exclude.consumes_ofCbor.fill _).bind_pure fun l exclude hexclude =>
        ⟨(hkept l).1, ?_⟩
      exact fun e he => (hexclude e he).mono (Nat.le_add_left l k)
    · exact ((consumes_optional PublisherKey.consumes_ofCbor).fill _).bind_pure fun l _ _ => hkept l
    · exact (consumes_skip _).bind_pure fun l _ _ => hkept l
  refine (consumes_fields hmono hstep (by simp [I])).lift fun k d i hd hfinish => ?_
  simp only [Draft.finish?, Option.bind_eq_bind, Option.bind_eq_some_iff] at hfinish
  obtain ⟨name, hname, selector, -, exclude, hexclude, hi⟩ := hfinish
  obtain rfl := Option.some.inj hi
  exact ⟨hd.1 name hname, hd.2 exclude hexclude⟩

/-- An interest that fits a length fits a greater one. -/
theorem Fits.mono {k l : Nat} (hi : i.Fits k) (h : k ≤ l) : i.Fits l := ⟨hi.1.mono h, hi.2.mono h⟩

/-- What is decoded keeps the rule, and has no more parts than there were bytes. -/
theorem valid_of_decode {bytes : Bytes} (h : decode bytes = .ok i) :
    i.Valid ∧ i.Fits bytes.length := by
  rw [decode] at h
  split at h
  · cases h
  · next read rest hread =>
    obtain ⟨_, hvalidate, hreturn⟩ := bind_eq_ok_iff.1 h
    obtain rfl := Except.ok.inj hreturn
    obtain ⟨k, hk, hfits⟩ := consumes_ofCbor bytes read rest hread
    exact ⟨hvalidate, hfits.mono (hk ▸ Nat.le_add_right k _)⟩

/-- **What is decoded reads back** from what is written for it. -/
theorem decode_again {bytes : Bytes} (hbytes : bytes.length < 2 ^ 64) (h : decode bytes = .ok i) :
    i.validate = .ok () ∧ ∃ again, i.encode = .ok again ∧ decode again = .ok i := by
  obtain ⟨hvalid, hfits⟩ := valid_of_decode h
  exact ⟨hvalid, decode_encode hvalid (hfits.mono (Nat.le_of_lt hbytes))⟩

end Interest

/-! ## The main theorem -/

/-- **The wire form is faithful.** An object or an interest that keeps the rules is read back from
its bytes, if its parts can be counted in machine words. What is decoded, from however odd a byte
string, keeps the rules and is read back from the bytes that are then written for it. -/
theorem wire_round_trip :
    (∀ o : ContentObject, o.validate = .ok () → o.Fits (2 ^ 64) →
        ∃ bytes, o.encode = .ok bytes ∧ ContentObject.decode bytes = .ok o)
      ∧ (∀ i : Interest, i.validate = .ok () → i.Fits (2 ^ 64) →
        ∃ bytes, i.encode = .ok bytes ∧ Interest.decode bytes = .ok i)
      ∧ (∀ (bytes : Bytes) (o : ContentObject), bytes.length < 2 ^ 64 →
        ContentObject.decode bytes = .ok o → o.validate = .ok ()
          ∧ ∃ again, o.encode = .ok again ∧ ContentObject.decode again = .ok o)
      ∧ ∀ (bytes : Bytes) (i : Interest), bytes.length < 2 ^ 64 →
        Interest.decode bytes = .ok i → i.validate = .ok ()
          ∧ ∃ again, i.encode = .ok again ∧ Interest.decode again = .ok i :=
  ⟨fun o hvalid =>
      ContentObject.decode_encode ((ContentObject.validate_eq_ok_iff o).1 hvalid),
    fun _ hvalid hi => Interest.decode_encode hvalid hi,
    fun _ _ hbytes h => ContentObject.decode_again hbytes h,
    fun _ _ hbytes h => Interest.decode_again hbytes h⟩

/-- An object with an empty component in its name and all that an object may have. -/
def ContentObject.complete : ContentObject where
  name := ⟨[⟨[]⟩, ⟨[0, 255]⟩]⟩
  signedInfo := {
    publisher := default
    timestamp := ⟨0xFFFFFFFFFFFFFFFF⟩
    contentType := .data
    freshnessSeconds := some 24
    finalBlock := some ⟨[0]⟩ }
  content := [0, 23, 24, 255]
  signature := some ⟨Vector.replicate 64 7⟩

/-- An interest with the widest bounds and all that an interest may have. -/
def Interest.complete : Interest where
  name := ⟨[⟨[]⟩]⟩
  minSuffix := some 0
  maxSuffix := some 0xFFFFFFFFFFFFFFFF
  selector := .rightmost
  exclude := ⟨some ⟨[1]⟩, ⟨[⟨[]⟩, ⟨[2]⟩], by decide⟩⟩
  publisher := some default

/-- An object and an interest with all their fields are read from what they are written as. -/
theorem wire_round_trip_complete :
    (∃ bytes, ContentObject.complete.encode = .ok bytes ∧ ContentObject.decode bytes = .ok .complete
        ∧ ∃ again, ContentObject.complete.encode = .ok again
          ∧ ContentObject.decode again = .ok .complete)
      ∧ ∃ bytes, Interest.complete.encode = .ok bytes ∧ Interest.decode bytes = .ok .complete
        ∧ ∃ again, Interest.complete.encode = .ok again
          ∧ Interest.decode again = .ok .complete := by
  have ho : ContentObject.complete.Fits (2 ^ 64) := by
    simp [ContentObject.Fits, Name.Fits, SignedInfo.Fits, Component.Fits, ContentObject.complete]
  have hi : Interest.complete.Fits (2 ^ 64) := by
    simp [Interest.Fits, Name.Fits, Exclude.Fits, Component.Fits, Interest.complete]
  -- the lengths are computed part by part, without the bytes of the keys and the signature
  have holength : ContentObject.complete.toCbor.length < 2 ^ 64 := by
    simp [ContentObject.toCbor, SignedInfo.toCbor, Name.toCbor, Component.toCbor,
      PublisherKey.toCbor, Signature.toCbor, ContentType.tag, record, Cbor.text, Cbor.byteString,
      array, octets, unsigned, Cbor.optional, Bytes.length_ofString, ContentObject.complete]
    decide
  have hilength : Interest.complete.toCbor.length < 2 ^ 64 := by
    simp [Interest.toCbor, Exclude.toCbor, Name.toCbor, Component.toCbor, PublisherKey.toCbor,
      ChildSelector.text, record, Cbor.text, Cbor.byteString, array, octets, unsigned,
      Cbor.optional, Bytes.length_ofString, Interest.complete]
    decide
  obtain ⟨object, hobject, hodecode⟩ := wire_round_trip.1 _ rfl ho
  obtain ⟨interest, hinterest, hidecode⟩ := wire_round_trip.2.1 _ rfl hi
  obtain rfl : ContentObject.complete.toCbor = object := Except.ok.inj hobject
  obtain rfl : Interest.complete.toCbor = interest := Except.ok.inj hinterest
  exact ⟨⟨_, hobject, hodecode, (wire_round_trip.2.2.1 _ _ holength hodecode).2⟩,
    ⟨_, hinterest, hidecode, (wire_round_trip.2.2.2 _ _ hilength hidecode).2⟩⟩

end NamedContent
