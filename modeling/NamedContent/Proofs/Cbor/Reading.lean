import Mathlib.Algebra.Group.Nat.Defs
import NamedContent.Cbor.Decoder
import NamedContent.Cbor.Encoder
import NamedContent.Proofs.Name.Segments

/-! # Reading what was written

A decoder reads a value off the bytes that an encoder wrote for it, whatever follows them. This
holds for heads of every width, and so for everything that is built of heads: numbers, byte strings,
arrays, optional values and the entries of records.

* `Decoder.Reads`: the bytes that a decoder reads as a value
* `Decoder.reads_head`: heads
* `Decoder.reads_byteString`, `Decoder.reads_sequence`, `Decoder.reads_optional`: values
* `Decoder.reads_fields`: records, entry by entry -/

namespace NamedContent

/-! ## Texts as bytes -/

namespace Bytes

/-- The bytes of an array are collected from the back. By the recursion of the loop. -/
private theorem toList_loop (b : ByteArray) (i : Nat) (r : Bytes) :
    ByteArray.toList.loop b i r = r.reverse ++ b.data.toList.drop i := by
  fun_induction ByteArray.toList.loop b i r with
  | case1 i r hi ih =>
    have hlt : i < b.data.toList.length := by simpa using hi
    have hget : b.get! i = b.data.toList[i] := by
      rw [Array.getElem_toList]
      exact getElem!_pos b.data i hi
    rw [ih, List.drop_eq_getElem_cons hlt, hget]
    simp
  | case2 i r hi =>
    have hge : b.data.toList.length ≤ i := by simpa using hi
    rw [List.drop_eq_nil_of_le hge, List.append_nil]

/-- The bytes of a text are those of its array. -/
theorem ofString_eq (t : String) : ofString t = t.toByteArray.data.toList := by
  rw [ofString, String.toUTF8_eq_toByteArray, ByteArray.toList, toList_loop]
  rfl

/-- The bytes of a text are as many as its size. -/
theorem length_ofString (t : String) : (ofString t).length = t.utf8ByteSize := by
  rw [ofString_eq]
  exact String.size_toByteArray

/-- The bytes of a text tell it apart. -/
@[simp] theorem ofString_inj {t t' : String} : ofString t = ofString t' ↔ t = t' := by
  rw [ofString_eq, ofString_eq, Array.toList_inj, ← ByteArray.ext_iff, String.toByteArray_inj]

end Bytes

namespace Cbor.Decoder

/-- **A text is found again** from its bytes. -/
theorem utf8?_ofString (t : String) : utf8? (Bytes.ofString t) = some t := by
  have hbytes : (Bytes.ofString t).toByteArray = t.toByteArray := by
    rw [Bytes.ofString_eq]
    exact ByteArray.ext (List.data_toByteArray.trans Array.toArray_toList)
  rw [utf8?, hbytes, String.fromUTF8?, dif_pos t.isValidUTF8]
  rfl

/-! ## Reading -/

variable {α β σ : Type} {d : Decoder α} {f : α → Decoder β} {a : α} {b : β} {xs ys : Bytes}

/-- Whether a decoder reads bytes as a value, whatever follows them. -/
def Reads (d : Decoder α) (xs : Bytes) (a : α) : Prop := ∀ rest, d (xs ++ rest) = some (a, rest)

/-- A value is read from no bytes. -/
theorem reads_pure (a : α) : Reads (pure a) [] a := fun _ => rfl

/-- What is written for values of one kind tells them apart, and from what follows them. -/
theorem Reads.inj {a' : α} {r s : Bytes} (hx : Reads d xs a) (hy : Reads d ys a')
    (h : xs ++ r = ys ++ s) : a = a' ∧ r = s := by
  have hread : some (a, r) = some (a', s) := by rw [← hx r, h, hy s]
  exact Prod.mk.inj (Option.some.inj hread)

/-- Two encodings, one after the other, are read one after the other. -/
theorem Reads.bind (hd : Reads d xs a) (hf : Reads (f a) ys b) : Reads (d >>= f) (xs ++ ys) b := by
  intro rest
  have hfirst : d (xs ++ (ys ++ rest)) = some (a, ys ++ rest) := hd _
  rw [List.append_assoc]
  show (d (xs ++ (ys ++ rest)) >>= fun r => f r.1 r.2) = _
  rw [hfirst]
  exact hf rest

/-- What is read may be put into another form. -/
theorem Reads.map (hd : Reads d xs a) (g : α → β) : Reads (g <$> d) xs (g a) := by
  intro rest
  show (d (xs ++ rest) >>= fun r => some (g r.1, r.2)) = _
  rw [hd]
  rfl

/-- What is read may be put into another form, written as a program. -/
theorem Reads.bind_pure (hd : Reads d xs a) (g : α → β) :
    Reads (do return g (← d)) xs (g a) := hd.map g

/-- A value that is read is turned into another. -/
theorem Reads.lift {g : α → Option β} (hd : Reads d xs a) (hg : g a = some b) :
    Reads (do StateT.lift (g (← d))) xs b := by
  intro rest
  show (d (xs ++ rest) >>= fun r => (StateT.lift (g r.1) : Decoder β) r.2) = _
  rw [hd]
  show (StateT.lift (g a) : Decoder β) rest = _
  rw [hg]
  rfl

end Cbor.Decoder

/-! ## Heads -/

namespace Cbor

/-- What the head of a major type is read as. -/
def Major.toHead (n : Nat) : Major → Head
  | .unsigned => .unsigned n
  | .negative => .negative n
  | .bytes => .bytes (some n)
  | .text => .text (some n)
  | .array => .array (some n)
  | .map => .map (some n)
  | .tag => .tag n

/-- The head of a major type with a value is that of the type and the value. -/
theorem ofArgument?_code (m : Major) (width n : Nat) :
    Head.ofArgument? m.code (.value width n) = some (m.toHead n) := by
  cases m <;> rfl

namespace Decoder

/-- A number is read from the bytes it is written in. -/
theorem reads_number {width n : Nat} (hn : n < Nat.pow 256 width) :
    Reads (number width) (Bytes.bigEndian width n) n := by
  intro rest
  have htaken : takeBytes width (Bytes.bigEndian width n ++ rest)
      = some (Bytes.bigEndian width n, rest) := by
    simpa using takeBytes_append (Bytes.bigEndian width n) rest
  show (takeBytes width (Bytes.bigEndian width n ++ rest)).bind (fun r => some (_, r.2)) = _
  rw [htaken]
  simp [Bytes.ofBigEndian_bigEndian_of_lt hn]

/-- The first byte of a head announces its argument. -/
theorem reads_head_of_argument (m : Major) {low width n : Nat} (hlow : low < 32)
    (hargument : Reads (Argument.read low) xs (.value width n)) :
    Reads Head.read (UInt8.ofNat (32 * m.code + low) :: xs) (m.toHead n) := by
  intro rest
  have hcode : m.code ≤ 6 := by cases m <;> decide
  have hfirst : (UInt8.ofNat (32 * m.code + low)).toNat = 32 * m.code + low := by
    rw [UInt8.toNat_ofNat']
    omega
  have hmod : (32 * m.code + low) % 32 = low := by omega
  have hdiv : (32 * m.code + low) / 32 = m.code := by omega
  rw [List.cons_append, Head.read, hfirst, hmod, hdiv]
  simp [hargument rest, ofArgument?_code]

/-- **A head is read**, in whichever width it was written. -/
theorem reads_head (m : Major) {n : Nat} (hn : n < 2 ^ 64) :
    Reads Head.read (head m n) (m.toHead n) := by
  -- the argument is in the first byte, or in the one, two, four or eight bytes behind it
  rw [head]
  split
  · next hsmall =>
    have hargument : Reads (Argument.read n) [] (.value 0 n) := by
      rw [Argument.read, if_pos hsmall]
      exact reads_pure _
    exact reads_head_of_argument m (by omega) hargument
  · split
    · next hsize => exact reads_head_of_argument m (by decide) ((reads_number hsize).map _)
    · split
      · next hsize => exact reads_head_of_argument m (by decide) ((reads_number hsize).map _)
      · split
        · next hsize => exact reads_head_of_argument m (by decide) ((reads_number hsize).map _)
        · exact reads_head_of_argument m (by decide) ((reads_number hn).map _)

/-! ## Values -/

/-- A head that is no tag is read behind the tags, of which there are none. -/
theorem Reads.untagged {h : Head} (hh : Reads Head.read xs h) (htag : ∀ n, h ≠ .tag n) :
    Reads untagged xs h := by
  intro rest
  rw [Decoder.untagged]
  split
  · next n rest' heq =>
    rw [hh rest] at heq
    exact absurd (congrArg Prod.fst (Option.some.inj heq)) (htag n)
  · exact hh rest

/-- The head of anything but a tag is read. -/
theorem reads_untagged {m : Major} (hm : m ≠ .tag) {n : Nat} (hn : n < 2 ^ 64) :
    Reads untagged (head m n) (m.toHead n) :=
  (reads_head m hn).untagged fun k => by cases m <;> simp_all [Major.toHead]

/-- A number is read as an integer. -/
theorem reads_integer {n : Nat} (hn : n < 2 ^ 64) : Reads integer (unsigned n) (n : Int) := by
  intro rest
  have hh : Head.read (head .unsigned n ++ rest) = some (.unsigned n, rest) :=
    reads_head .unsigned hn rest
  rw [unsigned, integer]
  split <;> next heq => simp_all

/-- A number below its bound is read. -/
theorem reads_natBelow {limit n : Nat} (hn : n < limit) (hlimit : limit ≤ 2 ^ 64) :
    Reads (natBelow limit) (unsigned n) n := by
  rw [natBelow, ← List.append_nil (unsigned n)]
  refine (reads_integer (Nat.lt_of_lt_of_le hn hlimit)).bind ?_
  show Reads (if n < limit then pure n else failure) [] n
  rw [if_pos hn]
  exact reads_pure n

/-- A byte is read from its encoding. -/
theorem reads_byte (b : UInt8) : Reads byte (unsigned b.toNat) b := by
  have hread := (reads_natBelow b.toNat_lt (by decide)).map UInt8.ofNat
  rwa [UInt8.ofNat_toNat] at hread

/-- A word of 32 bits is read from its encoding. -/
theorem reads_word32 (w : UInt32) : Reads word32 (unsigned w.toNat) w := by
  have hread := (reads_natBelow w.toNat_lt (by decide)).map UInt32.ofNat
  rwa [UInt32.ofNat_toNat] at hread

/-- A word of 64 bits is read from its encoding. -/
theorem reads_word64 (w : UInt64) : Reads word64 (unsigned w.toNat) w := by
  have hread := (reads_natBelow w.toNat_lt (by decide)).map UInt64.ofNat
  rwa [UInt64.ofNat_toNat] at hread

/-- As many bytes are read as are asked for. -/
theorem reads_bytes (xs : Bytes) : Reads (bytes xs.length) xs xs := fun rest =>
  takeBytes_append xs rest

/-- A string of known length is read in one piece. -/
theorem reads_byteSegments (xs : Bytes) : Reads (byteSegments (some xs.length)) xs xs := by
  have hone : Reads (segments bytesLength? (some xs.length)) (xs ++ []) [xs] :=
    (reads_bytes xs).bind (reads_pure [xs])
  have hjoined := hone.map List.flatten
  rwa [List.append_nil, List.flatten_singleton] at hjoined

/-- A string of bytes is read from its encoding. -/
theorem reads_byteString (hxs : xs.length < 2 ^ 64) : Reads byteString (Cbor.byteString xs) xs := by
  rw [byteString, Cbor.byteString]
  exact (reads_untagged (by decide) hxs).bind (reads_byteSegments xs)

/-! ## Runs of items -/

/-- A run of steps reads what they read, one after the other. -/
theorem Reads.iterate_succ {step : σ → Decoder σ} {n : Nat} {s s' s'' : σ}
    (hstep : Reads (step s) xs s') (hrest : Reads (iterate step n s') ys s'') :
    Reads (iterate step (n + 1) s) (xs ++ ys) s'' := by
  rw [iterate]
  exact hstep.bind hrest

/-- The elements of an array are read one after the other. -/
theorem reads_items {element : Decoder α} {encode : α → Bytes} {items : List α}
    (hall : ∀ a ∈ items, Reads element (encode a) a) :
    Reads (Decoder.items (some items.length) element) (items.flatMap encode) items := by
  -- the run collects the elements last one first
  have hrun : ∀ acc, Reads (iterate (fun acc => (· :: acc) <$> element) items.length acc)
      (items.flatMap encode) (items.reverse ++ acc) := by
    induction items with
    | nil => exact fun acc => reads_pure acc
    | cons a rest ih =>
      intro acc
      have hfirst := (hall a (by simp)).map (· :: acc)
      have hrest := ih (fun b hb => hall b (by simp [hb])) (a :: acc)
      simpa using hfirst.iterate_succ hrest
  have hreversed := (hrun []).map List.reverse
  rwa [List.append_nil, List.reverse_reverse] at hreversed

/-- An array is its head with the encodings of its elements after it. -/
theorem array_map (encode : α → Bytes) (items : List α) :
    array (items.map encode) = head .array items.length ++ items.flatMap encode := by
  rw [array, List.length_map, List.flatMap]

/-- **A list is read** from the array of its elements. By induction on the list. -/
theorem reads_sequence {ofByte : UInt8 → Option α} {element : Decoder α} {encode : α → Bytes}
    {items : List α} (hall : ∀ a ∈ items, Reads element (encode a) a)
    (hlength : items.length < 2 ^ 64) :
    Reads (sequence ofByte element) (array (items.map encode)) items := by
  rw [sequence, array_map]
  exact (reads_untagged (by decide) hlength).bind (reads_items hall)

/-- An array of exactly so many bytes is read. -/
theorem reads_exactly {n : Nat} (hn : n < 2 ^ 64) (hxs : xs.length = n) :
    Reads (exactly n) (octets xs) xs := by
  subst hxs
  rw [exactly, octets, array_map]
  refine (reads_untagged (by decide) hn).bind ?_
  show Reads (if xs.length ≤ xs.length then items (some xs.length) byte else failure) _ xs
  rw [if_pos (Nat.le_refl _)]
  exact reads_items fun b _ => reads_byte b

/-! ## Optional values -/

/-- Whether bytes start with a written head. -/
def Headed (xs : Bytes) : Prop := ∃ m n ys, n < 2 ^ 64 ∧ xs = head m n ++ ys

/-- The encoding of a number begins with a head that is not null. -/
theorem headed_unsigned {n : Nat} (hn : n < 2 ^ 64) : Headed (unsigned n) :=
  ⟨.unsigned, n, [], hn, (List.append_nil _).symm⟩

/-- The encoding of a string of bytes begins with a head that is not null. -/
theorem headed_byteString (hxs : xs.length < 2 ^ 64) : Headed (Cbor.byteString xs) :=
  ⟨.bytes, xs.length, xs, hxs, rfl⟩

/-- The encoding of an array of bytes begins with a head that is not null. -/
theorem headed_octets (hxs : xs.length < 2 ^ 64) : Headed (octets xs) :=
  ⟨.array, xs.length, _, hxs, array_map _ xs⟩

/-- A value that is there is told from null by its head. -/
theorem reads_optional {value : Decoder α} {encode : α → Bytes} {o : Option α}
    (hvalue : ∀ a ∈ o, Headed (encode a) ∧ Reads value (encode a) a) :
    Reads (Decoder.optional value) (Cbor.optional encode o) o := by
  cases o with
  | none => exact fun _ => rfl
  | some a =>
    obtain ⟨⟨m, n, ys, hn, hencode⟩, hread⟩ := hvalue a rfl
    intro rest
    have hhead : Head.read (encode a ++ rest) = some (m.toHead n, ys ++ rest) := by
      rw [hencode, List.append_assoc]
      exact reads_head m hn _
    rw [Decoder.optional, Cbor.optional, hhead]
    -- none of the major types is that of null
    cases m <;> exact hread.map some rest

/-! ## Records -/

/-- The bytes of a text are a name. -/
theorem reads_name (t : String) :
    Reads (do
      let name ← bytes (Bytes.ofString t).length
      if (utf8? name).isSome then pure name else failure)
      (Bytes.ofString t) (Bytes.ofString t) := by
  let f : Bytes → Decoder Bytes := fun name =>
    if (utf8? name).isSome then pure name else failure
  have hvalid : Reads (f (Bytes.ofString t)) [] (Bytes.ofString t) := by
    simp only [f, utf8?_ofString]
    exact reads_pure _
  have hread := (reads_bytes (Bytes.ofString t)).bind hvalid
  rwa [List.append_nil] at hread

/-- A text of a readable length as the key of a record. -/
theorem reads_key {t : String} (ht : t.utf8ByteSize ≤ nameLimit) :
    Reads key (Cbor.text t) (Bytes.ofString t) := by
  rw [← Bytes.length_ofString] at ht
  rw [key, Cbor.text]
  refine (reads_untagged (by decide) (Nat.lt_of_le_of_lt ht (by decide))).bind ?_
  simp only [Major.toHead]
  rw [if_neg (Nat.not_lt.2 ht)]
  exact reads_name t

/-- The name of a variant is read if it is not too long. -/
theorem reads_variant {t : String} (ht : t.utf8ByteSize ≤ nameLimit) :
    Reads variant (Cbor.text t) (Bytes.ofString t) := by
  rw [← Bytes.length_ofString] at ht
  rw [variant, Cbor.text]
  refine (reads_untagged (by decide) (Nat.lt_of_le_of_lt ht (by decide))).bind ?_
  simp only [Major.toHead]
  rw [if_neg (Nat.not_lt.2 ht)]
  exact reads_name t

/-- A field is read when it comes for the first time. -/
theorem Reads.fill {value : Decoder α} (hvalue : Reads value xs a) :
    Reads (fill none value) xs (some a) := hvalue.map some

/-- Whether a step reads the entries of a record one after the other, from a state to another. -/
inductive Fills (step : Bytes → σ → Decoder σ) : σ → List (String × Bytes) → σ → Prop where
  /-- There are no more entries. -/
  | nil (s : σ) : Fills step s [] s
  /-- An entry is read before the others. -/
  | cons {s s' s'' : σ} {k : String} {entries : List (String × Bytes)}
    (hk : k.utf8ByteSize ≤ nameLimit) (hvalue : Reads (step (Bytes.ofString k) s) xs s')
    (hrest : Fills step s' entries s'') : Fills step s ((k, xs) :: entries) s''

/-- **A record is read** entry by entry. -/
theorem reads_fields {step : Bytes → σ → Decoder σ} {s s' : σ} {entries : List (String × Bytes)}
    (hentries : Fills step s entries s') (hlength : entries.length < 2 ^ 64) :
    Reads (fields step s) (record entries) s' := by
  have hrun : Reads (iterate (fun s => do step (← key) s) entries.length s)
      (entries.flatMap fun e => Cbor.text e.1 ++ e.2) s' := by
    clear hlength -- as it is not so of the entries that are left
    induction hentries with
    | nil s => exact reads_pure s
    | cons hk hvalue hrest ih => exact ((reads_key hk).bind hvalue).iterate_succ ih
  rw [fields, record]
  exact (reads_untagged (by decide) hlength).bind hrun

end Decoder

end Cbor

end NamedContent
