import NamedContent.Cbor.Decoder

/-! # What decoders consume

A decoder that succeeds takes a number of bytes off the front of its input, and what it has read is
no longer than these bytes: a byte string has no more bytes, and a list no more elements, as each of
them takes at least one byte.

* `Decoder.Consumes`: what is read is in proportion to the bytes that are consumed
* `Decoder.consumes_forItems`: the invariant of a run of items
* `Decoder.consumes_byteString`, `Decoder.consumes_items`, `Decoder.consumes_fields`: values -/

namespace NamedContent.Cbor.Decoder

variable {α β σ : Type} {d : Decoder α} {f : α → Decoder β} {R : Nat → α → Prop}
  {S : Nat → β → Prop}

/-- Whether what a decoder reads is related to the number of bytes that it consumes. -/
def Consumes (d : Decoder α) (R : Nat → α → Prop) : Prop :=
  ∀ input a rest, d input = some (a, rest) → ∃ k, k + rest.length = input.length ∧ R k a

/-- A value takes no input. -/
theorem consumes_pure {a : α} (ha : R 0 a) : Consumes (pure a) R := by
  intro input b rest h
  obtain ⟨rfl, rfl⟩ := Prod.mk.inj (Option.some.inj h)
  exact ⟨0, Nat.zero_add _, ha⟩

/-- Of what always fails anything may be said. -/
theorem consumes_failure : Consumes failure R := fun _ _ _ h => by cases h

/-- A value that is read already may still be refused. -/
theorem consumes_ite {p : Prop} [Decidable p] {a : α} (ha : p → R 0 a) :
    Consumes (if p then pure a else failure) R := by
  split
  · next hp => exact consumes_pure (ha hp)
  · exact consumes_failure

/-- A value that there may be takes no input. -/
theorem consumes_lift {o : Option α} (ho : ∀ a, o = some a → R 0 a) :
    Consumes (StateT.lift o) R := by
  intro input b rest h
  cases o with
  | none => cases h
  | some a =>
    obtain ⟨rfl, rfl⟩ := Prod.mk.inj (Option.some.inj h)
    exact ⟨0, Nat.zero_add _, ho a rfl⟩

/-- One decoder after the other consumes what the two consume. -/
theorem Consumes.bind (hd : Consumes d R)
    (hf : ∀ k a, R k a → Consumes (f a) fun l b => S (k + l) b) : Consumes (d >>= f) S := by
  intro input b rest h
  have h : (d input).bind (fun r => f r.1 r.2) = some (b, rest) := h
  obtain ⟨⟨a, left⟩, hfirst, hsecond⟩ := Option.bind_eq_some_iff.1 h
  obtain ⟨k, hk, ha⟩ := hd input a left hfirst
  obtain ⟨l, hl, hb⟩ := hf k a ha left b rest hsecond
  exact ⟨k + l, by omega, hb⟩

/-- What is known of what was read implies what is weaker. -/
theorem Consumes.mono {R' : Nat → α → Prop} (hd : Consumes d R) (h : ∀ k a, R k a → R' k a) :
    Consumes d R' := by
  intro input a rest hread
  obtain ⟨k, hk, ha⟩ := hd input a rest hread
  exact ⟨k, hk, h k a ha⟩

/-- What was read is put into another form. -/
theorem Consumes.map (hd : Consumes d R) {g : α → β} (h : ∀ k a, R k a → S k (g a)) :
    Consumes (g <$> d) S := by
  intro input b rest hread
  have hread : (d input).bind (fun r => some (g r.1, r.2)) = some (b, rest) := hread
  obtain ⟨⟨a, left⟩, hfirst, hsecond⟩ := Option.bind_eq_some_iff.1 hread
  obtain ⟨rfl, rfl⟩ := Prod.mk.inj (Option.some.inj hsecond)
  obtain ⟨k, hk, ha⟩ := hd input a left hfirst
  exact ⟨k, hk, h k a ha⟩

/-- What was read is put into another form, written as a program. -/
theorem Consumes.bind_pure (hd : Consumes d R) {g : α → β} (h : ∀ k a, R k a → S k (g a)) :
    Consumes (do return g (← d)) S := hd.map h

/-- What was read is put into another form if it has one. -/
theorem Consumes.lift (hd : Consumes d R) {g : α → Option β}
    (h : ∀ k a b, R k a → g a = some b → S k b) : Consumes (do StateT.lift (g (← d))) S :=
  hd.bind fun k a ha => consumes_lift fun b hb => h k a b ha hb

/-- What is read does not matter. -/
theorem Consumes.any (hd : Consumes d R) : Consumes d fun _ _ => True :=
  hd.mono fun _ _ _ => trivial

/-! ## Heads and bytes -/

/-- A decoder that leaves less of every input takes some of it. -/
theorem consumes_of_length_lt
    (h : ∀ input a rest, d input = some (a, rest) → rest.length < input.length) :
    Consumes d fun k _ => 0 < k := by
  intro input a rest hread
  have hlt := h input a rest hread
  exact ⟨input.length - rest.length, by omega, by omega⟩

/-- A head takes at least one byte. -/
theorem consumes_read : Consumes Head.read fun k _ => 0 < k :=
  consumes_of_length_lt fun _ _ _ => Head.length_read

/-- As many bytes are taken as are read. -/
theorem consumes_bytes (n : Nat) : Consumes (bytes n) fun k xs => xs.length ≤ k := by
  intro input xs rest h
  obtain ⟨rfl, hlength⟩ := append_of_takeBytes h
  exact ⟨xs.length, by simp, Nat.le_refl _⟩

/-- A head takes some input, after all tags. -/
theorem consumes_untagged : Consumes untagged fun k _ => 0 < k := by
  refine consumes_of_length_lt fun input => ?_
  fun_induction untagged input with
  | case1 input n rest hread _ ih =>
    intro a left h
    exact Nat.lt_trans (ih a left h) (Head.length_read hread)
  | case2 input => exact fun a rest h => Head.length_read h

/-! ## Runs of items -/

section Runs

variable {I : Nat → σ → Prop} {step : σ → Decoder σ}

/-- **Steps that are repeated** keep an invariant of the state and of what was read so far. -/
theorem consumes_iterate (hstep : ∀ k s, I k s → Consumes (step s) fun l s' => I (k + l) s')
    (n : Nat) {k : Nat} {s : σ} (hs : I k s) :
    Consumes (iterate step n s) fun l s' => I (k + l) s' := by
  induction n generalizing k s with
  | zero => exact consumes_pure hs
  | succ n ih =>
    rw [iterate]
    refine (hstep k s hs).bind fun l s' hs' => ?_
    simpa [Nat.add_assoc] using ih hs'

/-- Steps that are repeated until a stop keep an invariant of the state and of what was read. -/
theorem consumes_untilStopWithin (hmono : ∀ k l s, I k s → I (k + l) s)
    (hstep : ∀ k s, I k s → Consumes (step s) fun l s' => I (k + l) s')
    (fuel : Nat) {k : Nat} {s : σ} (hs : I k s) :
    Consumes (untilStopWithin step fuel s) fun l s' => I (k + l) s' := by
  induction fuel generalizing k s with
  | zero => exact consumes_failure
  | succ fuel ih =>
    intro input a rest h
    simp only [untilStopWithin] at h
    split at h
    · next left hread =>
      -- the end of the items takes bytes, too, and is the only step that leaves the state alone
      obtain ⟨rfl, rfl⟩ := Prod.mk.inj (Option.some.inj h)
      obtain ⟨l, hl, -⟩ := consumes_read input _ _ hread
      exact ⟨l, hl, hmono k l s hs⟩
    · have hrest : Consumes (do untilStopWithin step fuel (← step s)) fun l s' => I (k + l) s' := by
        refine (hstep k s hs).bind fun l s' hs' => ?_
        simpa [Nat.add_assoc] using ih hs'
      exact hrest input a rest h
    · cases h

/-- **What every item keeps**, a run of items keeps. -/
theorem consumes_forItems (hmono : ∀ k l s, I k s → I (k + l) s)
    (hstep : ∀ k s, I k s → Consumes (step s) fun l s' => I (k + l) s')
    (count : Option Nat) {k : Nat} {s : σ} (hs : I k s) :
    Consumes (forItems count step s) fun l s' => I (k + l) s' := by
  cases count with
  | some n => exact consumes_iterate hstep n hs
  | none =>
    intro input
    exact consumes_untilStopWithin hmono hstep input.length hs input

end Runs

/-- A run of items has no more of them than bytes. -/
theorem consumes_items {element : Decoder α} (hmono : ∀ k l a, R k a → R (k + l) a)
    (helement : Consumes element fun k a => 0 < k ∧ R k a) (count : Option Nat) :
    Consumes (items count element) fun k xs => xs.length ≤ k ∧ ∀ a ∈ xs, R k a := by
  let I : Nat → List α → Prop := fun k acc => acc.length ≤ k ∧ ∀ a ∈ acc, R k a
  have hI : ∀ k l acc, I k acc → I (k + l) acc := fun k l acc hacc =>
    ⟨Nat.le_add_right_of_le hacc.1, fun a ha => hmono k l a (hacc.2 a ha)⟩
  -- each item takes at least one byte, which pays for its place in the list
  have hstep : ∀ k acc, I k acc →
      Consumes ((· :: acc) <$> element) fun l acc' => I (k + l) acc' := by
    intro k acc hacc
    refine helement.map fun l a ha => ⟨?_, fun b hb => ?_⟩
    · have hlength := hacc.1
      rw [List.length_cons]
      omega
    · rcases List.mem_cons.1 hb with rfl | hb
      · rw [Nat.add_comm]
        exact hmono l k b ha.2
      · exact hmono k l b (hacc.2 b hb)
  have hrun := consumes_forItems hI hstep count (k := 0) (s := []) ⟨Nat.le_refl _, by simp⟩
  refine hrun.map fun k acc hacc => ?_
  rw [Nat.zero_add] at hacc
  simpa using hacc

/-! ## Values -/

/-- The segments of a byte string together are no longer than what they take. -/
theorem consumes_segmentsWithin (select : Head → Option (Option Nat)) (fuel depth : Nat) :
    Consumes (segmentsWithin select fuel depth) fun k segments => segments.flatten.length ≤ k := by
  induction fuel generalizing depth with
  | zero => exact consumes_failure
  | succ fuel ih =>
    rw [segmentsWithin]
    refine consumes_read.bind fun k h _ => ?_
    -- a head is the end of the segments, or announces one, or more of them
    split
    · split
      · exact consumes_pure (Nat.zero_le _)
      · exact (ih _).mono fun l _ hl => Nat.le_add_left_of_le hl
    · split
      · exact consumes_failure
      · exact (ih _).mono fun l _ hl => Nat.le_add_left_of_le hl
      · next n _ =>
        refine (consumes_bytes n).bind fun l segment hsegment => (ih depth).bind_pure ?_
        intro m segments hsegments
        simp only [List.flatten_cons, List.length_append]
        omega

/-- The segments of a string are no longer than what was read. -/
theorem consumes_segments (select : Head → Option (Option Nat)) (length : Option Nat) :
    Consumes (segments select length) fun k segments => segments.flatten.length ≤ k := by
  cases length with
  | some n => exact (consumes_bytes n).bind_pure fun k xs hxs => by simpa using hxs
  | none => exact fun input => consumes_segmentsWithin select input.length 0 input

/-- A string of bytes is no longer than what was read. -/
theorem consumes_byteSegments (length : Option Nat) :
    Consumes (byteSegments length) fun k xs => xs.length ≤ k :=
  (consumes_segments bytesLength? length).map fun _ _ h => h

/-- The segments of a text are taken off the input. -/
theorem consumes_textSegments (length : Option Nat) :
    Consumes (textSegments length) fun _ _ => True := by
  refine (consumes_segments textLength? length).bind fun k segments _ => ?_
  exact (consumes_lift (R := fun _ _ => True) fun _ _ => trivial).bind_pure fun _ _ _ => trivial

/-- A great number is taken off the input. -/
theorem consumes_bignum : Consumes bignum fun _ _ => True := by
  refine consumes_read.bind fun k h _ => ?_
  split
  · exact (consumes_byteSegments _).bind fun l xs _ => consumes_ite fun _ => trivial
  · exact consumes_failure

/-- An integer takes some input. -/
theorem consumes_integer : Consumes integer fun k _ => 0 < k := by
  refine consumes_of_length_lt fun input => ?_
  -- behind a tag for a great number there is a string of bytes
  have hbignum : ∀ (g : Nat → Int) {rest : Bytes} {a : Int} {left : Bytes},
      (bignum rest).map (fun r => (g r.1, r.2)) = some (a, left) →
        left.length ≤ rest.length := by
    intro g rest a left h
    obtain ⟨⟨n, left'⟩, hn, heq⟩ := Option.map_eq_some_iff.1 h
    obtain ⟨-, rfl⟩ := Prod.mk.inj heq
    obtain ⟨k, hk, -⟩ := consumes_bignum rest n left' hn
    exact hk ▸ Nat.le_add_left _ k
  fun_induction integer input with
  | case1 input n rest h =>
    intro a left heq
    exact (Prod.mk.inj (Option.some.inj heq)).2 ▸ Head.length_read h
  | case2 input n rest h =>
    intro a left heq
    exact (Prod.mk.inj (Option.some.inj heq)).2 ▸ Head.length_read h
  | case3 input rest h =>
    intro a left heq
    exact Nat.lt_of_le_of_lt (hbignum (fun n => n) heq) (Head.length_read h)
  | case4 input rest h =>
    intro a left heq
    exact Nat.lt_of_le_of_lt (hbignum (fun n => -1 - n) heq) (Head.length_read h)
  | case5 input n rest _ _ h _ ih =>
    intro a left heq
    exact Nat.lt_trans (ih a left heq) (Head.length_read h)
  | case6 => exact fun a left heq => by cases heq

/-- A number with a bound takes some input. -/
theorem consumes_natBelow (limit : Nat) : Consumes (natBelow limit) fun k _ => 0 < k := by
  refine consumes_integer.bind fun k n hk => ?_
  cases n with
  | ofNat n => exact consumes_ite fun _ => hk
  | negSucc n => exact consumes_failure

/-- A byte takes some input. -/
theorem consumes_byte : Consumes byte fun k _ => 0 < k :=
  (consumes_natBelow UInt8.size).map fun _ _ h => h

/-- A word of 32 bits takes some input. -/
theorem consumes_word32 : Consumes word32 fun k _ => 0 < k :=
  (consumes_natBelow UInt32.size).map fun _ _ h => h

/-- A word of 64 bits takes some input. -/
theorem consumes_word64 : Consumes word64 fun k _ => 0 < k :=
  (consumes_natBelow UInt64.size).map fun _ _ h => h

/-- Each byte takes at least one. -/
theorem consumes_bytewise (count : Option Nat) :
    Consumes (items count byte) fun k xs => xs.length ≤ k :=
  (consumes_items (R := fun _ _ => True) (fun _ _ _ _ => trivial)
    (consumes_byte.mono fun _ _ h => ⟨h, trivial⟩) count).mono fun _ _ h => h.1

/-- A string with its head is longer than the bytes in it. -/
theorem consumes_byteString : Consumes byteString fun k xs => xs.length < k := by
  refine consumes_untagged.bind fun k h hk => ?_
  split
  · exact (consumes_byteSegments _).mono fun l xs hxs => by omega
  · exact (consumes_bytewise _).mono fun l xs hxs => by omega
  · exact consumes_failure

/-- An optional value is null, or takes what the value takes. -/
theorem consumes_optional {value : Decoder α} (hvalue : Consumes value R) :
    Consumes (Decoder.optional value) fun k o => ∀ a ∈ o, R k a := by
  intro input o rest h
  have hnull : ∀ {head : Head} {left : Bytes}, Head.read input = some (head, left) →
      some (none, left) = some (o, rest) →
      ∃ k, k + rest.length = input.length ∧ ∀ a ∈ o, R k a := by
    intro head left hread heq
    obtain ⟨rfl, rfl⟩ := Prod.mk.inj (Option.some.inj heq)
    obtain ⟨k, hk, -⟩ := consumes_read input _ _ hread
    exact ⟨k, hk, by simp⟩
  simp only [Decoder.optional] at h
  split at h
  · next hread => exact hnull hread h
  · next hread => exact hnull hread h
  · have hsome : Consumes (some <$> value) fun k o => ∀ a ∈ o, R k a :=
      hvalue.map fun k a ha b hb => by cases hb; exact ha
    exact hsome input o rest h

/-- The elements that bytes stand for are as many. -/
theorem length_of_mapM {P : α → Prop} {ofByte : UInt8 → Option α}
    (hbyte : ∀ b a, ofByte b = some a → P a) {bytes : Bytes} {xs : List α}
    (h : bytes.mapM ofByte = some xs) : xs.length = bytes.length ∧ ∀ a ∈ xs, P a := by
  induction bytes generalizing xs with
  | nil =>
    obtain rfl : [] = xs := by simpa using h
    simp
  | cons b rest ih =>
    rw [List.mapM_cons] at h
    obtain ⟨a, ha, h⟩ := Option.bind_eq_some_iff.1 h
    obtain ⟨as, has, h⟩ := Option.bind_eq_some_iff.1 h
    obtain rfl : a :: as = xs := by simpa using h
    obtain ⟨hlength, hall⟩ := ih has
    exact ⟨by simp [hlength], List.forall_mem_cons.2 ⟨hbyte b a ha, hall⟩⟩

/-- A list has no more elements than bytes; in a byte string, too, each of them takes one. -/
theorem consumes_sequence {ofByte : UInt8 → Option α} {element : Decoder α}
    (hmono : ∀ k l a, R k a → R (k + l) a) (hbyte : ∀ b a, ofByte b = some a → R 0 a)
    (helement : Consumes element fun k a => 0 < k ∧ R k a) :
    Consumes (sequence ofByte element) fun k xs => xs.length < k ∧ ∀ a ∈ xs, R k a := by
  refine consumes_untagged.bind fun k h hk => ?_
  split
  · next count =>
    refine (consumes_items hmono helement count).mono fun l xs hxs => ⟨by omega, fun a ha => ?_⟩
    rw [Nat.add_comm]
    exact hmono l k a (hxs.2 a ha)
  · next length =>
    refine (consumes_byteSegments length).lift fun l bytes xs hbytes hxs => ?_
    obtain ⟨hlength, hall⟩ := length_of_mapM hbyte hxs
    refine ⟨by omega, fun a ha => ?_⟩
    rw [← Nat.zero_add (k + l)]
    exact hmono 0 _ a (hall a ha)
  · exact consumes_failure

/-- Exactly so many bytes are taken off the input. -/
theorem consumes_exactly (n : Nat) : Consumes (exactly n) fun _ _ => True := by
  refine consumes_untagged.bind fun k h _ => ?_
  split
  · split
    · exact (consumes_bytewise _).any
    · exact consumes_failure
  · exact (consumes_bytewise _).any
  · exact (consumes_byteSegments _).bind fun l xs _ => consumes_ite fun _ => trivial
  · exact consumes_failure

/-! ## Records -/

/-- The name of a field is taken off the input. -/
theorem consumes_name (n : Nat) : Consumes (do
    let name ← bytes n
    if (utf8? name).isSome then pure name else failure) fun _ _ => True :=
  (consumes_bytes n).bind fun _ _ _ => consumes_ite fun _ => trivial

/-- A key is taken off the input, in whatever form it comes. -/
theorem consumes_key : Consumes key fun _ _ => True := by
  refine consumes_untagged.bind fun k h _ => ?_
  split
  · next n =>
    split
    · exact (consumes_failure (R := fun _ _ => False)).bind fun _ _ h => h.elim
    · exact consumes_name n
  · next n =>
    split
    · exact consumes_failure
    · exact (consumes_bytes n).any
  · exact consumes_failure

/-- The name of a variant is taken off the input. -/
theorem consumes_variant : Consumes variant fun _ _ => True := by
  refine consumes_untagged.bind fun k h _ => ?_
  split
  · next n =>
    split
    · exact (consumes_failure (R := fun _ _ => False)).bind fun _ _ h => h.elim
    · exact consumes_name n
  · exact consumes_key
  · exact consumes_failure

/-- A field that is found takes what its value takes. -/
theorem Consumes.fill {value : Decoder α} (hvalue : Consumes value R) (slot : Option α) :
    Consumes (fill slot value) fun k o => ∀ a ∈ o, R k a := by
  rw [Decoder.fill]
  split
  · exact consumes_failure
  · exact hvalue.map fun k a ha b hb => by cases hb; exact ha

/-- **What every entry keeps**, a record keeps. -/
theorem consumes_fields {I : Nat → σ → Prop} {step : Bytes → σ → Decoder σ}
    (hmono : ∀ k l s, I k s → I (k + l) s)
    (hstep : ∀ key k s, I k s → Consumes (step key s) fun l s' => I (k + l) s') {s : σ}
    (hs : I 0 s) : Consumes (fields step s) I := by
  have hentry : ∀ k s, I k s → Consumes (do step (← key) s) fun l s' => I (k + l) s' := by
    intro k s hs
    refine consumes_key.bind fun l name _ => ?_
    simpa [Nat.add_assoc] using hstep name (k + l) s (hmono k l s hs)
  refine consumes_untagged.bind fun k h _ => ?_
  split
  · next count =>
    have hk : I k s := by simpa using hmono 0 k s hs
    exact consumes_forItems hmono hentry count hk
  · exact consumes_failure

/-! ## Unknown values -/

/-- A tagged item is passed over with what it takes. -/
theorem consumes_skipTagged (tag : Nat) {inner : Decoder Unit}
    (hinner : Consumes inner fun _ _ => True) :
    Consumes (skipTagged tag inner) fun _ _ => True := by
  intro input a rest h
  simp only [skipTagged] at h
  split at h
  · next n left hread =>
    split at h
    · split at h
      · next digits left' htake =>
        split at h
        · obtain ⟨-, rfl⟩ := Prod.mk.inj (Option.some.inj h)
          obtain ⟨k, hk, -⟩ := consumes_read input _ _ hread
          obtain ⟨l, hl, -⟩ := consumes_bytes n left _ _ htake
          exact ⟨k + l, by omega, trivial⟩
        · cases h
      · cases h
    · exact hinner input a rest h
  · exact hinner input a rest h

/-- An item is passed over with what is nested in it. -/
theorem consumes_skipWith {inner : Decoder Unit} (hinner : Consumes inner fun _ _ => True) :
    Consumes (skipWith inner) fun _ _ => True := by
  refine consumes_read.bind fun k h _ => ?_
  have hitems : ∀ count (step : Unit → Decoder Unit), (Consumes (step ()) fun _ _ => True) →
      Consumes (forItems count step ()) fun _ _ => True := fun count step hstep =>
    consumes_forItems (I := fun _ _ => True) (k := 0) (fun _ _ _ h => h) (fun _ _ _ => hstep)
      count trivial
  cases h with
  | unsigned n => exact consumes_pure trivial
  | negative n => exact consumes_pure trivial
  | bytes length => exact (consumes_byteSegments length).map fun _ _ _ => trivial
  | text length => exact (consumes_textSegments length).map fun _ _ _ => trivial
  | array count => exact hitems count _ hinner
  | map count => exact hitems count _ (hinner.bind fun _ _ _ => hinner)
  | tag n => exact consumes_skipTagged n hinner
  | simple n => exact consumes_ite fun _ => trivial
  | float => exact consumes_pure trivial
  | stop => exact consumes_failure

/-- Items may be passed over at any depth. -/
theorem consumes_skip (depth : Nat) : Consumes (skip depth) fun _ _ => True := by
  induction depth with
  | zero =>
    intro input a rest h
    simp only [skip, skip.skipFlat] at h
    split at h
    · cases h
    · cases h
    · exact consumes_skipWith consumes_failure input a rest h
  | succ depth ih => exact consumes_skipWith ih

end NamedContent.Cbor.Decoder
