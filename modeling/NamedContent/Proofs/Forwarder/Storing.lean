import Mathlib.Data.List.Induction
import Mathlib.Data.List.Nodup
import NamedContent.Proofs.Forwarder.Carrying
import NamedContent.Proofs.Forwarder.Turns
import NamedContent.Proofs.Keyed
import NamedContent.Proofs.Signing.Objects

/-! # The content store over whole runs

However applications take turns, the store stays within its capacity and holds valid objects, each
under the key that belongs to it and no key twice. Every one of them was admitted when it arrived,
because a get or a standing interest asked for it. A look-up finds the preferred one of those that
answer an interest, and changes nothing but the order of use.

* `ContentStore.Sound`: the invariant of the store
* `ContentStore.lookupByKey`: a look-up that goes through the key
* `Admitted`: an object has arrived when it was asked for
* `ContentStore.Finds`, `content_store`: the main theorem -/

namespace NamedContent

namespace ContentStore

variable {s : ContentStore} {i : Interest} {e : StoreEntry} {o : ContentObject}

/-! ## The invariant -/

/-- Whether a store is within its capacity and holds valid objects, each under its own key. -/
structure Sound (s : ContentStore) : Prop where
  /-- At least one object may be stored, and no more than asked for. -/
  bounded : s.size ≤ max 1 s.capacity
  /-- No key is used twice. -/
  distinct : (s.entries.map (·.key)).Nodup
  /-- An object is stored under its name and digest. -/
  keyed : ∀ e ∈ s.entries, e.key.name = e.object.name ∧ e.object.digest = .ok e.key.digest
  /-- What is stored keeps the rules. -/
  valid : ∀ e ∈ s.entries, e.object.Valid

/-- An empty store is sound. -/
theorem sound_empty (capacity : Nat) : (empty capacity).Sound where
  bounded := Nat.zero_le _
  distinct := .nil
  keyed := by simp [empty]
  valid := by simp [empty]

/-- An entry and those of other keys have distinct keys. -/
theorem nodup_cons_filter (hdistinct : (s.entries.map (·.key)).Nodup) (e : StoreEntry) :
    ((e :: s.entries.filter (·.key ≠ e.key)).map (·.key)).Nodup := by
  refine List.nodup_cons.2 ⟨?_, hdistinct.sublist (List.Sublist.map _ List.filter_sublist)⟩
  intro hmem
  obtain ⟨x, hx, hkey⟩ := List.mem_map.1 hmem
  exact absurd hkey (by simpa using (List.mem_filter.1 hx).2)

/-- An object is stored under its name and digest. -/
theorem Sound.insert (hs : s.Sound) {d : Digest} (hd : o.digest = .ok d) :
    (s.insert ⟨⟨o.name, d⟩, o⟩).Sound where
  bounded := List.length_take_le _ _
  distinct := (nodup_cons_filter hs.distinct _).sublist
    (List.Sublist.map _ (List.take_sublist _ _))
  keyed x hx := by
    obtain rfl | hx := mem_entries_insert hx
    · exact ⟨rfl, hd⟩
    · exact hs.keyed x hx
  valid x hx := by
    obtain rfl | hx := mem_entries_insert hx
    · exact ContentObject.valid_of_digest_eq_ok hd
    · exact hs.valid x hx

/-- The use of an entry changes nothing but the order. -/
theorem touch_perm (hdistinct : (s.entries.map (·.key)).Nodup) (he : e ∈ s.entries) :
    (s.touch e).entries.Perm s.entries :=
  (perm_filter_key hdistinct he).symm

/-- A look-up changes nothing but the order of use. -/
theorem lookup_perm (hdistinct : (s.entries.map (·.key)).Nodup) (i : Interest) :
    (s.lookup i).2.capacity = s.capacity ∧ (s.lookup i).2.entries.Perm s.entries := by
  rw [lookup]
  split
  · exact ⟨rfl, .refl _⟩
  · next e hselect => exact ⟨rfl, touch_perm hdistinct (Interest.mem_of_selectOn hselect).1⟩

/-- Nothing but the order of the entries changes. -/
theorem Sound.of_perm (hs : s.Sound) {s' : ContentStore} (hcapacity : s'.capacity = s.capacity)
    (hperm : s'.entries.Perm s.entries) : s'.Sound where
  bounded := by
    rw [size, hcapacity, hperm.length_eq]
    exact hs.bounded
  distinct := (hperm.map _).nodup_iff.2 hs.distinct
  keyed x hx := hs.keyed x (hperm.mem_iff.1 hx)
  valid x hx := hs.valid x (hperm.mem_iff.1 hx)

/-- A lookup moves entries and drops none. -/
theorem Sound.lookup (hs : s.Sound) (i : Interest) : (s.lookup i).2.Sound :=
  hs.of_perm (lookup_perm hs.distinct i).1 (lookup_perm hs.distinct i).2

/-! ## Looking up -/

/-- A look-up in two steps: the preferred object is selected, and then got under its key. -/
def lookupByKey (s : ContentStore) (i : Interest) : Option ContentObject × ContentStore :=
  match i.select (s.entries.map (·.object)) with
  | none => (none, s)
  | some o =>
    match o.digest with
    | .error _ => (none, s)
    | .ok d =>
      match s.entries.find? (·.key = ⟨o.name, d⟩) with
      | none => (none, s)
      | some e => (some e.object, s.touch e)

/-- The object that is got under the key is the one that was selected. -/
theorem Sound.lookupByKey_eq (hs : s.Sound) (i : Interest) : s.lookupByKey i = s.lookup i := by
  rw [lookupByKey, ContentStore.lookup, Interest.select_map]
  cases hselect : i.selectOn StoreEntry.object s.entries with
  | none => rfl
  | some e =>
    have he : e ∈ s.entries := (Interest.mem_of_selectOn hselect).1
    obtain ⟨hname, hdigest⟩ := hs.keyed e he
    have hkey : (⟨e.object.name, e.key.digest⟩ : StoreKey) = e.key := by rw [← hname]
    simp only [Option.map_some, hdigest, hkey, find?_key hs.distinct he]

/-- Whether look-ups for an interest find what they should. -/
structure Finds (s : ContentStore) (i : Interest) : Prop where
  /-- An object is found if one that is stored answers the interest. -/
  found : (∃ o, (s.lookup i).1 = some o) ↔ ∃ e ∈ s.entries, i.accepts e.object = true
  /-- What is found is stored, answers the interest and is preferred to all others that do. -/
  preferred : ∀ o, (s.lookup i).1 = some o → (∃ e ∈ s.entries, e.object = o)
    ∧ i.accepts o = true
    ∧ ∀ e ∈ s.entries, i.accepts e.object = true → i.Prefers o e.object
  /-- The order of use has no influence on its name. -/
  recency : ∀ s' : ContentStore, s'.entries.Perm s.entries →
    (s'.lookup i).1.map (·.name) = (s.lookup i).1.map (·.name)
  /-- Nothing changes but the order of use. -/
  unchanged : (s.lookup i).2.capacity = s.capacity ∧ (s.lookup i).2.entries.Perm s.entries
  /-- Selecting an object and getting it under its key is one look-up. -/
  byKey : s.lookupByKey i = s.lookup i

/-- Something is found just if the interest accepts an entry. -/
theorem exists_lookup_iff (s : ContentStore) (i : Interest) :
    (∃ o, (s.lookup i).1 = some o) ↔ ∃ e ∈ s.entries, i.accepts e.object = true := by
  rw [lookup]
  cases hselect : i.selectOn StoreEntry.object s.entries with
  | none =>
    refine iff_of_false (by simp) ?_
    rintro ⟨e, he, haccepts⟩
    rw [Interest.selectOn_eq_none.1 hselect e he] at haccepts
    cases haccepts
  | some e =>
    obtain ⟨he, haccepts⟩ := Interest.mem_of_selectOn hselect
    exact iff_of_true ⟨_, rfl⟩ ⟨e, he, haccepts⟩

/-- **What is found** is an entry that the interest accepts and prefers to all others. -/
theorem lookup_preferred (h : (s.lookup i).1 = some o) : (∃ e ∈ s.entries, e.object = o)
    ∧ i.accepts o = true
    ∧ ∀ e ∈ s.entries, i.accepts e.object = true → i.Prefers o e.object := by
  rw [lookup] at h
  cases hselect : i.selectOn StoreEntry.object s.entries with
  | none =>
    rw [hselect] at h
    cases h
  | some e =>
    rw [hselect] at h
    obtain rfl := Option.some.inj h
    obtain ⟨he, haccepts⟩ := Interest.mem_of_selectOn hselect
    exact ⟨⟨e, he, rfl⟩, haccepts, fun x hx hxa => Interest.prefers_of_selectOn hselect hx hxa⟩

/-- Two objects of which each is preferred to the other have one name. -/
theorem name_eq_of_prefers {o' : ContentObject} (h : i.Prefers o o') (h' : i.Prefers o' o) :
    o.name = o'.name := by
  rw [Interest.Prefers] at h h'
  cases hsel : i.selector with
  | leftmost =>
    rw [hsel] at h h'
    exact Std.le_antisymm h h'
  | rightmost =>
    rw [hsel] at h h'
    exact Std.le_antisymm h' h

/-- In another order of the entries an object of the same name is found. -/
theorem map_name_lookup {s' : ContentStore} (hperm : s'.entries.Perm s.entries) (i : Interest) :
    (s'.lookup i).1.map (·.name) = (s.lookup i).1.map (·.name) := by
  have hfound : (∃ o, (s'.lookup i).1 = some o) ↔ ∃ o, (s.lookup i).1 = some o := by
    rw [exists_lookup_iff, exists_lookup_iff]
    simp only [hperm.mem_iff]
  cases h : (s.lookup i).1 with
  | none =>
    have hnone : (s'.lookup i).1 = none := by
      refine Option.eq_none_iff_forall_ne_some.2 fun o ho => ?_
      obtain ⟨o', ho'⟩ := hfound.1 ⟨o, ho⟩
      exact absurd (h.symm.trans ho') (by simp)
    rw [hnone]
  | some o =>
    obtain ⟨o', ho'⟩ := hfound.2 ⟨o, h⟩
    obtain ⟨⟨e, he, rfl⟩, haccepts, hprefers⟩ := lookup_preferred h
    obtain ⟨⟨e', he', rfl⟩, haccepts', hprefers'⟩ := lookup_preferred ho'
    rw [ho']
    -- each of the two is among the candidates of the other
    exact congrArg some (name_eq_of_prefers (hprefers' e (hperm.mem_iff.2 he) haccepts)
      (hprefers e' (hperm.mem_iff.1 he') haccepts'))

/-- A sound store finds what it is asked for. -/
theorem Sound.finds (hs : s.Sound) (i : Interest) : s.Finds i where
  found := exists_lookup_iff s i
  preferred _ h := lookup_preferred h
  recency _ hperm := map_name_lookup hperm i
  unchanged := lookup_perm hs.distinct i
  byKey := hs.lookupByKey_eq i

end ContentStore

/-! ## Admission -/

/-- Whether an object that arrives is asked for: by a get that waits without an answer, or by a
standing interest. -/
def Forwarder.Wants (f : Forwarder) (o : ContentObject) : Prop :=
  (∃ p ∈ f.pending, p.wants o = true) ∨ ∃ s ∈ f.standing, s.interest.accepts o = true

/-- Whether an object has arrived in some turn, and was asked for at that moment. -/
def Admitted (turns : List Turn) (start : Network) (o : ContentObject) : Prop :=
  ∃ before t after, turns = before ++ t :: after
    ∧ ((Network.interleave before start).act t).1 = [⟨.put o, .done⟩]
    ∧ (Network.interleave before start).forwarder.Wants o

/-- What was admitted stays admitted in further turns. -/
theorem Admitted.append {turns : List Turn} {start : Network} {o : ContentObject}
    (h : Admitted turns start o) (more : List Turn) : Admitted (turns ++ more) start o := by
  obtain ⟨before, t, after, rfl, hevent, hwants⟩ := h
  exact ⟨before, t, after ++ more, by simp, hevent, hwants⟩

namespace Forwarder

variable {f f' : Forwarder}

/-- What becomes of the store when an object arrives. -/
theorem store_receive (o : ContentObject) (d : Digest) (f : Forwarder) :
    (f.receive o d).1.store = f.store
      ∨ f.Wants o ∧ (f.receive o d).1.store = f.store.insert ⟨⟨o.name, d⟩, o⟩ := by
  rw [receive]
  split
  · exact .inl rfl
  · next hkeep =>
    refine .inr ⟨?_, rfl⟩
    rw [Bool.and_eq_true, Bool.not_eq_true', not_and_or] at hkeep
    obtain hdeliveries | hwanted := hkeep
    · rw [List.isEmpty_iff, deliveriesOf, List.map_eq_nil_iff, List.filter_eq_nil_iff]
        at hdeliveries
      push Not at hdeliveries
      exact .inr hdeliveries
    · rw [Bool.not_eq_false, List.any_eq_true] at hwanted
      exact .inl hwanted

/-- **What a step can do to the store**: nothing, or a look-up, or it admits an object. -/
theorem Does.store {step : NetworkStep} {reply : NetworkReply} {handed : List Delivery}
    (hdoes : f.Does step reply handed f') :
    f'.store = f.store ∨ (∃ i, f'.store = (f.store.lookup i).2)
      ∨ ∃ o d, step = .put o ∧ reply = .done ∧ f.Wants o ∧ o.digest = .ok d
        ∧ f'.store = f.store.insert ⟨⟨o.name, d⟩, o⟩ := by
  cases hdoes with
  | @accepts o d hd =>
    obtain hsame | ⟨hwants, hinsert⟩ := store_receive o d f
    · exact .inl hsame
    · exact .inr (.inr ⟨o, d, rfl, rfl, hwants, hd, hinsert⟩)
  | @finds i wait o store hlookup => exact .inr (.inl ⟨i, by rw [hlookup]⟩)
  | @expresses s hit store hnew hlookup => exact .inr (.inl ⟨s.interest, by rw [hlookup]⟩)
  | _ => exact .inl rfl

end Forwarder

/-! ## The main theorem -/

namespace Network

/-- Every entry was admitted, after all turns. By induction on the turns, from the last one. -/
theorem admitted_interleave (capacity : Nat) (turns : List Turn) :
    let s := (interleave turns (.new capacity)).forwarder.store
    s.capacity = capacity ∧ s.Sound
      ∧ ∀ e ∈ s.entries, Admitted turns (.new capacity) e.object := by
  induction turns using List.reverseRecOn with
  | nil =>
    refine ⟨rfl, ContentStore.sound_empty capacity, fun e he => ?_⟩
    simp [new, Forwarder.new, ContentStore.empty] at he
  | append_singleton turns t ih =>
    obtain ⟨hcapacity, hsound, hadmitted⟩ := ih
    have hstill : ∀ e ∈ (interleave turns (.new capacity)).forwarder.store.entries,
        Admitted (turns ++ [t]) (.new capacity) e.object := fun e he => (hadmitted e he).append [t]
    rw [interleave_append, interleave_cons, interleave_nil]
    obtain ⟨table, hperm, hact⟩ | ⟨step, reply, handed, hevents, hdoes, -⟩ :=
      act_cases (interleave turns (.new capacity)) t
    · rw [hact]
      exact ⟨hcapacity, hsound, hstill⟩
    · -- the store stays, or a look-up moves entries in it, or the object of this turn comes into it
      obtain hsame | ⟨i, hlookup⟩ | ⟨o, d, rfl, rfl, hwants, hd, hinsert⟩ := hdoes.store
      · rw [hsame]
        exact ⟨hcapacity, hsound, hstill⟩
      · obtain ⟨hkept, hperm⟩ := ContentStore.lookup_perm hsound.distinct i
        rw [hlookup]
        exact ⟨hkept.trans hcapacity, hsound.lookup i, fun e he => hstill e (hperm.mem_iff.1 he)⟩
      · rw [hinsert]
        refine ⟨hcapacity, hsound.insert hd, fun e he => ?_⟩
        obtain rfl | he := ContentStore.mem_entries_insert he
        · exact ⟨turns, t, [], rfl, hevents, hwants⟩
        · exact hstill e he

end Network

/-- **The content store over whole runs.** However applications take turns at a new forwarder, the
store stays within its capacity and holds valid objects under their own keys, each of which was
asked for when it arrived; and look-ups find what they should. -/
theorem content_store (capacity : Nat) (turns : List Turn) :
    let s := (Network.interleave turns (.new capacity)).forwarder.store
    (s.capacity = capacity ∧ s.Sound)
      ∧ (∀ e ∈ s.entries, Admitted turns (.new capacity) e.object)
      ∧ ∀ i, s.Finds i := by
  obtain ⟨hcapacity, hsound, hadmitted⟩ := Network.admitted_interleave capacity turns
  exact ⟨⟨hcapacity, hsound⟩, hadmitted, hsound.finds⟩

end NamedContent
