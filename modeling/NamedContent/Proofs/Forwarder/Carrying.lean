import NamedContent.Proofs.Forwarder.Operations
import NamedContent.Proofs.Interest.Selection

/-! # What a forwarder carries

When only some objects are published, the forwarder holds none but these: in its store, whatever its
capacity and whatever was asked for, and as answers to waiting gets. So every get is answered by one
of them that it matches, and a get that is told of an object it matches has its answer.

* `Forwarder.Holds`: all that the forwarder holds has a property, and its gets are answered rightly
* `Forwarder.Holds.receive`, `Forwarder.Holds.start`, `Forwarder.Holds.forget`: its steps
* `Forwarder.Carries`: an open forwarder that holds published objects
* `Forwarder.get?`: a get by its number, with `Forwarder.get?_of_begun` -/

namespace NamedContent

/-! ## The store -/

namespace ContentStore

variable {store : ContentStore} {i : Interest} {e : StoreEntry}

/-- Nothing but the new entry comes into a store. -/
theorem mem_entries_insert {x : StoreEntry} (h : x ∈ (store.insert e).entries) :
    x = e ∨ x ∈ store.entries := by
  rcases List.mem_cons.1 (List.mem_of_mem_take h) with h | h
  · exact .inl h
  · exact .inr (List.mem_filter.1 h).1

/-- What a look-up finds is stored and answers the interest; it brings nothing new. -/
theorem lookup_eq_some {o : ContentObject} {store' : ContentStore}
    (h : store.lookup i = (some o, store')) :
    (∃ x ∈ store.entries, x.object = o) ∧ i.accepts o = true
      ∧ ∀ x ∈ store'.entries, x ∈ store.entries := by
  rw [lookup] at h
  split at h
  · exact absurd (congrArg Prod.fst h) (by simp)
  · next found hselect =>
    obtain ⟨hfst, rfl⟩ := Prod.mk.inj h
    obtain ⟨hmem, hacc⟩ := Interest.mem_of_selectOn hselect
    have ho := Option.some.inj hfst
    refine ⟨⟨found, hmem, ho⟩, ho ▸ hacc, fun x hx => ?_⟩
    rcases List.mem_cons.1 hx with rfl | hx
    · exact hmem
    · exact (List.mem_filter.1 hx).1

end ContentStore

namespace Forwarder

variable {f : Forwarder} {units : List ContentObject} {i : Interest} {o : ContentObject}

/-- A forwarder that holds nothing but objects with a property, and whose gets are answered by
objects that they match. -/
structure Holds (f : Forwarder) (P : ContentObject → Prop) : Prop where
  numbered : ∀ p ∈ f.pending, p.id < f.nextId
  answered : ∀ p ∈ f.pending, ∀ o, p.answer = some o → P o ∧ p.interest.accepts o = true
  stored : ∀ e ∈ f.store.entries, P e.object

/-- A new forwarder holds nothing. -/
theorem holds_new (capacity : Nat) (P : ContentObject → Prop) : (new capacity).Holds P where
  numbered := by simp [new]
  answered := by simp [new]
  stored := by simp [new, ContentStore.empty]

namespace Holds

variable {P : ContentObject → Prop}

/-- What holds of all objects implies what is weaker. -/
theorem mono {Q : ContentObject → Prop} (h : f.Holds P) (himp : ∀ o, P o → Q o) : f.Holds Q where
  numbered := h.numbered
  answered p hp o ho := ⟨himp o (h.answered p hp o ho).1, (h.answered p hp o ho).2⟩
  stored e he := himp _ (h.stored e he)

/-- An object with the property arrives. -/
theorem receive (h : f.Holds P) (ho : P o) (d : Digest) : (f.receive o d).1.Holds P := by
  rw [Forwarder.receive]
  split
  · exact h
  · refine ⟨fun p hp => ?_, fun p hp a ha => ?_, fun e he => ?_⟩
    · obtain ⟨q, hq, rfl⟩ := List.mem_map.1 hp
      -- an answered get keeps its number
      split <;> exact h.numbered q hq
    · obtain ⟨q, hq, rfl⟩ := List.mem_map.1 hp
      by_cases hwants : q.wants o = true
      · rw [if_pos hwants] at ha ⊢
        rw [← Option.some.inj ha]
        exact ⟨ho, (Bool.and_eq_true _ _ ▸ hwants).2⟩
      · rw [if_neg hwants] at ha ⊢
        exact h.answered q hq a ha
    · obtain rfl | he := ContentStore.mem_entries_insert he
      · exact ho
      · exact h.stored e he

/-- A get is over. -/
theorem forget (h : f.Holds P) (id : Nat) : (f.forget id).Holds P where
  numbered p hp := h.numbered p (List.mem_filter.1 hp).1
  answered p hp := h.answered p (List.mem_filter.1 hp).1
  stored := h.stored

/-- **A get starts**: it is answered rightly from the store, or waits under a new number. -/
theorem start (h : f.Holds P) (i : Interest) (wait : Bool) :
    (f.start i wait).2.1.Holds P
      ∧ ((∃ o, P o ∧ i.accepts o = true ∧ (f.start i wait).1 = .found o
            ∧ (f.start i wait).2.2 = [])
        ∨ wait = false ∧ (f.start i wait).1 = .absent ∧ (f.start i wait).2.2 = []
        ∨ wait = true ∧ (f.start i wait).1 = .waiting f.nextId
            ∧ (f.start i wait).2.1.pending = f.pending ++ [⟨f.nextId, i, none⟩]
            ∧ (f.start i wait).2.2 = f.dispatch i) := by
  rw [Forwarder.start]
  split
  · next o store hlookup =>
    obtain ⟨⟨e, he, rfl⟩, hacc, hsub⟩ := ContentStore.lookup_eq_some hlookup
    exact ⟨⟨h.numbered, h.answered, fun x hx => h.stored x (hsub x hx)⟩,
      .inl ⟨_, h.stored e he, hacc, rfl, rfl⟩⟩
  · -- nothing in the store: the get waits if it may, with the next number and without an answer
    cases wait with
    | false => exact ⟨h, .inr (.inl ⟨rfl, rfl, rfl⟩)⟩
    | true =>
      refine ⟨⟨fun p hp => ?_, fun p hp o ho => ?_, h.stored⟩,
        .inr (.inr ⟨rfl, rfl, rfl, rfl⟩)⟩
      · rcases List.mem_append.1 hp with hp | hp
        · exact Nat.lt_succ_of_lt (h.numbered p hp)
        · rw [List.mem_singleton.1 hp]
          exact Nat.lt_succ_self _
      · rcases List.mem_append.1 hp with hp | hp
        · exact h.answered p hp o ho
        · rw [List.mem_singleton.1 hp] at ho
          exact absurd ho (by simp)

end Holds

/-- An open forwarder all of whose objects are published, and whose gets are answered rightly. -/
structure Carries (f : Forwarder) (units : List ContentObject) : Prop where
  isOpen : f.closed = false
  numbered : ∀ p ∈ f.pending, p.id < f.nextId
  answered : ∀ p ∈ f.pending, ∀ o, p.answer = some o → o ∈ units ∧ p.interest.accepts o = true
  stored : ∀ e ∈ f.store.entries, e.object ∈ units

/-- What an open forwarder carries is what it holds. -/
theorem Holds.carries (h : f.Holds (· ∈ units)) (hopen : f.closed = false) : f.Carries units :=
  ⟨hopen, h.numbered, h.answered, h.stored⟩

/-- A new forwarder carries nothing. -/
theorem carries_new (capacity : Nat) : (new capacity).Carries [] :=
  (holds_new capacity (· ∈ [])).carries rfl

namespace Carries

/-- A forwarder that carries certain objects holds no others. -/
theorem holds (h : f.Carries units) : f.Holds (· ∈ units) := ⟨h.numbered, h.answered, h.stored⟩

/-- A forwarder that carries nothing but certain objects carries nothing but more of them. -/
theorem mono (h : f.Carries units) {more : List ContentObject} (hsub : ∀ o ∈ units, o ∈ more) :
    f.Carries more :=
  (h.holds.mono hsub).carries h.isOpen

/-- A published object arrives. -/
theorem receive (h : f.Carries units) (ho : o ∈ units) (d : Digest) :
    (f.receive o d).1.Carries units :=
  (h.holds.receive ho d).carries ((advances_receive o d f).closed.trans h.isOpen)

/-- A get is over. -/
theorem forget (h : f.Carries units) (id : Nat) : (f.forget id).Carries units :=
  (h.holds.forget id).carries h.isOpen

/-- **A get starts**: it is answered rightly from the store, or waits under a new number. -/
theorem start (h : f.Carries units) (i : Interest) (wait : Bool) :
    (f.start i wait).2.1.Carries units
      ∧ ((∃ o, o ∈ units ∧ i.accepts o = true ∧ (f.start i wait).1 = .found o
            ∧ (f.start i wait).2.2 = [])
        ∨ wait = false ∧ (f.start i wait).1 = .absent ∧ (f.start i wait).2.2 = []
        ∨ wait = true ∧ (f.start i wait).1 = .waiting f.nextId
            ∧ (f.start i wait).2.1.pending = f.pending ++ [⟨f.nextId, i, none⟩]
            ∧ (f.start i wait).2.2 = f.dispatch i) := by
  obtain ⟨hholds, hcases⟩ := h.holds.start i wait
  exact ⟨hholds.carries ((advances_start i wait f).closed.trans h.isOpen), hcases⟩

end Carries

/-! ## Single gets -/

/-- The get that waits under a number. -/
def get? (id : Nat) (f : Forwarder) : Option PendingGet := f.pending.find? (·.id = id)

/-- The answer under a number is that of the get under it. -/
theorem answer?_eq (id : Nat) (f : Forwarder) : f.answer? id = (f.get? id).bind (·.answer) := rfl

/-- A get under a number is one of those that wait. -/
theorem mem_of_get?_eq_some {id : Nat} {p : PendingGet} (h : f.get? id = some p) :
    p ∈ f.pending := List.mem_of_find?_eq_some h

/-- A get that has just begun to wait is found under its number. -/
theorem get?_of_begun (h : f.Carries units) {f' : Forwarder}
    (hpending : f'.pending = f.pending ++ [⟨f.nextId, i, none⟩]) :
    f'.get? f.nextId = some ⟨f.nextId, i, none⟩ := by
  -- no earlier get has that number
  have hnone : f.pending.find? (·.id = f.nextId) = none := by
    refine List.find?_eq_none.2 fun p hp => ?_
    have := h.numbered p hp
    simp only [decide_eq_true_eq]
    omega
  rw [get?, hpending, List.find?_append, hnone]
  simp

/-- Whether a get under a number asks for something and has, unless it is answered, been looked
after as a property says. -/
def Asks (f : Forwarder) (id : Nat) (i : Interest) (unanswered : Prop) : Prop :=
  ∃ p, f.get? id = some p ∧ p.interest = i ∧ (p.answer = none → unanswered)

/-- What is asked for implies what is weaker. -/
theorem Asks.imp {id : Nat} {P Q : Prop} (h : f.Asks id i P) (hPQ : P → Q) : f.Asks id i Q := by
  obtain ⟨p, hp, hi, hP⟩ := h
  exact ⟨p, hp, hi, fun hnone => hPQ (hP hnone)⟩

/-- **An object that arrives leaves no get that it matches without an answer.** -/
theorem Asks.receive {id : Nat} {P : Prop} (h : f.Asks id i P) (o : ContentObject) (d : Digest) :
    (f.receive o d).1.Asks id i (P ∧ i.accepts o = false) := by
  obtain ⟨p, hp, hi, hP⟩ := h
  obtain ⟨q, hq, hid, hinterest, hanswer⟩ : ∃ q, (f.receive o d).1.get? id = some q ∧ q.id = p.id
      ∧ q.interest = p.interest ∧ (q.answer = none → p.answer = none) := by
    rw [Forwarder.receive]
    split
    · exact ⟨p, hp, rfl, rfl, fun h => h⟩
    · rw [get?, List.find?_map]
      -- answering changes no number, so the get found is the same one
      have hsame : (fun q : PendingGet => decide (q.id = id))
          ∘ (fun q : PendingGet => if q.wants o then { q with answer := some o } else q)
          = fun q => decide (q.id = id) := by
        funext q
        simp only [Function.comp]
        split <;> rfl
      rw [hsame, show f.pending.find? (fun q => decide (q.id = id)) = some p from hp,
        Option.map_some]
      refine ⟨_, rfl, ?_⟩
      split
      · exact ⟨rfl, rfl, fun h => absurd h (by simp)⟩
      · exact ⟨rfl, rfl, fun h => h⟩
  refine ⟨q, hq, hinterest.trans hi, fun hnone => ⟨hP (hanswer hnone), ?_⟩⟩
  rw [← hi, ← hinterest]
  exact answered_receive (mem_of_get?_eq_some hq) hnone

/-- A get that looks for its result finds a right answer, if there is one as long as it has none. -/
theorem Asks.answers {id : Nat} (h : f.Asks id i (i.Answers units none)) (hf : f.Carries units) :
    i.Answers units (f.answer? id) := by
  obtain ⟨p, hp, rfl, hnone⟩ := h
  rw [answer?_eq, hp, Option.bind_some]
  cases ha : p.answer with
  | none => exact hnone ha
  | some o => exact hf.answered p (mem_of_get?_eq_some hp) o ha

end Forwarder

end NamedContent
