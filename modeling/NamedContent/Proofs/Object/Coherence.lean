import NamedContent.Proofs.Object.Outcomes

/-! # The states of an object

An object has its flags in two places: the object knows whether it is bound and whether what it is
bound to is gone, and its working copy knows whether there are changes and when it was last saved.
They fit together in every state that an object can get into, whatever was called on it, in whatever
states of the node, and whether or not it succeeded.

* `VersionedObject.Reachable`: the states that an object can get into
* `VersionedObject.Coherent`: the flags fit together
* `VersionedObject.JustSaved`: how an object stands after a save
* `VersionedObject.reachable_coherent`: the main theorem -/

namespace NamedContent

variable {α : Type} {codec : PayloadCodec α} {o o' : VersionedObject α} {s : Node} {name : Name}

namespace VersionedObject

/-! ## Reachable states -/

/-- The states that an object can get into. Between two calls anything may happen to the node. -/
inductive Reachable (codec : PayloadCodec α) : VersionedObject α → Prop where
  /-- An object is made, with a value or without one, under a name or under none. -/
  | create {client : Client} {name : Option Name} {copy : WorkingCopy α} {o : VersionedObject α}
    {s s' : Node} (hcopy : copy = .empty ∨ ∃ a, copy = .ofValue a)
    (h : VersionedObject.create (ε := ObjectError) client name copy s = (.ok o, s')) :
    Reachable codec o
  /-- Its value is replaced. -/
  | set {o : VersionedObject α} (h : Reachable codec o) (a : α) : Reachable codec (o.set a)
  /-- Its value is changed. -/
  | modify {o : VersionedObject α} (h : Reachable codec o) (f : α → α) :
    Reachable codec (o.modify f)
  /-- It is fetched into or published, with success or without. -/
  | call {o : VersionedObject α} (h : Reachable codec o) (call : ObjectCall) (s : Node) :
    Reachable codec (call.run codec (o, s)).2.1

/-- An object that is made from one already fetched is made and then fetched into. -/
theorem Reachable.ofContent {client : Client} {first : ContentObject} {s' : Node}
    (h : VersionedObject.ofContent codec client first s = (.ok o, s')) : Reachable codec o := by
  obtain ⟨made, s₁, hmade⟩ : ∃ made s₁, VersionedObject.create (ε := ObjectError) client none
      (.empty : WorkingCopy α) s = (.ok made, s₁) := ⟨_, _, rfl⟩
  have hreachable := (.create (.inl rfl) hmade : Reachable codec made).call (.updateFrom first) s₁
  rw [VersionedObject.ofContent, hmade] at h
  simp only at h
  rw [ObjectCall.run] at hreachable
  rcases hfetched : updateFrom codec first (made, s₁) with ⟨e | _, o₁, s₂⟩ <;>
    rw [hfetched] at h hreachable
  · cases h
  · cases h
    exact hreachable

/-! ## Flags that fit together -/

/-- The flags of an object fit together. -/
structure Coherent (o : VersionedObject α) : Prop where
  /-- What is gone is bound. -/
  bound_of_gone : o.isGone = true → o.bound = true
  /-- What is bound has a name. -/
  named_of_bound : o.bound = true → o.name.isSome = true
  /-- Changes are changes of a value. -/
  available_of_dirty : o.copy.dirty = true → o.copy.isAvailable = true
  /-- What was saved is bound. -/
  bound_of_lastSaved : o.copy.lastSaved.isSome = true → o.bound = true

/-- A new object is not bound and was not saved, and a first value is a change. -/
theorem Coherent.create {client : Client} {name : Option Name} {copy : WorkingCopy α} {s' : Node}
    (hcopy : copy = .empty ∨ ∃ a, copy = .ofValue a)
    (h : VersionedObject.create (ε := ObjectError) client name copy s = (.ok o, s')) :
    o.Coherent := by
  cases h
  obtain rfl | ⟨a, rfl⟩ := hcopy
  · exact ⟨nofun, nofun, nofun, nofun⟩
  · exact ⟨nofun, nofun, fun _ => rfl, nofun⟩

/-- An object whose value is set stays coherent. -/
theorem Coherent.set (h : o.Coherent) (a : α) : (o.set a).Coherent :=
  ⟨h.bound_of_gone, h.named_of_bound, fun _ => rfl, h.bound_of_lastSaved⟩

/-- An object whose value is changed stays coherent. -/
theorem Coherent.modify (h : o.Coherent) (f : α → α) : (o.modify f).Coherent := by
  rw [VersionedObject.modify, WorkingCopy.modify]
  split
  · exact ⟨h.bound_of_gone, h.named_of_bound, fun _ => rfl, h.bound_of_lastSaved⟩
  · exact h

/-- **Whatever an operation does to an object, its flags still fit together**: it is bound under a
name when it fetches or publishes, and has no changes then. -/
theorem Coherent.change (h : o.Coherent) (hchange : o.Change o') : o'.Coherent := by
  cases hchange with
  | kept => exact h
  | fetched data name => exact ⟨nofun, fun _ => rfl, nofun, fun _ => rfl⟩
  | foundGone name => exact ⟨fun _ => rfl, fun _ => rfl, nofun, fun _ => rfl⟩
  | saved time full isGone htime => exact ⟨fun _ => rfl, fun _ => rfl, nofun, fun _ => rfl⟩

/-- **The flags fit together in every state**, by induction on how it was reached. -/
theorem Reachable.coherent (h : Reachable codec o) : o.Coherent := by
  induction h with
  | create hcopy h => exact .create hcopy h
  | set _ a ih => exact ih.set a
  | modify _ f ih => exact ih.modify f
  | call _ call s ih => exact ih.change (call.change codec _ s)

/-! ## After a save -/

/-- How an object stands after it was saved: it remembers the time of the version that it is bound
to, and has no changes. -/
structure JustSaved (o : VersionedObject α) : Prop where
  /-- The last save was that of the version. -/
  lastSaved : o.copy.lastSaved = o.version?
  /-- There is a version. -/
  version : o.version?.isSome = true
  /-- There are no changes. -/
  clean : o.copy.dirty = false

/-- What is marked as saved under a name with a time was just saved. -/
theorem justSaved_markSaved {full : Name} {time : Timestamp} (htime : full.versionTime = .ok time)
    (o : VersionedObject α) (isGone : Bool) :
    ({ o with copy := o.copy.markSaved time }.bindTo full isGone).JustSaved := by
  have hversion : ({ o with copy := o.copy.markSaved time }.bindTo full isGone).version?
      = some time := by
    simp only [version?, bindTo, if_true, Option.bind_some, htime, Except.toOption]
  exact ⟨hversion.symm, by rw [hversion]; rfl, rfl⟩

/-- An object was just saved after a save that is made. -/
theorem justSaved_saveTo (h : (saveTo codec name (o, s)).1 = .ok true) :
    (saveTo codec name (o, s)).2.1.JustSaved := by
  obtain ⟨-, -, -, -, time, s', -, -, -, htime, heq⟩ :=
    exists_of_saveTo_ok (dirty_of_saveTo_of_true h) h
  rw [heq]
  exact justSaved_markSaved htime o false

/-- An object was just saved after a save as gone. -/
theorem justSaved_saveAsGone (h : (saveAsGone name (o, s)).1 = .ok ()) :
    (saveAsGone name (o, s)).2.1.JustSaved := by
  obtain ⟨time, s', htime, heq⟩ := saveAsGone_of_ok h
  rw [heq]
  exact justSaved_markSaved htime o true

/-- A save never misses a value, since changes are changes of one. -/
theorem Coherent.saveTo_ne_noValue (h : o.Coherent) (codec : PayloadCodec α) (name : Name)
    (s : Node) : (saveTo codec name (o, s)).1 ≠ .error .noValue := by
  intro hfails
  obtain ⟨hdirty, ⟨hdata, -⟩ | ⟨_, _, -, -, he⟩ | ⟨_, _, -, he⟩ | ⟨_, he⟩⟩ :=
    saveTo_error_cases hfails
  · have havailable := h.available_of_dirty hdirty
    rw [WorkingCopy.isAvailable, hdata] at havailable
    cases havailable
  · cases he
  · cases he
  · cases he

/-- To save a coherent object never fails for want of a value. -/
theorem Coherent.save_ne_noValue (h : o.Coherent) (codec : PayloadCodec α) (s : Node) :
    (save codec (o, s)).1 ≠ .error .noValue := by
  cases hname : o.name with
  | none =>
    intro hfails
    rw [save, requireName_of_none hname] at hfails
    cases hfails
  | some n =>
    rw [save_eq codec hname]
    exact h.saveTo_ne_noValue codec n.versionRoot s

/-- **The states of an object.** Whatever state an object has got into, its flags fit together. No
save of it fails for want of a value, in whatever state of the node; and after each save that has
published something, it remembers the time of the version that it is bound to, and has no
changes. -/
theorem reachable_coherent (h : Reachable codec o) :
    o.Coherent
      ∧ ∀ s : Node,
        ((∀ name, (saveTo codec name (o, s)).1 ≠ .error .noValue)
          ∧ (save codec (o, s)).1 ≠ .error .noValue)
        ∧ (∀ name, (saveTo codec name (o, s)).1 = .ok true →
          (saveTo codec name (o, s)).2.1.JustSaved)
        ∧ ((save codec (o, s)).1 = .ok true → (save codec (o, s)).2.1.JustSaved)
        ∧ (∀ name, (saveAsGone name (o, s)).1 = .ok () → (saveAsGone name (o, s)).2.1.JustSaved)
        ∧ ((saveRootAsGone (o, s)).1 = .ok () → (saveRootAsGone (o, s)).2.1.JustSaved) := by
  have hcoherent := h.coherent
  refine ⟨hcoherent, fun s => ⟨⟨fun name => hcoherent.saveTo_ne_noValue codec name s,
    hcoherent.save_ne_noValue codec s⟩, fun name => justSaved_saveTo, fun hsaved => ?_,
    fun name => justSaved_saveAsGone, fun hburied => ?_⟩⟩
  · cases hname : o.name with
    | none =>
      rw [save, requireName_of_none hname] at hsaved
      cases hsaved
    | some n =>
      rw [save_eq codec hname] at hsaved ⊢
      exact justSaved_saveTo hsaved
  · cases hname : o.name with
    | none =>
      rw [saveRootAsGone, requireName_of_none hname] at hburied
      cases hburied
    | some n =>
      rw [saveRootAsGone_eq hname] at hburied ⊢
      exact justSaved_saveAsGone hburied

/-- An object with a first value is saved when the clock reads 5. -/
theorem reachable_coherent_first :
    let codec : PayloadCodec Unit := ⟨fun _ => .ok [], fun _ => .ok ()⟩
    let client : Client := ⟨default, .echo, .echo, {}, 3⟩
    let made := VersionedObject.create (ε := ObjectError) client (some ⟨[⟨[97]⟩]⟩)
      (.ofValue ()) (.new 8 ⟨5⟩)
    let o : VersionedObject Unit := ⟨client, ⟨1⟩, .ofValue (), some ⟨[⟨[97]⟩]⟩, false, false⟩
    let saved := save codec (o, made.2)
    made.1 = .ok o ∧ o.Coherent
      ∧ saved.1 = .ok true ∧ saved.2.1.version? = some ⟨5⟩ ∧ saved.2.1.JustSaved := by
  intro codec client made o saved
  have hmade : made = (.ok o, made.2) := rfl
  have hsaved : saved.1 = .ok true := by decide +kernel
  obtain ⟨hcoherent, hall⟩ :=
    reachable_coherent (.create (.inr ⟨(), rfl⟩) hmade : Reachable codec o)
  obtain ⟨-, -, hjust, -⟩ := hall made.2
  exact ⟨rfl, hcoherent, hsaved, by decide +kernel, hjust hsaved⟩

end VersionedObject

end NamedContent
