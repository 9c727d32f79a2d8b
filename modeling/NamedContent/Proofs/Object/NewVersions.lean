import NamedContent.Proofs.Object.Growth

/-! # Saves that make new versions

A save publishes under the root of the versions of its object's name, and so does a tombstone of
that root. For most names the root carries no version itself: then the save mints the version that
it publishes, one that the process has not minted before. But only one version is taken off a name.
Where another one stands before it, a save publishes under that version, which may exist already,
and a tombstone is refused.

* `Name.isVersioned_versionRoot_iff`: names with a version below a version
* `VersionedObject.saveAsGone_failsWith`: how tombstones fail
* `SaveCall.PublishesUnder`: the name that is published under
* `Process.save_newVersion`: the main theorem
* `Process.save_republishes_version`: a version that is published again -/

namespace NamedContent

variable {α : Type}

/-- The root of the versions of a name carries a version itself just when the name does and what
stands before that does too. -/
theorem Name.isVersioned_versionRoot_iff (n : Name) :
    n.versionRoot.isVersioned = true
      ↔ n.isVersioned = true ∧ n.segmentRoot.parent.isVersioned = true := by
  rw [versionRoot]
  split
  · next h => exact (and_iff_right h).symm
  · next h => exact ⟨fun hroot => absurd hroot h, fun hboth => absurd hboth.1 h⟩

/-! ## Tombstones -/

namespace VersionedObject

/-- **A tombstone of a name without a version** fails only where it cannot be published. -/
theorem saveAsGone_failsWith {name : Name} (hname : name.isVersioned = false) :
    (saveAsGone name : Op α ObjectError Unit).FailsWith fun e => ∃ cause, e = .flow cause := by
  intro p e hfails
  obtain ⟨hversioned, -⟩ | ⟨-, ⟨cause, -, -, he⟩ | ⟨cause, he⟩⟩ :=
    saveAsGone_error_cases (o := p.1) (s := p.2) hfails
  · cases hname.symm.trans hversioned
  · exact ⟨.signing cause, he⟩
  · exact ⟨.face cause, he⟩

end VersionedObject

/-! ## Saves -/

/-- Whether a call publishes what it is to publish, and that as segments of the stream with a
name. -/
def SaveCall.PublishesUnder (codec : PayloadCodec α) (o : VersionedObject α) (s : Node)
    (call : SaveCall) (base : Name) : Prop :=
  ∃ below units, SaveCall.publication codec o s call = .ok (below, units)
    ∧ (∃ s', Node.publishAll o.controller units s' = (.ok (), (call.run codec (o, s)).2.2))
    ∧ ∀ u ∈ units, ∃ index, u.name = base.segment index

/-- **A save of a changed value that succeeds** publishes under the root of the versions, with a
version added if that has none, and binds the object to the same name. -/
theorem SaveCall.publishesUnder_save {codec : PayloadCodec α} {o : VersionedObject α} {s : Node}
    {n root : Name} (hname : o.name = some n) (hn : n.versionRoot = root)
    (hdirty : o.copy.dirty = true) {b : Bool}
    (hok : (VersionedObject.save codec (o, s)).1 = .ok b) :
    b = true
      ∧ (VersionedObject.save codec (o, s)).2.1.name
        = some (root.versioned (Timestamp.mint s.clock s.lastMinted))
      ∧ SaveCall.PublishesUnder codec o s .save
        (root.versioned (Timestamp.mint s.clock s.lastMinted))
      ∧ (VersionedObject.save codec (o, s)).2.2.lastMinted
        = if root.isVersioned = true then s.lastMinted
          else Timestamp.mint s.clock s.lastMinted := by
  subst hn
  have hrun : (SaveCall.run codec .save (o, s)).2 = (VersionedObject.save codec (o, s)).2 :=
    congrArg Prod.snd (Action.bind_pure_run (VersionedObject.save codec) (fun _ => ()) (o, s))
  rw [PublishesUnder, hrun]
  rw [VersionedObject.save_eq codec hname] at hok ⊢
  obtain ⟨hb, hbound, -, hlast, below, units, s', hvalue, hput⟩ :=
    VersionedObject.saveTo_of_ok hdirty hok
  refine ⟨hb, hbound, ⟨below, units, ?_, ⟨s', hput⟩,
    fun u hu => (SaveCall.ofValue_segments hvalue u hu).2⟩, hlast⟩
  simp only [SaveCall.publication, hname, hvalue]

namespace Process

/-- **What a save publishes under**, after any history of the process. Where the root of the
versions of the object's name carries no version, it is a version of the root with the time minted
by the save: below the limit of versions one that is minted by this save and by no step before. And
a tombstone of the root is not refused. Where the root carries a version, it is that version, and
nothing is minted; and a tombstone is refused. -/
theorem save_newVersion {start : Node} (steps : List ProcessStep) {codec : PayloadCodec α}
    {o : VersionedObject α} {n : Name} (hname : o.name = some n) :
    let s := run steps start
    let root := n.versionRoot
    let minted := Timestamp.mint s.clock s.lastMinted
    let saved := VersionedObject.save codec (o, s)
    let buried := VersionedObject.saveRootAsGone (o, s)
    (root.isVersioned = false →
        (∀ b, o.copy.dirty = true → saved.1 = .ok b →
          b = true ∧ saved.2.1.name = some (root.withVersion minted)
            ∧ SaveCall.PublishesUnder codec o s .save (root.withVersion minted)
            ∧ saved.2.2.lastMinted = minted
            ∧ (minted.ticks.toNat < versionLimit →
              (∀ later, Minted start (steps ++ .call codec o (.publish .save) :: later)
                (versionComponent minted))
              ∧ ¬ Minted start steps (versionComponent minted)))
        ∧ ∀ name, buried.1 ≠ .error (.alreadyVersioned name))
      ∧ (root.isVersioned = true →
        (∀ b, o.copy.dirty = true → saved.1 = .ok b →
          b = true ∧ saved.2.1.name = some root ∧ SaveCall.PublishesUnder codec o s .save root
            ∧ saved.2.2.lastMinted = s.lastMinted)
        ∧ buried = (.error (.alreadyVersioned root), (o, s)))
      ∧ (root.isVersioned = true ↔
        n.isVersioned = true ∧ n.segmentRoot.parent.isVersioned = true) := by
  intro s root minted saved buried
  have hn : n.versionRoot = root := rfl
  have hburied : buried = VersionedObject.saveAsGone root (o, s) :=
    VersionedObject.saveRootAsGone_eq hname s
  refine ⟨fun hroot => ⟨fun b hdirty hok => ?_, fun name hrefused => ?_⟩,
    fun hroot => ⟨fun b hdirty hok => ?_, ?_⟩, n.isVersioned_versionRoot_iff⟩
  · -- the root carries no version, and so gets the one minted
    have hfresh : root.versioned (Timestamp.mint s.clock s.lastMinted)
        = root.withVersion minted := by
      rw [Name.versioned, if_neg (by simp [hroot])]
    obtain ⟨hb, hbound, hunder, hlast⟩ := SaveCall.publishesUnder_save hname hn hdirty hok
    rw [if_neg (by simp [hroot])] at hlast
    rw [hfresh] at hbound hunder
    exact ⟨hb, hbound, hunder, hlast, fun hlimit =>
      ⟨minted_by_save hlast hlimit, fun hbefore => Std.lt_irrefl (hbefore.lt_mint hlimit)⟩⟩
  · obtain ⟨cause, hcause⟩ := VersionedObject.saveAsGone_failsWith hroot (o, s) _
      (hburied ▸ hrefused)
    cases hcause
  · have hkept : root.versioned (Timestamp.mint s.clock s.lastMinted) = root := by
      rw [Name.versioned, if_pos hroot]
    obtain ⟨hb, hbound, hunder, hlast⟩ := SaveCall.publishesUnder_save hname hn hdirty hok
    rw [if_pos hroot] at hlast
    rw [hkept] at hbound hunder
    exact ⟨hb, hbound, hunder, hlast⟩
  · rw [hburied]
    exact VersionedObject.saveAsGone_of_isVersioned hroot (o, s)

/-- The name is that of a segment of a version. A save when the clock reads 9 makes a version with
that time below the name of the versions. -/
theorem save_newVersion_segment :
    let codec : PayloadCodec Unit := ⟨fun _ => .ok [], fun _ => .ok ()⟩
    let root : Name := ⟨[⟨[97]⟩]⟩
    let client : Client := ⟨default, .echo, .echo, { verifySignatures := false }, 3⟩
    let w := Sharing.start 8 ⟨1⟩ root client (α := Unit) .empty
    let o := { w.writer with name := some ((root.withVersion ⟨4⟩).segment 2) }.set ()
    let s := run [.setClock ⟨9⟩] w.node
    (VersionedObject.save codec (o, s)).2.1.name = some (root.withVersion ⟨9⟩)
      ∧ SaveCall.PublishesUnder codec o s .save (root.withVersion ⟨9⟩)
      ∧ Minted w.node [.setClock ⟨9⟩, .call codec o (.publish .save)] (versionComponent ⟨9⟩)
      ∧ ¬ Minted w.node [.setClock ⟨9⟩] (versionComponent ⟨9⟩) := by
  intro codec root client w o s
  have hroot : ((root.withVersion ⟨4⟩).segment 2).versionRoot = root := by decide
  have hmint : Timestamp.mint s.clock s.lastMinted = ⟨9⟩ := by decide +kernel
  have hok : (VersionedObject.save codec (o, s)).1 = .ok true := by decide +kernel
  have hname : o.name = some ((root.withVersion ⟨4⟩).segment 2) := rfl
  obtain ⟨hnew, -⟩ := @save_newVersion Unit w.node [.setClock ⟨9⟩] codec o _ hname
  rw [hroot, show run [.setClock ⟨9⟩] w.node = s from rfl, hmint] at hnew
  obtain ⟨-, hbound, hunder, -, hfresh⟩ := (hnew (by decide)).1 true (by decide) hok
  obtain ⟨hminted, hbefore⟩ := hfresh (by decide)
  exact ⟨hbound, hunder, hminted [], hbefore⟩

/-- **A version is published again** by a save of an object whose name has another version below it.
Nothing is minted, and a tombstone is refused because of the version that is left. -/
theorem save_republishes_version :
    let codec : PayloadCodec Unit := ⟨fun _ => .ok [], fun _ => .ok ()⟩
    let root : Name := ⟨[⟨[97]⟩]⟩
    let client : Client := ⟨default, .echo, .echo, { verifySignatures := false }, 3⟩
    let w := Sharing.start 8 ⟨5⟩ root client (α := Unit) .empty
    let first := VersionedObject.save codec (w.writer.set (), w.node)
    let existing := root.withVersion ⟨5⟩
    let o := { w.writer with name := some (existing.withVersion ⟨2⟩) }.set ()
    let saved := VersionedObject.save codec (o, first.2.2)
    (first.1 = .ok true ∧ first.2.1.name = some existing ∧ first.2.2.lastMinted = ⟨5⟩)
      ∧ (o.copy.dirty = true ∧ saved.1 = .ok true ∧ saved.2.1.name = some existing
        ∧ saved.2.2.lastMinted = ⟨5⟩)
      ∧ (VersionedObject.saveRootAsGone (o, first.2.2)).1
        = .error (.alreadyVersioned existing) := by
  decide +kernel

end Process

end NamedContent
