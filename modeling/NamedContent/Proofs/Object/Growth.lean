import NamedContent.Proofs.Node.Minting
import NamedContent.Proofs.Object.Outcomes

/-! # Versions of an object grow

A save binds its object to a version minted from the clock and from the last time the process has
minted. So it is greater than every version that the process has minted before, whatever happened
meanwhile, and greater than a version fetched from elsewhere exactly when that is less than what the
clock reads or than the next time after the last one. The version an object was bound to before is
not looked at: a publisher whose clock is ahead is not overtaken.

* `ObjectCall.run_laterMinted`: no operation sets the last minted time back
* `VersionedObject.saveTo_of_ok`: what a save binds its object to
* `ProcessStep`, `Process.Minted`: histories of a process, and the versions it mints
* `Process.save_grows`: the main theorem
* `Process.save_falls_behind`: versions that are not overtaken -/

namespace NamedContent

variable {α : Type}

/-! ## Versions in order -/

namespace Name

/-- The root of a name that ends in a version is the name before it. -/
theorem versionRoot_child {n : Name} {v : Component} (h : v.isVersion = true) :
    (n.child v).versionRoot = n := by
  have hroot : (n.child v).segmentRoot = n.child v :=
    segmentRoot_child_of_not_isSegment n (Component.isSegment_eq_false_of_isVersion h)
  have hversioned : (n.child v).isVersioned = true := by
    rw [isVersioned, version?, hroot, last?_child]
    simp [h]
  rw [versionRoot, hversioned, if_pos rfl, hroot, parent_child]

end Name

/-- What is less than the version of a time is less than those of later times. -/
theorem lt_versionComponent {v : Component} {s t : Timestamp} (h : v < versionComponent s)
    (hle : s.ticks.toNat ≤ t.ticks.toNat) (ht : t.ticks.toNat < versionLimit) :
    v < versionComponent t := by
  rcases Nat.lt_or_eq_of_le hle with hlt | heq
  · exact Std.lt_trans h (versionComponent_lt_versionComponent (UInt64.lt_iff_toNat_lt.2 hlt) ht)
  · obtain ⟨a⟩ := s
    obtain ⟨b⟩ := t
    obtain rfl : a = b := UInt64.toNat_inj.1 heq
    exact h

/-- **What is less than the version of a minted time**: it is so already for what the clock reads or
for the next time after the last one. -/
theorem lt_versionComponent_mint {v : Component} {reading last : Timestamp}
    (hlimit : (Timestamp.mint reading last).ticks.toNat < versionLimit) :
    v < versionComponent (Timestamp.mint reading last)
      ↔ v < versionComponent reading ∨ v < versionComponent last.next := by
  constructor
  · intro h
    rcases Timestamp.mint_cases reading last with hmint | hmint
    · exact .inl (hmint ▸ h)
    · exact .inr (hmint ▸ h)
  · rintro (h | h)
    · exact lt_versionComponent h (Timestamp.reading_le_mint reading last) hlimit
    · exact lt_versionComponent h (Timestamp.next_le_mint reading last) hlimit

/-! ## Operations never set the last minted time back -/

namespace VersionedObject

/-- Whether the last minted time on the node of one state is not before that of another. -/
def LaterMinted (p q : VersionedObject α × Node) : Prop := p.2.LaterMinted q.2

instance : IsPreorder (VersionedObject α × Node) LaterMinted where
  refl p := Std.Refl.refl (r := Node.LaterMinted) p.2
  trans _ _ _ h h' := IsTrans.trans (r := Node.LaterMinted) _ _ _ h h'

/-- What is done on the node does not set the last minted time back if the action does not. -/
theorem onNode_laterMinted {ε β : Type} {x : Action Node ε β} (hx : x.Keeps Node.LaterMinted) :
    (onNode x : Op α ε β).Keeps LaterMinted :=
  hx.focus fun _ _ h => h

/-- Changing the object mints no time. -/
theorem change_laterMinted {ε : Type} (f : VersionedObject α → VersionedObject α) :
    (change f : Op α ε Unit).Keeps LaterMinted :=
  .modify fun p => Std.Refl.refl (r := Node.LaterMinted) p.2

/-- Adding a namespace mints no time. -/
theorem addNamespace_laterMinted (root : Name) :
    (addNamespace root : Op α ObjectError Unit).Keeps LaterMinted :=
  addNamespace_keeps fun id =>
    onNode_laterMinted (Node.keeps_laterMinted (Node.addNamespace_works id root))

/-- A name that is still to be versioned is given a later time. -/
theorem target_laterMinted {ε : Type} (name : Name) :
    (target name : Op α ε Name).Keeps LaterMinted := by
  rw [target]
  show (ite _ _ _ : Op α ε Name).Keeps LaterMinted
  split
  · exact .pure _
  · exact (onNode_laterMinted Node.mint_laterMinted).bind fun _ => .pure _

/-- The time of a name is read from it, or minted. -/
theorem savedAt_laterMinted {ε : Type} (name : Name) :
    (savedAt name : Op α ε Timestamp).Keeps LaterMinted := by
  rw [savedAt]
  cases name.versionTime with
  | ok t => exact .pure t
  | error e => exact Action.Keeps.get.bind fun _ => .pure _

/-- Taking up what was read mints no time. -/
theorem absorb_laterMinted (codec : PayloadCodec α) (read : Except ReadError StreamContent) :
    (absorb codec read).Keeps LaterMinted := by
  cases read with
  | ok stream =>
    refine Action.Keeps.bind (.ofExcept _) fun data => ?_
    exact (addNamespace_laterMinted stream.name).bind fun _ => change_laterMinted _
  | error e =>
    cases e with
    | gone name => exact change_laterMinted _
    | _ => exact .fail _

/-- A get of a client mints no time. -/
theorem fetch_laterMinted (client : Client) (i : Interest) (timeout : UInt64) :
    (client.reader.fetch i timeout).Keeps Node.LaterMinted :=
  Node.keeps_laterMinted (Node.get_works client.face i (some timeout.toNat))

/-- An update to a name mints no time. -/
theorem updateTo_laterMinted (codec : PayloadCodec α) (name : Name) :
    (updateTo codec name).Keeps LaterMinted :=
  self_keeps.bind fun o =>
    (onNode_laterMinted
      (Stream.Reader.read_keeps (fetch_laterMinted o.client) name)).attempt.bind
      fun read => absorb_laterMinted codec read

/-- An update from a first segment mints no time. -/
theorem updateFrom_laterMinted (codec : PayloadCodec α) (first : ContentObject) :
    (updateFrom codec first).Keeps LaterMinted :=
  self_keeps.bind fun o =>
    (onNode_laterMinted
      (Stream.Reader.readFrom_keeps (fetch_laterMinted o.client) first)).attempt.bind
      fun read => absorb_laterMinted codec read

/-- A save may mint times, and sets none back. -/
theorem saveTo_laterMinted (codec : PayloadCodec α) (name : Name) :
    (saveTo codec name).Keeps LaterMinted := by
  refine self_keeps.bind fun o => ?_
  show (ite _ _ _ : Op α ObjectError Bool).Keeps LaterMinted
  split
  · exact .pure false
  · cases o.copy.data with
    | none => exact .fail _
    | some data =>
      refine Action.Keeps.bind (.ofExcept _) fun payload => ?_
      refine (target_laterMinted name).bind fun full => ?_
      refine (addNamespace_laterMinted name.versionRoot).bind fun _ => ?_
      refine Action.Keeps.get.bind fun p => ?_
      refine Action.Keeps.bind (.ofExcept _) fun objects => ?_
      refine Action.Keeps.bind ?_ fun _ => ?_
      · have hpublish := Node.keeps_laterMinted (Node.publishAll_works o.controller objects)
        exact (onNode_laterMinted hpublish).mapError ObjectError.flow
      · exact (savedAt_laterMinted full).bind fun _ =>
          (change_laterMinted _).bind fun _ => .pure true

/-- A save as gone may mint a time, and sets none back. -/
theorem saveAsGone_laterMinted (name : Name) :
    (saveAsGone name : Op α ObjectError Unit).Keeps LaterMinted := by
  refine self_keeps.bind fun o => ?_
  show (ite _ _ _ : Op α ObjectError Unit).Keeps LaterMinted
  split
  · exact .fail _
  · refine (target_laterMinted name).bind fun full => ?_
    refine Action.Keeps.get.bind fun p => ?_
    refine Action.Keeps.bind (.ofExcept _) fun tombstone => ?_
    refine (addNamespace_laterMinted name).bind fun _ => ?_
    refine Action.Keeps.bind ?_ fun _ => ?_
    · have hpublish := Node.keeps_laterMinted (Node.publish_works o.controller tombstone)
      exact (onNode_laterMinted hpublish).mapError ObjectError.flow
    · exact (savedAt_laterMinted full).bind fun _ => change_laterMinted _

end VersionedObject

/-- **No operation sets the last minted time back**, whether it succeeds or fails. -/
theorem ObjectCall.run_laterMinted (codec : PayloadCodec α) (call : ObjectCall) :
    (call.run codec).Keeps VersionedObject.LaterMinted := by
  have hrequire := VersionedObject.requireName_keeps (α := α) (R := VersionedObject.LaterMinted)
  cases call with
  | update => exact hrequire.bind fun name => VersionedObject.updateTo_laterMinted codec _
  | updateTo name => exact VersionedObject.updateTo_laterMinted codec name
  | updateFrom first => exact VersionedObject.updateFrom_laterMinted codec first
  | publish call =>
    cases call with
    | save =>
      exact (hrequire.bind fun name => VersionedObject.saveTo_laterMinted codec _).bind
        fun _ => .pure _
    | saveTo name => exact (VersionedObject.saveTo_laterMinted codec name).bind fun _ => .pure _
    | saveAsGone name => exact VersionedObject.saveAsGone_laterMinted name
    | saveRootAsGone => exact hrequire.bind fun name => VersionedObject.saveAsGone_laterMinted _

/-! ## Saves that publish -/

namespace VersionedObject

variable {codec : PayloadCodec α} {o : VersionedObject α} {s : Node} {root : Name}

/-- **A save that succeeds** has made its publication, binds the object to what that is published
under, and has put its objects, which is the last thing it does on the node. It mints a time if the
name carries no version, and else none. -/
theorem saveTo_of_ok {name : Name} (hdirty : o.copy.dirty = true) {b : Bool}
    (h : (saveTo codec name (o, s)).1 = .ok b) :
    b = true
      ∧ (saveTo codec name (o, s)).2.1.name
        = some (name.versioned (Timestamp.mint s.clock s.lastMinted))
      ∧ (saveTo codec name (o, s)).2.1.bound = true
      ∧ (saveTo codec name (o, s)).2.2.lastMinted = (if name.isVersioned = true then s.lastMinted
        else Timestamp.mint s.clock s.lastMinted)
      ∧ ∃ below units s', SaveCall.ofValue codec o s name = .ok (below, units)
        ∧ Node.publishAll o.controller units s' = (.ok (), (saveTo codec name (o, s)).2.2) := by
  obtain ⟨hb, below, units, s₁, time, s', hpublication, hadd, hput, -, heq⟩ :=
    exists_of_saveTo_ok hdirty h
  have hadded := Node.addNamespace_steady o.controller below { s with
    lastMinted := if name.isVersioned = true then s.lastMinted
      else Timestamp.mint s.clock s.lastMinted }
  rw [hadd] at hadded
  have hpublished := Node.publishAll_steady o.controller units s₁
  rw [hput] at hpublished
  rw [heq]
  exact ⟨hb, rfl, rfl, hpublished.lastMinted.trans hadded.lastMinted, below, units, s₁,
    hpublication, hput⟩

/-- **A save that publishes** under a name without a version has made its publication, binds the
object to a version with the time it has minted, and leaves that as the last minted one. -/
theorem saveTo_of_true (hroot : root.isVersioned = false)
    (h : (saveTo codec root (o, s)).1 = .ok true) :
    (saveTo codec root (o, s)).2.1.name
        = some (root.withVersion (Timestamp.mint s.clock s.lastMinted))
      ∧ (saveTo codec root (o, s)).2.1.bound = true
      ∧ (saveTo codec root (o, s)).2.2.lastMinted = Timestamp.mint s.clock s.lastMinted
      ∧ ∃ below units, SaveCall.ofValue codec o s root = .ok (below, units) := by
  obtain ⟨-, hname, hbound, hlast, below, units, -, hpublication, -⟩ :=
    saveTo_of_ok (dirty_of_saveTo_of_true h) h
  rw [Name.versioned, if_neg (by simp [hroot])] at hname
  rw [if_neg (by simp [hroot])] at hlast
  exact ⟨hname, hbound, hlast, below, units, hpublication⟩

end VersionedObject

/-- All that a save of a name without a version publishes lies below the version it mints. -/
theorem SaveCall.childBelow_publication {codec : PayloadCodec α} {o : VersionedObject α} {s : Node}
    {n root below : Name} (hname : o.name = some n) (hn : n.versionRoot = root)
    (hroot : root.isVersioned = false) {units : List ContentObject}
    (h : SaveCall.ofValue codec o s root = .ok (below, units)) :
    SaveCall.publication codec o s .save = .ok (root, units)
      ∧ ∀ u ∈ units, u.childBelow root
        = some (versionComponent (Timestamp.mint s.clock s.lastMinted)) := by
  refine ⟨?_, fun u hu => ?_⟩
  · obtain ⟨-, -, -, -, hbelow, -⟩ := SaveCall.exists_of_ofValue h
    rw [Name.versionRoot_of_not_isVersioned hroot] at hbelow
    simp only [SaveCall.publication, hname, hn, h, hbelow]
  · obtain ⟨-, index, hindex⟩ := SaveCall.ofValue_segments h u hu
    rw [Name.versioned, if_neg (by simp [hroot])] at hindex
    rw [ContentObject.childBelow, hindex, Name.segment_withVersion, Name.component?_append]

/-- Whether looking for the latest version below a name, among objects one of which is of a
publication, finds a version after a given one. -/
def Supersedes (root : Name) (publication : List ContentObject) (v : Component) : Prop :=
  ∀ (σ : Type) (r : Stream.Reader σ) (Inv : σ → Prop) (units : List ContentObject),
    r.Serves Inv root units → Stream.Versioned root units → (∃ u ∈ publication, u ∈ units) →
    r.config.fetchTimeout ≠ 0 → r.config.latestVersionTimeout ≠ 0 → units.length < r.limit →
    ∀ s, Inv s → ∃ o s', r.latest root s = (.ok o, s') ∧ ∃ w, o.childBelow root = some w ∧ v < w

/-- **A publication below a greater version** is preferred to all of a lesser one. -/
theorem supersedes_of_lt {root : Name} {publication : List ContentObject} {v w : Component}
    (hbelow : ∀ u ∈ publication, u.childBelow root = some w) (hlt : v < w) :
    Supersedes root publication v := by
  rintro σ r Inv units hserves hversioned ⟨u, hu, hmem⟩ hfetch hlatest hlimit s hs
  obtain ⟨o, s', hfound, ⟨ho, hgreatest⟩, -⟩ := Stream.Reader.latest_eq_ok hserves hversioned
    (List.ne_nil_of_mem hmem) hfetch hlatest hlimit hs
  obtain ⟨-, found, -, hchild⟩ := hversioned o ho
  refine ⟨o, s', hfound, found, hchild, ?_⟩
  exact Std.lt_of_lt_of_le hlt (hgreatest u hmem w found (hbelow u hu) hchild)

/-! ## Histories of a process -/

/-- What happens in a process, and around it. -/
inductive ProcessStep where
  /-- Any object fetches or publishes. -/
  | call {α : Type} (codec : PayloadCodec α) (object : VersionedObject α) (call : ObjectCall)
  /-- The clock reads something. -/
  | setClock (reading : Timestamp)
  /-- Anything else changes: what is published by others, what befalls the calls, and what is
  attached to the node. -/
  | elsewhere (node : Node)

namespace Process

/-- The node after a step. Only the process mints, and only the clock changes its reading. -/
def take (s : Node) : ProcessStep → Node
  | .call codec object call => (call.run codec (object, s)).2.2
  | .setClock reading => { s with clock := reading }
  | .elsewhere node => { node with clock := s.clock, lastMinted := s.lastMinted }

/-- The node after the steps of a history. -/
def run (steps : List ProcessStep) (s : Node) : Node := steps.foldl take s

/-- A history is run up to a step, then through the step, and then to its end. -/
theorem run_append (past : List ProcessStep) (step : ProcessStep) (rest : List ProcessStep)
    (s : Node) : run (past ++ step :: rest) s = run rest (take (run past s) step) := by
  rw [run, List.foldl_append, List.foldl_cons]
  rfl

/-- Whether a version was minted in a history: a step has raised the last minted time to its
time. -/
def Minted (s : Node) (steps : List ProcessStep) (v : Component) : Prop :=
  ∃ past step rest, steps = past ++ step :: rest
    ∧ (run past s).lastMinted < (take (run past s) step).lastMinted
    ∧ v = versionComponent (take (run past s) step).lastMinted

/-- One step does not set the last minted time back. -/
theorem take_laterMinted (s : Node) (step : ProcessStep) : s.LaterMinted (take s step) := by
  cases step with
  | call codec object call => exact ObjectCall.run_laterMinted codec call (object, s)
  | setClock reading => exact Nat.le_refl _
  | elsewhere node => exact Nat.le_refl _

/-- **No history sets the last minted time back.** -/
theorem run_laterMinted (steps : List ProcessStep) (s : Node) : s.LaterMinted (run steps s) :=
  foldl_keeps (R := Node.LaterMinted) take_laterMinted steps s

/-- The time of a version that was minted is not after the last minted one. -/
theorem Minted.exists_le {s : Node} {steps : List ProcessStep} {v : Component}
    (h : Minted s steps v) :
    ∃ t, v = versionComponent t ∧ t.ticks.toNat ≤ (run steps s).lastMinted.ticks.toNat := by
  obtain ⟨past, step, rest, rfl, -, hv⟩ := h
  refine ⟨_, hv, ?_⟩
  rw [run_append]
  exact run_laterMinted rest (take (run past s) step)

/-- **A minted version is greater than all versions that the process has minted before.** -/
theorem Minted.lt_mint {s : Node} {steps : List ProcessStep} {v : Component} (h : Minted s steps v)
    (hlimit : (Timestamp.mint (run steps s).clock (run steps s).lastMinted).ticks.toNat
      < versionLimit) :
    v < versionComponent (Timestamp.mint (run steps s).clock (run steps s).lastMinted) := by
  obtain ⟨t, rfl, ht⟩ := h.exists_le
  have hlt := UInt64.lt_iff_toNat_lt.1 (Timestamp.lt_mint hlimit)
  exact versionComponent_lt_versionComponent
    (UInt64.lt_iff_toNat_lt.2 (Nat.lt_of_le_of_lt ht hlt)) hlimit

/-- **The version of a save that mints** is minted in every history that goes on with the save: the
save itself is the step that raises the last minted time. -/
theorem minted_by_save {start : Node} {steps : List ProcessStep} {codec : PayloadCodec α}
    {o : VersionedObject α}
    (hlast : (VersionedObject.save codec (o, run steps start)).2.2.lastMinted
      = Timestamp.mint (run steps start).clock (run steps start).lastMinted)
    (hlimit : (Timestamp.mint (run steps start).clock (run steps start).lastMinted).ticks.toNat
      < versionLimit) (later : List ProcessStep) :
    Minted start (steps ++ .call codec o (.publish .save) :: later)
      (versionComponent (Timestamp.mint (run steps start).clock (run steps start).lastMinted)) := by
  have hrun : ObjectCall.run codec (.publish .save) (o, run steps start)
      = (_, (VersionedObject.save codec (o, run steps start)).2) :=
    Action.bind_pure_run (VersionedObject.save codec) (fun _ => ()) (o, run steps start)
  have htake : (take (run steps start) (.call codec o (.publish .save))).lastMinted
      = Timestamp.mint (run steps start).clock (run steps start).lastMinted := by
    rw [take, hrun]
    exact hlast
  refine ⟨steps, .call codec o (.publish .save), later, rfl, ?_, ?_⟩
  · rw [htake]
    exact Timestamp.lt_mint hlimit
  · rw [htake]

/-- **What a save binds its object to**, after any history of the process: a version with the time
minted. Below the limit of versions that is a version minted from now on, greater than all versions
minted in the history before. It is greater than the version the object was bound to, wherever that
came from, exactly if the clock's reading or the next time after the last one has a greater version;
then looking for the latest version finds one after that. -/
theorem save_grows {start : Node} (steps : List ProcessStep) {codec : PayloadCodec α}
    {o : VersionedObject α} {root : Name} {v : Component} (hroot : root.isVersioned = false)
    (hv : v.isVersion = true) (hname : o.name = some (root.child v))
    (hsave : (VersionedObject.save codec (o, run steps start)).1 = .ok true) :
    let s := run steps start
    let saved := (VersionedObject.save codec (o, s)).2
    let minted := Timestamp.mint s.clock s.lastMinted
    saved.1.name = some (root.child (versionComponent minted)) ∧ saved.1.bound = true
      ∧ (minted.ticks.toNat < versionLimit →
        (∀ later, Minted start (steps ++ .call codec o (.publish .save) :: later)
            (versionComponent minted))
          ∧ (Minted start steps v → v < versionComponent minted)
          ∧ (v < versionComponent minted
            ↔ v < versionComponent s.clock ∨ v < versionComponent s.lastMinted.next)
          ∧ (v < versionComponent minted → ∃ units,
            SaveCall.publication codec o s .save = .ok (root, units)
              ∧ Supersedes root units v)) := by
  intro s saved minted
  have hn : (root.child v).versionRoot = root := Name.versionRoot_child hv
  have hsaved : saved = (VersionedObject.saveTo codec root (o, s)).2 := by
    rw [show saved = (VersionedObject.save codec (o, s)).2 from rfl,
      VersionedObject.save_eq codec hname, hn]
  rw [VersionedObject.save_eq codec hname, hn] at hsave
  obtain ⟨hbound, hisBound, hlast, below, units, hvalue⟩ :=
    VersionedObject.saveTo_of_true hroot hsave
  rw [hsaved]
  refine ⟨hbound, hisBound, fun hlimit => ⟨fun later => ?_, fun hminted => hminted.lt_mint hlimit,
    lt_versionComponent_mint hlimit, fun hlt => ?_⟩⟩
  · -- without a version on the root, the save mints
    have hminted : saved.2.lastMinted = minted := hsaved ▸ hlast
    exact minted_by_save hminted hlimit later
  · obtain ⟨hpublication, hbelow⟩ := SaveCall.childBelow_publication hname hn hroot hvalue
    exact ⟨units, hpublication, supersedes_of_lt hbelow hlt⟩

/-- An object is fetched with a version of one byte and saved when the clock reads 9: the save comes
after the version fetched. -/
theorem save_grows_fetched :
    let codec : PayloadCodec Unit := ⟨fun _ => .ok [], fun _ => .ok ()⟩
    let root : Name := ⟨[⟨[97]⟩]⟩
    let fetched : Component := ⟨[versionMarker, 0]⟩
    let unit : ContentObject :=
      ⟨root.child fetched, ⟨default, ⟨0⟩, .data, none, none⟩, [], none⟩
    let client : Client := ⟨default, .echo, .echo, { verifySignatures := false }, 3⟩
    let w := Sharing.start 8 ⟨1⟩ root client (α := Unit) .empty
    let steps := [.call codec w.writer (.updateFrom unit), .setClock ⟨9⟩]
    let o := (VersionedObject.updateFrom codec unit (w.writer, w.node)).2.1.set ()
    o.name = some (root.child fetched)
      ∧ (VersionedObject.save codec (o, run steps w.node)).2.1.name
        = some (root.child (versionComponent ⟨9⟩))
      ∧ Minted w.node (steps ++ [.call codec o (.publish .save)]) (versionComponent ⟨9⟩)
      ∧ ∃ units, SaveCall.publication codec o (run steps w.node) .save = .ok (root, units)
        ∧ Supersedes root units fetched := by
  intro codec root fetched unit client w steps o
  have hroot : root.isVersioned = false := by decide
  have hname : o.name = some (root.child fetched) := by decide +kernel
  have hsave : (VersionedObject.save codec (o, run steps w.node)).1 = .ok true := by decide +kernel
  have hmint : Timestamp.mint (run steps w.node).clock (run steps w.node).lastMinted = ⟨9⟩ := by
    decide +kernel
  obtain ⟨hbound, -, hbelow⟩ := save_grows steps hroot (by decide) hname hsave
  rw [hmint] at hbound hbelow
  obtain ⟨hminted, -, -, hsupersedes⟩ := hbelow (by decide)
  exact ⟨hname, hbound, hminted [], hsupersedes (by decide)⟩

/-- **A fetched version that is ahead is not overtaken**, and neither is the last version of six
bytes: the save after it has a lesser version. -/
theorem save_falls_behind :
    let codec : PayloadCodec Unit := ⟨fun _ => .ok [], fun _ => .ok ()⟩
    let root : Name := ⟨[⟨[97]⟩]⟩
    let ahead : Component := ⟨[versionMarker, 0xFF, 0xFF, 0xFF, 0xFF, 0xFF, 0xFF]⟩
    let unit : ContentObject := ⟨root.child ahead, ⟨default, ⟨0⟩, .data, none, none⟩, [], none⟩
    let client : Client := ⟨default, .echo, .echo, { verifySignatures := false }, 3⟩
    let w := Sharing.start 8 ⟨1⟩ root client (α := Unit) .empty
    let fetched := VersionedObject.updateFrom codec unit (w.writer, w.node)
    let saved := VersionedObject.save codec (fetched.2.1.set (), fetched.2.2)
    let late : Node := { w.node with clock := ⟨0xFFFFFFFFFFFF⟩ }
    let last := VersionedObject.save codec (w.writer.set (), late)
    let wrapped := VersionedObject.save codec (last.2.1.set (), last.2.2)
    (root.isVersioned = false ∧ ahead.isVersion = true)
      ∧ (fetched.1 = .ok () ∧ fetched.2.1.name = some (root.child ahead) ∧ saved.1 = .ok true
        ∧ saved.2.1.name = some (root.child (versionComponent ⟨1⟩)) ∧ versionComponent ⟨1⟩ < ahead)
      ∧ (last.1 = .ok true ∧ last.2.1.name = some (root.child ahead) ∧ wrapped.1 = .ok true
        ∧ wrapped.2.1.name = some (root.child (versionComponent ⟨0⟩))
        ∧ versionComponent ⟨0⟩ < ahead) := by
  decide +kernel

end Process

end NamedContent
