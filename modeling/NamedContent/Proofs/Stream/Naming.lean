import NamedContent.Node.Client
import NamedContent.Proofs.Action.Ensuring
import NamedContent.Proofs.Node.Holding
import NamedContent.Proofs.Stream.Discovery

/-! # The name of the stream that is read

A name with a version asks for that version, any other name for some version directly below it. What
is read is the stream of the object that is found first, and that may be any object at or below the
version: an object of the version itself, which is named like it or like one of its segments, but
also a child with another name, whose stream is then read in place of the version's.

* `Name.AsksFor`: the streams that a name asks for
* `Name.IsPartOf`: the names of a stream's own objects
* `Stream.Reader.Draws`: a network that answers with objects that interests accept
* `Stream.Reader.first`, `Stream.Reader.first_ensures`: the object that reading begins with
* `Stream.Reader.readFrom_ensures`: the name of what is read from there
* `Client.read_names`: reading on a node
* `Client.read_misses_version`: children that are read in place of the version -/

namespace NamedContent

/-! ## Names -/

namespace Name

variable {base n : Name}

/-- Whether a name asks for a stream: for the version that it carries, or for any version directly
below it. -/
def AsksFor (n base : Name) : Prop :=
  n.isVersioned = true ∧ base = n.segmentRoot
    ∨ n.isVersioned = false ∧ ∃ v, v.isVersion = true ∧ base = n.child v

/-- Whether a name is that of a stream or of one of its segments. -/
def IsPartOf (n base : Name) : Prop := n = base ∨ ∃ c, c.isSegment = true ∧ n = base.child c

/-- What is asked for is no segment. -/
theorem AsksFor.segmentRoot_eq (h : n.AsksFor base) : base.segmentRoot = base := by
  obtain ⟨hversioned, rfl⟩ | ⟨-, v, hv, rfl⟩ := h
  · exact segmentRoot_segmentRoot_of_isVersioned hversioned
  · exact segmentRoot_child_of_not_isSegment n (Component.isSegment_eq_false_of_isVersion hv)

/-- All that a name asks for is of one length. -/
theorem AsksFor.length_eq {base' : Name} (h : n.AsksFor base) (h' : n.AsksFor base') :
    base.length = base'.length := by
  obtain ⟨hversioned, rfl⟩ | ⟨hversioned, v, -, rfl⟩ := h <;>
    obtain ⟨hversioned', rfl⟩ | ⟨hversioned', w, -, rfl⟩ := h'
  · rfl
  · exact absurd (hversioned.symm.trans hversioned') (by simp)
  · exact absurd (hversioned'.symm.trans hversioned) (by simp)
  · rw [length_child, length_child]

/-- **The objects of a stream are those whose names lead back to it.** -/
theorem segmentRoot_eq_iff (hbase : base.segmentRoot = base) :
    n.segmentRoot = base ↔ n.IsPartOf base := by
  constructor
  · rintro rfl
    cases hsegment : n.isSegment with
    | true => exact .inr (exists_eq_child_of_isSegment hsegment)
    | false => exact .inl (by rw [segmentRoot, hsegment]; rfl)
  · rintro (rfl | ⟨c, hc, rfl⟩)
    · exact hbase
    · exact segmentRoot_child_of_isSegment base hc

/-- The stream of an object at or below another stream is at or below it as well. -/
theorem isPrefixOf_segmentRoot (hbase : base.segmentRoot = base)
    (h : base.isPrefixOf n = true) : base.isPrefixOf n.segmentRoot = true := by
  obtain ⟨cs, rfl⟩ := (isPrefixOf_iff base n).1 h
  -- only the last component may be cut off, and there is one behind the prefix or none
  rcases List.eq_nil_or_concat' cs with rfl | ⟨front, c, rfl⟩
  · have hsame : base.append [] = base := by simp [append]
    rw [hsame, hbase]
    exact isPrefixOf_refl base
  · have hchild : base.append (front ++ [c]) = (base.append front).child c := by
      simp [append, child]
    rw [hchild] at h ⊢
    cases hc : c.isSegment with
    | true =>
      rw [segmentRoot_child_of_isSegment _ hc]
      exact isPrefixOf_append base front
    | false =>
      rw [segmentRoot_child_of_not_isSegment _ hc]
      exact h

/-- A stream at or below one that is asked for is asked for only if it is the same. -/
theorem AsksFor.asksFor_iff {found : Name} (h : n.AsksFor base)
    (hbelow : base.isPrefixOf found = true) : n.AsksFor found ↔ found = base := by
  refine ⟨fun hfound => ?_, fun heq => heq ▸ h⟩
  obtain ⟨cs, rfl⟩ := (isPrefixOf_iff base found).1 hbelow
  have hlength : base.components.length = (base.components ++ cs).length := h.length_eq hfound
  rw [List.length_append] at hlength
  have hnone : cs = [] := List.length_eq_zero_iff.1 (by omega)
  rw [hnone]
  simp [append]

/-- An object below a child of a name has that child's name in front. -/
theorem isPrefixOf_child_of_liesBelow {o : ContentObject} {c : Component}
    (h : o.LiesBelow n c) : (n.child c).isPrefixOf o.name = true := by
  obtain ⟨cs, hcs⟩ := (isPrefixOf_iff n o.name).1 h.leads
  have hchild : (n.append cs).component? n.length = some c := hcs ▸ h.child
  cases cs with
  | nil => simp [append, component?, length] at hchild
  | cons d rest =>
    obtain rfl := Option.some.inj ((component?_append n d rest).symm.trans hchild)
    exact (isPrefixOf_iff _ _).2 ⟨rest, by simp [hcs, append, child]⟩

end Name

/-! ## Readers -/

namespace Stream.Reader

variable {σ : Type} {Inv : σ → Prop} {P : ContentObject → Prop} {r : Reader σ} {n : Name}

/-- A network that answers an interest, if at all, with an object that has a property and that the
interest accepts, in every state of a kind that fetching keeps. -/
def Draws (r : Reader σ) (Inv : σ → Prop) (P : ContentObject → Prop) : Prop :=
  ∀ i timeout, (r.fetch i timeout).Ensures Inv fun found => ∀ o ∈ found, P o ∧ i.accepts o = true

/-- The object that reading begins with: any at or below the version asked for, or one of the latest
version. -/
def first (r : Reader σ) (n : Name) : Action σ ReadError ContentObject :=
  if n.isVersioned then r.require (.below n.segmentRoot) n.segmentRoot else r.latest n

/-- To read a name is to find a first unit and to read from it. -/
theorem read_eq (r : Reader σ) (n : Name) : r.read n = r.first n >>= r.readFrom := by
  rw [read, first]
  split <;> rfl

/-- **What is put together has the name of the stream** that the object at hand belongs to. -/
theorem readFrom_ensures (r : Reader σ) (o : ContentObject) :
    (r.readFrom o).Ensures (fun _ => True) fun stream => stream.name = o.name.segmentRoot := by
  have hany : ∀ {α : Type} (x : Action σ ReadError α), x.Ensures (fun _ => True) fun _ => True :=
    fun _ _ _ => ⟨trivial, fun _ _ => trivial⟩
  -- however the first segment is come by, the name is the same
  have hrest : ∀ start : ContentObject,
      (r.assemble o.name.segmentRoot r.limit firstSegment start >>= fun p =>
        pure (⟨o.name.segmentRoot, p.1, p.2⟩ : StreamContent)).Ensures (fun _ => True)
        fun stream => stream.name = o.name.segmentRoot :=
    fun start => (hany _).bind fun p _ => .pure rfl
  rw [readFrom]
  refine (hany _).bind fun _ _ => ?_
  split
  · exact .fail _
  · split
    · next hsegment =>
      refine .pure ?_
      rw [Name.isUnsegmented, Bool.not_eq_true'] at hsegment
      rw [Name.segmentRoot, hsegment]
      rfl
    · show (ite _ _ _ : Action σ ReadError StreamContent).Ensures _ _
      split
      · exact (hany (pure o)).bind fun start _ => hrest start
      · refine (hany _).bind fun o' _ => (hany _).bind fun _ _ => ?_
        exact (hany (pure o')).bind fun start _ => hrest start

section Draws

variable (hdraws : r.Draws Inv P)

include hdraws

/-- What is found under an interest has the property and is accepted by it. -/
theorem require_ensures (i : Interest) (name : Name) :
    (r.require i name).Ensures Inv fun o => P o ∧ i.accepts o = true := by
  refine ((hdraws i _).mapError _).bind fun found hfound => ?_
  cases found with
  | some o => exact .pure (hfound o rfl)
  | none => exact .fail _

/-- **What discovery finds lies below a version**, if the best object so far does. -/
theorem discover_ensures {limit : Nat} {exclude : Exclude} {best : Option ContentObject}
    {timeout : UInt64}
    (hbest : ∀ o ∈ best, P o ∧ ∃ v, v.isVersion = true ∧ o.LiesBelow n v) :
    (r.discover n limit exclude best timeout).Ensures Inv fun o =>
      P o ∧ ∃ v, v.isVersion = true ∧ o.LiesBelow n v := by
  induction limit generalizing exclude best timeout with
  | zero => exact .fail _
  | succ limit ih =>
    rw [discover.eq_def]
    refine ((hdraws _ _).mapError _).bind fun found hfound => ?_
    cases found with
    | none =>
      cases best with
      | some o => exact .pure (hbest o rfl)
      | none => exact .fail _
    | some o =>
      obtain ⟨ho, haccepts⟩ := hfound o rfl
      obtain ⟨c, hbelow, -⟩ := exists_liesBelow_of_accepts haccepts
      have hcomponent : o.name.component? n.length = some c := hbelow.child
      simp only [hcomponent]
      split
      · next hversion =>
        refine ih fun o' ho' => ?_
        obtain rfl := Option.some.inj ho'
        exact ⟨ho, c, hversion, hbelow⟩
      · -- what is no version is only excluded, and the best so far stays
        exact ih hbest

/-- The newest version that is found has the property and lies below a version of the name. -/
theorem latest_ensures (n : Name) :
    (r.latest n).Ensures Inv fun o => P o ∧ ∃ v, v.isVersion = true ∧ o.LiesBelow n v :=
  discover_ensures hdraws nofun

/-- **The object that reading begins with lies at or below a stream that is asked for.** -/
theorem first_ensures (n : Name) :
    (r.first n).Ensures Inv fun o =>
      P o ∧ ∃ base, n.AsksFor base ∧ base.isPrefixOf o.name = true := by
  intro s hs
  rw [first]
  cases hversioned : n.isVersioned with
  | true =>
    obtain ⟨hinv, hfound⟩ := require_ensures hdraws (.below n.segmentRoot) n.segmentRoot s hs
    refine ⟨hinv, fun o ho => ?_⟩
    obtain ⟨hP, haccepts⟩ := hfound o ho
    -- the interest asks for the prefix and for nothing more, so this is all there is to say
    have hprefix : n.segmentRoot.isPrefixOf o.name = true := by
      simp only [Interest.accepts, Interest.matchesName, Interest.below,
        Bool.and_eq_true] at haccepts
      exact haccepts.2.1.1.1
    exact ⟨hP, n.segmentRoot, .inl ⟨hversioned, rfl⟩, hprefix⟩
  | false =>
    obtain ⟨hinv, hfound⟩ := latest_ensures hdraws n s hs
    refine ⟨hinv, fun o ho => ?_⟩
    obtain ⟨hP, v, hv, hbelow⟩ := hfound o ho
    exact ⟨hP, n.child v, .inr ⟨hversioned, v, hv, rfl⟩, Name.isPrefixOf_child_of_liesBelow hbelow⟩

end Draws

end Stream.Reader

/-! ## Reading on a node -/

namespace Client

/-- A client's gets find what the node holds, and each an object that its interest accepts. -/
theorem draws (c : Client) (P : ContentObject → Prop) :
    c.reader.Draws (fun s => s.Holds P) P := by
  intro i timeout s hs
  obtain ⟨hholds, hfound⟩ := hs.get c.face i (some timeout.toNat)
  exact ⟨hholds, fun found hok o ho => hfound o (hok.trans (congrArg _ ho))⟩

/-- **A read returns the stream of the object that it finds first**, an object that the node holds
at or below a stream that is asked for. It returns a stream that is asked for just when that object
is one of its own, named like the stream or like one of its segments; so it does when no other
objects are held at or below the streams asked for. -/
theorem read_names (c : Client) {s s' : Node} {units : List ContentObject}
    (hs : s.Holds (· ∈ units)) {n : Name} {stream : StreamContent}
    (hread : c.reader.read n s = (.ok stream, s')) :
    (∃ o t base, c.reader.first n s = (.ok o, t) ∧ o ∈ units ∧ n.AsksFor base
        ∧ base.isPrefixOf o.name = true ∧ stream.name = o.name.segmentRoot
        ∧ base.isPrefixOf stream.name = true
        ∧ (n.AsksFor stream.name ↔ o.name.IsPartOf base))
      ∧ ((∀ o ∈ units, ∀ base, n.AsksFor base → base.isPrefixOf o.name = true →
          o.name.IsPartOf base) → n.AsksFor stream.name) := by
  rw [Stream.Reader.read_eq] at hread
  obtain ⟨o, t, hfirst, hrest⟩ := Action.exists_of_bind_eq_ok hread
  -- the interest settles where the first object lies, and what follows only strips its segment
  obtain ⟨ho, base, hasks, hbelow⟩ :=
    (Stream.Reader.first_ensures (c.draws (· ∈ units)) n s hs).2 o (congrArg Prod.fst hfirst)
  have hname : stream.name = o.name.segmentRoot :=
    (Stream.Reader.readFrom_ensures c.reader o t trivial).2 stream (congrArg Prod.fst hrest)
  have hprefix : base.isPrefixOf stream.name = true :=
    hname ▸ Name.isPrefixOf_segmentRoot hasks.segmentRoot_eq hbelow
  have hiff : n.AsksFor stream.name ↔ o.name.IsPartOf base := by
    rw [hasks.asksFor_iff hprefix, hname, Name.segmentRoot_eq_iff hasks.segmentRoot_eq]
  exact ⟨⟨o, t, base, hfirst, ho, hasks, hbelow, hname, hprefix, hiff⟩,
    fun hown => hiff.2 (hown o ho base hasks hbelow)⟩

/-- A node whose forwarder has stored some objects, which an application waits for. -/
def stocked (units : List ContentObject) : Node :=
  { Node.new 16 ⟨0⟩ with
    network := units.foldl (fun n o => (Network.put o n).2)
      (Network.express ⟨⟨1⟩, .below .root, ⟨1⟩⟩ (.new 16)).2 }

/-- Two segments are held of a version, and beside the version a child that is none. -/
theorem read_names_own :
    let client : Client := ⟨⟨2⟩, .ed25519 [], .ed25519, { verifySignatures := false }, 8⟩
    let root : Name := ⟨[⟨[97]⟩]⟩
    let version := root.child ⟨[0xFD, 1]⟩
    let unit (name : Name) (content : Bytes) : ContentObject :=
      ⟨name, ⟨default, ⟨0⟩, .data, none, some (segmentComponent 1)⟩, content, none⟩
    let units := [unit (version.segment 1) [2], unit (root.child ⟨[104]⟩) [3],
      unit (version.segment 0) [1]]
    ∃ stream s', client.reader.read root (stocked units) = (.ok stream, s')
      ∧ root.AsksFor stream.name := by
  intro client root version unit units
  -- the objects came one by one into an empty store, and no get waits for them
  have hholds : (stocked units).Holds (· ∈ units) := by
    have hpending : (stocked units).network.forwarder.pending = [] := by decide +kernel
    have hstored : ∀ e ∈ (stocked units).network.forwarder.store.entries, e.object ∈ units := by
      decide +kernel
    refine ⟨⟨?_, ?_, hstored⟩, fun id c hc => nomatch hc⟩ <;> rw [hpending] <;>
      exact fun p hp => absurd hp List.not_mem_nil
  have hread : (client.reader.read root (stocked units)).1 = .ok ⟨version, [1, 2], 2⟩ := by
    decide +kernel
  have hpair : ∀ p : Except ReadError StreamContent × Node, ∀ r, p.1 = r → ∃ s', p = (r, s') :=
    fun p _ h => ⟨p.2, h ▸ rfl⟩
  obtain ⟨s', hrun⟩ := hpair _ _ hread
  refine ⟨_, s', hrun, (read_names client hholds hrun).2 fun o ho base hasks hbelow => ?_⟩
  obtain ⟨hversioned, -⟩ | ⟨-, v, hv, rfl⟩ := hasks
  · exact absurd hversioned (by decide)
  -- an object below a child of the root shows which child it is
  have hchild : ∀ w rest, (root.child v).isPrefixOf ⟨⟨[97]⟩ :: w :: rest⟩ = true → v = w := by
    intro w rest h
    simpa [root, Name.child, Name.isPrefixOf] using h
  simp only [units, List.mem_cons, List.not_mem_nil, or_false] at ho
  obtain rfl | rfl | rfl := ho
  · obtain rfl := hchild _ _ hbelow
    exact .inr ⟨segmentComponent 1, by decide, rfl⟩
  · obtain rfl := hchild _ _ hbelow
    exact absurd hv (by decide)
  · obtain rfl := hchild _ _ hbelow
    exact .inr ⟨segmentComponent 0, by decide, rfl⟩

/-- **A child of a version is read in its place.** The version is held and can be put together from
its segment. A child whose component comes before all segment components is nevertheless what the
version's name finds, and one whose component comes behind them is what the name of the versions
finds. -/
theorem read_misses_version :
    let client : Client := ⟨⟨2⟩, .ed25519 [], .ed25519, { verifySignatures := false }, 8⟩
    let root : Name := ⟨[⟨[97]⟩]⟩
    let version := root.child ⟨[0xFD, 1]⟩
    let unit (c : Component) (content : Bytes) : ContentObject :=
      ⟨version.child c, ⟨default, ⟨0⟩, .data, none, some (segmentComponent 0)⟩, content, none⟩
    let s := stocked [unit (segmentComponent 0) [1], unit ⟨[104]⟩ [2], unit ⟨[0xFE]⟩ [3]]
    (client.reader.readFrom (unit (segmentComponent 0) [1]) s).1 = .ok ⟨version, [1], 1⟩
      ∧ (client.reader.read version s).1 = .ok ⟨version.child ⟨[104]⟩, [2], 1⟩
      ∧ ¬ version.AsksFor (version.child ⟨[104]⟩)
      ∧ (client.reader.read root s).1 = .ok ⟨version.child ⟨[0xFE]⟩, [3], 1⟩
      ∧ ¬ root.AsksFor (version.child ⟨[0xFE]⟩) := by
  intro client root version unit s
  refine ⟨by decide +kernel, by decide +kernel, ?_, by decide +kernel, ?_⟩
  · rintro (⟨-, h⟩ | ⟨h, -⟩)
    · exact absurd h (by decide)
    · exact absurd h (by decide)
  · rintro (⟨h, -⟩ | ⟨-, v, -, h⟩)
    · exact absurd h (by decide)
    · exact absurd (congrArg Name.length h) (by simp [version, root])

end Client

end NamedContent
