import NamedContent.Proofs.Action.Ensuring
import NamedContent.Proofs.Stream.Steps

/-! # What can come of reading

A reader takes the objects that come for the segments of a stream one after another, up to the last
segment or until it meets an obstacle: the next object does not come, or may not be used. So what a
read results in is told by the objects that came, in the order in which they came.

* `Stream.Series`: segments in order, up to the last one or not so far
* `Stream.Reader.Obstacle`: why a reader stops before the last segment
* `Stream.parts`: the objects whose contents make up a stream
* `Stream.Reader.Reads`: what reading from an object may result in
* `Stream.Reader.receiving_readFrom`: nothing else does -/

namespace NamedContent.Stream

/-! ## Segments in order -/

/-- Whether objects are the segments from an index on in order, each as a property says for its
index: the next index follows from the index and the length of a segment, and none before the last
is a final block. They are complete if the last one is. -/
inductive Series (c : Config) (P : UInt64 → ContentObject → Prop) (complete : Bool) :
    UInt64 → List ContentObject → Prop where
  /-- The segment with the index is not there yet. -/
  | nil {index : UInt64} (hcomplete : complete = false) : Series c P complete index []
  /-- The last segment. -/
  | last {index : UInt64} {o : ContentObject} (hsegment : P index o)
      (hfinal : o.isFinalBlock = true) (hcomplete : complete = true) :
      Series c P complete index [o]
  /-- A segment, and those after it. -/
  | cons {index : UInt64} {o : ContentObject} {rest : List ContentObject} (hsegment : P index o)
      (hfinal : o.isFinalBlock = false)
      (hrest : Series c P complete (c.nextIndex index (UInt64.ofNat o.content.length)) rest) :
      Series c P complete index (o :: rest)

/-- Segments in order are so as a weaker property says. -/
theorem Series.mono {c : Config} {P Q : UInt64 → ContentObject → Prop} {complete : Bool}
    (hPQ : ∀ index o, P index o → Q index o) {index : UInt64} {units : List ContentObject}
    (h : Series c P complete index units) : Series c Q complete index units := by
  induction h with
  | nil hcomplete => exact .nil hcomplete
  | last hsegment hfinal hcomplete => exact .last (hPQ _ _ hsegment) hfinal hcomplete
  | cons hsegment hfinal _ ih => exact .cons (hPQ _ _ hsegment) hfinal ih

/-- The objects whose contents make up the stream read from one: those that came, behind the object
itself if it is the whole stream or its first segment. -/
def parts (first : ContentObject) (received : List ContentObject) : List ContentObject :=
  if first.name.isUnsegmented = true ∨ first.name.segmentIndex? = some firstSegment then
    first :: received
  else received

/-- The parts of a stream are its first unit and what was received for the others. -/
theorem mem_of_mem_parts {first o : ContentObject} {received : List ContentObject}
    (h : o ∈ parts first received) : o = first ∨ o ∈ received := by
  rw [parts] at h
  split at h
  · exact List.mem_cons.1 h
  · exact .inr h

/-- All that was received is a part. -/
theorem mem_parts_of_mem {first o : ContentObject} {received : List ContentObject}
    (h : o ∈ received) : o ∈ parts first received := by
  rw [parts]
  split
  · exact List.mem_cons_of_mem _ h
  · exact h

namespace Reader

variable {σ : Type} {Inv : σ → Prop} {r : Reader σ} {base : Name}
  {P Q : UInt64 → ContentObject → Prop}

/-! ## Obstacles -/

/-- Why a reader stops before the last segment. -/
inductive Obstacle (r : Reader σ) where
  /-- The next object came and may not be used. -/
  | refused (o : ContentObject) (e : ReadError) (hcheck : r.check o = .error e)
  /-- The next object did not come. -/
  | missing (e : ReadError) (hmissing : e.isMissing = true)

/-- The error that reading ends with. -/
def Obstacle.error : Obstacle r → ReadError
  | refused _ e _ => e
  | missing e _ => e

/-- The object that came and may not be used, if there is one. -/
def refusals : Option (Obstacle r) → List ContentObject
  | some (.refused o _ _) => [o]
  | _ => []

/-- The contents of segments and their number, unless there is an obstacle. -/
def outcome (units : List ContentObject) : Option (Obstacle r) → Except ReadError (Bytes × Nat)
  | none => .ok (units.flatMap (·.content), units.length)
  | some obstacle => .error obstacle.error

/-- One more unit comes before what the others amount to. -/
theorem outcome_cons (o : ContentObject) (units : List ContentObject)
    (obstacle : Option (Obstacle r)) :
    (outcome units obstacle).map (fun p => (o.content ++ p.1, p.2 + 1))
      = outcome (o :: units) obstacle := by
  cases obstacle with
  | none => rfl
  | some _ => rfl

/-! ## Objects that come -/

/-- A segment comes that may be used, or there is an obstacle. What came is written down. -/
theorem receiving_requireUsable {name : Name} {p : ContentObject → Prop}
    (hfetch : (r.fetch (.exact name) r.config.fetchTimeout).Ensures Inv
      fun found => ∀ o ∈ found, p o)
    {s : σ} (hs : Inv s) (came : List ContentObject) :
    (∃ o s', r.receiving.requireUsable name (s, came) = (.ok o, s', came ++ [o])
        ∧ p o ∧ r.check o = .ok () ∧ Inv s')
      ∨ ∃ (obstacle : Obstacle r) (s' : σ), r.receiving.requireUsable name (s, came)
        = (.error obstacle.error, s', came ++ refusals (some obstacle)) := by
  obtain ⟨hinv, hfound⟩ := hfetch s hs
  rcases hcall : r.fetch (.exact name) r.config.fetchTimeout s with ⟨found, s'⟩
  rw [hcall] at hinv hfound
  have hnoted : r.receiving.fetch (.exact name) r.receiving.config.fetchTimeout (s, came)
      = (found, s', came ++ arrival found) := by
    simp only [receiving, noting, via, hcall]
  rw [requireUsable_of_fetch hnoted]
  rcases found with cause | _ | o
  · exact .inr ⟨.missing (.face cause) rfl, s', rfl⟩
  · exact .inr ⟨.missing (.timeout name) rfl, s', rfl⟩
  · -- an object comes under the name, and is checked
    have husable : r.receiving.usable name (.ok (some o)) = (r.check o).map fun _ => o := rfl
    rw [husable]
    cases hcheck : r.check o with
    | ok _ => exact .inl ⟨o, s', rfl, hfound (some o) rfl o rfl, hcheck, hinv⟩
    | error e => exact .inr ⟨.refused o e hcheck, s', rfl⟩

/-- **Putting a stream together** from a segment on: the objects that come are the segments after it
in order, up to the last one or to an obstacle. By induction on the calls that may still be made. -/
theorem receiving_assemble
    (hfetch : ∀ index, (r.fetch (.exact (base.segment index)) r.config.fetchTimeout).Ensures Inv
      fun found => ∀ o ∈ found, Q index o)
    (hQP : ∀ index o, Q index o → P index o) (limit : Nat) {index : UInt64}
    {segment : ContentObject} (hsegment : P index segment) {s : σ} (hs : Inv s)
    (came : List ContentObject) :
    ∃ (rest : List ContentObject) (obstacle : Option (Obstacle r)) (s' : σ),
      r.receiving.assemble base limit index segment (s, came)
          = (outcome (segment :: rest) obstacle, s', came ++ (rest ++ refusals obstacle))
        ∧ (∀ o ∈ rest, r.check o = .ok () ∧ ∃ index, Q index o)
        ∧ Series r.config P obstacle.isNone index (segment :: rest) := by
  induction limit generalizing index segment s came with
  | zero =>
    by_cases hfinal : segment.isFinalBlock = true
    · refine ⟨[], none, s, ?_, by simp, .last hsegment hfinal rfl⟩
      simp [assemble, hfinal, outcome, refusals]
    · refine ⟨[], some (.missing .unfinished rfl), s, ?_, by simp,
        .cons hsegment (Bool.not_eq_true _ ▸ hfinal) (.nil rfl)⟩
      simp [assemble, hfinal, outcome, refusals, Obstacle.error]
  | succ limit ih =>
    by_cases hfinal : segment.isFinalBlock = true
    · -- the segment at hand is the last one
      refine ⟨[], none, s, ?_, by simp, .last hsegment hfinal rfl⟩
      simp [assemble, hfinal, outcome, refusals]
    rw [assemble_succ r.receiving base hfinal rfl, Action.bind_run]
    generalize hnext :
      r.receiving.config.nextIndex index (UInt64.ofNat segment.content.length) = next
    replace hnext : r.config.nextIndex index (UInt64.ofNat segment.content.length) = next := hnext
    have hfalse : segment.isFinalBlock = false := Bool.not_eq_true _ ▸ hfinal
    rcases receiving_requireUsable (hfetch next) hs came with
      ⟨o, s₁, hcall, hQ, hcheck, hs₁⟩ | ⟨obstacle, s₁, hcall⟩
    · -- the next segment came and may be used
      obtain ⟨rest, obstacle, s₂, hrest, hall, hseries⟩ := ih (hQP next o hQ) hs₁ (came ++ [o])
      refine ⟨o :: rest, obstacle, s₂, ?_, ?_, .cons hsegment hfalse (hnext ▸ hseries)⟩
      · rw [hcall]
        show (r.receiving.assemble base limit next o >>= fun p => pure _) _ = _
        rw [Action.bind_pure_run, hrest, outcome_cons]
        simp
      · simp only [List.mem_cons, forall_eq_or_imp]
        exact ⟨⟨hcheck, next, hQ⟩, hall⟩
    · -- an obstacle where the next segment should be
      refine ⟨[], some obstacle, s₁, ?_, by simp, .cons hsegment hfalse (.nil rfl)⟩
      rw [hcall]
      rfl

/-! ## Whole reads -/

/-- What reading from an object may result in, with the objects that come, where each that comes for
the segment with an index has a property. -/
inductive Reads (r : Reader σ) (Q : UInt64 → ContentObject → Prop) (first : ContentObject) :
    List ContentObject → Except ReadError StreamContent → Prop where
  /-- The object itself may not be used. -/
  | refused {e : ReadError} (hcheck : r.check first = .error e) : Reads r Q first [] (.error e)
  /-- The object is a tombstone. -/
  | gone (hcheck : r.check first = .ok ()) (hgone : first.isGone = true) :
      Reads r Q first [] (.error (.gone first.name))
  /-- The object is a whole stream. -/
  | single (hcheck : r.check first = .ok ()) (hgone : first.isGone = false)
      (hsegment : first.name.isUnsegmented = true) :
      Reads r Q first [] (.ok ⟨first.name, first.content, 1⟩)
  /-- The object is a segment. What comes is the segments in order, less the object itself if it is
  the first, and may end with an object that may not be used. -/
  | segments (hcheck : r.check first = .ok ()) (hgone : first.isGone = false)
      (hsegment : first.name.isUnsegmented = false) (rest : List ContentObject)
      (obstacle : Option (Obstacle r))
      (hrest : ∀ o ∈ rest, r.check o = .ok () ∧ ∃ index, Q index o)
      (hseries : Series r.config
        (fun index o => o = first ∧ first.name.segmentIndex? = some index ∨ Q index o)
        obstacle.isNone firstSegment (parts first rest)) :
      Reads r Q first (rest ++ refusals obstacle)
        ((outcome (parts first rest) obstacle).map (whole first.name.segmentRoot))

/-- **Every read results in what it may**, and the objects that come are written down. -/
theorem receiving_readFrom {first : ContentObject}
    (hfetch : ∀ index, (r.fetch (.exact (first.name.segmentRoot.segment index))
      r.config.fetchTimeout).Ensures Inv fun found => ∀ o ∈ found, Q index o)
    {s : σ} (hs : Inv s) :
    ∃ result s' received, r.readFrom first s = (result, s')
      ∧ r.receiving.readFrom first (s, []) = (result, s', received)
      ∧ Reads r Q first received result := by
  -- it is enough to follow the reader that writes down
  suffices ∃ result s' received, r.receiving.readFrom first (s, []) = (result, s', received)
      ∧ Reads r Q first received result by
    obtain ⟨result, s', received, hread, hreads⟩ := this
    refine ⟨result, s', received, ?_, hread, hreads⟩
    have hsame := r.noting_readFrom (fun _ => arrival) first s []
    rwa [show r.noting (fun _ => arrival) = r.receiving from rfl, hread] at hsame
  have hsame : r.receiving.check first = r.check first := rfl
  cases hcheck : r.check first with
  | error e =>
    refine ⟨_, s, [], ?_, .refused hcheck⟩
    simp [readFrom, Action.bind_run, hsame, hcheck]
  | ok _ =>
    cases hgone : first.isGone with
    | true =>
      refine ⟨_, s, [], ?_, .gone hcheck hgone⟩
      simp [readFrom, Action.bind_run, hsame, hcheck, hgone]
    | false =>
      cases hsegment : first.name.isUnsegmented with
      | true =>
        refine ⟨_, s, [], ?_, .single hcheck hgone hsegment⟩
        simp [readFrom, Action.bind_run, hsame, hcheck, hgone, hsegment]
      | false =>
        have hread := readFrom_of_check (r := r.receiving) (hsame.trans hcheck) hgone hsegment
          r.limit
        replace hread : r.receiving.readFrom first = _ := hread
        have hQP : ∀ index o, Q index o →
            o = first ∧ first.name.segmentIndex? = some index ∨ Q index o := fun _ _ => .inr
        by_cases hindex : first.name.segmentIndex? = some firstSegment
        · -- the object at hand is the first segment
          have hparts : ∀ received, parts first received = first :: received := fun received => by
            rw [parts, if_pos (.inr hindex)]
          obtain ⟨rest, obstacle, s', hrun, hall, hseries⟩ :=
            receiving_assemble hfetch hQP r.limit (.inl ⟨rfl, hindex⟩) hs []
          refine ⟨_, s', _, ?_, .segments hcheck hgone hsegment rest obstacle hall
            ((hparts rest).symm ▸ hseries)⟩
          rw [hread, if_pos hindex, Action.bind_run, Action.pure_run, hparts]
          exact bind_whole hrun first.name.segmentRoot
        · -- the first segment is asked for by its name
          have hparts : ∀ received, parts first received = received := fun received => by
            rw [parts, if_neg (by simp [hsegment, hindex])]
          rw [hread, if_neg hindex, Action.bind_run]
          rcases receiving_requireUsable (hfetch firstSegment) hs [] with
            ⟨o, s₁, hcall, hQ, husable, hs₁⟩ | ⟨obstacle, s₁, hcall⟩
          · obtain ⟨rest, obstacle, s', hrun, hall, hseries⟩ :=
              receiving_assemble hfetch hQP r.limit (hQP firstSegment o hQ) hs₁ [o]
            refine ⟨_, s', _, ?_, .segments hcheck hgone hsegment (o :: rest) obstacle ?_
              ((hparts (o :: rest)).symm ▸ hseries)⟩
            · rw [hcall, hparts]
              exact bind_whole hrun first.name.segmentRoot
            · simp only [List.mem_cons, forall_eq_or_imp]
              exact ⟨⟨husable, firstSegment, hQ⟩, hall⟩
          · refine ⟨_, s₁, _, ?_, .segments hcheck hgone hsegment [] (some obstacle) (by simp)
              ((hparts []).symm ▸ .nil rfl)⟩
            rw [hcall]
            rfl

/-! ## What reads have in common -/

namespace Reads

variable {first : ContentObject} {received : List ContentObject}
  {result : Except ReadError StreamContent}

/-- **A read that succeeds** puts its parts together: the object and all that came may be used, and
the segments of a stream are in order from the first to the last. -/
theorem of_ok {stream : StreamContent} (h : Reads r Q first received (.ok stream)) :
    r.check first = .ok () ∧ first.isGone = false
      ∧ (∀ o ∈ received, r.check o = .ok () ∧ ∃ index, Q index o)
      ∧ stream = ⟨first.name.segmentRoot, (parts first received).flatMap (·.content),
        (parts first received).length⟩
      ∧ (first.name.isUnsegmented = false → Series r.config
        (fun index o => o = first ∧ first.name.segmentIndex? = some index ∨ Q index o) true
        firstSegment (parts first received)) := by
  generalize hresult : Except.ok stream = result at h
  cases h with
  | refused => cases hresult
  | gone => cases hresult
  | single hcheck hgone hsegment =>
    cases hresult
    -- an object that is no segment is the whole stream
    have hroot : first.name.segmentRoot = first.name := by
      rw [Name.isUnsegmented, Bool.not_eq_true'] at hsegment
      rw [Name.segmentRoot, hsegment]
      rfl
    refine ⟨hcheck, hgone, by simp, ?_, fun h => absurd hsegment (by simp [h])⟩
    simp [parts, hsegment, hroot]
  | segments hcheck hgone hsegment rest obstacle hrest hseries =>
    cases obstacle with
    | some obstacle => cases hresult
    | none =>
      cases hresult
      rw [show rest ++ refusals (r := r) none = rest from List.append_nil rest]
      exact ⟨hcheck, hgone, hrest, rfl, fun _ => hseries⟩

/-- **A read finds a tombstone** just when the object that it starts from is one and may be used. -/
theorem eq_gone_iff (h : Reads r Q first received result) {n : Name} :
    result = .error (.gone n) ↔ r.check first = .ok () ∧ first.isGone = true ∧ n = first.name := by
  cases h with
  | refused hcheck =>
    refine ⟨fun heq => ?_, fun hok => nomatch hcheck.symm.trans hok.1⟩
    cases heq
    cases isRefusal_of_check hcheck
  | gone hcheck hgone =>
    refine ⟨fun heq => ?_, fun hok => hok.2.2 ▸ rfl⟩
    cases heq
    exact ⟨hcheck, hgone, rfl⟩
  | single hcheck hgone => simp [hgone]
  | segments hcheck hgone hsegment rest obstacle =>
    refine ⟨fun heq => ?_, fun hok => by simp [hgone] at hok⟩
    -- neither kind of obstacle is a tombstone
    cases obstacle with
    | none => cases heq
    | some obstacle =>
      have herror : obstacle.error = .gone n := Except.error.inj heq
      cases obstacle with
      | refused o e hrefused =>
        obtain rfl : e = .gone n := herror
        cases isRefusal_of_check hrefused
      | missing e hmissing =>
        obtain rfl : e = .gone n := herror
        cases hmissing

/-- **An object that may not be used ends the read** in its error, and nothing comes after it. -/
theorem of_check_error (h : Reads r Q first received result) {o : ContentObject} {e : ReadError}
    (ho : o ∈ first :: received) (hcheck : r.check o = .error e) :
    result = .error e ∧ (first :: received).getLast? = some o := by
  -- an object that may be used is not the one
  have hne : ∀ u, r.check u = .ok () → o ≠ u := by
    rintro u hu rfl
    cases hu.symm.trans hcheck
  cases h with
  | refused hfirst =>
    obtain rfl := List.mem_singleton.1 ho
    cases hfirst.symm.trans hcheck
    exact ⟨rfl, rfl⟩
  | gone hfirst => exact absurd (List.mem_singleton.1 ho) (hne _ hfirst)
  | single hfirst => exact absurd (List.mem_singleton.1 ho) (hne _ hfirst)
  | segments hfirst hgone hsegment rest obstacle hrest =>
    have hlast : o ∈ refusals obstacle := by
      rcases List.mem_cons.1 ho with heq | hmem
      · exact absurd heq (hne _ hfirst)
      · rcases List.mem_append.1 hmem with hmem | hmem
        · exact absurd rfl (hne _ (hrest o hmem).1)
        · exact hmem
    rcases obstacle with _ | ⟨u, e', hrefused⟩ | ⟨e', hmissing⟩
    · cases hlast
    · obtain rfl := List.mem_singleton.1 hlast
      cases hrefused.symm.trans hcheck
      refine ⟨rfl, ?_⟩
      rw [← List.cons_append, refusals, List.getLast?_concat]
    · cases hlast

end Reads

end Reader

end NamedContent.Stream
