import NamedContent.Proofs.Stream.Assembly
import NamedContent.Proofs.Stream.Steps

/-! # Reading streams comes to an end

A reader goes from segment to segment by the index that each gives the next, and nothing else
bounds its calls. On a network that holds finitely many objects it comes to an end when every
segment leads to a greater index, and then it asks for no name twice. A segment that leads to its
own index again it asks for without end.

* `ContentObject.Advances`: segments that lead to a greater index
* `Stream.Reader.DrawsFrom`: networks that answer requests for a name from some objects
* `Stream.Reader.Meets`, `Stream.Reader.Progresses`: the segments that reading comes by
* `Stream.Reader.readFrom_ends`: reading comes to an end
* `Stream.Reader.readFrom_never_ends`: an empty segment where indices count bytes -/

namespace NamedContent

/-! ## Indices that grow -/

/-- By how much the index grows after a segment of a length. -/
def Config.advance (c : Config) (length : Nat) : Nat :=
  match c.numbering with
  | .fixedIncrement => c.segmentIncrement.toNat
  | .byteCount => length

/-- As long as it fits into 64 bits, the next index is the sum. -/
theorem Config.toNat_nextIndex {c : Config} {index : UInt64} {length : Nat}
    (h : index.toNat + c.advance length < UInt64.size) :
    (c.nextIndex index (UInt64.ofNat length)).toNat = index.toNat + c.advance length := by
  unfold advance at h ⊢
  unfold nextIndex
  cases hnumbering : c.numbering with
  | fixedIncrement =>
    simp only [hnumbering] at h ⊢
    rw [UInt64.toNat_add, Nat.mod_eq_of_lt h]
  | byteCount =>
    simp only [hnumbering] at h ⊢
    rw [UInt64.toNat_add, UInt64.toNat_ofNat_of_lt' (by omega), Nat.mod_eq_of_lt h]

/-- Whether a segment with an index leads to a greater one: it holds something if indices count
bytes, and the index after it fits into 64 bits. -/
structure ContentObject.Advances (o : ContentObject) (c : Config) (index : UInt64) : Prop where
  filled : c.numbering = .byteCount → o.content ≠ []
  fits : index.toNat + c.advance o.content.length < UInt64.size

/-- A unit that advances has a greater index after it. -/
theorem ContentObject.Advances.lt_nextIndex {o : ContentObject} {c : Config} {index : UInt64}
    (hc : c.Valid) (h : o.Advances c index) :
    index < c.nextIndex index (UInt64.ofNat o.content.length) := by
  have hpos : 0 < c.advance o.content.length := by
    unfold Config.advance
    cases hnumbering : c.numbering with
    | fixedIncrement =>
      exact Nat.pos_of_ne_zero fun hzero => hc.2.1 (UInt64.toNat_inj.1 hzero)
    | byteCount => exact List.length_pos_iff.2 (h.filled hnumbering)
  have hnext := Config.toNat_nextIndex h.fits
  exact UInt64.lt_iff_toNat_lt.2 (by omega)

/-- A result in another form fails as before. -/
theorem map_ne_error {ε α β : Type} {result : Except ε α} {e : ε} (h : result ≠ .error e)
    (f : α → β) : result.map f ≠ .error e := by
  cases result with
  | ok a => exact nofun
  | error e' => exact fun heq => h (congrArg Except.error (Except.error.inj heq))

namespace Stream

/-! ## Segments that are still ahead -/

/-- The objects whose names have indices beyond one. -/
def ahead (units : List ContentObject) (index : UInt64) : List ContentObject :=
  units.filter fun o => o.name.segmentIndex?.any (index < ·)

/-- No more units lie ahead than there are. -/
theorem length_ahead_le (units : List ContentObject) (index : UInt64) :
    (ahead units index).length ≤ units.length := List.length_filter_le _ _

/-- An object whose index is not beyond one is not ahead of it. -/
theorem length_ahead_lt_of_mem {units : List ContentObject} {index : UInt64} {o : ContentObject}
    (ho : o ∈ units) (hindex : o.name.segmentIndex? = some index) :
    (ahead units index).length < units.length := by
  refine List.length_filter_lt_length_iff_exists.2 ⟨o, ho, ?_⟩
  simp [hindex]

/-- Once a reader has come to a segment ahead, fewer are ahead. -/
theorem length_ahead_lt {units : List ContentObject} {index next : UInt64} (hlt : index < next)
    {o : ContentObject} (ho : o ∈ units) (hindex : o.name.segmentIndex? = some next) :
    (ahead units next).length < (ahead units index).length := by
  have hfilter : ahead units next = ahead (ahead units index) next := by
    rw [ahead, ahead, ahead, List.filter_filter]
    refine List.filter_congr fun p _ => ?_
    cases p.name.segmentIndex? with
    | none => rfl
    | some i =>
      rw [Bool.eq_iff_iff]
      simp only [Option.any_some, Bool.and_eq_true, decide_eq_true_iff]
      exact ⟨fun h => ⟨h, UInt64.lt_trans hlt h⟩, fun h => h.1⟩
  rw [hfilter]
  refine length_ahead_lt_of_mem (List.mem_filter.2 ⟨ho, ?_⟩) hindex
  simpa [hindex] using hlt

namespace Reader

variable {σ : Type} {Inv : σ → Prop} {r : Reader σ} {base : Name} {units : List ContentObject}

/-! ## Asking for names -/

/-- A network that answers requests for a name, if at all, with one of some objects of that name, in
every state of a kind that fetching keeps. -/
def DrawsFrom (r : Reader σ) (Inv : σ → Prop) (units : List ContentObject) : Prop :=
  ∀ name s, Inv s →
    (∀ o, (r.fetch (.exact name) r.config.fetchTimeout s).1 = .ok (some o) →
      o ∈ units ∧ o.name = name)
    ∧ Inv (r.fetch (.exact name) r.config.fetchTimeout s).2

/-- A check that fails does so for good. -/
theorem check_ne_unfinished (r : Reader σ) (o : ContentObject) :
    r.check o ≠ .error .unfinished :=
  fun h => nomatch isRefusal_of_check h

/-- The object is asked for once. -/
theorem recording_requireUsable (r : Reader σ) (name : Name) (s : σ) (asked : List Interest) :
    r.recording.requireUsable name (s, asked)
      = ((r.requireUsable name s).1, (r.requireUsable name s).2, asked ++ [.exact name]) := by
  simp only [requireUsable, Action.bind_run, recording_require, recording_check]
  rcases r.require (.exact name) name s with ⟨_ | o, s'⟩
  · rfl
  · simp only [Action.ofExcept_run]
    cases r.check o <;> rfl

/-- What comes is one of the objects, or the call fails for good. -/
theorem DrawsFrom.requireUsable_cases (h : r.DrawsFrom Inv units) (name : Name) {s : σ}
    (hs : Inv s) :
    (∃ o s', r.requireUsable name s = (.ok o, s') ∧ o ∈ units ∧ o.name = name ∧ Inv s')
      ∨ ∃ e s', r.requireUsable name s = (.error e, s') ∧ e ≠ .unfinished := by
  obtain ⟨hfound, hinv⟩ := h name s hs
  rcases hfetch : r.fetch (.exact name) r.config.fetchTimeout s with ⟨cause | _ | o, s'⟩ <;>
    rw [requireUsable_of_fetch hfetch]
  · exact .inr ⟨.face cause, s', rfl, by simp⟩
  · exact .inr ⟨.timeout name, s', rfl, by simp⟩
  · rw [hfetch] at hfound hinv
    obtain ⟨hmem, hname⟩ := hfound o rfl
    rw [usable]
    cases hcheck : r.check o with
    | ok _ => exact .inl ⟨o, s', rfl, hmem, hname, hinv⟩
    | error e =>
      refine .inr ⟨e, s', rfl, fun he => ?_⟩
      exact r.check_ne_unfinished o (hcheck.trans (he ▸ rfl))

/-- The requests for segments with some indices, in order. -/
def requests (base : Name) (indices : List UInt64) : List Interest :=
  indices.map fun index => .exact (base.segment index)

/-- The requests for indices begin with that for the first one. -/
theorem requests_cons (base : Name) (index : UInt64) (indices : List UInt64) :
    requests base (index :: indices) = .exact (base.segment index) :: requests base indices := rfl

/-- Requests for different segments are different. -/
theorem nodup_requests {indices : List UInt64} (h : indices.Pairwise (· < ·)) :
    (requests base indices).Nodup := by
  rw [List.Nodup, requests, List.pairwise_map]
  refine h.imp fun hlt heq => ?_
  have hsame := Name.segment_inj.1 (congrArg Interest.name heq)
  exact absurd hlt (hsame ▸ UInt64.lt_irrefl _)

/-! ## Reading that ends -/

/-- The segments that reading from an object may come by, each with its index: the first one of the
stream, and after one that is not the last whatever is named as the next. -/
inductive Meets (c : Config) (first : ContentObject) (units : List ContentObject) :
    UInt64 → ContentObject → Prop where
  /-- The object itself is the first segment. -/
  | itself (hindex : first.name.segmentIndex? = some firstSegment) :
    Meets c first units firstSegment first
  /-- The first segment is asked for. -/
  | asked {u : ContentObject} (hindex : first.name.segmentIndex? ≠ some firstSegment)
    (hu : u ∈ units) (hname : u.name = first.name.segmentRoot.segment firstSegment) :
    Meets c first units firstSegment u
  /-- The next segment is asked for. -/
  | next {index : UInt64} {o u : ContentObject} (ho : Meets c first units index o)
    (hfinal : ¬ o.isFinalBlock = true) (hu : u ∈ units)
    (hname : u.name = first.name.segmentRoot.segment
      (c.nextIndex index (UInt64.ofNat o.content.length))) :
    Meets c first units (c.nextIndex index (UInt64.ofNat o.content.length)) u

/-- What is met at an index is named by it. -/
theorem Meets.segmentIndex?_name {c : Config} {first o : ContentObject} {index : UInt64}
    (h : Meets c first units index o) : o.name.segmentIndex? = some index := by
  cases h with
  | itself hindex => exact hindex
  | asked hindex hu hname => rw [hname, Name.segmentIndex?_segment]
  | next ho hfinal hu hname => rw [hname, Name.segmentIndex?_segment]

/-- What is met is among the objects, if that is begun with. -/
theorem Meets.mem {c : Config} {first o : ContentObject} {index : UInt64}
    (h : Meets c first units index o) (hfirst : first ∈ units) : o ∈ units := by
  cases h with
  | itself hindex => exact hfirst
  | asked hindex hu hname => exact hu
  | next ho hfinal hu hname => exact hu

/-- Whether every segment that reading from an object may come by is the last of its stream or leads
to a greater index. -/
def Progresses (c : Config) (first : ContentObject) (units : List ContentObject) : Prop :=
  ∀ index o, Meets c first units index o → o.isFinalBlock = true ∨ o.Advances c index

/-- **Putting a stream together ends** from every segment that reading comes by, if all of these are
the last or lead to a greater index. The induction is on the objects that are still ahead: each
segment that comes is one of them, and is not ahead of itself. -/
theorem assemble_ends (hconfig : r.config.Valid) (hdraws : r.DrawsFrom Inv units)
    {first : ContentObject} (hprogress : Progresses r.config first units)
    (hbase : first.name.segmentRoot = base) {index : UInt64} {segment : ContentObject}
    (hsegment : Meets r.config first units index segment) {s : σ} (hs : Inv s)
    (asked : List Interest) :
    ∃ result s' indices, result ≠ .error .unfinished ∧ (index :: indices).Pairwise (· < ·)
      ∧ indices.length ≤ (ahead units index).length + 1
      ∧ ∀ limit, (ahead units index).length < limit →
        r.recording.assemble base limit index segment (s, asked)
          = (result, s', asked ++ requests base indices) := by
  induction hmeasure : (ahead units index).length using Nat.strong_induction_on
    generalizing index segment s asked with
  | _ measure ih =>
  subst hmeasure
  by_cases hfinal : segment.isFinalBlock = true
  · refine ⟨.ok (segment.content, 1), s, [], nofun, by simp, Nat.zero_le _, fun limit _ => ?_⟩
    rw [assemble_of_isFinalBlock hfinal]
    simp [requests]
  have hlt := ((hprogress index segment hsegment).resolve_left hfinal).lt_nextIndex hconfig
  have hmeets : ∀ o ∈ units, o.name = base.segment _ → Meets r.config first units _ o :=
    fun o ho hname => hsegment.next hfinal ho (hbase ▸ hname)
  generalize hnext : r.config.nextIndex index (UInt64.ofNat segment.content.length) = next
    at hlt hmeets
  -- every limit allows the call for the next segment
  have hstep : ∀ limit, (ahead units index).length < limit → ∃ l, limit = l + 1 :=
    fun limit hlimit => ⟨limit - 1, by omega⟩
  rcases hdraws.requireUsable_cases (base.segment next) hs with
    ⟨o, s₁, hcall, ho, hname, hs₁⟩ | ⟨e, s₁, hcall, he⟩
  · have hindex : o.name.segmentIndex? = some next := by
      rw [hname, Name.segmentIndex?_segment]
    have hless := length_ahead_lt hlt ho hindex
    obtain ⟨result, s₂, indices, hresult, hascend, hlength, hrest⟩ :=
      ih _ hless (hmeets o ho hname) hs₁ (asked ++ [.exact (base.segment next)]) rfl
    refine ⟨result.map fun p => (segment.content ++ p.1, p.2 + 1), s₂, next :: indices, ?_, ?_,
      ?_, fun limit hlimit => ?_⟩
    · exact map_ne_error hresult _
    · refine List.pairwise_cons.2 ⟨fun i hi => ?_, hascend⟩
      rcases List.mem_cons.1 hi with rfl | hi
      · exact hlt
      · exact UInt64.lt_trans hlt (List.rel_of_pairwise_cons hascend hi)
    · rw [List.length_cons]
      omega
    · obtain ⟨l, rfl⟩ := hstep limit hlimit
      rw [assemble_succ r.recording base hfinal hnext]
      rw [Action.bind_run, recording_requireUsable, hcall]
      show (r.recording.assemble base l next o >>= fun p => pure _) _ = _
      rw [Action.bind_pure_run, hrest l (by omega), requests_cons, List.append_assoc,
        List.singleton_append]
  · refine ⟨.error e, s₁, [next], ?_, by simpa using hlt, by simp, fun limit hlimit => ?_⟩
    · exact fun h => he (Except.error.inj h)
    · obtain ⟨l, rfl⟩ := hstep limit hlimit
      rw [assemble_succ r.recording base hfinal hnext, Action.bind_run, recording_requireUsable,
        hcall]
      rfl

/-- Reading the segments of a stream ends. -/
theorem readFrom_ends_of_check (hconfig : r.config.Valid) (hdraws : r.DrawsFrom Inv units)
    {first : ContentObject} (hprogress : Progresses r.config first units)
    (hcheck : r.check first = .ok ()) (hgone : first.isGone = false)
    (hsegment : first.name.isUnsegmented = false) {s : σ} (hs : Inv s) :
    ∃ result s' indices, result ≠ .error .unfinished ∧ indices.Pairwise (· < ·)
      ∧ indices.length ≤ units.length + 1
      ∧ ∀ limit, units.length < limit → (r.recording.withLimit limit).readFrom first (s, [])
          = (result, s', requests first.name.segmentRoot indices) := by
  have hread := readFrom_of_check (r := r.recording) hcheck hgone hsegment
  by_cases hindex : first.name.segmentIndex? = some firstSegment
  · -- the object at hand is the first segment
    obtain ⟨result, s', indices, hresult, hascend, hlength, hrest⟩ :=
      assemble_ends hconfig hdraws hprogress rfl (.itself hindex) hs []
    have hahead := length_ahead_le units firstSegment
    refine ⟨_, s', indices, map_ne_error hresult (whole first.name.segmentRoot), hascend.of_cons,
      by omega, fun limit hlimit => ?_⟩
    rw [hread, if_pos hindex, Action.bind_run, Action.pure_run]
    exact bind_whole (hrest limit (by omega)) first.name.segmentRoot
  · -- the first segment is asked for by its name
    rcases hdraws.requireUsable_cases (first.name.segmentRoot.segment firstSegment) hs with
      ⟨o, s₁, hcall, ho, hname, hs₁⟩ | ⟨e, s₁, hcall, he⟩
    · obtain ⟨result, s', indices, hresult, hascend, hlength, hrest⟩ :=
        assemble_ends hconfig hdraws hprogress rfl (.asked hindex ho hname) hs₁
          (requests first.name.segmentRoot [firstSegment])
      have hahead := length_ahead_lt_of_mem ho
        (hname ▸ Name.segmentIndex?_segment first.name.segmentRoot firstSegment)
      refine ⟨_, s', firstSegment :: indices, map_ne_error hresult (whole first.name.segmentRoot),
        hascend, ?_, fun limit hlimit => ?_⟩
      · rw [List.length_cons]
        omega
      · rw [hread, if_neg hindex, Action.bind_run, recording_requireUsable, hcall]
        exact bind_whole (hrest limit (by omega)) first.name.segmentRoot
    · -- the first segment does not come
      refine ⟨.error e, s₁, [firstSegment], ?_, by simp, by simp, fun limit _ => ?_⟩
      · exact fun h => he (Except.error.inj h)
      · rw [hread, if_neg hindex, Action.bind_run, recording_requireUsable, hcall]
        rfl

/-- **Reading a stream comes to an end**, whatever the limit on calls as long as it is greater than
the number of objects. The segments asked for have greater and greater indices, so that none is
asked for twice. -/
theorem readFrom_ends (hconfig : r.config.Valid) (hdraws : r.DrawsFrom Inv units)
    {first : ContentObject} (hprogress : Progresses r.config first units) {s : σ} (hs : Inv s) :
    ∃ result s' indices, result ≠ .error .unfinished ∧ indices.Pairwise (· < ·)
      ∧ indices.length ≤ units.length + 1 ∧ (requests first.name.segmentRoot indices).Nodup
      ∧ ∀ limit, units.length < limit →
        (r.withLimit limit).readFrom first s = (result, s')
          ∧ (r.recording.withLimit limit).readFrom first (s, [])
            = (result, s', requests first.name.segmentRoot indices) := by
  -- it is enough to follow the reader that writes down
  suffices ∃ result s' indices, result ≠ .error .unfinished ∧ indices.Pairwise (· < ·)
      ∧ indices.length ≤ units.length + 1
      ∧ ∀ limit, units.length < limit → (r.recording.withLimit limit).readFrom first (s, [])
          = (result, s', requests first.name.segmentRoot indices) by
    obtain ⟨result, s', indices, hresult, hascend, hlength, hread⟩ := this
    refine ⟨result, s', indices, hresult, hascend, hlength, nodup_requests hascend,
      fun limit hlimit => ⟨?_, hread limit hlimit⟩⟩
    have hplain := recording_readFrom (r.withLimit limit) first s []
    rwa [withLimit_recording, hread limit hlimit] at hplain
  cases hcheck : r.check first with
  | error e =>
    refine ⟨.error e, s, [], ?_, .nil, Nat.zero_le _, fun limit _ => ?_⟩
    · rintro ⟨⟩
      exact r.check_ne_unfinished first hcheck
    · simp [readFrom, Action.bind_run, hcheck, requests]
  | ok _ =>
    cases hgone : first.isGone with
    | true =>
      refine ⟨.error (.gone first.name), s, [], by simp, .nil, Nat.zero_le _, fun limit _ => ?_⟩
      simp [readFrom, Action.bind_run, hcheck, hgone, requests]
    | false =>
      cases hsegment : first.name.isUnsegmented with
      | true =>
        refine ⟨.ok ⟨first.name, first.content, 1⟩, s, [], by simp, .nil, Nat.zero_le _,
          fun limit _ => ?_⟩
        simp [readFrom, Action.bind_run, hcheck, hgone, hsegment, requests]
      | false => exact readFrom_ends_of_check hconfig hdraws hprogress hcheck hgone hsegment hs

/-- From a network that holds fixed objects only these come, each by its name. -/
theorem drawsFrom_shelf {r : Reader Unit} (h : r.fetch = shelf units) :
    r.DrawsFrom (fun _ => True) units := by
  intro name s _
  refine ⟨fun o ho => ?_, trivial⟩
  rw [h] at ho
  have hselect : (Interest.exact name).select units = some o := Except.ok.inj ho
  have hanswer := Interest.answers_select (.exact name) units
  rw [hselect] at hanswer
  exact ⟨hanswer.1, Interest.accepts_exact.1 hanswer.2⟩

/-- An empty segment is no obstacle where indices advance by a fixed step. Reading ends at the third
segment, which is not there. -/
theorem readFrom_ends_missing :
    let config : Config := { segmentIncrement := 2, verifySignatures := false }
    let base := Name.root.withVersion ⟨1⟩
    let info : SignedInfo := ⟨default, ⟨0⟩, .data, none, some (segmentComponent 6)⟩
    let units := [segmentOf base info (0, []), segmentOf base info (2, [7])]
    let r : Reader Unit := ⟨shelf units, .echo, config, 0⟩
    ∃ indices, indices.Pairwise (· < ·) ∧ indices.length ≤ 3 ∧ (requests base indices).Nodup
      ∧ ∀ limit, 2 < limit →
        (r.withLimit limit).readFrom (segmentOf base info (2, [7])) ()
            = (.error (.timeout (base.segment 4)), ())
          ∧ (r.recording.withLimit limit).readFrom (segmentOf base info (2, [7])) ((), [])
            = (.error (.timeout (base.segment 4)), (), requests base indices) := by
  intro config base info units r
  have hprogress : Progresses config (segmentOf base info (2, [7])) units := by
    refine fun index u hmeets => .inr ⟨nofun, ?_⟩
    have hall : ∀ u ∈ units, u.name.segmentIndex?.all (· ≤ 2) := by decide
    have hle := hall u (hmeets.mem (by decide))
    rw [hmeets.segmentIndex?_name, Option.all_some, decide_eq_true_iff,
      UInt64.le_iff_toNat_le] at hle
    exact Nat.lt_of_le_of_lt (Nat.add_le_add_right hle 2) (by decide)
  obtain ⟨result, s', indices, -, hascend, hlength, hnodup, hread⟩ :=
    readFrom_ends (r := r) (show config.Valid by decide) (drawsFrom_shelf rfl) hprogress
      (s := ()) trivial
  have hresult : (r.withLimit 3).readFrom (segmentOf base info (2, [7])) ()
      = (.error (.timeout (base.segment 4)), ()) := by decide +kernel
  have hsame := (hread 3 (by decide)).1.symm.trans hresult
  obtain rfl : result = .error (.timeout (base.segment 4)) := congrArg Prod.fst hsame
  exact ⟨indices, hascend, hlength, hnodup, hread⟩

/-! ## Reading that does not end -/

/-- **A segment that leads to its own index is asked for again and again**, as often as the limit
allows. -/
theorem assemble_stalled {index : UInt64} {segment : ContentObject}
    (hfinal : ¬ segment.isFinalBlock = true)
    (hstall : r.config.nextIndex index (UInt64.ofNat segment.content.length) = index)
    (hcall : ∀ s, Inv s → ∃ s', r.requireUsable (base.segment index) s = (.ok segment, s') ∧ Inv s')
    (limit : Nat) {s : σ} (hs : Inv s) (asked : List Interest) :
    ∃ s', r.recording.assemble base limit index segment (s, asked)
      = (.error .unfinished, s', asked ++ List.replicate limit (.exact (base.segment index))) := by
  induction limit generalizing s asked with
  | zero =>
    refine ⟨s, ?_⟩
    rw [assemble, if_neg hfinal, List.replicate_zero, List.append_nil]
    rfl
  | succ limit ih =>
    obtain ⟨s₁, hfirst, hs₁⟩ := hcall s hs
    obtain ⟨s₂, hrest⟩ := ih hs₁ (asked ++ [.exact (base.segment index)])
    refine ⟨s₂, ?_⟩
    rw [assemble_succ r.recording base hfinal hstall, Action.bind_run, recording_requireUsable,
      hfirst]
    refine (Action.bind_pure_run _ _ _).trans ?_
    rw [hrest, List.append_assoc, List.singleton_append, List.replicate_succ]
    rfl

/-- **An empty first segment that is not the last, where indices count bytes**: reading from it asks
for it again and again, and never ends. -/
theorem readFrom_stalled {first : ContentObject} (hnumbering : r.config.numbering = .byteCount)
    (hempty : first.content = []) (hfinal : ¬ first.isFinalBlock = true)
    (hindex : first.name.segmentIndex? = some firstSegment)
    (hsegment : first.name.isUnsegmented = false) (hgone : first.isGone = false)
    (hcheck : r.check first = .ok ())
    (hcall : ∀ s, Inv s → ∃ s',
      r.requireUsable (first.name.segmentRoot.segment firstSegment) s = (.ok first, s') ∧ Inv s')
    (limit : Nat) {s : σ} (hs : Inv s) :
    ∃ s', (r.recording.withLimit limit).readFrom first (s, [])
      = (.error .unfinished, s',
          List.replicate limit (.exact (first.name.segmentRoot.segment firstSegment))) := by
  have hstall : r.config.nextIndex firstSegment (UInt64.ofNat first.content.length)
      = firstSegment := by
    rw [Config.nextIndex, hnumbering, hempty]
    rfl
  obtain ⟨s', hrest⟩ := assemble_stalled hfinal hstall hcall limit hs []
  refine ⟨s', ?_⟩
  rw [readFrom_of_check (r := r.recording) hcheck hgone hsegment, if_pos hindex, Action.bind_run,
    Action.pure_run]
  exact bind_whole hrest first.name.segmentRoot

/-- **Two published segments that are read without end**: the first is empty and indices count
bytes, which every rule for configurations allows. -/
theorem readFrom_never_ends :
    let config : Config := { numbering := .byteCount, verifySignatures := false }
    let base := (Name.root.child ⟨[97]⟩).withVersion ⟨1⟩
    let info : SignedInfo := ⟨default, ⟨0⟩, .data, none, some (segmentComponent 1)⟩
    let empty := segmentOf base info (0, [])
    let units := [empty, segmentOf base info (1, [1])]
    let r : Reader Unit := ⟨shelf units, .echo, config, 0⟩
    config.validate = .ok () ∧ r.DrawsFrom (fun _ => True) units
      ∧ ∀ limit, (r.recording.withLimit limit).readFrom empty ((), [])
        = (.error .unfinished, (), List.replicate limit (.exact empty.name)) := by
  intro config base info empty units r
  refine ⟨by decide, drawsFrom_shelf rfl, fun limit => ?_⟩
  have hempty : empty.content = [] := rfl
  have hcall : ∀ s, True → ∃ s',
      r.requireUsable (empty.name.segmentRoot.segment firstSegment) s = (.ok empty, s') ∧ True :=
    fun ⟨⟩ _ => ⟨(), by decide +kernel, trivial⟩
  obtain ⟨s', hread⟩ := readFrom_stalled (r := r) rfl hempty (by decide) (by decide) (by decide)
    (by decide) (by decide) hcall limit trivial
  rw [hread]
  rfl

end Reader

end Stream

end NamedContent
