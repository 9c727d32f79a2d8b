import Mathlib.Data.Finset.Card
import NamedContent.Proofs.Interest.Selection
import NamedContent.Proofs.Name.Versions
import NamedContent.Proofs.Stream.Recording

/-! # The latest version is found

Version discovery asks for children of a name and excludes what it has seen: all up to a version
that it finds, other children one by one. Whichever of the right answers it gets, each excludes one
more of the components there are, and nothing is left out but what is not greater than the best
version so far. So it comes to an end after one call for each component and one more, and what it
ends with is the greatest version of all that is published.

* `Stream.Reader.ServesChildren`: a network that answers what discovery asks
* `Stream.Reader.Seen`: what the exclusion and the best version so far have to do with each other
* `Stream.Reader.discover_step`: what one call does
* `Stream.Reader.latest_finds`: what discovery comes to, and in how many calls
* `Stream.Reader.latest_eq_ok`, `Stream.Reader.latest_eq_error`: where there are versions only -/

namespace NamedContent

/-- The child of a name below which an object lies. -/
def ContentObject.childBelow (o : ContentObject) (root : Name) : Option Component :=
  o.name.component? root.length

/-- Whether an object lies at or below a child of a name. -/
structure ContentObject.LiesBelow (o : ContentObject) (root : Name) (c : Component) : Prop where
  leads : root.isPrefixOf o.name = true
  child : o.childBelow root = some c

namespace Stream

/-- Whether some objects all lie at or below versions of a name. -/
def Versioned (root : Name) (units : List ContentObject) : Prop :=
  ∀ o ∈ units, root.isPrefixOf o.name = true
    ∧ ∃ v, v.isVersion = true ∧ o.childBelow root = some v

/-- The components directly below a name that occur in some objects. -/
def children (root : Name) (units : List ContentObject) : Finset Component :=
  ((units.filter fun o => root.isPrefixOf o.name).filterMap (·.childBelow root)).toFinset

variable {root : Name} {units : List ContentObject} {c : Component}

/-- The children of a name are the components that units lie below. -/
theorem mem_children : c ∈ children root units ↔ ∃ o ∈ units, o.LiesBelow root c := by
  simp only [children, List.mem_toFinset, List.mem_filterMap, List.mem_filter]
  exact ⟨fun ⟨o, ⟨ho, hleads⟩, hchild⟩ => ⟨o, ho, hleads, hchild⟩,
    fun ⟨o, ho, hleads, hchild⟩ => ⟨o, ⟨ho, hleads⟩, hchild⟩⟩

/-- There are no more of them than units. -/
theorem card_children_le (root : Name) (units : List ContentObject) :
    (children root units).card ≤ units.length := by
  refine (List.toFinset_card_le _).trans ?_
  exact (List.length_filterMap_le _ _).trans (List.length_filter_le _ _)

namespace Reader

variable {σ : Type} {Inv : σ → Prop} {r : Reader σ} {exclude : Exclude}
  {best : Option ContentObject} {timeout : UInt64} {s : σ}

/-- A network that gives right answers to all interests below a name when some objects are published
there, in every state of a kind that fetching keeps. -/
def Serves (r : Reader σ) (Inv : σ → Prop) (root : Name) (units : List ContentObject) : Prop :=
  ∀ i : Interest, root.isPrefixOf i.name = true → i.Valid → ∀ timeout, timeout ≠ 0 → ∀ s, Inv s →
    ∃ found s', r.fetch i timeout s = (.ok found, s') ∧ i.Answers units found ∧ Inv s'

/-! ## Asking for children -/

/-- The interest in further children is valid. -/
theorem valid_childInterest (root : Name) (exclude : Exclude) :
    (childInterest root exclude).Valid := rfl

/-- An object below a child of a name answers, unless that child is excluded. -/
theorem accepts_childInterest {o : ContentObject} {v : Component}
    (hroot : root.isPrefixOf o.name = true) (hv : o.childBelow root = some v)
    (exclude : Exclude) : (childInterest root exclude).accepts o = !exclude.excludes v := by
  have hlt : root.length < o.name.length := (List.getElem?_eq_some_iff.1 hv).1
  have hone : 1 ≤ o.name.length - root.length := by omega
  have hnext : o.name.component? root.length = some v := hv
  simp [childInterest, Interest.accepts, Interest.matchesName, Interest.below, hroot, hnext, hone]

/-- What answers lies below a child that is not excluded. -/
theorem exists_liesBelow_of_accepts {o : ContentObject}
    (h : (childInterest root exclude).accepts o = true) :
    ∃ c, o.LiesBelow root c ∧ exclude.excludes c = false := by
  have hmatches : (childInterest root exclude).matchesName o.name = true := h
  simp only [Interest.matchesName, childInterest, Interest.below, Bool.and_eq_true,
    Option.all_some] at hmatches
  obtain ⟨⟨⟨hleads, hlonger⟩, -⟩, -⟩ := hmatches
  have hlt : root.components.length < o.name.components.length :=
    Nat.lt_of_sub_pos (of_decide_eq_true hlonger)
  have hchild : o.childBelow root = some o.name.components[root.components.length] :=
    List.getElem?_eq_getElem hlt
  rw [accepts_childInterest hleads hchild, Bool.not_eq_true'] at h
  exact ⟨_, ⟨hleads, hchild⟩, h⟩

/-- Whether discovery waits for a time for an answer. -/
def Waits (r : Reader σ) (timeout : UInt64) : Prop :=
  timeout = r.config.fetchTimeout ∨ timeout = r.config.latestVersionTimeout

/-- A network that gives right answers to what discovery asks below a name when some objects are
published: any of them that answers, or none if none does. -/
def ServesChildren (r : Reader σ) (Inv : σ → Prop) (root : Name) (units : List ContentObject) :
    Prop :=
  ∀ exclude timeout, r.Waits timeout → ∀ s, Inv s → ∃ found s',
    r.fetch (childInterest root exclude) timeout s = (.ok found, s')
      ∧ (childInterest root exclude).Answers units found ∧ Inv s'

/-- A network that serves all interests below a name serves those of discovery. -/
theorem Serves.servesChildren (h : r.Serves Inv root units) (hfetch : r.config.fetchTimeout ≠ 0)
    (hlatest : r.config.latestVersionTimeout ≠ 0) : r.ServesChildren Inv root units := by
  intro exclude timeout hwaits
  refine h _ (Name.isPrefixOf_refl root) (valid_childInterest root exclude) timeout ?_
  rcases hwaits with rfl | rfl
  · exact hfetch
  · exact hlatest

/-- The exclusion of everything up to a version, if there is one. -/
def upTo (through : Option Component) : Exclude := ⟨through, .empty⟩

/-! ## What is excluded -/

/-- A component that is added is excluded besides the others. -/
theorem excludes_add (exclude : Exclude) (c d : Component) :
    (exclude.add c).excludes d = (exclude.excludes d || decide (d = c)) := by
  have hinsert : (exclude.components.insert c).contains d
      = (decide (d = c) || exclude.components.contains d) := by
    rw [Bool.eq_iff_iff, Bool.or_eq_true, OrderedSet.contains_iff, OrderedSet.contains_iff,
      OrderedSet.mem_insert, decide_eq_true_eq]
  rw [Exclude.excludes, Exclude.excludes, Exclude.add, hinsert, Bool.or_assoc,
    Bool.or_comm (decide (d = c))]

/-- The components that discovery has not excluded yet. -/
def remaining (root : Name) (units : List ContentObject) (exclude : Exclude) : Finset Component :=
  (children root units).filter fun c => exclude.excludes c = false

/-- Once one more of the components is excluded, and none that was is let in again, fewer remain. -/
theorem card_remaining_lt {exclude' : Exclude} {o : ContentObject} (ho : o ∈ units)
    (hbelow : o.LiesBelow root c) (hc : exclude.excludes c = false)
    (hc' : exclude'.excludes c = true)
    (hkeeps : ∀ d, exclude.excludes d = true → exclude'.excludes d = true) :
    (remaining root units exclude').card < (remaining root units exclude).card := by
  refine Finset.card_lt_card (Finset.ssubset_iff_of_subset ?_ |>.2 ⟨c, ?_, ?_⟩)
  · intro d hd
    obtain ⟨hd, hout⟩ := Finset.mem_filter.1 hd
    refine Finset.mem_filter.2 ⟨hd, ?_⟩
    cases hin : exclude.excludes d with
    | false => rfl
    | true => exact absurd (hkeeps d hin) (by rw [hout]; exact Bool.false_ne_true)
  · exact Finset.mem_filter.2 ⟨mem_children.2 ⟨o, ho, hbelow⟩, hc⟩
  · intro hmem
    have hout := (Finset.mem_filter.1 hmem).2
    exact absurd (hout.symm.trans hc') Bool.false_ne_true

/-! ## Discovery -/

/-- Whether an object lies below the greatest version of all that is published. -/
def IsLatest (root : Name) (units : List ContentObject) (o : ContentObject) : Prop :=
  o ∈ units ∧ ∀ p ∈ units, ∀ v w, p.childBelow root = some v → o.childBelow root = some w → v ≤ w

/-- Whether an object is published below the greatest of the versions directly below a name, among
whatever else is published there. -/
structure IsNewest (root : Name) (units : List ContentObject) (o : ContentObject) : Prop where
  mem : o ∈ units
  greatest : ∃ v, o.LiesBelow root v ∧ v.isVersion = true
    ∧ ∀ p ∈ units, ∀ w, p.LiesBelow root w → w.isVersion = true → w ≤ v

/-- Whether no version occurs directly below a name. -/
def NoVersion (root : Name) (units : List ContentObject) : Prop :=
  ∀ p ∈ units, ∀ w, p.LiesBelow root w → w.isVersion = false

/-- What discovery has seen: the best version so far, up to which all is excluded, and children that
are no versions, which are excluded one by one. -/
structure Seen (root : Name) (units : List ContentObject) (exclude : Exclude)
    (best : Option ContentObject) : Prop where
  through : exclude.through = best.bind (·.childBelow root)
  best : ∀ o ∈ best, o ∈ units ∧ ∃ v, o.LiesBelow root v ∧ v.isVersion = true
  others : ∀ c, exclude.components.contains c = true → c.isVersion = false

/-- Before the first question nothing is seen. -/
theorem seen_none (root : Name) (units : List ContentObject) :
    Seen root units Exclude.none none :=
  ⟨rfl, nofun, fun _ h => absurd h (by simp [Exclude.none, OrderedSet.contains, OrderedSet.empty])⟩

/-- What discovery ends with when nothing answers any more. -/
def conclude (root : Name) : Option ContentObject → Except ReadError ContentObject
  | some o => .ok o
  | none => .error (.noVersionFound root)

/-- Whether a result of discovery is right. -/
def Concludes (root : Name) (units : List ContentObject) : Except ReadError ContentObject → Prop
  | .ok o => IsNewest root units o
  | .error e => e = .noVersionFound root ∧ NoVersion root units

/-- Versions are excluded by the best one alone. -/
theorem Seen.excludes_version (h : Seen root units exclude best) {w : Component}
    (hw : w.isVersion = true) :
    exclude.excludes w = exclude.through.any fun bound => decide (w ≤ bound) := by
  have hother : exclude.components.contains w = false := by
    cases hin : exclude.components.contains w with
    | false => rfl
    | true => exact absurd (hw.symm.trans (h.others w hin)) (by simp)
  rw [Exclude.excludes, hother, Bool.or_false]

/-- **When all that is left is excluded, the best version so far is the greatest.** -/
theorem Seen.concludes (h : Seen root units exclude best)
    (hnone : (childInterest root exclude).Answers units none) :
    Concludes root units (conclude root best) := by
  -- a version not excluded would have been an answer
  have hexcluded : ∀ p ∈ units, ∀ w, p.LiesBelow root w → w.isVersion = true →
      (exclude.through.any fun bound => decide (w ≤ bound)) = true := by
    intro p hp w hbelow hw
    have hno := hnone p hp
    rwa [accepts_childInterest hbelow.leads hbelow.child, h.excludes_version hw,
      Bool.not_eq_false'] at hno
  rw [h.through] at hexcluded
  cases best with
  | none =>
    refine ⟨rfl, fun p hp w hbelow => ?_⟩
    cases hw : w.isVersion with
    | false => rfl
    | true => exact absurd (hexcluded p hp w hbelow hw) Bool.false_ne_true
  | some o =>
    obtain ⟨ho, v, hbelow, hv⟩ := h.best o rfl
    refine ⟨ho, v, hbelow, hv, fun p hp w hw hversion => ?_⟩
    have hle := hexcluded p hp w hw hversion
    rw [Option.bind_some, hbelow.child, Option.any_some, decide_eq_true_eq] at hle
    exact hle

/-- A version that was found is the best from then on. -/
theorem Seen.version (h : Seen root units exclude best) {o : ContentObject} (ho : o ∈ units)
    (hbelow : o.LiesBelow root c) (hc : c.isVersion = true) :
    Seen root units { exclude with through := some c } (some o) where
  through := hbelow.child.symm
  best p hp := by
    obtain rfl := Option.some.inj hp
    exact ⟨ho, c, hbelow, hc⟩
  others := h.others

/-- A child that is no version is excluded alone. -/
theorem Seen.other (h : Seen root units exclude best) (hc : c.isVersion = false) :
    Seen root units (exclude.add c) best where
  through := h.through
  best := h.best
  others d hd := by
    rw [Exclude.add, OrderedSet.contains_iff, OrderedSet.mem_insert] at hd
    rcases hd with rfl | hd
    · exact hc
    · exact h.others d (OrderedSet.contains_iff.2 hd)

/-- What was excluded is excluded up to a greater version as well. -/
theorem excludes_through {d : Component} (hc : exclude.excludes c = false)
    (hd : exclude.excludes d = true) :
    ({ exclude with through := some c } : Exclude).excludes d = true := by
  rw [Exclude.excludes, Bool.or_eq_false_iff] at hc
  rw [Exclude.excludes, Bool.or_eq_true] at hd ⊢
  refine hd.imp_left fun hd => ?_
  cases hthrough : exclude.through with
  | none =>
    rw [hthrough] at hd
    exact absurd hd Bool.false_ne_true
  | some bound =>
    rw [hthrough, Option.any_some, decide_eq_true_eq] at hd
    rw [hthrough, Option.any_some, decide_eq_false_iff_not] at hc
    have hle : bound ≤ c := (Std.le_total (a := bound) (b := c)).resolve_right hc.1
    exact decide_eq_true (Std.le_trans hd hle)

/-! ## One call after the other -/

/-- When nothing more is found, the search ends with the best it has. -/
theorem discover_of_none {limit : Nat} {s' : σ}
    (h : r.fetch (childInterest root exclude) timeout s = (.ok none, s')) :
    r.discover root (limit + 1) exclude best timeout s = (conclude root best, s') := by
  cases best <;> simp only [discover, Action.bind_run, Action.mapError, h] <;> rfl

/-- **When something is found**, the search goes on behind it, or beside it if it is no version. -/
theorem discover_of_some {limit : Nat} {s' : σ} {o : ContentObject}
    (h : r.fetch (childInterest root exclude) timeout s = (.ok (some o), s'))
    (hchild : o.childBelow root = some c) :
    r.discover root (limit + 1) exclude best timeout s
      = if c.isVersion then
          r.discover root limit { exclude with through := some c } (some o)
            r.config.latestVersionTimeout s'
        else r.discover root limit (exclude.add c) best timeout s' := by
  have hcomponent : o.name.component? root.length = some c := hchild
  cases hc : c.isVersion <;>
    simp only [discover, Action.bind_run, Action.mapError, h, hcomponent, hc] <;> rfl

/-- **One call of discovery** ends it with a right result, or excludes one more of the components
that remain. -/
theorem discover_step (hserve : r.ServesChildren Inv root units)
    (hseen : Seen root units exclude best) (hwaits : r.Waits timeout) (hs : Inv s) :
    ∃ s', Inv s' ∧
      ((Concludes root units (conclude root best) ∧ ∀ limit asked,
          r.recording.discover root (limit + 1) exclude best timeout (s, asked)
            = (conclude root best, s', asked ++ [childInterest root exclude]))
        ∨ ∃ exclude' best' timeout', Seen root units exclude' best' ∧ r.Waits timeout'
          ∧ (remaining root units exclude').card < (remaining root units exclude).card
          ∧ ∀ limit asked,
            r.recording.discover root (limit + 1) exclude best timeout (s, asked)
              = r.recording.discover root limit exclude' best' timeout'
                  (s', asked ++ [childInterest root exclude])) := by
  obtain ⟨found, s', hfetch, hanswer, hs'⟩ := hserve exclude timeout hwaits s hs
  have hrecord : ∀ asked, r.recording.fetch (childInterest root exclude) timeout (s, asked)
      = (.ok found, s', asked ++ [childInterest root exclude]) := by
    intro asked
    simp only [recording, noting, via, hfetch]
  refine ⟨s', hs', ?_⟩
  cases found with
  | none => exact .inl ⟨hseen.concludes hanswer, fun _ asked => discover_of_none (hrecord asked)⟩
  | some o =>
    obtain ⟨ho, haccepts⟩ := hanswer
    obtain ⟨c, hbelow, hc⟩ := exists_liesBelow_of_accepts haccepts
    have hnext : ∀ limit asked,
        r.recording.discover root (limit + 1) exclude best timeout (s, asked)
          = if c.isVersion then
              r.recording.discover root limit { exclude with through := some c } (some o)
                r.config.latestVersionTimeout (s', asked ++ [childInterest root exclude])
            else r.recording.discover root limit (exclude.add c) best timeout
              (s', asked ++ [childInterest root exclude]) :=
      fun _ asked => discover_of_some (hrecord asked) hbelow.child
    right
    -- a version raises the bound, any other child is excluded alone: both exclude the child found
    cases hversion : c.isVersion with
    | true =>
      refine ⟨_, _, _, hseen.version ho hbelow hversion, .inr rfl, ?_, fun limit asked => ?_⟩
      · refine card_remaining_lt ho hbelow hc ?_ fun d => excludes_through hc
        simp [Exclude.excludes]
      · rw [hnext, if_pos hversion]
    | false =>
      refine ⟨_, _, _, hseen.other hversion, hwaits, ?_, fun limit asked => ?_⟩
      · refine card_remaining_lt ho hbelow hc ?_ fun d hd => ?_
        · rw [excludes_add, decide_eq_true rfl, Bool.or_true]
        · rw [excludes_add, hd, Bool.true_or]
      · rw [hnext, hversion]
        rfl

/-- **Discovery goes on to a right result**, by induction on the number of components that remain:
each takes one call at most, and the last call finds none. -/
theorem discover_finds (hserve : r.ServesChildren Inv root units)
    (hseen : Seen root units exclude best) (hwaits : r.Waits timeout) (hs : Inv s)
    (asked : List Interest) :
    ∃ result s' more, more.length ≤ (remaining root units exclude).card + 1 ∧ Inv s'
      ∧ Concludes root units result
      ∧ ∀ limit, (remaining root units exclude).card < limit →
        r.recording.discover root limit exclude best timeout (s, asked)
          = (result, s', asked ++ more) := by
  induction hcard : (remaining root units exclude).card using Nat.strong_induction_on
    generalizing exclude best timeout s asked with
  | _ count ih =>
    obtain ⟨s₁, hs₁, hstep⟩ := discover_step hserve hseen hwaits hs
    rcases hstep with
      ⟨hright, hlast⟩ | ⟨exclude', best', timeout', hseen', hwaits', hless, hnext⟩
    · refine ⟨conclude root best, s₁, [childInterest root exclude], by simp, hs₁, hright,
        fun limit hlimit => ?_⟩
      obtain ⟨limit, rfl⟩ := Nat.exists_eq_add_of_lt hlimit
      exact hlast (count + limit) asked
    · -- the calls that follow are made in the state that this one leaves, with one fewer to come
      rw [hcard] at hless
      obtain ⟨result, s', more, hlength, hs', hright, hrest⟩ :=
        ih _ hless hseen' hwaits' hs₁ (asked ++ [childInterest root exclude]) rfl
      refine ⟨result, s', childInterest root exclude :: more, ?_, hs', hright,
        fun limit hlimit => ?_⟩
      · rw [List.length_cons]
        omega
      · obtain ⟨limit, rfl⟩ := Nat.exists_eq_add_of_lt hlimit
        rw [hnext (count + limit), hrest (count + limit) (by omega), List.append_assoc,
          List.singleton_append]

/-- **Discovery finds the greatest version.** A network answers each call with any published object
that the interest allows, and with none only if there is none. Then discovery ends, whatever the
limit on calls as long as it is greater than the number of different components directly below the
name, and has made one call more than that at most. It returns an object below the greatest version
that occurs there, among whatever else does, or finds that no version does. -/
theorem latest_finds (hserve : r.ServesChildren Inv root units) (hs : Inv s) :
    ∃ result s' asked, asked.length ≤ (children root units).card + 1 ∧ Inv s'
      ∧ (∀ limit, (children root units).card < limit →
        (r.withLimit limit).latest root s = (result, s')
          ∧ (r.recording.withLimit limit).latest root (s, []) = (result, s', asked))
      ∧ ((∃ o, result = .ok o) ∨ result = .error (.noVersionFound root))
      ∧ (∀ o, result = .ok o → IsNewest root units o)
      ∧ (result = .error (.noVersionFound root) ↔ NoVersion root units) := by
  obtain ⟨result, s', asked, hlength, hs', hright, hread⟩ :=
    discover_finds hserve (seen_none root units) (.inl rfl) hs []
  have hall : (remaining root units Exclude.none).card ≤ (children root units).card :=
    Finset.card_le_card (Finset.filter_subset _ _)
  refine ⟨result, s', asked, by omega, hs', fun limit hlimit => ?_, ?_, ?_, ?_⟩
  · have hrecorded := hread limit (by omega)
    -- what the recording reader finds, the reader finds without it
    have hplain := recording_discover r root limit Exclude.none none r.config.fetchTimeout s []
    rw [hrecorded] at hplain
    rw [latest, latest, withLimit_discover, withLimit_discover]
    exact ⟨hplain, hrecorded⟩
  · cases result with
    | ok o => exact .inl ⟨o, rfl⟩
    | error e => exact .inr (congrArg Except.error hright.1)
  · rintro o rfl
    exact hright
  · cases result with
    | ok o =>
      obtain ⟨ho, v, hbelow, hv, -⟩ := hright
      exact ⟨nofun, fun hno => absurd (hv.symm.trans (hno o ho v hbelow)) (by simp)⟩
    | error e => exact ⟨fun _ => hright.2, fun _ => congrArg Except.error hright.1⟩

/-- The network answers with the first object that does, not with the rightmost, and the versions
have siblings that come before and behind them in the order of components. -/
theorem latest_finds_among_siblings :
    let root : Name := ⟨[⟨[97]⟩]⟩
    let units := [⟨[0xFD, 1]⟩, ⟨[122]⟩, ⟨[0xFE]⟩, ⟨[0xFD, 2]⟩].map fun c =>
      (⟨root.child c, ⟨default, ⟨0⟩, .data, none, none⟩, [], none⟩ : ContentObject)
    let r : Reader Unit := ⟨fun i _ s => (.ok (units.find? i.accepts), s), .ed25519, {}, 0⟩
    ∃ o asked, asked.length ≤ 5 ∧ IsNewest root units o
      ∧ ∀ limit, 4 < limit → (r.withLimit limit).latest root () = (.ok o, ())
        ∧ (r.recording.withLimit limit).latest root ((), []) = (.ok o, (), asked) := by
  intro root units r
  have hserve : r.ServesChildren (fun _ => True) root units := by
    intro exclude timeout _ s _
    refine ⟨_, s, rfl, ?_, trivial⟩
    cases hfind : units.find? (childInterest root exclude).accepts with
    | none => exact fun o ho => by simpa using List.find?_eq_none.1 hfind o ho
    | some o => exact ⟨List.mem_of_find?_eq_some hfind, List.find?_some hfind⟩
  have hcard : (children root units).card = 4 := by decide
  obtain ⟨result, ⟨⟩, asked, hlength, -, hread, ⟨o, rfl⟩ | rfl, hnewest, hnone⟩ :=
    latest_finds (s := ()) hserve trivial
  · rw [hcard] at hlength hread
    exact ⟨o, asked, hlength, hnewest o rfl, hread⟩
  · have hno := hnone.1 rfl _ List.mem_cons_self ⟨[0xFD, 1]⟩ ⟨rfl, rfl⟩
    exact absurd hno (by decide)

/-! ## Versions only -/

/-- **When nothing is published, discovery finds that out.** -/
theorem latest_eq_error (hserve : r.Serves Inv root []) (htimeout : r.config.fetchTimeout ≠ 0)
    (hlimit : 0 < r.limit) {s : σ} (hs : Inv s) :
    ∃ s', r.latest root s = (.error (.noVersionFound root), s') ∧ Inv s' := by
  obtain ⟨found, s', hfetch, hanswer, hs'⟩ := hserve _ (Name.isPrefixOf_refl root)
    (valid_childInterest root Exclude.none) _ htimeout s hs
  obtain ⟨limit, hsucc⟩ := Nat.exists_eq_add_of_lt hlimit
  cases found with
  | none =>
    refine ⟨s', ?_, hs'⟩
    rw [latest, hsucc]
    exact discover_of_none hfetch
  | some o => exact absurd hanswer.1 List.not_mem_nil

/-- **Discovery finds an object of the greatest version**, in no more calls than there are objects
and one. -/
theorem latest_eq_ok (hserve : r.Serves Inv root units) (hversions : Versioned root units)
    (hunits : units ≠ []) (hfetchTimeout : r.config.fetchTimeout ≠ 0)
    (htimeout : r.config.latestVersionTimeout ≠ 0) (hlimit : units.length < r.limit) {s : σ}
    (hs : Inv s) :
    ∃ o s', r.latest root s = (.ok o, s') ∧ IsLatest root units o ∧ Inv s' := by
  obtain ⟨result, s', asked, -, hs', hread, hcases, hnewest, hnone⟩ :=
    latest_finds (hserve.servesChildren hfetchTimeout htimeout) hs
  have hlatest := (hread r.limit (Nat.lt_of_le_of_lt (card_children_le root units) hlimit)).1
  rcases hcases with ⟨o, rfl⟩ | rfl
  · obtain ⟨ho, v, hbelow, -, hgreatest⟩ := hnewest o rfl
    refine ⟨o, s', hlatest, ⟨ho, fun p hp w v' hw hv' => ?_⟩, hs'⟩
    obtain rfl := Option.some.inj (hbelow.child.symm.trans hv')
    obtain ⟨hleads, w', hversion, hw'⟩ := hversions p hp
    obtain rfl := Option.some.inj (hw.symm.trans hw')
    exact hgreatest p hp w ⟨hleads, hw⟩ hversion
  · -- there is an object, and it lies below a version
    obtain ⟨p, rest, rfl⟩ := List.exists_cons_of_ne_nil hunits
    obtain ⟨hleads, w, hversion, hw⟩ := hversions p List.mem_cons_self
    have hno := hnone.1 rfl p List.mem_cons_self w ⟨hleads, hw⟩
    exact absurd (hversion.symm.trans hno) (by simp)

end Reader

end Stream

end NamedContent
