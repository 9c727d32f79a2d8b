import NamedContent.Proofs.Stream.Assembly
import NamedContent.Proofs.Stream.Course
import NamedContent.Proofs.Stream.Naming

/-! # What an application is given

An application asks for the stream with a name, or for the one that an object at hand belongs to.
Reading begins with one object, the one at hand or the one that is found first, and goes on with the
objects that come for the segments. Each of them is checked before its content is used or a
tombstone is seen in it, whatever the network does. But only the first object is asked whether it is
a tombstone: one that comes for a segment counts as a segment without content.

* `Stream.Request`, `Stream.Reader.answer`: the two ways to ask
* `Stream.Reader.Answers`, `Stream.Reader.answer_cases`: the objects that an answer depends on
* `Stream.Reader.answer_tombstones`: where a tombstone is seen
* `Stream.Reader.answer_passes_over_tombstone`: where it is not
* `Stream.Reader.answer_verified`: only objects that pass are used -/

namespace NamedContent

/-- Whether an error says that there is a tombstone. -/
def ReadError.isGone : ReadError → Bool
  | .gone _ => true
  | _ => false

namespace Stream

/-- What an application asks for. -/
inductive Request where
  /-- The stream with a name. -/
  | name (n : Name)
  /-- The stream that an object at hand belongs to. -/
  | object (o : ContentObject)

namespace Reader

variable {σ : Type}

/-- The object that reading begins with. -/
def start (r : Reader σ) : Request → Action σ ReadError ContentObject
  | .name n => r.first n
  | .object o => pure o

/-- The stream that is asked for. -/
def answer (r : Reader σ) : Request → Action σ ReadError StreamContent
  | .name n => r.read n
  | .object o => r.readFrom o

/-- To answer a request is to find a first unit and to read from it. -/
theorem answer_eq (r : Reader σ) (q : Request) : r.answer q = r.start q >>= r.readFrom := by
  cases q with
  | name n => exact r.read_eq n
  | object o => rfl

/-! ## The objects that an answer depends on -/

/-- A call that fails is no tombstone. -/
theorem face_failsWith {α : Type} (x : Action σ FaceError α) :
    (Action.mapError ReadError.face x).FailsWith fun e => e.isGone = false := by
  refine .mapError (fun cause => ?_) x
  rfl

/-- If asking for one object fails, it is not for a tombstone. -/
theorem require_failsWith (r : Reader σ) (i : Interest) (name : Name) :
    (r.require i name).FailsWith fun e => e.isGone = false := by
  refine .bind (face_failsWith _) fun found => ?_
  cases found with
  | some o => exact .pure o
  | none => exact .fail rfl

/-- If looking for the newest version fails, it is not for a tombstone. -/
theorem discover_failsWith (r : Reader σ) (root : Name) (limit : Nat) {exclude : Exclude}
    {best : Option ContentObject} {timeout : UInt64} :
    (r.discover root limit exclude best timeout).FailsWith fun e => e.isGone = false := by
  induction limit generalizing exclude best timeout with
  | zero => exact .fail rfl
  | succ limit ih =>
    rw [discover.eq_def]
    refine .bind (face_failsWith _) fun found => ?_
    cases found with
    | none =>
      cases best with
      | some o => exact .pure o
      | none => exact .fail rfl
    | some o =>
      dsimp only
      split
      · cases best with
        | some o => exact .pure o
        | none => exact .fail rfl
      · split
        · exact ih
        · exact ih

/-- What reading begins with may be missing, but that is no tombstone. -/
theorem start_failsWith (r : Reader σ) (q : Request) :
    (r.start q).FailsWith fun e => e.isGone = false := by
  cases q with
  | object o => exact .pure o
  | name n =>
    show (r.first n).FailsWith _
    rw [first]
    split
    · exact r.require_failsWith _ _
    · exact r.discover_failsWith _ _

/-- Whether there is nothing to begin with. -/
def FailsEarly (r : Reader σ) (q : Request) (s : σ) : Prop :=
  ∃ e s', r.start q s = (.error e, s') ∧ r.answer q s = (.error e, s') ∧ e.isGone = false

/-- Whether a request is answered with a result, beginning with an object and going on with those
that come, in their order. -/
def Answers (r : Reader σ) (q : Request) (s : σ) (first : ContentObject)
    (received : List ContentObject) (result : Except ReadError StreamContent) : Prop :=
  ∃ t s', r.start q s = (.ok first, t) ∧ r.answer q s = (result, s')
    ∧ r.receiving.readFrom first (t, []) = (result, s', received)

/-- **Every request is answered** by reading from an object, if there is one to begin with. -/
theorem answer_cases (r : Reader σ) (q : Request) (s : σ) :
    r.FailsEarly q s ∨ ∃ first received result, r.Answers q s first received result
      ∧ Reads r (fun _ _ => True) first received result := by
  have hanswer : r.answer q s = (r.start q >>= r.readFrom) s := by rw [answer_eq]
  rw [Action.bind_run] at hanswer
  have hfails := r.start_failsWith q s
  rcases hstart : r.start q s with ⟨e | first, t⟩ <;> rw [hstart] at hanswer hfails
  · exact .inl ⟨e, t, hstart, hanswer, hfails e rfl⟩
  · -- nothing is known of the objects that come
    have hfetch : ∀ index, (r.fetch (.exact (first.name.segmentRoot.segment index))
        r.config.fetchTimeout).Ensures (fun _ => True) fun found => ∀ o ∈ found, True :=
      fun _ _ _ => ⟨trivial, fun _ _ _ _ => trivial⟩
    obtain ⟨result, s', received, hplain, hnoted, hreads⟩ :=
      receiving_readFrom (Q := fun _ _ => True) hfetch (s := t) trivial
    exact .inr ⟨first, received, result, ⟨t, s', hstart, hanswer.trans hplain, hnoted⟩, hreads⟩

/-! ## Tombstones -/

/-- Objects without content can be left out. -/
theorem flatMap_filter_of_nil {p : ContentObject → Bool} {units : List ContentObject}
    (h : ∀ o ∈ units, p o = false → o.content = []) :
    (units.filter p).flatMap (·.content) = units.flatMap (·.content) := by
  induction units with
  | nil => rfl
  | cons o rest ih =>
    obtain ⟨ho, hrest⟩ := List.forall_mem_cons.1 h
    cases hp : p o with
    | true => simp [hp, ih hrest]
    | false => simp [hp, ho hp, ih hrest]

/-- **A tombstone is seen in the first object**, just when it is one and may be used, and nowhere
else. What is read has no content of a tombstone: one that comes for a segment has none to give, but
counts as a segment. -/
theorem answer_tombstones (r : Reader σ) (q : Request) (s : σ) :
    r.FailsEarly q s ∨ ∃ first received result, r.Answers q s first received result
      ∧ (∀ n, result = .error (.gone n) ↔
        r.check first = .ok () ∧ first.isGone = true ∧ n = first.name)
      ∧ ∀ stream, result = .ok stream →
        first.isGone = false
        ∧ stream.content
          = ((parts first received).filter fun o => !o.isGone).flatMap (·.content)
        ∧ stream.segments = (parts first received).length
        ∧ ∀ o ∈ parts first received, o.isGone = true → o ∈ received ∧ o.content = [] := by
  rcases r.answer_cases q s with hearly | ⟨first, received, result, hanswers, hreads⟩
  · exact .inl hearly
  refine .inr ⟨first, received, result, hanswers, fun n => hreads.eq_gone_iff, ?_⟩
  rintro stream rfl
  obtain ⟨-, hgone, hcame, hstream, -⟩ := hreads.of_ok
  -- a tombstone is not the first object, and has passed the check as all others
  have htombstone : ∀ o ∈ parts first received, o.isGone = true →
      o ∈ received ∧ o.content = [] := by
    intro o ho htype
    rcases mem_of_mem_parts ho with rfl | ho
    · exact absurd (hgone.symm.trans htype) (by simp)
    · obtain ⟨-, hempty⟩ := (check_eq_ok_iff.1 (hcame o ho).1).1
      exact ⟨ho, hempty (eq_of_beq htype)⟩
  have hcontent := flatMap_filter_of_nil (p := fun o => !o.isGone) fun o ho hp =>
    (htombstone o ho (by simpa using hp)).2
  exact ⟨hgone, by rw [hcontent, hstream], by rw [hstream], htombstone⟩

/-- **A tombstone in place of a segment ends the stream before its time.** Three segments have been
published, and then the second is replaced by a tombstone. What is read is the first segment, as if
it was the whole stream of two segments. -/
theorem answer_passes_over_tombstone :
    let config : Config := { verifySignatures := false }
    let base := (Name.root.child ⟨[97]⟩).withVersion ⟨1⟩
    let info : SignedInfo := ⟨default, ⟨0⟩, .data, none, some (segmentComponent 2)⟩
    let first := segmentOf base info (0, [1])
    let tombstone := segmentOf base ⟨default, ⟨0⟩, .gone, none, none⟩ (1, [])
    let units := [first, tombstone, segmentOf base info (2, [3])]
    let r : Reader Unit := ⟨shelf units, .echo, config, 8⟩
    tombstone.isGone = true ∧ r.check tombstone = .ok ()
      ∧ r.Answers (.object first) () first [tombstone] (.ok ⟨base, [1], 2⟩)
      ∧ r.Answers (.name base) () first [tombstone] (.ok ⟨base, [1], 2⟩)
      ∧ parts first [tombstone] = [first, tombstone] := by
  intro config base info first tombstone units r
  refine ⟨by decide, by decide, ⟨(), (), rfl, ?_, ?_⟩, ⟨(), (), ?_, ?_, ?_⟩, by decide⟩ <;>
    decide +kernel

/-! ## Only objects that pass are used -/

/-- Whether an object keeps the rules and is found to be genuine. -/
def Passes (r : Reader σ) (o : ContentObject) : Prop :=
  o.validate = .ok () ∧ o.verify r.verifier = .ok true

/-- Where signatures are checked, the objects that may be used are those that pass. -/
theorem check_eq_ok_iff_passes {r : Reader σ} (hverify : r.config.verifySignatures = true)
    {o : ContentObject} : r.check o = .ok () ↔ r.Passes o := by
  rw [check_eq_ok_iff, Passes, ContentObject.validate_eq_ok_iff]
  exact and_congr_right fun _ => ⟨fun h => h hverify, fun h _ => h⟩

/-- **Only objects that pass are used**, whatever the network does. What is read is the contents of
such objects, a tombstone that is seen is such an object, and the first object that does not pass
ends the reading in an error that says why. -/
theorem answer_verified (r : Reader σ) (hverify : r.config.verifySignatures = true) (q : Request)
    (s : σ) :
    r.FailsEarly q s ∨ ∃ first received result, r.Answers q s first received result
      ∧ (∀ stream, result = .ok stream →
        (∀ o ∈ parts first received, r.Passes o)
          ∧ stream.content = (parts first received).flatMap (·.content))
      ∧ (∀ n, result = .error (.gone n) → r.Passes first ∧ first.isGone = true ∧ n = first.name)
      ∧ ∀ o ∈ first :: received, ¬ r.Passes o →
        (∃ e, r.check o = .error e ∧ e.isRefusal = true ∧ result = .error e)
          ∧ (first :: received).getLast? = some o := by
  rcases r.answer_cases q s with hearly | ⟨first, received, result, hanswers, hreads⟩
  · exact .inl hearly
  refine .inr ⟨first, received, result, hanswers, ?_, fun n hgone => ?_, fun o ho hfails => ?_⟩
  · -- a stream that was put together had all its parts checked
    rintro stream rfl
    obtain ⟨hfirst, -, hcame, hstream, -⟩ := hreads.of_ok
    refine ⟨fun o ho => (check_eq_ok_iff_passes hverify).1 ?_, by rw [hstream]⟩
    rcases mem_of_mem_parts ho with rfl | ho
    · exact hfirst
    · exact (hcame o ho).1
  · obtain ⟨hfirst, hsame⟩ := hreads.eq_gone_iff.1 hgone
    exact ⟨(check_eq_ok_iff_passes hverify).1 hfirst, hsame⟩
  · cases hcheck : r.check o with
    | ok _ => exact absurd ((check_eq_ok_iff_passes hverify).1 hcheck) hfails
    | error e =>
      obtain ⟨hresult, hlast⟩ := hreads.of_check_error ho hcheck
      exact ⟨⟨e, rfl, isRefusal_of_check hcheck, hresult⟩, hlast⟩

/-- The segment at hand is genuine for a verifier that believes everything, and the network answers
for the next one with an object without a signature. -/
theorem answer_verified_forged :
    let base := (Name.root.child ⟨[97]⟩).withVersion ⟨1⟩
    let info : SignedInfo := ⟨default, ⟨0⟩, .data, none, some (segmentComponent 1)⟩
    let first := { segmentOf base info (0, [1]) with signature := some ⟨default⟩ }
    let forged := segmentOf base info (1, [9])
    let r : Reader Unit := ⟨shelf [forged], ⟨fun _ _ _ => .ok true⟩, {}, 8⟩
    r.answer (.object first) () = (.error (.signing .missingSignature), ())
      ∧ r.Answers (.object first) () first [forged] (.error (.signing .missingSignature)) := by
  intro base info first forged r
  rcases answer_verified r rfl (.object first) () with
    ⟨e, s', hstart, -⟩ | ⟨first', received, result, ⟨t, s', hstart, hanswer, hnoted⟩, -, -, hlast⟩
  · cases hstart
  · obtain ⟨rfl, rfl⟩ : first = first' ∧ () = t := ⟨Except.ok.inj (congrArg Prod.fst hstart), rfl⟩
    have hcame : (r.receiving.readFrom first ((), [])).2.2 = [forged] := by decide +kernel
    obtain rfl : received = [forged] := (congrArg (·.2.2) hnoted).symm.trans hcame
    have hunsigned : forged.verify r.verifier = .error .missingSignature := rfl
    obtain ⟨⟨e, hcheck, -, rfl⟩, -⟩ := hlast forged (by simp) fun hpasses =>
      nomatch hunsigned.symm.trans hpasses.2
    obtain rfl : ReadError.signing .missingSignature = e :=
      Except.error.inj (show r.check forged = _ from hcheck)
    exact ⟨hanswer, (), s', rfl, hanswer, hnoted⟩

end Reader

end Stream

end NamedContent
