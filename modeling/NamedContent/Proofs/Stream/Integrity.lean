import NamedContent.Proofs.Stream.Course
import NamedContent.Proofs.Stream.Termination

/-! # What is read is one stream

A reader asks for segments by their names, and a network that answers with objects of just these
names gives it the segments of one stream, in order from the first to the last. It is the stream
that the object at hand belongs to, if the name of that stream does not end in a segment component
in its turn: segments of such a name are asked for as segments of the stream above it.

* `Stream.Reader.AnswersByName`: networks that answer with objects of the name asked for
* `Stream.InOrder`: the segments of a stream from the first to the last
* `Stream.Reader.readFrom_inOrder`: the main theorem
* `Stream.Reader.readFrom_mixes_streams`: a segment of another stream -/

namespace NamedContent.Stream

/-- Whether objects are all segments of a stream in order: the first has the first index, each
after it the next one, and exactly the last is a final block. -/
def InOrder (c : Config) (units : List ContentObject) : Prop :=
  Series c (fun index o => o.name.segmentIndex? = some index) true firstSegment units

namespace Reader

variable {σ : Type} {Inv : σ → Prop} {r : Reader σ}

/-- A network that answers a request for a name, if at all, with an object of just that name, in
every state of a kind that fetching keeps. -/
def AnswersByName (r : Reader σ) (Inv : σ → Prop) : Prop :=
  ∀ name, (r.fetch (.exact name) r.config.fetchTimeout).Ensures Inv
    fun found => ∀ o ∈ found, o.name = name

/-- A network that answers from some objects answers by name. -/
theorem DrawsFrom.answersByName {units : List ContentObject} (h : r.DrawsFrom Inv units) :
    r.AnswersByName Inv := by
  intro name s hs
  obtain ⟨hfound, hinv⟩ := h name s hs
  refine ⟨hinv, fun found hok o ho => (hfound o ?_).2⟩
  rw [hok, ho]

/-- **What is read from a segment is one stream in order**, from the first segment to the last. All
segments that come are of the stream that the name of what is read leads to, and so of the very
stream that is read, unless its name is that of a segment in its turn and some segment has come. -/
theorem readFrom_inOrder (hanswers : r.AnswersByName Inv) {first : ContentObject}
    (hsegment : first.name.isSegment = true) {s s' : σ} (hs : Inv s) {stream : StreamContent}
    (hread : r.readFrom first s = (.ok stream, s')) :
    ∃ received, r.receiving.readFrom first (s, []) = (.ok stream, s', received)
      ∧ stream = ⟨first.name.segmentRoot, (parts first received).flatMap (·.content),
        (parts first received).length⟩
      ∧ InOrder r.config (parts first received)
      ∧ (∀ o ∈ received, o.name.segmentRoot = stream.name.segmentRoot)
      ∧ ((∀ o ∈ parts first received, o.name.segmentRoot = stream.name)
        ↔ (stream.name.isSegment = true → received = [])) := by
  obtain ⟨result, s₁, received, hplain, hnoted, hreads⟩ := receiving_readFrom
    (Q := fun index o => o.name = first.name.segmentRoot.segment index)
    (fun index => hanswers (first.name.segmentRoot.segment index)) hs
  obtain ⟨rfl, rfl⟩ : Except.ok stream = result ∧ s' = s₁ :=
    Prod.mk.inj (hread.symm.trans hplain)
  obtain ⟨-, -, hcame, hstream, hseries⟩ := hreads.of_ok
  have hname : stream.name = first.name.segmentRoot := congrArg StreamContent.name hstream
  -- a segment is named under the stream above the name that it was asked for under
  have habove : ∀ o ∈ received, o.name.segmentRoot = stream.name.segmentRoot := by
    intro o ho
    obtain ⟨-, index, hasked⟩ := hcame o ho
    rw [hasked, hname, Name.segmentRoot_segment]
  refine ⟨received, hnoted, hstream, ?_, habove, ?_⟩
  · refine (hseries (by rw [Name.isUnsegmented, hsegment]; rfl)).mono ?_
    rintro index o (⟨rfl, hindex⟩ | hasked)
    · exact hindex
    · rw [hasked, Name.segmentIndex?_segment]
  · constructor
    · intro hown hnested
      refine List.eq_nil_iff_forall_not_mem.2 fun o ho => ?_
      have hsame := (habove o ho).symm.trans (hown o (mem_parts_of_mem ho))
      exact Name.segmentRoot_ne_of_isSegment hnested hsame
    · intro hnone o ho
      rcases mem_of_mem_parts ho with rfl | ho
      · exact hname.symm
      · rw [habove o ho]
        cases hnested : stream.name.isSegment with
        | true => exact absurd ho (hnone hnested ▸ List.not_mem_nil)
        | false => rw [Name.segmentRoot, hnested]; rfl

/-- Two segments, of which the second is at hand. Both come, the first of them first. -/
theorem readFrom_inOrder_two :
    let config : Config := { verifySignatures := false }
    let base := (Name.root.child ⟨[97]⟩).withVersion ⟨1⟩
    let info : SignedInfo := ⟨default, ⟨0⟩, .data, none, some (segmentComponent 1)⟩
    let units := [segmentOf base info (1, [2]), segmentOf base info (0, [1])]
    let r : Reader Unit := ⟨shelf units, .echo, config, 8⟩
    ∃ received, r.receiving.readFrom (segmentOf base info (1, [2])) ((), [])
        = (.ok ⟨base, [1, 2], 2⟩, (), received)
      ∧ InOrder config received ∧ received.flatMap (·.content) = [1, 2]
      ∧ ∀ o ∈ received, o.name.segmentRoot = base := by
  intro config base info units r
  have hread : r.readFrom (segmentOf base info (1, [2])) () = (.ok ⟨base, [1, 2], 2⟩, ()) := by
    decide +kernel
  obtain ⟨received, hnoted, hstream, horder, -, hown⟩ :=
    readFrom_inOrder (drawsFrom_shelf rfl).answersByName (by decide) trivial hread
  -- the segment at hand is not the first, so all parts of the stream have come
  have hparts : parts (segmentOf base info (1, [2])) received = received :=
    if_neg (by decide)
  rw [hparts] at hstream horder hown
  refine ⟨received, hnoted, horder, (congrArg StreamContent.content hstream).symm, ?_⟩
  exact hown.2 fun hnested => absurd hnested (by decide)

/-- **A segment of another stream is read in place of all segments of a stream** whose name ends in
a segment component. The segments of that stream are held, and any of them leads to the stream
above. -/
theorem readFrom_mixes_streams :
    let config : Config := { verifySignatures := false }
    let base := (Name.root.child ⟨[97]⟩).child (segmentComponent 0)
    let unit (name : Name) (content : Bytes) (final : UInt64) : ContentObject :=
      ⟨name, ⟨default, ⟨0⟩, .data, none, some (segmentComponent final)⟩, content, none⟩
    let other := unit base [1] 0
    let second := unit (base.child (segmentComponent 1)) [3] 1
    let units := [other, unit (base.child (segmentComponent 0)) [2] 1, second]
    let r : Reader Unit := ⟨shelf units, .echo, config, 8⟩
    r.AnswersByName (fun _ => True) ∧ second.name.isSegment = true
      ∧ second.name.segmentRoot = base
      ∧ r.readFrom second () = (.ok ⟨base, [1], 1⟩, ())
      ∧ r.receiving.readFrom second ((), []) = (.ok ⟨base, [1], 1⟩, (), [other])
      ∧ parts second [other] = [other] ∧ other.name.segmentRoot ≠ base := by
  intro config base unit other second units r
  exact ⟨(drawsFrom_shelf rfl).answersByName, by decide, by decide, by decide +kernel,
    by decide +kernel, by decide, by decide⟩

end Reader

end NamedContent.Stream
