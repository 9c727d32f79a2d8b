import NamedContent.Proofs.Action.Keeping
import NamedContent.Stream.Reader

/-! # Readers and what they fetch from

A reader learns of the network by fetching only. Where two readers of the same kind fetch the same
objects from states that are related, they find the same latest version and put the same stream
together. If no fetch tells two states apart, then no reading does.

* `Stream.Reader.discover_relates`, `Stream.Reader.assemble_relates`: the two loops
* `Stream.Reader.read_relates`: whole streams, for two readers
* `Stream.Reader.read_respects`: one reader
* `Stream.Reader.read_keeps`: reading keeps what fetching keeps -/

namespace NamedContent.Stream.Reader

variable {σ τ : Type} {r : Reader σ}

/-- The reader with another way to fetch. -/
def via (r : Reader σ) (fetch : Fetcher τ) : Reader τ := ⟨fetch, r.verifier, r.config, r.limit⟩

/-! ## Two readers -/

section Relates

variable {R : σ → τ → Prop} {fetch : Fetcher τ}
  (hfetch : ∀ i timeout, (r.fetch i timeout).Relates R (fetch i timeout))

include hfetch

/-- Fetching an object that must come. -/
theorem require_relates (i : Interest) (name : Name) :
    (r.require i name).Relates R ((r.via fetch).require i name) := by
  refine ((hfetch i _).mapError _).bind fun found => ?_
  cases found with
  | some o => exact .pure o
  | none => exact .fail _

/-- **Finding the latest version**, by induction on the calls that may still be made. -/
theorem discover_relates (root : Name) (limit : Nat) (exclude : Exclude)
    (best : Option ContentObject) (timeout : UInt64) :
    (r.discover root limit exclude best timeout).Relates R
      ((r.via fetch).discover root limit exclude best timeout) := by
  induction limit generalizing exclude best timeout with
  | zero => exact .fail _
  | succ limit ih =>
    rw [discover.eq_def, discover.eq_def]
    refine ((hfetch _ _).mapError _).bind fun found => ?_
    cases found with
    | none => cases best <;> first | exact .pure _ | exact .fail _
    | some o =>
      cases hnext : o.name.component? root.length with
      | none =>
        simp only [hnext]
        cases best <;> first | exact .pure _ | exact .fail _
      | some next =>
        simp only [hnext]
        split
        · exact ih _ _ _
        · exact ih _ _ _

/-- **Putting a stream together**, by induction on the calls that may still be made. -/
theorem assemble_relates (base : Name) (limit : Nat) (index : UInt64) (segment : ContentObject) :
    (r.assemble base limit index segment).Relates R
      ((r.via fetch).assemble base limit index segment) := by
  induction limit generalizing index segment with
  | zero =>
    rw [assemble, assemble]
    split
    · exact .pure _
    · exact .fail _
  | succ limit ih =>
    rw [assemble, assemble]
    split
    · exact .pure _
    · refine (require_relates hfetch _ _).bind fun o => ?_
      refine Action.Relates.bind (.ofExcept _) fun _ => ?_
      exact (ih _ o).bind fun _ => .pure _

/-- Reading the stream that an object belongs to, from its first segment on. -/
theorem readFrom_relates (first : ContentObject) :
    (r.readFrom first).Relates R ((r.via fetch).readFrom first) := by
  -- however the first segment is come by, the rest is put together from it
  have hrest : ∀ start : ContentObject,
      (r.assemble first.name.segmentRoot r.limit firstSegment start >>= fun p =>
        pure (⟨first.name.segmentRoot, p.1, p.2⟩ : StreamContent)).Relates R
      ((r.via fetch).assemble first.name.segmentRoot r.limit firstSegment start >>= fun p =>
        pure (⟨first.name.segmentRoot, p.1, p.2⟩ : StreamContent)) := by
    intro start
    exact (assemble_relates hfetch _ _ _ start).bind fun p => .pure _
  rw [readFrom, readFrom]
  refine Action.Relates.bind (.ofExcept _) fun _ => ?_
  split
  · exact .fail _
  · split
    · exact .pure _
    · show (ite _ _ _ : Action σ ReadError StreamContent).Relates R (ite _ _ _)
      split
      · exact Action.Relates.bind (.pure first) hrest
      · refine (require_relates hfetch _ _).bind fun o => ?_
        refine Action.Relates.bind (.ofExcept _) fun _ => ?_
        exact Action.Relates.bind (.pure o) hrest

/-- **Reading a stream**, that with the name or the latest below it. -/
theorem read_relates (name : Name) : (r.read name).Relates R ((r.via fetch).read name) := by
  rw [read, read]
  show (ite _ _ _ : Action σ ReadError StreamContent).Relates R (ite _ _ _)
  split
  · exact (require_relates hfetch _ _).bind fun first => readFrom_relates hfetch first
  · exact (discover_relates hfetch name _ _ _ _).bind fun first => readFrom_relates hfetch first

end Relates

/-! ## One reader -/

section Respects

variable {R : σ → σ → Prop}

/-- **Reading from a first unit** tells states apart only if the gets do. -/
theorem readFrom_respects (hfetch : ∀ i timeout, (r.fetch i timeout).Respects R)
    (first : ContentObject) : (r.readFrom first).Respects R :=
  readFrom_relates hfetch first

/-- **Reading a name** tells states apart only if the gets do. -/
theorem read_respects (hfetch : ∀ i timeout, (r.fetch i timeout).Respects R) (name : Name) :
    (r.read name).Respects R :=
  read_relates hfetch name

/-- Reading keeps what fetching keeps: one run is compared with itself, in the states that stand
above the one that it started in. -/
theorem read_keeps [IsPreorder σ R] (hfetch : ∀ i timeout, (r.fetch i timeout).Keeps R)
    (name : Name) : (r.read name).Keeps R :=
  .of_respects fun s => read_respects (fun i timeout => (hfetch i timeout).respects s) name

/-- Reading from a first unit keeps what the gets keep. -/
theorem readFrom_keeps [IsPreorder σ R] (hfetch : ∀ i timeout, (r.fetch i timeout).Keeps R)
    (first : ContentObject) : (r.readFrom first).Keeps R :=
  .of_respects fun s => readFrom_respects (fun i timeout => (hfetch i timeout).respects s) first

end Respects

end NamedContent.Stream.Reader
