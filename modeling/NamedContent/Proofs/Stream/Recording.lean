import NamedContent.Proofs.Stream.Respecting

/-! # Readers that write down what they ask for and what comes

A reader may write down something of every call: the interests that it asks for, or the objects that
come, in their order. That changes neither what it reads nor the state that it leaves behind. It may
also have another limit on its calls.

* `Stream.Reader.noting`: the reader that writes something down, with `Stream.Reader.recording` for
  the interests and `Stream.Reader.receiving` for the objects
* `Stream.Reader.noting_discover`, `Stream.Reader.noting_readFrom`: it reads the same
* `Stream.Reader.withLimit`: the reader with another limit -/

namespace NamedContent.Stream.Reader

variable {σ β : Type}

/-- The reader that writes down something of every call, behind what it has written before. -/
def noting (r : Reader σ) (note : Interest → Except FaceError (Option ContentObject) → List β) :
    Reader (σ × List β) :=
  r.via fun i timeout p =>
    match r.fetch i timeout p.1 with
    | (found, s) => (found, s, p.2 ++ note i found)

/-- The reader that writes down the interests it asks for, behind those asked for before. -/
def recording (r : Reader σ) : Reader (σ × List Interest) := r.noting fun i _ => [i]

/-- The object that a call has found, if any. -/
def arrival : Except FaceError (Option ContentObject) → List ContentObject
  | .ok (some o) => [o]
  | _ => []

/-- The reader that writes down the objects that come, behind those that came before. -/
def receiving (r : Reader σ) : Reader (σ × List ContentObject) := r.noting fun _ => arrival

variable (r : Reader σ)

section Noting

variable (note : Interest → Except FaceError (Option ContentObject) → List β)

/-- Its calls are those of the reader, beside what is written down. -/
theorem noting_relates (i : Interest) (timeout : UInt64) :
    (r.fetch i timeout).Relates (fun s p => p.1 = s) ((r.noting note).fetch i timeout) := by
  rintro _ ⟨s, noted⟩ rfl
  exact ⟨rfl, rfl⟩

/-- Requiring an object makes one call, of which something is written down. -/
theorem noting_require (i : Interest) (name : Name) (s : σ) (noted : List β) :
    (r.noting note).require i name (s, noted)
      = ((r.require i name s).1, (r.require i name s).2,
        noted ++ note i (r.fetch i r.config.fetchTimeout s).1) := by
  rcases hfetch : r.fetch i r.config.fetchTimeout s with ⟨_ | _ | _, _⟩ <;>
    simp [require, noting, via, Action.bind_run, Action.mapError, hfetch]

/-- **A reader that writes down discovers the same.** -/
theorem noting_discover (root : Name) (limit : Nat) (exclude : Exclude)
    (best : Option ContentObject) (timeout : UInt64) (s : σ) (noted : List β) :
    r.discover root limit exclude best timeout s
      = (((r.noting note).discover root limit exclude best timeout (s, noted)).1,
        ((r.noting note).discover root limit exclude best timeout (s, noted)).2.1) := by
  obtain ⟨hresult, hstate⟩ :=
    discover_relates (r.noting_relates note) root limit exclude best timeout s (s, noted) rfl
  exact Prod.ext hresult hstate.symm

/-- **A reader that writes down reads the same.** -/
theorem noting_readFrom (first : ContentObject) (s : σ) (noted : List β) :
    r.readFrom first s
      = (((r.noting note).readFrom first (s, noted)).1,
          ((r.noting note).readFrom first (s, noted)).2.1) := by
  obtain ⟨hresult, hstate⟩ := readFrom_relates (r.noting_relates note) first s (s, noted) rfl
  exact Prod.ext hresult hstate.symm

end Noting

/-! ## Interests -/

/-- What may be used does not depend on what is written down. -/
@[simp] theorem recording_check (o : ContentObject) : r.recording.check o = r.check o := rfl

/-- Requiring an object asks for it once. -/
theorem recording_require (i : Interest) (name : Name) (s : σ) (asked : List Interest) :
    r.recording.require i name (s, asked)
      = ((r.require i name s).1, (r.require i name s).2, asked ++ [i]) :=
  r.noting_require (fun i _ => [i]) i name s asked

/-- A reader that writes down interests discovers the same. -/
theorem recording_discover (root : Name) (limit : Nat) (exclude : Exclude)
    (best : Option ContentObject) (timeout : UInt64) (s : σ) (asked : List Interest) :
    r.discover root limit exclude best timeout s
      = ((r.recording.discover root limit exclude best timeout (s, asked)).1,
        (r.recording.discover root limit exclude best timeout (s, asked)).2.1) :=
  r.noting_discover (fun i _ => [i]) root limit exclude best timeout s asked

/-- A reader that writes down interests reads the same. -/
theorem recording_readFrom (first : ContentObject) (s : σ) (asked : List Interest) :
    r.readFrom first s
      = ((r.recording.readFrom first (s, asked)).1,
          (r.recording.readFrom first (s, asked)).2.1) :=
  r.noting_readFrom (fun i _ => [i]) first s asked

/-! ## Limits -/

/-- The reader with another limit on its calls. -/
def withLimit (r : Reader σ) (limit : Nat) : Reader σ := { r with limit }

/-- What may be used does not depend on the limit. -/
@[simp] theorem withLimit_check (r : Reader σ) (limit : Nat) (o : ContentObject) :
    (r.withLimit limit).check o = r.check o := rfl

/-- A single call does not depend on the limit. -/
@[simp] theorem withLimit_require (r : Reader σ) (limit : Nat) (i : Interest) (name : Name) :
    (r.withLimit limit).require i name = r.require i name := rfl

/-- A stream is put together with a limit of its own, not with that of the reader. -/
@[simp] theorem withLimit_assemble (r : Reader σ) (own : Nat) (base : Name) (limit : Nat)
    (index : UInt64) (segment : ContentObject) :
    (r.withLimit own).assemble base limit index segment = r.assemble base limit index segment := by
  induction limit generalizing index segment with
  | zero => rw [assemble, assemble]
  | succ limit ih =>
    rw [assemble, assemble]
    simp only [ih]
    rfl

/-- Discovery has a limit of its own too. -/
@[simp] theorem withLimit_discover (r : Reader σ) (own : Nat) (root : Name) (limit : Nat)
    (exclude : Exclude) (best : Option ContentObject) (timeout : UInt64) :
    (r.withLimit own).discover root limit exclude best timeout
      = r.discover root limit exclude best timeout := by
  induction limit generalizing exclude best timeout with
  | zero => rfl
  | succ limit ih =>
    rw [discover.eq_def, discover.eq_def]
    simp only [ih]
    rfl

/-- Recording and the limit go together in either order. -/
theorem withLimit_recording (r : Reader σ) (limit : Nat) :
    (r.withLimit limit).recording = r.recording.withLimit limit := rfl

end NamedContent.Stream.Reader
