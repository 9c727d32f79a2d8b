import NamedContent.Proofs.Stream.Recording

/-! # Reading step by step

A reader asks for one segment after another: for each by its name, and what comes must be usable.
From the first segment on, which is the object at hand or is asked for as well, the rest of a stream
is put together in this way.

* `ReadError.isMissing`, `ReadError.isRefusal`: what errors are about
* `Stream.Reader.requireUsable`: one segment
* `Stream.Reader.assemble_succ`: one segment after another
* `Stream.Reader.readFrom_of_check`: whole streams -/

namespace NamedContent

/-- Whether an error says that an object did not come, and nothing about an object. -/
def ReadError.isMissing : ReadError → Bool
  | .timeout _ | .face _ | .unfinished => true
  | _ => false

/-- Whether an error says that an object may not be used. -/
def ReadError.isRefusal : ReadError → Bool
  | .codec _ | .signing _ | .verification _ => true
  | _ => false

namespace Stream.Reader

variable {σ : Type} {r : Reader σ}

/-- **A check that fails** says why the object may not be used, and nothing else. -/
theorem isRefusal_of_check {o : ContentObject} {e : ReadError} (h : r.check o = .error e) :
    e.isRefusal = true := by
  rw [check] at h
  cases hvalid : o.validate with
  | error cause =>
    obtain rfl : ReadError.codec cause = e := by
      simpa [hvalid, mapError_error, bind, Except.bind] using h
    rfl
  | ok _ =>
    by_cases hverify : r.config.verifySignatures = true
    · cases hsigned : o.verify r.verifier with
      | error cause =>
        obtain rfl : ReadError.signing cause = e := by
          simpa [hvalid, hsigned, mapError_ok, mapError_error, bind, Except.bind, hverify] using h
        rfl
      | ok genuine =>
        cases genuine with
        | true =>
          simp [hvalid, hsigned, mapError_ok, bind, Except.bind, hverify, pure, Except.pure] at h
        | false =>
          obtain rfl : ReadError.verification o.name = e := by
            simpa [hvalid, hsigned, mapError_ok, bind, Except.bind, hverify, throw, throwThe,
              MonadExceptOf.throw] using h
          rfl
    · simp [hvalid, mapError_ok, bind, Except.bind, hverify, pure, Except.pure] at h

/-- An object of a name, which must come in time and may be used. -/
def requireUsable (r : Reader σ) (name : Name) : Action σ ReadError ContentObject := do
  let o ← r.require (.exact name) name
  Action.ofExcept (r.check o)
  return o

/-- The object that a call for a name has found, if there is one and it may be used. -/
def usable (r : Reader σ) (name : Name) :
    Except FaceError (Option ContentObject) → Except ReadError ContentObject
  | .error cause => .error (.face cause)
  | .ok none => .error (.timeout name)
  | .ok (some o) => (r.check o).map fun _ => o

/-- What is found under a name is usable or not, whatever the get leaves behind. -/
theorem requireUsable_of_fetch {name : Name} {s s' : σ}
    {found : Except FaceError (Option ContentObject)}
    (h : r.fetch (.exact name) r.config.fetchTimeout s = (found, s')) :
    r.requireUsable name s = (r.usable name found, s') := by
  simp only [requireUsable, require, Action.bind_run, Action.mapError, h]
  rcases found with cause | _ | o
  · rfl
  · rfl
  · simp only [Action.pure_run, Action.ofExcept_run, usable]
    cases r.check o <;> rfl

/-- After a segment that is not the last, the next one is asked for and the rest is put together
from there. -/
theorem assemble_succ (r : Reader σ) (base : Name) {segment : ContentObject}
    (hfinal : ¬ segment.isFinalBlock = true) {index next : UInt64}
    (hnext : r.config.nextIndex index (UInt64.ofNat segment.content.length) = next) (limit : Nat) :
    r.assemble base (limit + 1) index segment = do
      let o ← r.requireUsable (base.segment next)
      let (content, count) ← r.assemble base limit next o
      return (segment.content ++ content, count + 1) := by
  subst hnext
  funext s
  rw [assemble, if_neg hfinal]
  simp only [requireUsable, Action.bind_run]
  rcases r.require _ _ s with ⟨_ | o, s'⟩
  · rfl
  · simp only [Action.ofExcept_run]
    cases r.check o <;> rfl

/-- A stream with its name and the number of its segments. -/
def whole (base : Name) (p : Bytes × Nat) : StreamContent := ⟨base, p.1, p.2⟩

/-- The parts of a stream are put together as a whole under its name. -/
theorem bind_whole {x : Action σ ReadError (Bytes × Nat)} {s s' : σ}
    {result : Except ReadError (Bytes × Nat)} (h : x s = (result, s')) (base : Name) :
    (x >>= fun p => pure (whole base p)) s = (result.map (whole base), s') := by
  rw [Action.bind_pure_run, h]

/-- Reading the segments of a stream puts them together from the first one on, which is the object
at hand or is asked for. -/
theorem readFrom_of_check {first : ContentObject} (hcheck : r.check first = .ok ())
    (hgone : first.isGone = false) (hsegment : first.name.isUnsegmented = false) (limit : Nat) :
    (r.withLimit limit).readFrom first
      = (if first.name.segmentIndex? = some firstSegment then pure first
          else r.requireUsable (first.name.segmentRoot.segment firstSegment)) >>= fun start =>
        r.assemble first.name.segmentRoot limit firstSegment start >>= fun p =>
          pure (whole first.name.segmentRoot p) := by
  funext s
  rw [readFrom]
  simp only [Action.bind_run, Action.ofExcept_run, withLimit_require, withLimit_check, hcheck,
    hgone, hsegment, Bool.false_eq_true, if_false, withLimit_assemble]
  by_cases hindex : first.name.segmentIndex? = some firstSegment
  · simp only [if_pos hindex]
    rfl
  · simp only [if_neg hindex, requireUsable, Action.bind_run]
    rcases r.require _ _ s with ⟨_ | o, s'⟩
    · rfl
    · simp only [Action.ofExcept_run]
      cases r.check o <;> rfl

end Stream.Reader

end NamedContent
