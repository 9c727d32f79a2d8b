import NamedContent.Face.Retry
import NamedContent.Stream.Segmentation

/-! # Reading streams

A reader finds the latest version below a name by asking for the rightmost child again and again
with what it has seen excluded, and puts a stream together by asking for its segments in the order
of their indices up to the last one. It depends on the network only through a way to fetch, and may
make a limited number of calls.

* `Fetcher`: a way to fetch an object
* `Stream.latest`: an object of the latest version
* `Stream.assemble`, `Stream.readFrom`, `Stream.read`: whole streams
* `StreamContent`, `ReadError`: what comes of it
-/

namespace NamedContent

/-- Why a stream cannot be read. -/
inductive ReadError where
  /-- The stream is a tombstone with this name. -/
  | gone (name : Name)
  /-- Nothing answered for this name in time. -/
  | timeout (name : Name)
  /-- There is no version below this name. -/
  | noVersionFound (name : Name)
  /-- The signature of the object with this name is not its publisher's. -/
  | verification (name : Name)
  /-- A signature could not be checked. -/
  | signing (cause : SigningError)
  /-- A call failed. -/
  | face (cause : FaceError)
  /-- An object breaks a rule. -/
  | codec (cause : FormatError)
  /-- The limit on calls was reached. -/
  | unfinished
  deriving DecidableEq

/-- The wording of an error. -/
def ReadError.message : ReadError → String
  | .gone name => "content is gone: " ++ name.toUri
  | .timeout name => "timed out waiting for " ++ name.toUri
  | .noVersionFound name => "no version found under " ++ name.toUri
  | .verification name => "signature check failed for " ++ name.toUri
  | .signing cause => "signing error: " ++ cause.message
  | .face cause => "exchange error: " ++ cause.message
  | .codec cause => "codec error: " ++ cause.message
  | .unfinished => "too many calls"

/-- A stream put together. -/
structure StreamContent where
  /-- The name of the stream, with its version and without a segment. -/
  name : Name
  /-- The contents of the segments, joined. -/
  content : Bytes
  /-- The number of segments. -/
  segments : Nat
  deriving DecidableEq

/-- A way to fetch an object that answers an interest, within a number of milliseconds. -/
abbrev Fetcher (σ : Type) := Interest → UInt64 → Action σ FaceError (Option ContentObject)

namespace Stream

variable {σ : Type}

/-- What a reader works with. -/
structure Reader (σ : Type) where
  /-- How it fetches objects. -/
  fetch : Fetcher σ
  /-- How it checks signatures. -/
  verifier : Verifier
  /-- The tunables. -/
  config : Config
  /-- How many calls it makes before it gives up. -/
  limit : Nat

namespace Reader

/-! ## Single objects -/

/-- Fetches an object for a name, which must come in time. -/
def require (r : Reader σ) (i : Interest) (name : Name) : Action σ ReadError ContentObject := do
  match ← Action.mapError ReadError.face (r.fetch i r.config.fetchTimeout) with
  | some o => return o
  | none => Action.fail (.timeout name)

/-- Whether an object may be used: it keeps the rules, and its signature is genuine if signatures
are checked. -/
def check (r : Reader σ) (o : ContentObject) : Except ReadError Unit := do
  o.validate.mapError ReadError.codec
  if r.config.verifySignatures then
    if !(← (o.verify r.verifier).mapError ReadError.signing) then throw (.verification o.name)

/-! ## Version discovery -/

/-- The interest that asks for the rightmost child outside an exclusion. -/
def childInterest (root : Name) (exclude : Exclude) : Interest :=
  { Interest.below root with minSuffix := some 1, selector := .rightmost, exclude }

/-- Asks for children of a name until none is left, at most `limit` times. Versions found exclude
all versions before them, other children only themselves; the last version found is the result. -/
def discover (r : Reader σ) (root : Name) :
    (limit : Nat) → (exclude : Exclude) → (best : Option ContentObject) → (timeout : UInt64) →
      Action σ ReadError ContentObject
  | 0, _, _, _ => Action.fail .unfinished
  | limit + 1, exclude, best, timeout => do
    let finish : Action σ ReadError ContentObject :=
      match best with
      | some o => pure o
      | none => Action.fail (.noVersionFound root)
    match ← Action.mapError ReadError.face (r.fetch (childInterest root exclude) timeout) with
    | none => finish
    | some o =>
      match o.name.component? root.length with
      | none => finish
      | some next =>
        if next.isVersion then
          discover r root limit { exclude with through := some next } (some o)
            r.config.latestVersionTimeout
        else discover r root limit (exclude.add next) best timeout

/-- An object of the latest version below a name. -/
def latest (r : Reader σ) (root : Name) : Action σ ReadError ContentObject :=
  r.discover root r.limit Exclude.none none r.config.fetchTimeout

/-! ## Streams -/

/-- The contents of a segment and of all after it, and their number, with at most `limit` calls. -/
def assemble (r : Reader σ) (base : Name) :
    (limit : Nat) → (index : UInt64) → (segment : ContentObject) → Action σ ReadError (Bytes × Nat)
  | limit, index, segment => do
    if segment.isFinalBlock then return (segment.content, 1)
    match limit with
    | 0 => Action.fail .unfinished
    | limit + 1 => do
      let index := r.config.nextIndex index (UInt64.ofNat segment.content.length)
      let name := base.segment index
      let o ← r.require (.exact name) name
      Action.ofExcept (r.check o)
      let (content, count) ← assemble r base limit index o
      return (segment.content ++ content, count + 1)

/-- The stream that an object belongs to. -/
def readFrom (r : Reader σ) (first : ContentObject) : Action σ ReadError StreamContent := do
  Action.ofExcept (r.check first)
  if first.isGone then Action.fail (.gone first.name)
  else if first.name.isUnsegmented then return ⟨first.name, first.content, 1⟩
  else
    let base := first.name.segmentRoot
    let start ←
      if first.name.segmentIndex? = some firstSegment then pure first
      else do
        let name := base.segment firstSegment
        let o ← r.require (.exact name) name
        Action.ofExcept (r.check o)
        pure o
    let (content, count) ← r.assemble base r.limit firstSegment start
    return ⟨base, content, count⟩

/-- The stream with a name: that version if the name carries one, else the latest. -/
def read (r : Reader σ) (name : Name) : Action σ ReadError StreamContent := do
  let first ←
    if name.isVersioned then r.require (.below name.segmentRoot) name.segmentRoot
    else r.latest name
  r.readFrom first

end Reader

end Stream

end NamedContent
