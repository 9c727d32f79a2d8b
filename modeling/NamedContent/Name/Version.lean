import NamedContent.Name.Segment
import NamedContent.Name.Uri
import NamedContent.Timestamp

/-! # Version components

A version component is a marker byte followed by one to eight big-endian bytes of a timestamp;
six are written. It stands last in a name, or before the segment component.

* `Component.isVersion`, `Component.version?`: recognising and reading one
* `versionComponent`: writing one
* `Name.version?`, `Name.isVersioned`, `Name.versionRoot`, `Name.versionTime`: the version of a name
* `Name.withVersion`, `Name.versioned`: adding one
-/

namespace NamedContent

/-- The byte that marks a version component. -/
def versionMarker : UInt8 := 0xFD

/-- The number of timestamp bytes written. -/
def versionWidth : Nat := 6

/-- Whether a component is the version marker and one to eight bytes. -/
def Component.isVersion (c : Component) : Bool :=
  1 < c.bytes.length && c.bytes.length ≤ 9 && c.marker? == some versionMarker

/-- The timestamp in a version component. -/
def Component.version? (c : Component) : Except NameError Timestamp :=
  if c.isVersion then .ok ⟨UInt64.ofNat (Bytes.ofBigEndian (c.bytes.drop 1))⟩
  else .error .invalidVersion

/-- The version component of a timestamp: its lower 48 bits. -/
def versionComponent (t : Timestamp) : Component :=
  ⟨versionMarker :: Bytes.bigEndian versionWidth t.ticks.toNat⟩

namespace Name

/-- The version component of a name, looked for behind a segment component. -/
def version? (n : Name) : Option Component :=
  n.segmentRoot.last?.filter Component.isVersion

/-- Whether the name carries a version. -/
def isVersioned (n : Name) : Bool := n.version?.isSome

/-- The name with the version component of a timestamp added. -/
def withVersion (n : Name) (t : Timestamp) : Name := n.child (versionComponent t)

/-- The name itself if it carries a version, else with the version of `fresh` added. -/
def versioned (n : Name) (fresh : Timestamp) : Name :=
  if n.isVersioned then n else n.withVersion fresh

/-- The name without its version and segment; a name that carries no version is kept whole. -/
def versionRoot (n : Name) : Name :=
  if n.isVersioned then n.segmentRoot.parent else n

/-- The time of the version that a name carries. -/
def versionTime (n : Name) : Except NameError Timestamp :=
  match n.version? with
  | none => .error (.versionMissing n.toUri)
  | some c => c.version?

end Name

end NamedContent
