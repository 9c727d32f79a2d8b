import NamedContent.Name.Basic

/-! # Segment components

The last component of a segment's name is a marker byte followed by the index of the segment in
the fewest big-endian bytes, so that index 0 is the marker alone. A marker followed by a zero byte
is no segment component.

* `Name.isSegment`, `Name.isUnsegmented`: whether the last component is a segment component
* `Name.segmentRoot`: the name of the stream that a segment belongs to
* `Name.segment`: the name of the segment with an index
* `Name.segmentIndex?`, `Name.signedSegmentIndex`: reading the index back
-/

namespace NamedContent

/-- How the indices of a stream's segments advance. -/
inductive SegmentNumbering where
  /-- By a fixed step. -/
  | fixedIncrement
  /-- By the number of bytes in the segment. -/
  | byteCount
  deriving DecidableEq, Inhabited, Repr

/-- The byte that marks a segment component. -/
def segmentMarker : UInt8 := 0xF8

/-- The index of the first segment. -/
def firstSegment : UInt64 := 0

/-- The component of a segment index: the marker and the fewest big-endian bytes. -/
def segmentComponent (index : UInt64) : Component :=
  ⟨segmentMarker :: (Bytes.bigEndian 8 index.toNat).dropWhile (· == 0)⟩

/-- Whether a component marks a segment. -/
def Component.isSegment (c : Component) : Bool :=
  match c.bytes with
  | [] => false
  | [m] => m == segmentMarker
  | m :: b :: _ => m == segmentMarker && b != 0

namespace Name

/-- Whether the name ends in a segment component. -/
def isSegment (n : Name) : Bool := n.last?.any Component.isSegment

/-- Whether the name does not end in a segment component. -/
def isUnsegmented (n : Name) : Bool := !n.isSegment

/-- The name of the stream that a segment belongs to. -/
def segmentRoot (n : Name) : Name := if n.isSegment then n.parent else n

/-- The name of the segment with an index, in the stream that the name belongs to. -/
def segment (n : Name) (index : UInt64) : Name := n.segmentRoot.child (segmentComponent index)

/-- The index of a segment, when it fits in 64 bits. -/
def segmentIndex? (n : Name) : Option UInt64 := do
  let c ← n.last?
  if !c.isSegment then none
  let digits := c.bytes.drop 1
  if digits.length > 8 then none
  return UInt64.ofNat (Bytes.ofBigEndian digits)

/-- The index of a segment as a signed 64-bit number, or -1 where there is none. -/
def signedSegmentIndex (n : Name) : Int :=
  match n.segmentIndex? with
  | some index => if index.toNat < 0x8000000000000000 then index.toNat else -1
  | none => -1

end Name

end NamedContent
