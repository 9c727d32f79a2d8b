import NamedContent.Content.Wire
import NamedContent.Interest.Basic

/-! # The wire form of interests

Interests travel as CBOR records. The selector is a text, the excluded components an array in
their order.

* `Interest.encode`, `Interest.decode`: writing and reading
-/

namespace NamedContent

open Cbor

/-! ## Selectors and exclusion -/

/-- The text of a selector. -/
def ChildSelector.text : ChildSelector → String
  | .leftmost => "leftmost"
  | .rightmost => "rightmost"

/-- Reads a selector. -/
def ChildSelector.ofCbor : Decoder ChildSelector := do
  let name ← Decoder.variant
  StateT.lift ([ChildSelector.leftmost, .rightmost].find? fun s => Bytes.ofString s.text = name)

/-- The record of an exclusion. -/
def Exclude.toCbor (e : Exclude) : Bytes :=
  record [
    ("through", optional Component.toCbor e.through),
    ("components", array (e.components.toList.map Component.toCbor))]

/-- The fields of an exclusion read so far. -/
structure Exclude.Draft where
  /-- The bound. -/
  through : Option (Option Component) := Option.none
  /-- The single components. -/
  components : Option (List Component) := Option.none

/-- Reads the value of one field; the value of an unknown key is skipped. -/
def Exclude.Draft.read (key : Bytes) (d : Draft) : Decoder Draft :=
  if key = Bytes.ofString "through" then do
    return { d with through := ← Decoder.fill d.through (Decoder.optional Component.ofCbor) }
  else if key = Bytes.ofString "components" then do
    return { d with
      components := ← Decoder.fill d.components
        (Decoder.sequence (fun _ => Option.none) Component.ofCbor) }
  else do
    Decoder.skip (Decoder.depthLimit - 2)
    return d

/-- Reads the record of an exclusion; repeated components count once. -/
def Exclude.ofCbor : Decoder Exclude := do
  let d ← Decoder.fields Exclude.Draft.read {}
  let components ← StateT.lift d.components
  return ⟨d.through.join, .ofList components⟩

/-! ## Interests -/

namespace Interest

/-- The record of an interest. -/
def toCbor (i : Interest) : Bytes :=
  record [
    ("name", i.name.toCbor),
    ("min_suffix_components", optional (fun n : UInt64 => unsigned n.toNat) i.minSuffix),
    ("max_suffix_components", optional (fun n : UInt64 => unsigned n.toNat) i.maxSuffix),
    ("child_selector", text i.selector.text),
    ("exclude", i.exclude.toCbor),
    ("publisher", optional PublisherKey.toCbor i.publisher)]

/-- The fields of an interest read so far. -/
structure Draft where
  /-- The name. -/
  name : Option Name := none
  /-- The least number of further components. -/
  minSuffix : Option (Option UInt64) := none
  /-- The greatest number of further components. -/
  maxSuffix : Option (Option UInt64) := none
  /-- Which answer is preferred. -/
  selector : Option ChildSelector := none
  /-- What is excluded. -/
  exclude : Option Exclude := none
  /-- The publisher. -/
  publisher : Option (Option PublisherKey) := none

/-- Reads the value of one field; the value of an unknown key is skipped. -/
def Draft.read (key : Bytes) (d : Draft) : Decoder Draft :=
  if key = Bytes.ofString "name" then do
    return { d with name := ← Decoder.fill d.name Name.ofCbor }
  else if key = Bytes.ofString "min_suffix_components" then do
    return { d with minSuffix := ← Decoder.fill d.minSuffix (Decoder.optional Decoder.word64) }
  else if key = Bytes.ofString "max_suffix_components" then do
    return { d with maxSuffix := ← Decoder.fill d.maxSuffix (Decoder.optional Decoder.word64) }
  else if key = Bytes.ofString "child_selector" then do
    return { d with selector := ← Decoder.fill d.selector ChildSelector.ofCbor }
  else if key = Bytes.ofString "exclude" then do
    return { d with exclude := ← Decoder.fill d.exclude Exclude.ofCbor }
  else if key = Bytes.ofString "publisher" then do
    return { d with publisher := ← Decoder.fill d.publisher (Decoder.optional PublisherKey.ofCbor) }
  else do
    Decoder.skip (Decoder.depthLimit - 1)
    return d

/-- The interest, once the fields that must be there are. -/
def Draft.finish? (d : Draft) : Option Interest := do
  return {
    name := ← d.name
    minSuffix := d.minSuffix.join
    maxSuffix := d.maxSuffix.join
    selector := ← d.selector
    exclude := ← d.exclude
    publisher := d.publisher.join }

/-- Reads the record of an interest. -/
def ofCbor : Decoder Interest := do
  let d ← Decoder.fields Draft.read {}
  StateT.lift d.finish?

/-- The bytes of an interest that keeps the rule. -/
def encode (i : Interest) : Except FormatError Bytes := do
  i.validate
  return i.toCbor

/-- The interest at the front of a byte string; what follows it is ignored. -/
def decode (bytes : Bytes) : Except FormatError Interest :=
  match ofCbor bytes with
  | none => .error .malformed
  | some (i, _) => do
    i.validate
    return i

end Interest

end NamedContent
