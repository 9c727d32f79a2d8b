import NamedContent.Config.Basic
import NamedContent.Toml.Document

/-! # Configurations in TOML

Every key may be absent, and then keeps its default. Keys that are not known are ignored.

* `Config.ofTable?`: the configuration that a table holds
* `Config.ofToml`: the configuration of a document, checked against the rules
-/

namespace NamedContent

namespace Toml.Item

/-- An unsigned number below a limit. -/
def natBelow? (limit : Nat) : Item → Option Nat
  | .integer (.ofNat n) => if n < limit then some n else none
  | _ => none

/-- A 32-bit number. -/
def word32? (i : Item) : Option UInt32 := (i.natBelow? UInt32.size).map UInt32.ofNat

/-- A 64-bit number. -/
def word64? (i : Item) : Option UInt64 := (i.natBelow? UInt64.size).map UInt64.ofNat

/-- A truth value. -/
def boolean? : Item → Option Bool
  | .boolean b => some b
  | _ => none

/-- Whether a table or an array holds nothing. -/
def isEmpty : Item → Bool
  | .array values => values.isEmpty
  | .table _ entries => entries.isEmpty
  | .tables elements => elements.isEmpty
  | _ => false

/-- The name of a variant: a text, or the only key of a table when nothing is under it. -/
def variant? : Item → Option String
  | .text name => some name
  | .table _ [(name, item)] => if item.isEmpty then some name else none
  | _ => none

end Toml.Item

open Toml (Item)

/-- The numbering with a name. -/
def SegmentNumbering.ofItem? (i : Item) : Option SegmentNumbering :=
  match i.variant? with
  | some "fixed_increment" => some .fixedIncrement
  | some "byte_count" => some .byteCount
  | _ => none

/-- The value under a key, read by `read`, or the default where there is none. -/
def Toml.Table.get? {α : Type} (t : Toml.Table) (key : String) (read : Item → Option α)
    (default : α) : Option α :=
  match t.find? key with
  | none => some default
  | some item => read item

/-- The policy in a table, or as the first value of an array. -/
def RetryPolicy.ofItem? : Item → Option RetryPolicy
  | .table _ entries => do
    return ⟨← Toml.Table.get? entries "max_attempts" (fun i => i.word32?.map some) none⟩
  | .array [] => some {}
  | .array (first :: _) => do return ⟨some (← first.word32?)⟩
  | .dateTime => some {}
  | _ => none

namespace Config

/-- The configuration that a table holds. -/
def ofTable? (t : Toml.Table) : Option Config := do
  let d : Config := {}
  return {
    blockSize := ← t.get? "block_size" Item.word64? d.blockSize
    segmentIncrement := ← t.get? "segment_increment" Item.word64? d.segmentIncrement
    numbering := ← t.get? "numbering" SegmentNumbering.ofItem? d.numbering
    fetchTimeout := ← t.get? "fetch_timeout_ms" Item.word64? d.fetchTimeout
    latestVersionTimeout := ← t.get? "latest_version_timeout_ms" Item.word64? d.latestVersionTimeout
    verifySignatures := ← t.get? "verify_signatures" Item.boolean? d.verifySignatures
    freshnessSeconds :=
      ← t.get? "freshness_seconds" (fun i => i.word32?.map some) d.freshnessSeconds
    maxHeldInterests := ← t.get? "max_unsatisfied_interests" Item.word64? d.maxHeldInterests
    bufferCapacity := ← t.get? "flow_buffer_capacity" Item.word64? d.bufferCapacity
    retry := ← t.get? "retry" RetryPolicy.ofItem? d.retry }

/-- The configuration of a document, checked against the rules. -/
def ofToml (text : String) : Except ConfigError Config := do
  let config ← match (Toml.parse? text).bind ofTable? with
    | some config => pure config
    | none => throw .malformed
  config.validate
  return config

end Config

end NamedContent
