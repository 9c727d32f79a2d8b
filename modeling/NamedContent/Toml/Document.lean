import NamedContent.Toml.Number

/-! # TOML documents

A document is a table of items. Keys may be dotted, tables may be headed anywhere once, and arrays
of tables grow by one table a header.

* `Toml.Item`, `Toml.Table`: what a document holds
* `Toml.value`: the value of a key
* `Toml.parse?`: the table of a document
-/

namespace NamedContent.Toml

/-- How a table came about, which decides how it may be extended. -/
inductive TableKind where
  /-- By a header of its own. -/
  | headed
  /-- By the header of a table below it. -/
  | implied
  /-- By a dotted key. -/
  | dotted
  /-- By braces. -/
  | inline
  deriving DecidableEq, Repr

/-- An item of a document. -/
inductive Item where
  /-- A text. -/
  | text (value : String)
  /-- A signed 64-bit number. -/
  | integer (value : Int)
  /-- A floating-point number. -/
  | float
  /-- A truth value. -/
  | boolean (value : Bool)
  /-- A date or a time. -/
  | dateTime
  /-- An array of values. -/
  | array (values : List Item)
  /-- A table. -/
  | table (kind : TableKind) (entries : List (String × Item))
  /-- An array of headed tables. -/
  | tables (elements : List (List (String × Item)))

/-- The entries of a table, in order. -/
abbrev Table := List (String × Item)

namespace Table

/-- The item under a key. -/
def find? (t : Table) (key : String) : Option Item := t.lookup key

/-- The table with an item put under a key, in place of the one there was. -/
def put (t : Table) (key : String) (item : Item) : Table :=
  if (t.find? key).isSome then t.map fun (k, i) => if k = key then (k, item) else (k, i)
  else t ++ [(key, item)]

/-- The table with a new item under a dotted key. Tables made by dotted keys may be extended by
them, and tables implied by a header be passed on the way. -/
def insert (key : String) (item : Item) : (path : List String) → Table → Option Table
  | [], t => if (t.find? key).isSome then none else some (t ++ [(key, item)])
  | part :: path, t =>
    match t.find? part with
    | none => do return t ++ [(part, .table .dotted (← insert key item path []))]
    | some (.table .dotted entries) => do
      return t.put part (.table .dotted (← insert key item path entries))
    | some (.table .implied entries) =>
      if path.isEmpty then none
      else do return t.put part (.table .implied (← insert key item path entries))
    | some (.tables elements) =>
      if path.isEmpty then none
      else do
        let last ← elements.getLast?
        return t.put part (.tables (elements.dropLast ++ [← insert key item path last]))
    | some _ => none

/-- Changes the table that the parts of a header before the last lead to. Tables that are missing
are implied; of an array of tables the last is meant. -/
def change (f : Table → Option Table) : (path : List String) → Table → Option Table
  | [], t => f t
  | part :: path, t =>
    match t.find? part with
    | none => do return t ++ [(part, .table .implied (← change f path []))]
    | some (.table .inline _) => none
    | some (.table kind entries) => do
      return t.put part (.table kind (← change f path entries))
    | some (.tables elements) => do
      let last ← elements.getLast?
      return t.put part (.tables (elements.dropLast ++ [← change f path last]))
    | some _ => none

/-- The table with the entries of dotted keys added in order. -/
def insertAll (t : Table) (entries : List ((List String × String) × Item)) : Option Table :=
  entries.foldlM (fun t ((path, key), item) => t.insert key item path) t

end Table

/-! ## Values -/

/-- A value on the right of an equals sign after a key; `inner` parses the values in it. -/
def entryWith (inner : Parser Item) : Parser ((List String × String) × Item) := do
  let k ← key
  char '='
  blank
  return (k, ← inner)

/-- The values between brackets; `inner` parses each of them. -/
def arrayWith (inner : Parser Item) : Parser (List Item) := do
  char '['
  gap
  let values ← repeatOn (fun acc => do
    match ← peek with
    | some ']' => return none
    | _ => do
      let v ← inner
      gap
      match ← peek with
      | some ',' => do
        char ','
        gap
        return some (v :: acc)
      | some ']' => return some (v :: acc)
      | _ => failure) []
  char ']'
  return values.reverse

/-- The entries between braces, all on one line and without a comma after the last; `inner` parses
their values. -/
def inlineWith (inner : Parser Item) : Parser Table := do
  char '\x7b'
  blank
  let entries ← match ← peek with
    | some '\x7d' => pure []
    | _ => do
      let first ← entryWith inner
      blank
      let rest ← repeatOn (fun acc => do
        match ← peek with
        | some ',' => do
          char ','
          let e ← entryWith inner
          blank
          return some (e :: acc)
        | _ => return none) [first]
      pure rest.reverse
  char '\x7d'
  StateT.lift (Table.insertAll [] entries)

/-- A number, or a date or time. -/
def numeric : Parser Item :=
  either (do dateTime; return .dateTime)
    (either (do float; return .float) (do return .integer (← integer)))

/-- A value that holds no others. -/
def scalar : Parser Item := do
  match ← peek with
  | some '"' => return .text (← string)
  | some '\'' => return .text (← string)
  | some 't' => do
    word "true"
    return .boolean true
  | some 'f' => do
    word "false"
    return .boolean false
  | some 'i' => do
    word "inf"
    return .float
  | some 'n' => do
    word "nan"
    return .float
  | _ => numeric

/-- A value; `inner` parses the values nested in it. -/
def valueWith (inner : Parser Item) : Parser Item := do
  match ← peek with
  | some '[' => return .array (← arrayWith inner)
  | some '\x7b' => return .table .inline (← inlineWith inner)
  | _ => scalar

/-- A value whose arrays and tables nest no deeper than `depth`. -/
def value : (depth : Nat) → Parser Item
  | 0 => scalar
  | depth + 1 => valueWith (value depth)

/-! ## Documents -/

/-- The part of a document that is being read. -/
inductive Section where
  /-- The entries in front of the first header. -/
  | root
  /-- A headed table. -/
  | table (path : List String) (key : String)
  /-- One more table of an array. -/
  | element (path : List String) (key : String)

/-- The entries of a section as they are read, the last one first. -/
abbrev Section.Entries := List ((List String × String) × Item)

/-- The document with a section added. -/
def Section.close (s : Section) (entries : Section.Entries) (document : Table) : Option Table :=
  match s with
  | .root => document.insertAll entries.reverse
  | .table path key =>
    document.change (fun parent =>
      match parent.find? key with
      | none => do return parent.put key (.table .headed (← Table.insertAll [] entries.reverse))
      | some (.table .implied below) => do
        return parent.put key (.table .headed (← Table.insertAll below entries.reverse))
      | some _ => none) path
  | .element path key =>
    document.change (fun parent =>
      match parent.find? key with
      | none => do return parent.put key (.tables [← Table.insertAll [] entries.reverse])
      | some (.tables elements) => do
        return parent.put key (.tables (elements ++ [← Table.insertAll [] entries.reverse]))
      | some _ => none) path

/-- The header of a table or of one more table of an array. -/
def header : Parser Section := do
  char '['
  match ← peek with
  | some '[' => do
    char '['
    let (path, last) ← key
    word "]]"
    trailing
    return .element path last
  | _ => do
    let (path, last) ← key
    char ']'
    trailing
    return .table path last

/-- A document: lines that are blank, comments, headers or entries. -/
def document : Parser Table := do
  discard (possibly (char '\uFEFF'))
  blank
  let (whole, current, entries) ← repeatOn (fun (whole, current, entries) => do
    match ← peek with
    | none => return none
    | some '#' => do
      comment
      lineEnd
      blank
      return some (whole, current, entries)
    | some '\n' => do
      newline
      blank
      return some (whole, current, entries)
    | some '\r' => do
      newline
      blank
      return some (whole, current, entries)
    | some '[' => do
      let started ← header
      blank
      let whole ← StateT.lift (Section.close current entries whole)
      return some (whole, started, [])
    | some _ => do
      let entry ← entryWith (value (depthLimit - 1))
      trailing
      blank
      return some (whole, current, entry :: entries)) (([] : Table), Section.root, [])
  StateT.lift (current.close entries whole)

/-- The table of a document. -/
def parse? (text : String) : Option Table :=
  match document text.toList with
  | some (table, []) => some table
  | _ => none

end NamedContent.Toml
