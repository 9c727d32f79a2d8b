import NamedContent.Content.Wire
import NamedContent.Interest.Basic

/-! # The content store

A bounded cache of objects in order of use, the most recently used first. An object is stored under
its name and digest; when the store is full, the least recently used object makes room.

* `ContentStore`: the type, with `ContentStore.insert` and `ContentStore.lookup`
* `StoreKey`, `StoreEntry`: what the store holds
-/

namespace NamedContent

/-- What tells stored objects apart. -/
structure StoreKey where
  /-- The name of the object. -/
  name : Name
  /-- The digest of the object. -/
  digest : Digest
  deriving DecidableEq

/-- A stored object. -/
structure StoreEntry where
  /-- The key it is stored under. -/
  key : StoreKey
  /-- The object. -/
  object : ContentObject
  deriving DecidableEq

/-- A bounded cache of objects. -/
structure ContentStore where
  /-- The number of objects asked for; at least one is kept. -/
  capacity : Nat
  /-- The objects, most recently used first. -/
  entries : List StoreEntry
  deriving DecidableEq

namespace ContentStore

/-- A store without objects. -/
def empty (capacity : Nat) : ContentStore := ⟨capacity, []⟩

/-- The number of objects. -/
def size (s : ContentStore) : Nat := s.entries.length

/-- The store with an entry made the most recently used one, in place of one with its key. The
least recently used entries beyond the capacity are dropped. -/
def insert (s : ContentStore) (e : StoreEntry) : ContentStore :=
  { s with entries := (e :: s.entries.filter (·.key ≠ e.key)).take (max 1 s.capacity) }

/-- The store with the entry of a key made the most recently used one. -/
def touch (s : ContentStore) (e : StoreEntry) : ContentStore :=
  { s with entries := e :: s.entries.filter (·.key ≠ e.key) }

/-- The preferred object that answers an interest, which becomes the most recently used one. Of
objects with one name, a leftmost interest takes the most recently used one, a rightmost interest
the least recently used one. -/
def lookup (s : ContentStore) (i : Interest) : Option ContentObject × ContentStore :=
  match i.selectOn StoreEntry.object s.entries with
  | none => (none, s)
  | some e => (some e.object, s.touch e)

end ContentStore

end NamedContent
