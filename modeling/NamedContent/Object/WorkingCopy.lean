import NamedContent.Timestamp

/-! # Working copies

A value together with what is needed to know whether it must be saved.

* `WorkingCopy`: the type, with `WorkingCopy.empty` and `WorkingCopy.ofValue`
* `WorkingCopy.set`, `WorkingCopy.modify`: changes that must be saved
* `WorkingCopy.replaceClean`, `WorkingCopy.markSaved`, `WorkingCopy.markClean`: changes that need
  not
-/

namespace NamedContent

/-- A value that may be absent and may have changes that are not saved. -/
structure WorkingCopy (α : Type) where
  /-- The value. -/
  data : Option α
  /-- Whether it has changes that are not saved. -/
  dirty : Bool
  /-- The time of the last save. -/
  lastSaved : Option Timestamp
  deriving DecidableEq, Inhabited

namespace WorkingCopy

variable {α : Type}

/-- No value. -/
def empty : WorkingCopy α := ⟨none, false, none⟩

/-- A first value, which counts as a change. -/
def ofValue (a : α) : WorkingCopy α := ⟨some a, true, none⟩

/-- Whether there is a value. -/
def isAvailable (w : WorkingCopy α) : Bool := w.data.isSome

/-- Replaces the value. -/
def set (w : WorkingCopy α) (a : α) : WorkingCopy α := { w with data := some a, dirty := true }

/-- Changes the value, if there is one. -/
def modify (w : WorkingCopy α) (f : α → α) : WorkingCopy α :=
  match w.data with
  | some a => { w with data := some (f a), dirty := true }
  | none => w

/-- Replaces the value by one that is saved. -/
def replaceClean (w : WorkingCopy α) (a : α) : WorkingCopy α :=
  { w with data := some a, dirty := false }

/-- All changes are saved, at a time. -/
def markSaved (w : WorkingCopy α) (time : Timestamp) : WorkingCopy α :=
  { w with dirty := false, lastSaved := some time }

/-- There are no changes to save. -/
def markClean (w : WorkingCopy α) : WorkingCopy α := { w with dirty := false }

end WorkingCopy

end NamedContent
