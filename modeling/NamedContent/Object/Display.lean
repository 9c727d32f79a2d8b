import NamedContent.Object.Basic
import NamedContent.Text.Combining
import NamedContent.Text.Printable

/-! # Objects in diagnostics

The readable form of notes and of objects that hold them.

* `quoted`: a text between quotation marks
* `Note.debugText`, `VersionedObject.debugText`: the readable forms
-/

namespace NamedContent

/-- A character inside a quoted text. Quotation marks and backslashes are escaped, and so is every
character that would not show, or not by itself. -/
def quotedChar (c : Char) : String :=
  if c = '"' then "\\\""
  else if c = '\\' then "\\\\"
  else if c = '\n' then "\\n"
  else if c = '\r' then "\\r"
  else if c = '\t' then "\\t"
  else if c.toNat = 0 then "\\0"
  else if Text.isCombining c ∨ ¬ Text.isPrintable c then
    "\\u\x7b" ++ String.ofList (Nat.toDigits 16 c.toNat) ++ "\x7d"
  else String.singleton c

/-- A text between quotation marks. -/
def quoted (text : String) : String :=
  "\"" ++ String.join (text.toList.map quotedChar) ++ "\""

/-- The readable form of something that may be absent. -/
def optionText {α : Type} (shown : α → String) : Option α → String
  | none => "None"
  | some a => "Some(" ++ shown a ++ ")"

/-- The readable form of a note. -/
def Note.debugText (n : Note) : String :=
  "Note \x7b title: " ++ quoted n.title ++ ", body: " ++ quoted n.body ++ " \x7d"

/-- The word for how an object stands to what is published. -/
def ObjectState.debugText : ObjectState → String
  | .unbound => "Unbound"
  | .clean => "Clean"
  | .dirty => "Dirty"
  | .gone => "Gone"

/-- The readable form of an object, with a way to show its value. -/
def VersionedObject.debugText {α : Type} (shown : α → String) (o : VersionedObject α) : String :=
  "NetworkObject \x7b name: " ++ optionText Name.debugText o.name ++ ", state: "
    ++ o.state.debugText ++ ", data: " ++ optionText shown o.copy.data ++ " \x7d"

end NamedContent
