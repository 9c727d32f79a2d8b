import NamedContent.Name.Basic

/-! # The URI form of names

A name is written as its escaped components, each after a slash; the empty name is a single
slash. Reading accepts an optional scheme, ignores a query and a fragment, and drops empty
segments.

* `Name.toUri`: the text of a name
* `Name.ofUri`: the name of a text
* `NameError`: why a text or a version component cannot be read
-/

namespace NamedContent

/-- Why a name, or the version in it, cannot be read. -/
inductive NameError where
  /-- The text, or the quoted segment of it, is no name. -/
  | invalidUri (text : String)
  /-- The name with this URI carries no version component. -/
  | versionMissing (uri : String)
  /-- The component is no version. -/
  | invalidVersion
  deriving DecidableEq, Repr

/-- The wording of an error. -/
def NameError.message : NameError → String
  | .invalidUri text => "invalid name uri: " ++ text
  | .versionMissing uri => "version missing: " ++ uri
  | .invalidVersion => "invalid version component"

namespace Name

/-! ## Writing -/

/-- The characters of the URI of a name. -/
def uriChars (n : Name) : List Char :=
  if n.isEmpty then ['/'] else n.components.flatMap fun c => '/' :: c.escapedChars

/-- The URI of a name. -/
def toUri (n : Name) : String := String.ofList n.uriChars

/-- The readable form for diagnostics. -/
def debugText (n : Name) : String := "Name(" ++ n.toUri ++ ")"

/-! ## Reading -/

/-- The scheme that may stand in front of a name. -/
def scheme : List Char := ['c', 'c', 'n', 'x', ':']

/-- The text without one leading scheme. -/
def dropScheme (text : List Char) : List Char :=
  if scheme.isPrefixOf text then text.drop scheme.length else text

/-- The text before the first question mark or number sign. -/
def path (text : List Char) : List Char :=
  text.takeWhile fun c => c != '?' && c != '#'

/-- The pieces between slashes, the empty ones included. -/
def pieces : List Char → List (List Char)
  | [] => [[]]
  | c :: rest =>
    if c = '/' then [] :: pieces rest
    else match pieces rest with
      | [] => [[c]]
      | piece :: more => (c :: piece) :: more

/-- The name written by a text. A path that does not start with a slash is refused with the whole
text, a segment that stands for no component with that segment. -/
def ofUri (uri : String) : Except NameError Name := do
  let p := path (dropScheme uri.toList)
  if p.head? != some '/' then throw (.invalidUri uri)
  let segments := (pieces p).filter (!·.isEmpty)
  let components ← segments.mapM fun segment =>
    match Component.ofEscaped? segment with
    | some c => .ok c
    | none => .error (.invalidUri (String.ofList segment))
  return ⟨components⟩

/-- The name with unescaped texts added as components. -/
def appendTexts (n : Name) (texts : List String) : Name :=
  n.append (texts.map Component.ofString)

end Name

end NamedContent
