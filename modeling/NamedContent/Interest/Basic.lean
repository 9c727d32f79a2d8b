import NamedContent.Content.Basic
import NamedContent.OrderedSet

/-! # Interests

An interest asks for one content object at or below a name. It may bound the number of further
components, exclude some values of the next one, name the publisher, and prefer one end of the
order.

* `Exclude`, `Interest`: the types
* `Interest.validate`: the rule every interest that is sent or read obeys
* `Interest.matchesName`, `Interest.accepts`: which objects answer an interest
* `Interest.selectOn`, `Interest.select`: the preferred one of several
-/

namespace NamedContent

/-- Which end of the order an interest prefers. -/
inductive ChildSelector where
  /-- The least name. -/
  | leftmost
  /-- The greatest name. -/
  | rightmost
  deriving DecidableEq, Inhabited, Repr

/-! ## Exclusion -/

/-- The values that the component after the interest's name must not have. -/
structure Exclude where
  /-- Everything up to and including this component is excluded. -/
  through : Option Component
  /-- These components are excluded. -/
  components : OrderedSet Component
  deriving DecidableEq, Inhabited

namespace Exclude

/-- Nothing is excluded. -/
def none : Exclude := ⟨Option.none, .empty⟩

/-- Whether nothing is excluded. -/
def isEmpty (e : Exclude) : Bool := e.through.isNone && e.components.isEmpty

/-- Whether a component is excluded. -/
def excludes (e : Exclude) (c : Component) : Bool :=
  e.through.any (fun bound => decide (c ≤ bound)) || e.components.contains c

/-- A component is excluded in addition. -/
def add (e : Exclude) (c : Component) : Exclude := { e with components := e.components.insert c }

end Exclude

/-! ## Interests -/

/-- A request for one object at or below a name. -/
structure Interest where
  /-- The name that leads the names asked for. -/
  name : Name
  /-- The least number of further components. -/
  minSuffix : Option UInt64
  /-- The greatest number of further components. -/
  maxSuffix : Option UInt64
  /-- Which of several answers is preferred. -/
  selector : ChildSelector
  /-- What the next component must not be. -/
  exclude : Exclude
  /-- The publisher, when only one will do. -/
  publisher : Option PublisherKey
  deriving DecidableEq

namespace Interest

/-- Anything at or below a name. -/
def below (name : Name) : Interest where
  name
  minSuffix := none
  maxSuffix := none
  selector := .leftmost
  exclude := Exclude.none
  publisher := none

/-- Exactly a name. -/
def exact (name : Name) : Interest := { below name with maxSuffix := some 0 }

/-- The rule for interests: the bounds on the suffix do not cross. -/
def validate (i : Interest) : Except FormatError Unit :=
  match i.minSuffix, i.maxSuffix with
  | some least, some greatest =>
    if greatest < least then .error (.invalidInterest "min suffix components exceeds max")
    else .ok ()
  | _, _ => .ok ()

/-- Whether the interest keeps the rule. -/
def Valid (i : Interest) : Prop := i.validate = .ok ()

/-- Whether a name lies at or below the interest's name, within the bounds on the suffix, and
with a next component that is not excluded. -/
def matchesName (i : Interest) (name : Name) : Bool :=
  let suffix := name.length - i.name.length
  i.name.isPrefixOf name
    && i.minSuffix.all (fun least => least.toNat ≤ suffix)
    && i.maxSuffix.all (fun greatest => suffix ≤ greatest.toNat)
    && !(name.component? i.name.length).any i.exclude.excludes

/-- Whether an object answers the interest. -/
def accepts (i : Interest) (o : ContentObject) : Bool :=
  i.publisher.all (fun key => o.signedInfo.publisher == key) && i.matchesName o.name

/-! ## Selection -/

/-- The first of the candidates with the least name. -/
def leftmost {α : Type} (name : α → Name) : List α → Option α
  | [] => none
  | c :: rest =>
    match leftmost name rest with
    | none => some c
    | some best => if name best < name c then some best else some c

/-- The last of the candidates with the greatest name. -/
def rightmost {α : Type} (name : α → Name) : List α → Option α
  | [] => none
  | c :: rest =>
    match rightmost name rest with
    | none => some c
    | some best => if name best < name c then some c else some best

/-- The preferred one of the candidates whose object answers the interest. -/
def selectOn {α : Type} (i : Interest) (object : α → ContentObject) (candidates : List α) :
    Option α :=
  let matching := candidates.filter fun c => i.accepts (object c)
  match i.selector with
  | .leftmost => leftmost (fun c => (object c).name) matching
  | .rightmost => rightmost (fun c => (object c).name) matching

/-- The preferred one of the objects that answer the interest. -/
def select (i : Interest) (candidates : List ContentObject) : Option ContentObject :=
  i.selectOn id candidates

end Interest

end NamedContent
