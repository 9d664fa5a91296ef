import Bindmark.Datum.Display
import Bindmark.Interpolation.Value
import Bindmark.Registry.Lookup
import Bindmark.Segment.Scan
import Bindmark.Text.Lower

/-!
# Interpolated attributes

Attributes with expressions move into the directive attribute of their
element, in the order of the attributes.
-/

namespace Bindmark.Interpolation

/-- The directive key of an attribute: its own name if it is a two-way
    attribute or if there is a handler of that name, else a member of the
    attribute namespace. -/
def attributeKey (s : Settings) (name : Text) : Work Text := do
  if s.twoWayAttributes.contains name then return name
  else
    match ← Registry.lookup name with
    | some _ => return name
    | none => return s.attributeNamespace ++ s.namespaceDivider ++ name

/-- The directive value of an attribute; an attribute without expressions has
    none. -/
def valueOf? (s : Settings) (value : AttributeValue) : Option Text :=
  let t := value.joined
  if t.isEmpty then none
  else
    match Segment.scan s.openToken s.closeToken t with
    | none => none
    | some segments =>
      let v := attributeValue s segments
      if v.isEmpty then none else some v

/-- The directive string that an attribute value holds so far. -/
def directivesOf : Option AttributeValue → Text
  | some (.text t) => t
  | some (.words ts) => if ts.isEmpty then [] else (Datum.list (ts.map .text)).display
  | some .bare => []
  | none => []

/-- A directive string with one more directive. -/
def addDirective (directives directive : Text) : Text :=
  if directives.isEmpty then directive else directives ++ lit "," ++ directive

/-- Attributes that are moved one after the other, where `attributes` is what
    has become of all of them so far. -/
def moveAttributes (s : Settings) (tag : Text) :
    List (Text × AttributeValue) → Table AttributeValue → Work (Table AttributeValue)
  | [], attributes => return attributes
  | (name, value) :: rest, attributes => do
    if name = s.directiveAttribute then moveAttributes s tag rest attributes
    else
      match valueOf? s value with
      | none => moveAttributes s tag rest attributes
      | some v =>
        let key ← attributeKey s name.lower
        let old := directivesOf (attributes.get? s.directiveAttribute)
        let new := addDirective old (key ++ lit ":" ++ v)
        let moved := (attributes.insert s.directiveAttribute (.text new)).erase name
        Work.log (.attributeMoved name tag key)
        moveAttributes s tag rest moved

def interpolateAttributes (s : Settings) : Node → Work Node
  | .element tag attributes children => do
    return .element tag (← moveAttributes s tag attributes.entries attributes) children
  | .leaf kind t => return .leaf kind t

end Bindmark.Interpolation
