import Bindmark.Table

/-!
# Document nodes

A document is a list of nodes: elements with attributes and children, and
leaves of several kinds with a text.
-/

namespace Bindmark

/-- The kinds of nodes that only hold a text. -/
inductive LeafKind where
  | text
  /-- Text inside a template. -/
  | template
  | comment
  | script
  | style
  /-- Text of a ruby annotation. -/
  | rubyText
  /-- Text around a ruby annotation. -/
  | rubyParenthesis
  | cdata
  | doctype
  deriving DecidableEq

inductive AttributeValue where
  | text (t : Text)
  | words (ts : List Text)
  /-- The attribute stands without a value. -/
  | bare
  deriving DecidableEq

inductive Node where
  | element (tag : Text) (attributes : Table AttributeValue) (children : List Node)
  | leaf (kind : LeafKind) (text : Text)

namespace AttributeValue

/-- The text of an attribute: its words are joined with spaces. -/
def joined : AttributeValue → Text
  | .text t => t
  | .words ts => Text.join (lit " ") ts
  | .bare => []

end AttributeValue

namespace Node

instance : Inhabited Node := ⟨.leaf .text []⟩

abbrev ofText (t : Text) : Node := .leaf .text t

abbrev ofComment (t : Text) : Node := .leaf .comment t

/-- A node with other children; a leaf has none. -/
def withChildren (children : List Node) : Node → Node
  | .element tag attributes _ => .element tag attributes children
  | .leaf kind t => .leaf kind t

end Node
end Bindmark
