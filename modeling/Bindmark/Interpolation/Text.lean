import Bindmark.Interpolation.Block
import Bindmark.Node
import Bindmark.Segment.Scan

/-!
# Interpolated text nodes

A text node with expressions becomes its literal texts and the comment
markers of its expressions. Text of raw containers is left alone. Among the
children of an element the new nodes take the place of the text node.
-/

namespace Bindmark.Interpolation

def segmentNodes (s : Settings) : Segment → List Node
  | .literal t => [.ofText t]
  | .expression t => ((Block.ofExpression t).markers s).map Node.ofComment

def segmentsNodes (s : Settings) (segments : List Segment) : List Node :=
  segments.flatMap (segmentNodes s)

def isInterpolated : LeafKind → Bool
  | .text => true
  | .template => true
  | _ => false

/-- Whether an element keeps its text as it is; a node without a parent is in
    no such element. -/
def isRaw (s : Settings) : Option Text → Bool
  | none => false
  | some tag => s.rawTextContainers.contains tag

/-- The nodes that take the place of a node under a parent, if it is a text
    node that holds expressions. -/
def textNodes? (s : Settings) (parent : Option Text) : Node → Option (List Node)
  | .element _ _ _ => none
  | .leaf kind t =>
    if isInterpolated kind && !isRaw s parent then
      match Segment.scan s.openToken s.closeToken t with
      | some (first :: rest) => some (segmentsNodes s (first :: rest))
      | _ => none
    else none

/-! ## Replacing a child -/

/-- The children of an element, and the position of one of them. -/
structure Place where
  children : List Node
  position : Nat

namespace Place

/-- The place of a node that stands between others. -/
def between (before : List Node) (node : Node) (after : List Node) : Place :=
  { children := before ++ node :: after, position := before.length }

/-- The place of the same node once another one is put before it. -/
def insertBefore (p : Place) (node : Node) : Place :=
  { children := p.children.insertIdx p.position node, position := p.position + 1 }

/-- The children without the node of the place. -/
def extract (p : Place) : List Node := p.children.eraseIdx p.position

end Place

/-- What a child of an element becomes, if it is interpolated, and the children
    of the element after that. The new nodes are put before the child one after
    the other, and then it is taken out. -/
def interpolateChild (s : Settings) (tag : Text) (before : List Node) (node : Node)
    (after : List Node) : Option (List Node) × List Node :=
  let place := Place.between before node after
  match textNodes? s (some tag) node with
  | none => (none, place.children)
  | some nodes => (some nodes, (nodes.foldl Place.insertBefore place).extract)

end Bindmark.Interpolation
