import Bindmark.Html.Token
import Bindmark.Node

/-!
# The nodes of a source

Elements are open from their start tag to their end tag. Void elements are
closed at once. Blank text shrinks to one character, unless it stands in an
element that keeps its text.
-/

namespace Bindmark.Html

def voidElements : List Text :=
  [lit "area", lit "base", lit "br", lit "col", lit "embed", lit "hr", lit "img", lit "input",
   lit "keygen", lit "link", lit "menuitem", lit "meta", lit "param", lit "source", lit "track",
   lit "wbr", lit "basefont", lit "bgsound", lit "command", lit "frame", lit "image",
   lit "isindex", lit "nextid", lit "spacer"]

/-- The elements that keep blank text as it is. -/
def preservingElements : List Text := [lit "pre", lit "textarea"]

/-- The elements whose text is of a kind of its own. -/
def textKinds : List (Text × LeafKind) :=
  [(lit "rt", .rubyText), (lit "rp", .rubyParenthesis), (lit "style", .style),
   (lit "script", .script), (lit "template", .template)]

/-- An open element with the nodes in it so far. -/
structure OpenElement where
  tag : Text
  attributes : Table AttributeValue
  children : List Node

/-- A document while it is read. -/
structure Builder where
  /-- The topmost nodes so far, when no element is open, else those before the
      outermost open one. -/
  nodes : List Node := []
  /-- The open elements, the innermost first. -/
  openElements : List OpenElement := []
  /-- Text that is not yet a node. -/
  pending : Text := []

namespace Builder

/-! ## Text -/

def textKind (b : Builder) : LeafKind :=
  (b.openElements.findSome? fun e => textKinds.lookup e.tag).getD .text

/-- Blank text as one line feed or one space, unless an open element keeps it. -/
def shrink (b : Builder) (t : Text) : Text :=
  if t.all [' ', '\n', '\t', '\x0c', '\r'].contains &&
      !b.openElements.any fun e => preservingElements.contains e.tag then
    if t.contains '\n' then ['\n'] else [' ']
  else t

def addNode (b : Builder) (node : Node) : Builder :=
  match b.openElements with
  | [] => { b with nodes := b.nodes ++ [node] }
  | e :: outer => { b with openElements := { e with children := e.children ++ [node] } :: outer }

/-- The pending text becomes a node. -/
def flush (b : Builder) : Builder :=
  if b.pending.isEmpty then b
  else { b.addNode (.leaf b.textKind (b.shrink b.pending)) with pending := [] }

/-- A node of another kind than text is added. -/
def addLeaf (b : Builder) (kind : LeafKind) (t : Text) : Builder :=
  let b := b.flush
  b.addNode (.leaf kind (b.shrink t))

/-! ## Elements -/

/-- Elements closed from the innermost one up to one with a tag, where `inner`
    is what was closed last: what is still open, and what is outside of it. -/
def closeTo (tag : Text) : List OpenElement → List Node → List OpenElement × List Node
  | [], inner => ([], inner)
  | e :: outer, inner =>
    let node := Node.element e.tag e.attributes (e.children ++ inner)
    if e.tag = tag then
      match outer with
      | [] => ([], [node])
      | next :: rest => ({ next with children := next.children ++ [node] } :: rest, [])
    else closeTo tag outer [node]

def closeAll : List OpenElement → List Node → List Node
  | [], inner => inner
  | e :: outer, inner => closeAll outer [.element e.tag e.attributes (e.children ++ inner)]

/-- The innermost element with a tag is closed, if there is one. -/
def close (b : Builder) (tag : Text) : Builder :=
  let b := b.flush
  if b.openElements.any fun e => e.tag == tag then
    let (openElements, outside) := closeTo tag b.openElements []
    { b with openElements, nodes := b.nodes ++ outside }
  else b

/-- An element is opened. A void element is closed again at once, and so is one
    whose tag closes itself. -/
def startElement (b : Builder) (tag : Text) (attributes : List (Text × Text))
    (selfClosing : Bool) : Builder :=
  let b := b.flush
  let table := Table.ofList (attributes.map fun (k, v) => (k, AttributeValue.text v))
  let b := { b with openElements := ⟨tag, table, []⟩ :: b.openElements }
  if selfClosing || voidElements.contains tag then b.close tag else b

def step (b : Builder) : Token → Builder
  | .startTag tag attributes selfClosing => b.startElement tag attributes selfClosing
  | .endTag tag => b.close tag
  | .comment t => b.addLeaf .comment t
  | .doctype t => b.addLeaf .doctype t
  | .text t => { b with pending := b.pending ++ t }

/-- The nodes of a document that has been read to its end. -/
def finish (b : Builder) : List Node :=
  let b := b.flush
  b.nodes ++ closeAll b.openElements []

end Builder

def read (source : Text) : List Node := ((tokens source).foldl Builder.step {}).finish

end Bindmark.Html
