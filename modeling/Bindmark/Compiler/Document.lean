import Bindmark.Compiler.Visit

/-!
# Compiling documents

Every node of a document is visited, an element before its children, also when
the element has given way to other nodes. These are not visited.
-/

namespace Bindmark.Document

/-- The tag that stands for the parent of the topmost nodes. -/
def rootTag : Text := lit "[document]"

mutual
/-- The nodes that a node under a parent becomes. -/
def compileNode (s : Settings) (parent : Text) : Node → Work (List Node)
  | .element tag attributes children => do
    match ← Visit.visit s parent (.element tag attributes children) with
    | .gone ns =>
      -- The children are part of the document that was read, and are visited with it.
      discard (compileNodes s tag children)
      return ns
    | .stays node =>
      let children ← compileNodes s tag children
      return [node.withChildren children]
  | .leaf kind t => do
    match ← Visit.visit s parent (.leaf kind t) with
    | .gone ns => return ns
    | .stays node => return [node]

/-- The nodes that the children of a parent become. -/
def compileNodes (s : Settings) (parent : Text) : List Node → Work (List Node)
  | [] => return []
  | node :: rest => do
    let first ← compileNode s parent node
    let others ← compileNodes s parent rest
    return first ++ others
end

/-- A document is compiled. -/
def compile (s : Settings) (nodes : List Node) : Work (List Node) := compileNodes s rootTag nodes

end Bindmark.Document
