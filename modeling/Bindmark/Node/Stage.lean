import Bindmark.Fault
import Bindmark.Node

/-!
# Stages for nodes

What happens to each node of a document before its directives are
preprocessed: interpolation of texts and of attributes, and functions of
clients.
-/

namespace Bindmark

/-- What a client's function does with a node. -/
inductive NodeReply where
  /-- It leaves the node alone. -/
  | declined
  /-- It answers with no nodes, and leaves the node alone. -/
  | nothing
  /-- It answers with the node itself. -/
  | claimed
  /-- It puts other nodes in the place of the node and answers with them. -/
  | replaced (nodes : List Node)
  | raised (failure : Failure)

structure NodeClient where
  name : Text
  respond : Node → NodeReply

/-- A stage for nodes. -/
inductive NodeStage where
  | texts
  | attributes
  | client (c : NodeClient)

/-- What a node is called in traces: its tag in angle brackets, or its text. -/
def Node.label : Node → Text
  | .element tag _ _ => lit "<" ++ tag ++ lit ">"
  | .leaf _ t => t

end Bindmark
