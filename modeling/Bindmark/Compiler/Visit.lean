import Bindmark.Directive.Preprocess
import Bindmark.Interpolation.Attributes
import Bindmark.Interpolation.Text

/-!
# Visiting a node

A node is sent to the stages until one answers with nodes. Then the directive
strings of those nodes are preprocessed, or that of the node itself.
-/

namespace Bindmark

/-- A node while it is visited. -/
structure Visit where
  node : Node
  parent : Option Text
  /-- The nodes that were put in its place, if it has lost that. -/
  place : Option (List Node) := none

/-- The answer of a stage for nodes. -/
inductive Answer where
  | none
  | itself
  | nodes (ns : List Node)

/-- Whether an answer holds a node. -/
def Answer.truthy : Answer → Bool
  | .none => false
  | .itself => true
  | .nodes ns => !ns.isEmpty

namespace Visit

abbrev Visiting := StateT Visit Work

/-! ## Stages -/

/-- Other nodes take the place of a node that has a parent. -/
def putInPlace (ns : List Node) (v : Visit) : Visit :=
  match v.parent with
  | some _ => { v with parent := none, place := some ns }
  | none => v

def runStage (s : Settings) : NodeStage → Visiting Answer
  | .texts => do
    let v ← get
    match Interpolation.textNodes? s v.parent v.node with
    | none => return .none
    | some ns =>
      set (v.putInPlace ns)
      Work.log (.textReplaced ns.length)
      return .nodes ns
  | .attributes => do
    let v ← get
    let node ← (Interpolation.interpolateAttributes s v.node : Work Node)
    set { v with node }
    return .none
  | .client c => do
    let v ← get
    Work.trace (.node c.name v.node.label)
    match c.respond v.node with
    | .declined => return .none
    | .nothing => return .nodes []
    | .claimed => return .itself
    | .replaced ns =>
      if v.parent.isNone && !ns.isEmpty then throw .noParent
      set (v.putInPlace ns)
      return .nodes ns
    | .raised f => throw (.raised f)

/-- A node is sent to the stages until one answers with nodes. -/
def runStages (s : Settings) : Visiting Answer := do
  match (← (get : Work State)).nodeStages with
  | none => return .none
  | some stages => stages.firstAnswer Answer.truthy (runStage s)

/-! ## Directives -/

/-- The keys of a directive string that have a handler and that comment markers
    may not hold. -/
def notAllowed : List Pair → Work (List Text)
  | [] => return []
  | p :: rest => do
    let entry ← Registry.lookup p.key
    let r ← Work.registry
    let others ← notAllowed rest
    return if entry.isSome && !r.isVirtual p.key then p.key :: others else others

/-- The directive string of an element, unless it is missing or empty. A list
    of words is none that could be split. -/
def directivesOf? (s : Settings) (attributes : Table AttributeValue) : Work (Option Text) :=
  match attributes.get? s.directiveAttribute with
  | some (.text t) => return if t.isEmpty then none else some t
  | some (.words ts) =>
    if ts.isEmpty then return none
    else throw (.lacks (.list (ts.map .text)) (lit "strip"))
  | _ => return none

/-- The directive string of a node is preprocessed: that of an element in its
    directive attribute, which goes when nothing is left, and that of a comment
    that is an opening marker and stands in the document. -/
def preprocessNode (s : Settings) (inDocument : Bool) : Node → Work Node
  | .element tag attributes children => do
    match ← directivesOf? s attributes with
    | none => return .element tag attributes children
    | some t =>
      let processed ← Directive.preprocessText t
      Work.count fun n => { n with directives := n.directives + 1 }
      return .element tag (if processed.isEmpty then attributes.erase s.directiveAttribute
        else attributes.insert s.directiveAttribute (.text processed)) children
  | .leaf .comment t => do
    match s.readMarker? t with
    | none => return .leaf .comment t
    | some directives =>
      (← notAllowed (Pair.split directives)).forM fun key => Work.log (.notAllowed key)
      let processed ← Directive.preprocessText directives
      if !inDocument then throw .notInDocument
      Work.count fun n => { n with directives := n.directives + 1 }
      return .leaf .comment (s.openMarker processed)
  | .leaf kind t => return .leaf kind t

/-- The directive strings of a list of nodes are preprocessed, if the settings
    say so. -/
def preprocessNodes (s : Settings) (inDocument : Bool) : List Node → Work (List Node)
  | [] => return []
  | node :: rest => do
    let node ← if s.preprocessDirectives then preprocessNode s inDocument node else pure node
    return node :: (← preprocessNodes s inDocument rest)

/-! ## Visits -/

/-- What a node has become: the node itself as it is now, or other nodes. -/
inductive Result where
  | stays (node : Node)
  | gone (ns : List Node)

def visit (s : Settings) (parent : Text) (node : Node) : Work Result := do
  Work.count fun n => { n with nodes := n.nodes + 1 }
  let (answer, v) ← (runStages s).run { node, parent := some parent }
  if answer.truthy then Work.count fun n => { n with replaced := n.replaced + 1 }
  match v.place, answer with
  | none, .nodes (first :: more) =>
    discard (preprocessNodes s false (first :: more))
    return .stays v.node
  | none, _ =>
    return .stays ((← preprocessNodes s true [v.node]).headD v.node)
  | some ns, .nodes (first :: more) =>
    let nodes ← preprocessNodes s (!ns.isEmpty) (first :: more)
    return .gone (if ns.isEmpty then [] else nodes)
  | some ns, _ =>
    discard (preprocessNodes s false [v.node])
    return .gone ns

end Visit
end Bindmark
