import Bindmark.Compiler.Basic
import Bindmark.Proofs.Gating
import Bindmark.Proofs.Visits

/-!
# What is said while documents are compiled

Looking keys up, preprocessing directive strings and visiting nodes are put together
from quiet parts and from statements that log events. All of these events are details,
which a reader of the log only sees from the second level on, apart from those that
tell of directives in comment markers that may not hold them.
-/

namespace Bindmark

open Work

variable {P : Event → Prop}

/-! ## Looking keys up -/

/-- Whether an event is a detail, which is not seen with the normal verbosity. -/
def Event.isDetail (e : Event) : Bool := 1 < e.level

namespace Registry

theorem storeNew_speaks (key : Text) (h : Handler) : Speaks P (storeNew key h) :=
  Speaks.registry.bind fun _ => (Speaks.changeRegistry _).bind fun _ => .pure _

theorem synthesize_speaks (h : Handler) (member ns key : Text) : Speaks P (synthesize h member ns key) := by
  unfold synthesize
  dsimp only
  split
  · exact .bind (.pure _) fun _ => .pure _
  · refine .bind (.trace _) fun _ => ?_
    split
    · exact .bind (.pure _) fun _ => .pure _
    · exact .bind (.throw _) fun _ => .pure _

variable (detail : ∀ e : Event, e.isDetail → P e)
include detail

theorem createMember_speaks (key : Text) : Speaks P (createMember key) := by
  refine Speaks.registry.bind fun r => ?_
  split
  · exact .pure _
  · split
    · exact .pure _
    · refine (synthesize_speaks _ _ _ _).bind fun made => ?_
      split
      · exact .pure _
      · have stored (ns : Text) (h : Handler) : Speaks P (do
            let made ← storeNew key h
            Work.log (.synthesized key ns)
            return some made) :=
          (storeNew_speaks key h).bind fun _ => (Speaks.log (detail _ rfl)).bind fun _ => .pure _
        exact .optional (.changeRegistry _) fun _ => stored _ _

theorem create_speaks (key : Text) (c : Creator) : Speaks P (create key c) := by
  cases c with
  | namespaces => exact createMember_speaks detail key
  | client c =>
    unfold create CreatorClient.create
    dsimp only
    split
    · exact .pure _
    · split
      · exact .pure _
      · refine .bind (.trace _) fun _ => ?_
        split
        · exact .pure _
        · split
          · exact (storeNew_speaks key _).bind fun _ => .pure _
          · exact Speaks.registry.bind fun _ => (Speaks.changeRegistry _).bind fun _ => .pure _

theorem createFirst_speaks (key : Text) : ∀ creators : List Creator, Speaks P (createFirst key creators)
  | [] => .pure _
  | c :: rest => by
    refine (create_speaks detail key c).bind fun made => ?_
    split
    · exact .pure _
    · exact createFirst_speaks key rest

theorem lookup_speaks (key : Text) : Speaks P (lookup key) := by
  refine Speaks.registry.bind fun r => ?_
  split
  · exact .pure _
  · exact createFirst_speaks detail key r.creators

end Registry

/-! ## Directives -/

namespace Directive

section
variable {add : Adder} (added : ∀ p, Speaks P (add p))

theorem applyFilters_speaks (d : Datum) : Speaks P (applyFilters d) := by
  unfold applyFilters
  split
  · exact .pure _
  · split
    · exact .throw _
    · exact .pure _
  · split
    · exact .throw _
    · exact .pure _
  · exact .throw _

theorem applyReferences_speaks (d : Datum) : Speaks P (applyReferences d) := by
  cases d with
  | text t => exact .pure _
  | _ => exact .throw _

theorem textOf_speaks (d : Datum) : Speaks P (textOf d) := by
  cases d with
  | text t => exact .pure _
  | _ => exact .throw _

include added

theorem give_speaks (p : Pair) : SpeaksCarrying P (give add p) :=
  (SpeaksCarrying.lift (added p)).bind fun _ => .modify _

theorem apply_speaks (key : Text) (p : Preprocessor) (d : Datum) : SpeaksCarrying P (apply add key p d) := by
  cases p with
  | filters => exact .lift (applyFilters_speaks d)
  | references => exact .lift (applyReferences_speaks d)
  | client c =>
    refine (SpeaksCarrying.lift (.trace _)).bind fun _ => (SpeaksCarrying.forM (give_speaks added) _).bind fun _ => ?_
    split
    · exact .pure _
    · exact .throw _
  | notCallable given => exact .throw _

theorem splitMembers_speaks (key t : Text) : SpeaksCarrying P (splitMembers add key t) := by
  unfold splitMembers
  split
  · exact (SpeaksCarrying.lift .registry).bind fun r =>
      (SpeaksCarrying.forM (fun p => give_speaks added _) _).bind fun _ => .pure _
  · exact .pure _

theorem propertyValue_speaks (table : Table (Pipeline Preprocessor)) (p : Pair) :
    SpeaksCarrying P (propertyValue add table p) := by
  unfold propertyValue
  split
  · exact .through (fun stage d => apply_speaks added p.key stage d) _ _
  · exact .pure _

theorem propertyValues_speaks (table : Table (Pipeline Preprocessor)) :
    ∀ ps : List Pair, SpeaksCarrying P (propertyValues add table ps)
  | [] => .pure _
  | p :: rest =>
    (propertyValue_speaks added table p).bind fun _ => (propertyValues_speaks table rest).bind fun _ => .pure _

theorem preprocessProperties_speaks (h : Handler) (t : Text) : SpeaksCarrying P (preprocessProperties add h t) := by
  unfold preprocessProperties
  split
  · exact (propertyValues_speaks added _ _).bind fun _ => .pure _
  · exact .pure _

theorem runStage_speaks (h : Handler) (key : Text) (stage : Stage) (d : Datum) :
    SpeaksCarrying P (runStage add h key stage d) := by
  cases stage with
  | apply p => exact apply_speaks added key p d
  | members => exact (SpeaksCarrying.lift (textOf_speaks d)).bind fun t => splitMembers_speaks added key t
  | properties =>
    exact (SpeaksCarrying.lift (textOf_speaks d)).bind fun t =>
      (preprocessProperties_speaks added h t).bind fun _ => .pure _

theorem preprocess_speaks (h : Handler) (key : Text) (pipeline : Pipeline Stage) (d : Datum) :
    Speaks P (preprocess add h key pipeline d) :=
  SpeaksCarrying.through (runStage_speaks added h key) pipeline d []

end

variable (detail : ∀ e : Event, e.isDetail → P e)
include detail

theorem expand_speaks : ∀ (depth : Nat) (p : Pair), Speaks P (expand depth p)
  | 0, _ => .throw _
  | depth + 1, p => by
    refine (Registry.lookup_speaks detail p.key).bind fun entry => ?_
    split
    · refine (preprocess_speaks (expand_speaks depth) _ _ _ _).bind fun (result, added) => ?_
      dsimp only
      split
      · exact .pure _
      · exact (Speaks.log (detail _ rfl)).bind fun _ => .pure _
    · exact .pure _

theorem expandAll_speaks (depth : Nat) : ∀ ps : List Pair, Speaks P (expandAll depth ps)
  | [] => .pure _
  | p :: rest => (expand_speaks detail depth p).bind fun _ => (expandAll_speaks depth rest).bind fun _ => .pure _

theorem preprocessText_speaks (t : Text) : Speaks P (preprocessText t) :=
  Speaks.registry.bind fun _ => (expandAll_speaks detail _ _).bind fun _ => .pure _

end Directive

/-! ## Attributes -/

namespace Interpolation

variable (detail : ∀ e : Event, e.isDetail → P e)
include detail

theorem attributeKey_speaks (s : Settings) (name : Text) : Speaks P (attributeKey s name) := by
  unfold attributeKey
  split
  · exact .pure _
  · refine (Registry.lookup_speaks detail name).bind fun entry => ?_
    cases entry <;> exact .pure _

theorem moveAttributes_speaks (s : Settings) (tag : Text) :
    ∀ (entries : List (Text × AttributeValue)) (attributes : Table AttributeValue),
      Speaks P (moveAttributes s tag entries attributes)
  | [], _ => .pure _
  | (name, value) :: rest, attributes => by
    unfold moveAttributes
    split
    · exact moveAttributes_speaks s tag rest attributes
    · split
      · exact moveAttributes_speaks s tag rest attributes
      · exact (attributeKey_speaks detail s _).bind fun _ =>
          (Speaks.log (detail _ rfl)).bind fun _ => moveAttributes_speaks s tag rest _

theorem interpolateAttributes_speaks (s : Settings) (node : Node) : Speaks P (interpolateAttributes s node) := by
  cases node with
  | element tag attributes children => exact (moveAttributes_speaks detail s tag _ _).bind fun _ => .pure _
  | leaf kind t => exact .pure _

end Interpolation

/-! ## Visits -/

namespace Visit

variable (detail : ∀ e : Event, e.isDetail → P e)

/-- The stages that there are for nodes. -/
def nodeStages : Work (Option (Pipeline NodeStage)) := return (← get).nodeStages

theorem runStages_eq (s : Settings) : runStages s = (do
    match ← (nodeStages : Work _) with
    | none => return .none
    | some stages => stages.firstAnswer Answer.truthy (runStage s) : Visiting Answer) := rfl

/-- The directive string of a node that is an opening marker. -/
def marker? (s : Settings) : Node → Option Text
  | .leaf .comment t => s.readMarker? t
  | _ => none

/-- A marker gives way to one with its directives preprocessed, if it stands in the
    document. -/
def replaceMarker (s : Settings) (inDocument : Bool) (directives : Text) : Work Node := do
  let processed ← Directive.preprocessText directives
  if !inDocument then throw .notInDocument
  Work.count fun n => { n with directives := n.directives + 1 }
  return .leaf .comment (s.openMarker processed)

theorem preprocessNode_marker {s : Settings} (inDocument : Bool) {node : Node} {directives : Text}
    (marked : marker? s node = some directives) : preprocessNode s inDocument node = (do
      let barred ← notAllowed (Pair.split directives)
      barred.forM fun key => Work.log (.notAllowed key)
      replaceMarker s inDocument directives) := by
  unfold marker? at marked
  split at marked
  · simp only [preprocessNode, marked]
    rfl
  · cases marked

theorem countAnswer_speaks (answer : Answer) : Speaks P (countAnswer answer) := by
  unfold countAnswer
  split
  · exact .count _
  · exact .pure _

theorem directivesOf?_speaks (s : Settings) (attributes : Table AttributeValue) :
    Speaks P (directivesOf? s attributes) := by
  unfold directivesOf?
  split
  · exact .pure _
  · split
    · exact .pure _
    · exact .throw _
  · exact .pure _

include detail

theorem runStage_speaks (s : Settings) (stage : NodeStage) : SpeaksCarrying P (runStage s stage) := by
  cases stage with
  | texts =>
    refine SpeaksCarrying.get.bind fun v => ?_
    split
    · exact .pure _
    · exact (SpeaksCarrying.set _).bind fun _ =>
        (SpeaksCarrying.lift (.log (detail _ rfl))).bind fun _ => .pure _
  | attributes =>
    exact SpeaksCarrying.get.bind fun v =>
      (SpeaksCarrying.lift (Interpolation.interpolateAttributes_speaks detail s v.node)).bind fun _ =>
        (SpeaksCarrying.set _).bind fun _ => .pure _
  | client c =>
    refine SpeaksCarrying.get.bind fun v => (SpeaksCarrying.lift (.trace _)).bind fun _ => ?_
    split
    · exact .pure _
    · exact .pure _
    · exact .pure _
    · have placed (ns : List Node) : SpeaksCarrying P (do
          set (v.putInPlace ns)
          return Answer.nodes ns : Visiting Answer) :=
        (SpeaksCarrying.set _).bind fun _ => .pure _
      dsimp only
      split
      · exact (SpeaksCarrying.throw _).bind fun _ => placed _
      · exact placed _
    · exact .throw _

theorem runStages_speaks (s : Settings) : SpeaksCarrying P (runStages s) := by
  rw [runStages_eq]
  refine (SpeaksCarrying.lift (.quiet fun _ _ => rfl)).bind fun stages => ?_
  split
  · exact .pure _
  · exact .firstAnswer (runStage_speaks detail s) _

theorem notAllowed_speaks : ∀ ps : List Pair, Speaks P (notAllowed ps)
  | [] => .pure _
  | p :: rest =>
    (Registry.lookup_speaks detail p.key).bind fun _ =>
      Speaks.registry.bind fun _ => (notAllowed_speaks rest).bind fun _ => .pure _

theorem replaceMarker_speaks (s : Settings) (inDocument : Bool) (directives : Text) :
    Speaks P (replaceMarker s inDocument directives) :=
  (Directive.preprocessText_speaks detail directives).bind fun _ =>
    Speaks.optional (.throw _) fun _ => (Speaks.count _).bind fun _ => .pure _

/-- Only of the keys of a comment marker it is told that they are not allowed. -/
theorem preprocessNode_speaks (s : Settings) (inDocument : Bool) (node : Node)
    (told : ∀ directives, marker? s node = some directives → ∀ key, P (.notAllowed key)) :
    Speaks P (preprocessNode s inDocument node) := by
  cases marked : marker? s node with
  | some directives =>
    rw [preprocessNode_marker inDocument marked]
    exact (notAllowed_speaks detail _).bind fun barred =>
      (Speaks.forM (fun _ => .log (told directives marked _)) barred).bind fun _ =>
        replaceMarker_speaks detail s inDocument directives
  | none =>
    unfold preprocessNode
    split
    · refine (directivesOf?_speaks s _).bind fun directives => ?_
      split
      · exact .pure _
      · exact (Directive.preprocessText_speaks detail _).bind fun _ => (Speaks.count _).bind fun _ => .pure _
    · rw [marker?] at marked
      rw [marked]
      exact .pure _
    · exact .pure _

variable (told : ∀ key, P (.notAllowed key))
include told

theorem preprocessNodes_speaks (s : Settings) (inDocument : Bool) (nodes : List Node) :
    Speaks P (preprocessNodes s inDocument nodes) := by
  induction nodes with
  | nil => exact .pure _
  | cons node rest ih =>
    have others (node : Node) : Speaks P (do return node :: (← preprocessNodes s inDocument rest) : Work (List Node)) :=
      ih.bind fun _ => .pure _
    unfold preprocessNodes
    dsimp only
    split
    · exact (preprocessNode_speaks detail s inDocument node fun _ _ => told).bind others
    · exact (Speaks.pure _).bind others

theorem conclude_speaks (s : Settings) (answer : Answer) (v : Visit) : Speaks P (conclude s answer v) := by
  have preprocessed (inDocument : Bool) (nodes : List Node) := preprocessNodes_speaks detail told s inDocument nodes
  unfold conclude
  split
  · exact (preprocessed _ _).discard.bind fun _ => .pure _
  · exact (preprocessed _ _).bind fun _ => .pure _
  · exact (preprocessed _ _).bind fun _ => .pure _
  · exact (preprocessed _ _).discard.bind fun _ => .pure _

theorem visit_speaks (s : Settings) (parent : Text) (node : Node) : Speaks P (visit s parent node) := by
  rw [visit_eq]
  exact (Speaks.count _).bind fun _ => (runStages_speaks detail s _).bind fun answered =>
    (countAnswer_speaks answered.1).bind fun _ => conclude_speaks detail told s answered.1 answered.2

end Visit

/-! ## Documents -/

namespace Document

mutual
theorem compileNode_speaks (detail : ∀ e : Event, e.isDetail → P e) (told : ∀ key, P (.notAllowed key)) (s : Settings)
    (parent : Text) : ∀ node : Node, Speaks P (compileNode s parent node)
  | .element tag attributes children => by
    unfold compileNode
    refine (Visit.visit_speaks detail told s parent _).bind fun result => ?_
    split
    · exact (compileNodes_speaks detail told s tag children).discard.bind fun _ => .pure _
    · exact (compileNodes_speaks detail told s tag children).bind fun _ => .pure _
  | .leaf kind t => by
    unfold compileNode
    refine (Visit.visit_speaks detail told s parent _).bind fun result => ?_
    cases result <;> exact .pure _

theorem compileNodes_speaks (detail : ∀ e : Event, e.isDetail → P e) (told : ∀ key, P (.notAllowed key))
    (s : Settings) (parent : Text) : ∀ nodes : List Node, Speaks P (compileNodes s parent nodes)
  | [] => by
    unfold compileNodes
    exact .pure _
  | node :: rest => by
    unfold compileNodes
    exact (compileNode_speaks detail told s parent node).bind fun _ =>
      (compileNodes_speaks detail told s parent rest).bind fun _ => .pure _
end

end Document

namespace Compiler

theorem compileDocument_speaks (detail : ∀ e : Event, e.isDetail → P e) (told : ∀ key, P (.notAllowed key))
    (s : Settings) (nodes : List Node) : Speaks P (compileDocument s nodes) :=
  (Speaks.count _).bind fun _ => Document.compileNodes_speaks detail told s Document.rootTag nodes

/-- The statistics of the last document. -/
def stats : Work Stats := return (← get).stats

theorem compile_eq (s : Settings) (source : Text) : compile s source = (do
    Work.log .started
    if !readers.contains s.htmlReader then throw (.unknownReader s.htmlReader)
    let nodes ← compileDocument s (Html.read source)
    let stats ← stats
    Work.log (.compiled stats.nodes stats.replaced stats.directives)
    return Html.write nodes) := rfl

theorem compile_speaks (detail : ∀ e : Event, e.isDetail → P e) (told : ∀ key, P (.notAllowed key)) (s : Settings)
    (source : Text) : Speaks P (compile s source) := by
  rw [compile_eq]
  refine (Speaks.log (detail _ rfl)).bind fun _ => Speaks.optional (.throw _) fun _ => ?_
  refine (compileDocument_speaks detail told s _).bind fun nodes => ?_
  refine Speaks.bind (.quiet fun _ _ => rfl) fun stats => ?_
  exact (Speaks.log (detail _ rfl)).bind fun _ => .pure _

end Compiler
end Bindmark
