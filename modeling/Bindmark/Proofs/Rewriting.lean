import Bindmark.Proofs.Configuring
import Bindmark.Proofs.Repeating
import Bindmark.Proofs.TextNodes

/-!
# Rewriting a document

What compiling makes of a document, told along its tree: every element has its
attributes rewritten, every text node gives way to its literals and markers,
every opening marker among the comments is preprocessed, and everything else
stays. With the stages of the standard setup a document is compiled just so.
-/

namespace Bindmark

open Work

/-- The stages for nodes of the standard setup. -/
def Standard.nodeStages : Pipeline NodeStage := .andThen (.stage .texts) (.stage .attributes)

namespace Rewriting

/-! ## Rewriting -/

/-- One more node is counted. -/
def countNode : Work Unit := Work.count fun n => { n with nodes := n.nodes + 1 }

/-- One more node that gave way to others is counted. -/
def countReplaced : Work Unit := Work.count fun n => { n with replaced := n.replaced + 1 }

/-- One more directive string is counted. -/
def countDirectives : Work Unit := Work.count fun n => { n with directives := n.directives + 1 }

/-- Attributes with the directive string among them preprocessed. When nothing
    is left of it, it goes. -/
def preprocessAttribute (s : Settings) (attributes : Table AttributeValue) :
    Work (Table AttributeValue) := do
  match ← Visit.directivesOf? s attributes with
  | none => return attributes
  | some t =>
    let processed ← Directive.preprocessText t
    countDirectives
    return if processed.isEmpty then attributes.erase s.directiveAttribute
      else attributes.insert s.directiveAttribute (.text processed)

/-- An opening marker with its directive string preprocessed. -/
def preprocessMarker (s : Settings) (directives : Text) : Work Node := do
  (← Visit.notAllowed (Pair.split directives)).forM fun key => Work.log (.notAllowed key)
  let processed ← Directive.preprocessText directives
  countDirectives
  return .ofComment (s.openMarker processed)

/-- A leaf, which is preprocessed if it is an opening marker. -/
def preprocessLeaf (s : Settings) (kind : LeafKind) (t : Text) : Work Node :=
  match kind, s.readMarker? t with
  | .comment, some directives => preprocessMarker s directives
  | _, _ => return .leaf kind t

/-- The attributes of an element, interpolated and then preprocessed. -/
def rewriteAttributes (s : Settings) (tag : Text) (attributes : Table AttributeValue) :
    Work (Table AttributeValue) := do
  let moved ← Interpolation.moveAttributes s tag attributes.entries attributes
  if s.preprocessDirectives then preprocessAttribute s moved else return moved

/-- A leaf, preprocessed if the settings say so. -/
def rewriteMarker (s : Settings) : Node → Work Node
  | .leaf kind t => if s.preprocessDirectives then preprocessLeaf s kind t else return .leaf kind t
  | node => return node

/-- The nodes that take the place of a leaf: those of its text if that is
    interpolated, else the leaf. -/
def rewriteLeaf (s : Settings) (parent : Text) (kind : LeafKind) (t : Text) : Work (List Node) := do
  match Interpolation.textNodes? s (some parent) (.leaf kind t) with
  | some nodes =>
    Work.log (.textReplaced nodes.length)
    countReplaced
    nodes.mapM (rewriteMarker s)
  | none => return [← rewriteMarker s (.leaf kind t)]

mutual
/-- The nodes that take the place of a node under a parent. -/
def rewriteNode (s : Settings) (parent : Text) : Node → Work (List Node)
  | .element tag attributes children => do
    countNode
    let attributes ← rewriteAttributes s tag attributes
    let children ← rewriteNodes s tag children
    return [.element tag attributes children]
  | .leaf kind t => do
    countNode
    rewriteLeaf s parent kind t

/-- The nodes that take the place of the children of a parent. -/
def rewriteNodes (s : Settings) (parent : Text) : List Node → Work (List Node)
  | [] => return []
  | node :: rest => do
    let first ← rewriteNode s parent node
    let others ← rewriteNodes s parent rest
    return first ++ others
end

/-- A document rewritten. -/
def rewrite (s : Settings) (nodes : List Node) : Work (List Node) := rewriteNodes s Document.rootTag nodes

/-! ## Visits with the standard stages -/

theorem runStage_texts (s : Settings) (v : Visit) :
    (Visit.runStage s .texts).run v =
      match Interpolation.textNodes? s v.parent v.node with
      | some nodes => do
        Work.log (.textReplaced nodes.length)
        return (.nodes nodes, v.putInPlace nodes)
      | none => return (.none, v) := by
  simp only [Visit.runStage, StateT.run_bind, StateT.run_get, pure_bind]
  split <;> simp_all

theorem runStage_attributes (s : Settings) (v : Visit) :
    (Visit.runStage s .attributes).run v = do
      let node ← Interpolation.interpolateAttributes s v.node
      return (.none, { v with node }) := by
  simp [Visit.runStage]

theorem runStages_standard {s : Settings} {st : State} (v : Visit)
    (standard : st.nodeStages = some Standard.nodeStages) :
    (Visit.runStages s).run v st =
      ((Visit.runStage s .texts).run v >>= fun result =>
        if result.1.truthy then pure result else (Visit.runStage s .attributes).run result.2) st := by
  have read : (liftM (get : Work State) : Visit.Visiting State).run v st = .ok (st, v) st := rfl
  rw [Visit.runStages, StateT.run_bind, bind_ok read]
  simp only [standard, Standard.nodeStages, Pipeline.firstAnswer, StateT.run_bind]
  refine congrFun (bind_congr fun result => ?_) st
  split <;> rfl

theorem runStages_element {s : Settings} {st : State} (parent : Option Text) (place : Option (List Node)) (tag : Text)
    (attributes : Table AttributeValue) (children : List Node)
    (standard : st.nodeStages = some Standard.nodeStages) :
    (Visit.runStages s).run { node := .element tag attributes children, parent, place } st =
      (do let moved ← Interpolation.moveAttributes s tag attributes.entries attributes
          return (Answer.none, { node := .element tag moved children, parent, place }) : Work _) st := by
  rw [runStages_standard _ standard]
  simp [runStage_texts, runStage_attributes, Interpolation.textNodes?, Interpolation.interpolateAttributes,
    Answer.truthy]

theorem runStages_leaf {s : Settings} {st : State} (parent : Text) (kind : LeafKind) (t : Text)
    (standard : st.nodeStages = some Standard.nodeStages) :
    (Visit.runStages s).run { node := .leaf kind t, parent := some parent } st =
      (match Interpolation.textNodes? s (some parent) (.leaf kind t) with
        | some nodes => do
          Work.log (.textReplaced nodes.length)
          return (Answer.nodes nodes, { node := .leaf kind t, parent := none, place := some nodes })
        | none => return (Answer.none, { node := .leaf kind t, parent := some parent }) : Work _) st := by
  rw [runStages_standard _ standard, runStage_texts]
  dsimp only
  cases interpolated : Interpolation.textNodes? s (some parent) (.leaf kind t) with
  | none => simp [runStage_attributes, Interpolation.interpolateAttributes, Answer.truthy]
  | some nodes => simp [Answer.truthy, Visit.putInPlace, Interpolation.textNodes?_ne_nil interpolated]

theorem preprocessNode_element (s : Settings) (inDocument : Bool) (tag : Text) (attributes : Table AttributeValue)
    (children : List Node) :
    Visit.preprocessNode s inDocument (.element tag attributes children) = do
      return .element tag (← preprocessAttribute s attributes) children := by
  simp only [Visit.preprocessNode, preprocessAttribute, bind_assoc]
  refine bind_congr fun directives => ?_
  cases directives <;> simp [countDirectives]

theorem preprocessNode_leaf (s : Settings) (kind : LeafKind) (t : Text) :
    Visit.preprocessNode s true (.leaf kind t) = preprocessLeaf s kind t := by
  cases kind <;> simp only [Visit.preprocessNode, preprocessLeaf]
  cases s.readMarker? t <;> simp [preprocessMarker, countDirectives]

theorem preprocessNodes_leaves (s : Settings) :
    ∀ nodes : List Node, (∀ node ∈ nodes, ∃ kind t, node = .leaf kind t) →
      Visit.preprocessNodes s true nodes = nodes.mapM (rewriteMarker s)
  | [], _ => by simp [Visit.preprocessNodes]
  | node :: rest, leaves => by
    obtain ⟨kind, t, rfl⟩ := leaves node (List.mem_cons_self ..)
    have others := preprocessNodes_leaves s rest fun node inside => leaves node (List.mem_cons_of_mem _ inside)
    by_cases wanted : s.preprocessDirectives <;>
      simp [Visit.preprocessNodes, rewriteMarker, wanted, others, preprocessNode_leaf]

theorem visit_element {s : Settings} {st : State} (parent tag : Text)
    (attributes : Table AttributeValue) (children : List Node)
    (standard : st.nodeStages = some Standard.nodeStages) :
    Visit.visit s parent (.element tag attributes children) st =
      (do countNode
          return .stays (.element tag (← rewriteAttributes s tag attributes) children) : Work _) st := by
  unfold Visit.visit
  refine bind_congr_at rfl fun _ st' counted => ?_
  have standard' : st'.nodeStages = some Standard.nodeStages := by
    cases counted
    exact standard
  refine (bind_congr_at (runStages_element (some parent) none tag attributes children standard')
    fun _ _ _ => rfl).trans (congrFun ?_ st')
  by_cases wanted : s.preprocessDirectives <;>
    simp [rewriteAttributes, Answer.truthy, Visit.preprocessNodes, wanted, preprocessNode_element] <;> rfl

theorem visit_leaf {s : Settings} {st : State} (parent : Text) (kind : LeafKind) (t : Text)
    (standard : st.nodeStages = some Standard.nodeStages) :
    (do match ← Visit.visit s parent (.leaf kind t) with
        | .gone nodes => return nodes
        | .stays node => return [node] : Work _) st =
      (do countNode
          rewriteLeaf s parent kind t : Work _) st := by
  unfold Visit.visit
  rw [bind_assoc]
  refine bind_congr_at rfl fun _ st' counted => ?_
  have standard' : st'.nodeStages = some Standard.nodeStages := by
    cases counted
    exact standard
  rw [bind_assoc]
  refine (bind_congr_at (runStages_leaf parent kind t standard') fun _ _ _ => rfl).trans (congrFun ?_ st')
  unfold rewriteLeaf
  cases interpolated : Interpolation.textNodes? s (some parent) (.leaf kind t) with
  | none =>
    by_cases wanted : s.preprocessDirectives <;>
      simp [Answer.truthy, Visit.preprocessNodes, wanted, preprocessNode_leaf, rewriteMarker] <;> rfl
  | some nodes =>
    obtain ⟨first, rest, rfl⟩ := List.exists_cons_of_ne_nil (Interpolation.textNodes?_ne_nil interpolated)
    have leaves := preprocessNodes_leaves s (first :: rest) (Interpolation.textNodes?_leaves interpolated)
    simp only [bind_assoc, pure_bind, Answer.truthy, List.isEmpty_cons, Bool.not_false, if_true, leaves, countReplaced,
      Bool.false_eq_true, if_false, bind_pure]
    rfl

/-! ## Compiling is rewriting -/

section
variable {R : State → State → Prop}

theorem preprocessAttribute_within (admits : Admits R) (counted : Within R countDirectives) (s : Settings)
    (attributes : Table AttributeValue) : Within R (preprocessAttribute s attributes) := by
  refine admits.bind (admits.directivesOf? s attributes) fun directives => ?_
  cases directives with
  | none => exact admits.pure _
  | some t =>
    exact admits.bind (admits.preprocessText t) fun _ => admits.bind counted fun _ => admits.pure _

theorem rewriteAttributes_within (admits : Admits R) (counted : Within R countDirectives) (s : Settings)
    (tag : Text) (attributes : Table AttributeValue) : Within R (rewriteAttributes s tag attributes) := by
  refine admits.bind (admits.moveAttributes s tag _ _) fun moved => ?_
  split
  · exact preprocessAttribute_within admits counted s moved
  · exact admits.pure moved

theorem preprocessMarker_within (admits : Admits R) (counted : Within R countDirectives) (s : Settings)
    (directives : Text) : Within R (preprocessMarker s directives) :=
  admits.bind (admits.notAllowed _) fun _ =>
    admits.bind (admits.forM (fun _ => admits.log _) _) fun _ =>
      admits.bind (admits.preprocessText directives) fun _ =>
        admits.bind counted fun _ => admits.pure _

theorem rewriteMarker_within (admits : Admits R) (counted : Within R countDirectives) (s : Settings) (node : Node) :
    Within R (rewriteMarker s node) := by
  cases node with
  | element => exact admits.pure _
  | leaf kind t =>
    have preprocessed : Within R (preprocessLeaf s kind t) := by
      unfold preprocessLeaf
      split
      · exact preprocessMarker_within admits counted s _
      · exact admits.pure _
    cases wanted : s.preprocessDirectives
    · simpa only [rewriteMarker, wanted, Bool.false_eq_true, if_false] using admits.pure _
    · simpa only [rewriteMarker, wanted, if_true] using preprocessed

theorem mapM_within (chains : Chains R) {f : Node → Work Node} (each : ∀ node, Within R (f node))
    (nodes : List Node) : Within R (nodes.mapM f) := by
  induction nodes with
  | nil => simpa using chains.pure _
  | cons node rest ih =>
    rw [List.mapM_cons]
    exact chains.bind (each node) fun _ => chains.bind ih fun _ => chains.pure _

theorem rewriteLeaf_within (admits : Admits R) (counted : Within R countDirectives)
    (replaced : Within R countReplaced) (s : Settings) (parent : Text) (kind : LeafKind) (t : Text) :
    Within R (rewriteLeaf s parent kind t) := by
  unfold rewriteLeaf
  split
  · exact admits.bind (admits.log _) fun _ => admits.bind replaced fun _ =>
      mapM_within admits.toChains (rewriteMarker_within admits counted s) _
  · exact admits.bind (rewriteMarker_within admits counted s _) fun _ => admits.pure _
end

theorem nodeStages_aside : Aside State.nodeStages := ⟨fun _ _ => rfl, fun _ _ => rfl, fun _ _ => rfl⟩

mutual
theorem nodeStages_rewriteNode (s : Settings) (parent : Text) :
    ∀ node : Node, Within (Keeps State.nodeStages) (rewriteNode s parent node)
  | .element tag attributes children => by
    unfold rewriteNode
    exact Keeps.chains.bind (fun _ => rfl) fun _ =>
      Keeps.chains.bind (rewriteAttributes_within nodeStages_aside.admits (fun _ => rfl) s tag attributes) fun _ =>
        Keeps.chains.bind (nodeStages_rewriteNodes s tag children) fun _ => Keeps.chains.pure _
  | .leaf kind t => by
    unfold rewriteNode
    exact Keeps.chains.bind (fun _ => rfl) fun _ =>
      rewriteLeaf_within nodeStages_aside.admits (fun _ => rfl) (fun _ => rfl) s parent kind t

theorem nodeStages_rewriteNodes (s : Settings) (parent : Text) :
    ∀ nodes : List Node, Within (Keeps State.nodeStages) (rewriteNodes s parent nodes)
  | [] => by
    unfold rewriteNodes
    exact Keeps.chains.pure _
  | node :: rest => by
    unfold rewriteNodes
    exact Keeps.chains.bind (nodeStages_rewriteNode s parent node) fun _ =>
      Keeps.chains.bind (nodeStages_rewriteNodes s parent rest) fun _ => Keeps.chains.pure _
end

mutual
theorem compileNode_eq_rewriteNode (s : Settings) (parent : Text) :
    ∀ (node : Node) {st : State}, st.nodeStages = some Standard.nodeStages →
      Document.compileNode s parent node st = rewriteNode s parent node st
  | .element tag attributes children, st, standard => by
    unfold Document.compileNode rewriteNode
    refine (bind_congr_at (visit_element parent tag attributes children standard) fun _ _ _ => rfl).trans ?_
    rw [bind_assoc]
    refine bind_congr_at rfl fun _ counted first => ?_
    rw [bind_assoc]
    refine bind_congr_at rfl fun rewritten st' second => ?_
    have kept := rewriteAttributes_within nodeStages_aside.admits (fun _ => rfl) s tag attributes counted
    rw [stateAfter_ok second] at kept
    have standard' : st'.nodeStages = some Standard.nodeStages := by
      cases first
      exact kept.trans standard
    exact bind_congr_at (compileNodes_eq_rewriteNodes s tag children standard') fun _ _ _ => rfl
  | .leaf kind t, st, standard => by
    unfold Document.compileNode rewriteNode
    exact visit_leaf parent kind t standard

theorem compileNodes_eq_rewriteNodes (s : Settings) (parent : Text) :
    ∀ (nodes : List Node) {st : State}, st.nodeStages = some Standard.nodeStages →
      Document.compileNodes s parent nodes st = rewriteNodes s parent nodes st
  | [], _, _ => by
    unfold Document.compileNodes rewriteNodes
    rfl
  | node :: rest, st, standard => by
    unfold Document.compileNodes rewriteNodes
    have first := compileNode_eq_rewriteNode s parent node standard
    refine bind_congr_at first fun ns st' ran => ?_
    have kept := nodeStages_rewriteNode s parent node st
    rw [stateAfter_ok (first ▸ ran)] at kept
    exact bind_congr_at (compileNodes_eq_rewriteNodes s parent rest (kept.trans standard)) fun _ _ _ => rfl
end

/-! ## Counting the nodes -/

mutual
/-- How many nodes a node is, with all that are below it. -/
def size : Node → Nat
  | .element _ _ children => 1 + sizes children
  | .leaf _ _ => 1

/-- How many nodes there are in a list, with all that are below them. -/
def sizes : List Node → Nat
  | [] => 0
  | node :: rest => size node + sizes rest
end

/-- How many nodes were counted. -/
def counted (st : State) : Nat := st.stats.nodes

theorem counted_aside : Aside counted := ⟨fun _ _ => rfl, fun _ _ => rfl, fun _ _ => rfl⟩

theorem counted_countNode {st st' : State} {u : Unit} (ran : countNode st = .ok u st') :
    counted st' = counted st + 1 := by
  cases ran
  rfl

mutual
theorem counted_rewriteNode (s : Settings) (parent : Text) :
    ∀ (node : Node) {st st' : State} {ns : List Node},
      rewriteNode s parent node st = .ok ns st' → counted st' = counted st + size node
  | .element tag attributes children, st, st', ns, ran => by
    unfold rewriteNode at ran
    obtain ⟨_, st₁, first, inside⟩ := bind_eq_ok ran
    obtain ⟨_, st₂, second, below⟩ := bind_eq_ok inside
    obtain ⟨_, st₃, third, last⟩ := bind_eq_ok below
    have kept := rewriteAttributes_within counted_aside.admits (fun _ => rfl) s tag attributes st₁
    rw [stateAfter_ok second] at kept
    rw [← (pure_eq_ok last).2, counted_rewriteNodes s tag children third, kept, counted_countNode first,
      size, Nat.add_assoc]
  | .leaf kind t, st, st', ns, ran => by
    unfold rewriteNode at ran
    obtain ⟨_, st₁, first, rewritten⟩ := bind_eq_ok ran
    have kept := rewriteLeaf_within counted_aside.admits (fun _ => rfl) (fun _ => rfl) s parent kind t st₁
    rw [stateAfter_ok rewritten] at kept
    rw [kept, counted_countNode first, size]

theorem counted_rewriteNodes (s : Settings) (parent : Text) :
    ∀ (nodes : List Node) {st st' : State} {ns : List Node},
      rewriteNodes s parent nodes st = .ok ns st' → counted st' = counted st + sizes nodes
  | [], st, st', ns, ran => by
    unfold rewriteNodes at ran
    rw [← (pure_eq_ok ran).2, sizes, Nat.add_zero]
  | node :: rest, st, st', ns, ran => by
    unfold rewriteNodes at ran
    obtain ⟨_, st₁, first, others⟩ := bind_eq_ok ran
    obtain ⟨_, st₂, second, last⟩ := bind_eq_ok others
    rw [← (pure_eq_ok last).2, counted_rewriteNodes s parent rest second,
      counted_rewriteNode s parent node first, sizes, Nat.add_assoc]
end

/-! ## The standard setup -/

/-- The standard setup adds its stages for nodes behind those that are there, and no
    others. -/
theorem nodeStages_install_chain (s : Settings) {st st' : State} {u : Unit} (ran : Standard.install s st = .ok u st') :
    st'.nodeStages = some (.andThen (Pipeline.chain st.nodeStages (.stage .texts)) (.stage .attributes)) := by
  rw [Standard.install_eq_installDirectives] at ran
  obtain ⟨_, st₁, texts, more⟩ := bind_eq_ok ran
  obtain ⟨_, st₃, attributes, others⟩ := bind_eq_ok more
  obtain ⟨_, st₂, members, added⟩ := bind_eq_ok attributes
  have first : st₁.nodeStages = some (Pipeline.chain st.nodeStages (.stage .texts)) := by
    cases texts
    rfl
  have second := nodeStages_aside.configures.operates.splitMembers s.attributeNamespace st₁
  rw [stateAfter_ok members] at second
  have third :
      st₃.nodeStages = some (.andThen (Pipeline.chain st.nodeStages (.stage .texts)) (.stage .attributes)) := by
    cases added
    simp only [second.trans first, Pipeline.chain]
  have kept := nodeStages_aside.configures.operates.installDirectives s st₃
  rw [stateAfter_ok others] at kept
  exact kept.trans third

/-- A first setup leaves its stages for nodes. -/
theorem nodeStages_install (s : Settings) {st st' : State} {u : Unit} (none : st.nodeStages = none)
    (ran : Standard.install s st = .ok u st') : st'.nodeStages = some Standard.nodeStages := by
  rw [nodeStages_install_chain s ran, none]
  rfl

/-- A compiler with the standard setup has the standard stages for nodes. -/
theorem nodeStages_ofRegistry (s : Settings) (verbosity : Option Int) (r : Registry) {c : Compiler}
    (made : Compiler.ofRegistry s verbosity true r = .ok c) :
    c.state.nodeStages = some Standard.nodeStages := by
  obtain ⟨u, installed⟩ := Standard.install_ofRegistry made
  exact nodeStages_install s rfl installed

end Rewriting
end Bindmark
