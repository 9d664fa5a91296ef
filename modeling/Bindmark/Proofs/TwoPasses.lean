import Bindmark.Proofs.History
import Bindmark.Proofs.MovingOnce
import Bindmark.Proofs.Nesting
import Bindmark.Proofs.Settling

/-!
# Compiling in two passes

Compiling interpolates a document and preprocesses its directive strings node by
node. The same comes of it in two passes: one that only interpolates (`written`)
and one that only preprocesses (`preprocessTrees`). Nothing is left to be
interpolated after the first pass, so that markers and attributes that were
written by interpolation are preprocessed like those that stood in the source.
-/

namespace Bindmark

open Work

/-! ## Two states whose registries have grown from the same one -/

/-- Two states with registries that have grown from one registry. -/
def GrownTogether (r : Registry) (st st' : State) : Prop := GrownFrom r st ∧ GrownFrom r st'

namespace GrownTogether

variable {r : Registry} {α β γ : Type}

/-- Preprocessing repeats itself on registries that have grown from the same one. -/
theorem mirrors (plain : r.Plain) : Mirrors (GrownTogether r) where
  log _ := fun _ _ together => ⟨rfl, together⟩
  trace _ := fun _ _ together => ⟨rfl, together⟩
  lookup key := by
    rintro st st' ⟨left, right⟩
    obtain ⟨entry, entry', r, r', events, events', ran, ran', -, -, grown, grown', same, -⟩ :=
      Registry.lookup_both plain key left right
    rw [ran, ran']
    exact ⟨same, grown, grown'⟩
  barred key := by
    rintro st st' ⟨left, right⟩
    obtain ⟨entry, entry', r, r', events, events', ran, ran', -, -, grown, grown', same, permitted⟩ :=
      Registry.lookup_both plain key left right
    exact isBarred_agree ran ran' same permitted ⟨grown, grown'⟩
  divider := fun _ _ ⟨left, right⟩ => left.divider.trans right.divider.symm
  depthLimit := fun _ _ ⟨left, right⟩ => left.depthLimit.trans right.depthLimit.symm

theorem count (f : Stats → Stats) : Repeats (GrownTogether r) (Work.count f) := fun _ _ together => ⟨rfl, together⟩

/-- Work whose value is known may be done in one run alone. -/
theorem first {w : Work α} {next : α → Work β} {w' : Work γ} {P : α → Prop} {Q : β → γ → Prop}
    (gives : Gives (GrownFrom r) w P) (rest : ∀ a, P a → Alike (GrownTogether r) Q (next a) w') :
    Alike (GrownTogether r) Q (w >>= next) w' := by
  rintro st st' ⟨left, right⟩
  obtain ⟨a, t, ran, grown, holds⟩ := gives st left
  rw [bind_ok ran]
  exact rest a holds t st' ⟨grown, right⟩

/-- Work whose value is known may be done in the other run alone. -/
theorem second {w : Work β} {w' : Work α} {next : α → Work γ} {P : α → Prop} {Q : β → γ → Prop}
    (gives : Gives (GrownFrom r) w' P) (rest : ∀ a, P a → Alike (GrownTogether r) Q w (next a)) :
    Alike (GrownTogether r) Q w (w' >>= next) := by
  rintro st st' ⟨left, right⟩
  obtain ⟨a, t, ran, grown, holds⟩ := gives st' right
  rw [bind_ok ran]
  exact rest a holds st t ⟨left, grown⟩

end GrownTogether

namespace Rewriting

variable {r : Registry} {s : Settings}

/-! ## What interpolation writes -/

mutual
/-- The nodes that interpolation writes for a node under a parent. -/
def written (r : Registry) (s : Settings) (parent : Text) : Node → List Node
  | .element tag attributes children =>
    [.element tag (Interpolation.movedIn r s attributes) (writtenAll r s tag children)]
  | .leaf kind t => (Interpolation.textNodes? s (some parent) (.leaf kind t)).getD [.leaf kind t]

/-- The nodes that interpolation writes for the children of a parent. -/
def writtenAll (r : Registry) (s : Settings) (parent : Text) : List Node → List Node
  | [] => []
  | node :: rest => written r s parent node ++ writtenAll r s parent rest
end

/-- Settings with which directives are left as they are. -/
def unprocessed (s : Settings) : Settings := { s with preprocessDirectives := false }

mutual
/-- Compiling without preprocessing gives what interpolation writes. -/
theorem rewriteNode_gives_written (plain : r.Plain) (s : Settings) (parent : Text) :
    ∀ node : Node, Gives (GrownFrom r) (rewriteNode (unprocessed s) parent node) fun ns => ns = written r s parent node
  | .element tag attributes children => by
    have moves : Gives (GrownFrom r) (rewriteAttributes (unprocessed s) tag attributes) fun moved =>
        moved = Interpolation.movedIn r s attributes :=
      (Interpolation.moveAttributes_gives_movedIn plain (unprocessed s) tag attributes).bind fun _ same =>
        Gives.pure same
    unfold rewriteNode written
    exact (GrownFrom.count_gives _).bind fun _ _ => moves.bind fun _ same =>
      (rewriteNodes_gives_written plain s tag children).bind fun _ below => Gives.pure (by rw [same, below])
  | .leaf kind t => by
    unfold rewriteNode written rewriteLeaf
    refine (GrownFrom.count_gives _).bind fun _ _ => ?_
    have same : Interpolation.textNodes? (unprocessed s) (some parent) (.leaf kind t) =
        Interpolation.textNodes? s (some parent) (.leaf kind t) := rfl
    rw [same]
    cases interpolated : Interpolation.textNodes? s (some parent) (.leaf kind t) with
    | none => exact Gives.pure rfl
    | some nodes =>
      have stays : rewriteMarker (unprocessed s) = fun node => pure (id node) := by
        funext node
        cases node <;> rfl
      have kept : nodes.mapM (rewriteMarker (unprocessed s)) = pure nodes := by
        rw [stays, List.mapM_pure, List.map_id]
      dsimp only
      rw [kept]
      exact (GrownFrom.log_gives _).bind fun _ _ => (GrownFrom.count_gives _).bind fun _ _ => Gives.pure rfl

theorem rewriteNodes_gives_written (plain : r.Plain) (s : Settings) (parent : Text) :
    ∀ nodes : List Node,
      Gives (GrownFrom r) (rewriteNodes (unprocessed s) parent nodes) fun ns => ns = writtenAll r s parent nodes
  | [] => by
    unfold rewriteNodes writtenAll
    exact Gives.pure rfl
  | node :: rest => by
    unfold rewriteNodes writtenAll
    exact (rewriteNode_gives_written plain s parent node).bind fun _ first =>
      (rewriteNodes_gives_written plain s parent rest).bind fun _ others => Gives.pure (by rw [first, others])
end

/-! ## Writing once -/

theorem writtenAll_append (parent : Text) (nodes more : List Node) :
    writtenAll r s parent (nodes ++ more) = writtenAll r s parent nodes ++ writtenAll r s parent more := by
  induction nodes with
  | nil => rw [writtenAll, List.nil_append, List.nil_append]
  | cons node rest ih => rw [List.cons_append, writtenAll, ih, writtenAll, List.append_assoc]

/-- Nodes that each stay as they are stay as they are together. -/
theorem writtenAll_of_each {parent : Text} {nodes : List Node}
    (each : ∀ node ∈ nodes, written r s parent node = [node]) : writtenAll r s parent nodes = nodes := by
  induction nodes with
  | nil => rw [writtenAll]
  | cons node rest ih =>
    rw [writtenAll, each node List.mem_cons_self, ih fun node inside => each node (List.mem_cons_of_mem _ inside),
      List.singleton_append]

mutual
/-- What interpolation has written is left as it is. -/
theorem writtenAll_written (tokens : s.openToken ≠ [] ∨ s.closeToken ≠ []) (parent : Text) :
    ∀ node : Node, writtenAll r s parent (written r s parent node) = written r s parent node
  | .element tag attributes children => by
    rw [written, writtenAll, writtenAll, written, Interpolation.movedIn_movedIn,
      writtenAll_writtenAll tokens tag children, List.append_nil]
  | .leaf kind t => by
    refine writtenAll_of_each ?_
    intro node inside
    rw [written] at inside
    cases interpolated : Interpolation.textNodes? s (some parent) (.leaf kind t) with
    | none =>
      rw [interpolated, Option.getD_none, List.mem_singleton] at inside
      rw [inside, written, interpolated, Option.getD_none]
    | some nodes =>
      rw [interpolated, Option.getD_some] at inside
      obtain ⟨⟨kind, t, rfl⟩, stays⟩ := Interpolation.textNodes?_of_mem tokens interpolated inside (some parent)
      rw [written, stays, Option.getD_none]

theorem writtenAll_writtenAll (tokens : s.openToken ≠ [] ∨ s.closeToken ≠ []) (parent : Text) :
    ∀ nodes : List Node, writtenAll r s parent (writtenAll r s parent nodes) = writtenAll r s parent nodes
  | [] => by rw [writtenAll, writtenAll]
  | node :: rest => by
    rw [writtenAll, writtenAll_append, writtenAll_written tokens parent node, writtenAll_writtenAll tokens parent rest]
end

/-! ## Preprocessing alone -/

mutual
/-- A node with its directive strings preprocessed, and nothing else. -/
def preprocessTree (s : Settings) : Node → Work Node
  | .element tag attributes children => do
    countNode
    let attributes ← preprocessAttribute s attributes
    let children ← preprocessTrees s children
    return .element tag attributes children
  | .leaf kind t => do
    countNode
    preprocessLeaf s kind t

/-- The nodes of a list with their directive strings preprocessed. -/
def preprocessTrees (s : Settings) : List Node → Work (List Node)
  | [] => return []
  | node :: rest => do
    let first ← preprocessTree s node
    let others ← preprocessTrees s rest
    return first :: others
end

theorem runStages_bare {st : State} (v : Visit) (bare : st.nodeStages = none) :
    (Visit.runStages s).run v st = .ok (Answer.none, v) st := by
  have read : (liftM (get : Work State) : Visit.Visiting State).run v st = .ok (st, v) st := rfl
  rw [Visit.runStages, StateT.run_bind, bind_ok read]
  simp only [bare]
  rfl

/-- Without stages for nodes, a visit preprocesses the node. -/
theorem visit_bare {st : State} (wanted : s.preprocessDirectives = true) (parent : Text) (node : Node)
    (bare : st.nodeStages = none) :
    Visit.visit s parent node st = (do
      countNode
      return .stays (← Visit.preprocessNode s true node) : Work _) st := by
  unfold Visit.visit
  refine bind_congr_at rfl fun _ st' counted => ?_
  have bare' : st'.nodeStages = none := by
    cases counted
    exact bare
  rw [bind_ok (runStages_bare _ bare')]
  simp [Answer.truthy, Visit.preprocessNodes, wanted]

mutual
theorem nodeStages_preprocessTree (s : Settings) :
    ∀ node : Node, Within (Keeps State.nodeStages) (preprocessTree s node)
  | .element tag attributes children => by
    unfold preprocessTree
    exact Keeps.chains.bind (fun _ => rfl) fun _ =>
      Keeps.chains.bind (preprocessAttribute_within nodeStages_aside.admits (fun _ => rfl) s attributes) fun _ =>
        Keeps.chains.bind (nodeStages_preprocessTrees s children) fun _ => Keeps.chains.pure _
  | .leaf kind t => by
    unfold preprocessTree
    have processed := rewriteMarker_within nodeStages_aside.admits (fun _ => rfl)
      { s with preprocessDirectives := true } (.leaf kind t)
    exact Keeps.chains.bind (fun _ => rfl) fun _ => processed

theorem nodeStages_preprocessTrees (s : Settings) :
    ∀ nodes : List Node, Within (Keeps State.nodeStages) (preprocessTrees s nodes)
  | [] => by
    unfold preprocessTrees
    exact Keeps.chains.pure _
  | node :: rest => by
    unfold preprocessTrees
    exact Keeps.chains.bind (nodeStages_preprocessTree s node) fun _ =>
      Keeps.chains.bind (nodeStages_preprocessTrees s rest) fun _ => Keeps.chains.pure _
end

mutual
theorem compileNode_eq_preprocessTree (wanted : s.preprocessDirectives = true) (parent : Text) :
    ∀ (node : Node) {st : State}, st.nodeStages = none →
      Document.compileNode s parent node st = (do return [← preprocessTree s node] : Work _) st
  | .element tag attributes children, st, bare => by
    unfold Document.compileNode preprocessTree
    refine (bind_congr_at (visit_bare wanted parent _ bare) fun _ _ _ => rfl).trans ?_
    simp only [preprocessNode_element, bind_assoc, pure_bind]
    refine bind_congr_at rfl fun _ counted first => ?_
    refine bind_congr_at rfl fun processed st' second => ?_
    have kept := preprocessAttribute_within nodeStages_aside.admits (fun _ => rfl) s attributes counted
    rw [stateAfter_ok second] at kept
    have bare' : st'.nodeStages = none := by
      cases first
      exact kept.trans bare
    exact bind_congr_at (compileNodes_eq_preprocessTrees wanted tag children bare') fun _ _ _ => rfl
  | .leaf kind t, st, bare => by
    unfold Document.compileNode preprocessTree
    refine (bind_congr_at (visit_bare wanted parent _ bare) fun _ _ _ => rfl).trans ?_
    simp only [preprocessNode_leaf, bind_assoc, pure_bind]

/-- Without stages for nodes, a document is compiled by preprocessing alone. -/
theorem compileNodes_eq_preprocessTrees (wanted : s.preprocessDirectives = true) (parent : Text) :
    ∀ (nodes : List Node) {st : State}, st.nodeStages = none →
      Document.compileNodes s parent nodes st = preprocessTrees s nodes st
  | [], _, _ => by
    unfold Document.compileNodes preprocessTrees
    rfl
  | node :: rest, st, bare => by
    unfold Document.compileNodes preprocessTrees
    have first := compileNode_eq_preprocessTree wanted parent node bare
    refine (bind_congr_at first fun _ _ _ => rfl).trans ?_
    rw [bind_assoc]
    refine bind_congr_at rfl fun processed st' ran => ?_
    have kept := nodeStages_preprocessTree s node st
    rw [stateAfter_ok ran] at kept
    rw [pure_bind]
    exact bind_congr_at (compileNodes_eq_preprocessTrees wanted parent rest (kept.trans bare)) fun _ _ _ => rfl
end

/-! ## Two passes -/

theorem preprocessAttribute_repeats (plain : r.Plain) (s : Settings) (attributes : Table AttributeValue) :
    Repeats (GrownTogether r) (preprocessAttribute s attributes) := by
  have mirrors := GrownTogether.mirrors plain
  refine (Mirrors.directivesOf? s attributes).bind fun directives => ?_
  cases directives with
  | none => exact Repeats.pure _
  | some t => exact (mirrors.preprocessText t).bind fun _ => (GrownTogether.count _).bind fun _ => Repeats.pure _

theorem preprocessLeaf_repeats (plain : r.Plain) (s : Settings) (kind : LeafKind) (t : Text) :
    Repeats (GrownTogether r) (preprocessLeaf s kind t) := by
  have mirrors := GrownTogether.mirrors plain
  unfold preprocessLeaf
  split
  · rename_i directives _
    exact (mirrors.notAllowed _).bind fun _ => (Repeats.forM (fun _ => mirrors.log _) _).bind fun _ =>
      (mirrors.preprocessText directives).bind fun _ => (GrownTogether.count _).bind fun _ => Repeats.pure _
  · exact Repeats.pure _

theorem preprocessTrees_append (nodes more : List Node) :
    preprocessTrees s (nodes ++ more) = do return (← preprocessTrees s nodes) ++ (← preprocessTrees s more) := by
  induction nodes with
  | nil => simp [preprocessTrees]
  | cons node rest ih => simp [preprocessTrees, ih]

theorem rewriteMarker_wanted (wanted : s.preprocessDirectives = true) (kind : LeafKind) (t : Text) :
    rewriteMarker s (.leaf kind t) = preprocessLeaf s kind t := by
  rw [rewriteMarker, if_pos wanted]

theorem rewriteAttributes_wanted (wanted : s.preprocessDirectives = true) (tag : Text)
    (attributes : Table AttributeValue) :
    rewriteAttributes s tag attributes =
      Interpolation.moveAttributes s tag attributes.entries attributes >>= preprocessAttribute s := by
  simp only [rewriteAttributes, wanted, if_true]

/-- Leaves are preprocessed in the same way whether they are visited or not. -/
theorem mapM_alike (plain : r.Plain) (wanted : s.preprocessDirectives = true) : ∀ nodes : List Node,
    (∀ node ∈ nodes, ∃ kind t, node = .leaf kind t) →
      Alike (GrownTogether r) Eq (nodes.mapM (rewriteMarker s)) (preprocessTrees s nodes)
  | [], _ => by
    rw [List.mapM_nil, preprocessTrees]
    exact Repeats.pure _
  | node :: rest, leaves => by
    obtain ⟨kind, t, rfl⟩ := leaves node List.mem_cons_self
    rw [List.mapM_cons, preprocessTrees, preprocessTree, bind_assoc, rewriteMarker_wanted wanted]
    refine GrownTogether.second (GrownFrom.count_gives _) fun _ _ => ?_
    refine Alike.bind (preprocessLeaf_repeats plain s kind t) fun one other same => ?_
    refine Alike.bind (mapM_alike plain wanted rest fun node inside => leaves node (List.mem_cons_of_mem _ inside))
      fun ones others same' => ?_
    rw [same, same']
    exact Repeats.pure _

mutual
/-- Interpolating and preprocessing a node comes to the same as preprocessing
    what interpolation writes for it. -/
theorem rewriteNode_alike (plain : r.Plain) (wanted : s.preprocessDirectives = true) (parent : Text) : ∀ node : Node,
    Alike (GrownTogether r) Eq (rewriteNode s parent node) (preprocessTrees s (written r s parent node))
  | .element tag attributes children => by
    have apart : preprocessTrees s (written r s parent (.element tag attributes children)) = (do
        countNode
        let attributes ← preprocessAttribute s (Interpolation.movedIn r s attributes)
        let children ← preprocessTrees s (writtenAll r s tag children)
        return [.element tag attributes children]) := by
      simp [written, preprocessTrees, preprocessTree]
    rw [apart, rewriteNode, rewriteAttributes_wanted wanted]
    refine Alike.bind (GrownTogether.count _) fun _ _ _ => ?_
    rw [bind_assoc]
    -- Only the single pass has attributes to move.
    refine GrownTogether.first (Interpolation.moveAttributes_gives_movedIn plain s tag attributes) fun moved same => ?_
    rw [same]
    refine Alike.bind (preprocessAttribute_repeats plain s _) fun one other same => ?_
    refine Alike.bind (rewriteNodes_alike plain wanted tag children) fun below below' same' => ?_
    rw [same, same']
    exact Repeats.pure _
  | .leaf kind t => by
    rw [rewriteNode, rewriteLeaf, written]
    refine GrownTogether.first (GrownFrom.count_gives _) fun _ _ => ?_
    cases interpolated : Interpolation.textNodes? s (some parent) (.leaf kind t) with
    | none =>
      rw [Option.getD_none, rewriteMarker_wanted wanted]
      have apart : preprocessTrees s [.leaf kind t] = do
          countNode
          return [← preprocessLeaf s kind t] := by
        simp [preprocessTrees, preprocessTree]
      rw [apart]
      refine GrownTogether.second (GrownFrom.count_gives _) fun _ _ => ?_
      exact (preprocessLeaf_repeats plain s kind t).bind fun _ => Repeats.pure _
    | some nodes =>
      -- The single pass preprocesses the nodes where it makes them, the other one visits them.
      rw [Option.getD_some]
      exact GrownTogether.first (GrownFrom.log_gives _) fun _ _ => GrownTogether.first (GrownFrom.count_gives _)
        fun _ _ => mapM_alike plain wanted nodes (Interpolation.textNodes?_leaves interpolated)

theorem rewriteNodes_alike (plain : r.Plain) (wanted : s.preprocessDirectives = true) (parent : Text) :
    ∀ nodes : List Node,
      Alike (GrownTogether r) Eq (rewriteNodes s parent nodes) (preprocessTrees s (writtenAll r s parent nodes))
  | [] => by
    rw [rewriteNodes, writtenAll, preprocessTrees]
    exact Repeats.pure _
  | node :: rest => by
    rw [rewriteNodes, writtenAll, preprocessTrees_append]
    refine Alike.bind (rewriteNode_alike plain wanted parent node) fun first first' same => ?_
    refine Alike.bind (rewriteNodes_alike plain wanted parent rest) fun others others' same' => ?_
    rw [same, same']
    exact Repeats.pure _
end

end Rewriting

namespace Compiler

open Rewriting

/-- A compiler that interpolates and leaves directives as they are. -/
def interpolating (c : Compiler) : Compiler := { c with settings := unprocessed c.settings }

variable {c : Compiler}

/-- The first pass always returns; it gives what interpolation writes, and its
    registry has grown from the one that it started with. -/
theorem compileTree_interpolating (plain : c.state.registry.Plain)
    (standard : c.state.nodeStages = some Standard.nodeStages) (nodes : List Node) :
    (c.interpolating.compileTree nodes).1 = .ok (writtenAll c.state.registry c.settings Document.rootTag nodes) ∧
      GrownFrom c.state.registry (c.interpolating.compileTree nodes).2.state := by
  obtain ⟨value, state⟩ := c.interpolating.compileTree_apply nodes
  have gives := rewriteNodes_gives_written plain c.settings Document.rootTag nodes
  obtain ⟨_, st', ran, grown, rfl⟩ := gives c.interpolating.cleared (.refl c.state.registry)
  have staged : c.interpolating.cleared.nodeStages = some Standard.nodeStages := standard
  have compiled : Document.compileNodes c.interpolating.settings Document.rootTag nodes c.interpolating.cleared =
      .ok (writtenAll c.state.registry c.settings Document.rootTag nodes) st' :=
    (compileNodes_eq_rewriteNodes _ _ _ staged).trans ran
  rw [value, state, compiled]
  exact ⟨rfl, grown⟩

/-- A compiler without stages for nodes makes of what interpolation writes what
    the whole compiler makes of the document. -/
theorem compileTree_written (second : Compiler) (plain : c.state.registry.Plain)
    (standard : c.state.nodeStages = some Standard.nodeStages) (wanted : c.settings.preprocessDirectives = true)
    (same : second.settings = c.settings) (bare : second.state.nodeStages = none)
    (grown : GrownFrom c.state.registry second.state) (nodes : List Node) :
    (second.compileTree (writtenAll c.state.registry c.settings Document.rootTag nodes)).1 =
      (c.compileTree nodes).1 := by
  have together : GrownTogether c.state.registry c.cleared second.cleared := ⟨.refl _, grown⟩
  obtain ⟨ended, -⟩ := (rewriteNodes_alike plain wanted Document.rootTag nodes _ _ together).outcome
  have whole : Document.compileNodes c.settings Document.rootTag nodes c.cleared =
      rewriteNodes c.settings Document.rootTag nodes c.cleared := compileNodes_eq_rewriteNodes _ _ _ standard
  have alone (ns : List Node) : Document.compileNodes c.settings Document.rootTag ns second.cleared =
      preprocessTrees c.settings ns second.cleared := compileNodes_eq_preprocessTrees wanted _ _ bare
  rw [(c.compileTree_apply nodes).1, (second.compileTree_apply _).1, same, whole, alone, ended]

/-- Two passes come to the same as one. The first pass interpolates a document
    and always returns. When its result is compiled without stages for nodes, with
    the same registry, as it was before the first pass or as the first pass left
    it, the document becomes what it becomes in a single pass, or the same fault
    ends both. When the result is compiled like the document, what interpolation
    wrote is preprocessed like what stands in a source. -/
theorem compileTree_two_passes (configured : Configured c.state.registry)
    (standard : c.state.nodeStages = some Standard.nodeStages) (wanted : c.settings.preprocessDirectives = true)
    (tokens : c.settings.openToken ≠ [] ∨ c.settings.closeToken ≠ []) (nodes : List Node) :
    ∃ written, (c.interpolating.compileTree nodes).1 = .ok written ∧
      (∀ (r : Registry) (verbosity : Option Int) (second : Compiler),
        r = c.state.registry ∨ r = (c.interpolating.compileTree nodes).2.state.registry →
        ofRegistry c.settings verbosity false r = .ok second →
        (second.compileTree written).1 = (c.compileTree nodes).1) ∧
      (c.compileTree written).1 = (c.compileTree nodes).1 := by
  have plain := configured.plain
  obtain ⟨first, grown⟩ := compileTree_interpolating plain standard nodes
  refine ⟨_, first, fun r verbosity second same made => ?_, ?_⟩
  · have grows : Registry.Grown c.state.registry r := by
      rcases same with rfl | rfl
      · exact .refl _
      · exact grown
    have remade : second.settings = c.settings ∧ second.state = { registry := r } := by
      cases made
      exact ⟨rfl, rfl⟩
    have bare : second.state.nodeStages = none := by rw [remade.2]
    have grown : GrownFrom c.state.registry second.state := by
      rw [remade.2]
      exact grows
    exact compileTree_written second plain standard wanted remade.1 bare grown nodes
  · -- A bare compiler makes the same of both documents, as nothing is left to be written.
    let bare : Compiler := { c with state := { registry := c.state.registry } }
    have source := compileTree_written bare plain standard wanted rfl rfl (.refl _) nodes
    have again := compileTree_written bare plain standard wanted rfl rfl (.refl _)
      (writtenAll c.state.registry c.settings Document.rootTag nodes)
    rw [writtenAll_writtenAll tokens] at again
    exact again.symm.trans source

/-- A client that adds an exclamation mark to texts. -/
def shout : Client where
  name := lit "shout"
  respond d _ := { result := .ok (match d with | .text t => .text (t ++ lit "!") | d => d) }

/-- A compiler with the standard setup and a client for texts. -/
def loud : Compiler :=
  { standard with state := stateAfter (Setup.addPreprocessor (lit "text") (.client shout)).work standard.state }

/-- A paragraph with an interpolated list of words and directives of its own,
    before an opening marker. -/
def page : List Node :=
  [.element (lit "p") (Table.ofList [(lit "class", .words [lit "{{ a }}", lit "b"]),
      (lit "data-bind", .text (lit "visible: v"))]) [.ofText (lit "Hi {{ name | fit }}")],
    .ofComment (lit "ko text: t")]

theorem compileTree_two_passes_loud :
    Configured loud.state.registry ∧ loud.state.nodeStages = some Standard.nodeStages ∧
      ∃ written second, (loud.interpolating.compileTree page).1 = .ok written ∧
        ofRegistry {} none false loud.state.registry = .ok second ∧
        (second.compileTree written).1 = (loud.compileTree page).1 ∧
        (loud.compileTree written).1 = (loud.compileTree page).1 := by
  have configured : Configured loud.state.registry :=
    @Configured.step standard.state (.addPreprocessor (lit "text") (.client shout)) trivial configured_standard
  have stages : loud.state.nodeStages = some Standard.nodeStages :=
    (Within.discard (nodeStages_aside.configures.operates.addPreprocessor (lit "text") (.client shout))
      standard.state).trans nodeStages_standard
  obtain ⟨written, first, passes, source⟩ := compileTree_two_passes configured stages rfl (.inl (by decide)) page
  exact ⟨configured, stages, written, _, first, rfl, passes _ none _ (.inl rfl) rfl, source⟩

example :
    (match (loud.compileTree page).1 with
      | .ok nodes => Html.write nodes
      | .error _ => []) =
      lit ("<p data-bind='visible:v,attr.class:\"\"+unwrap( a )+\" b\"'>" ++
        "Hi <!--ko text:filters['fit'](name)!--><!--/ko--></p><!--ko text:t!-->") := by
  decide +kernel

end Compiler
end Bindmark
