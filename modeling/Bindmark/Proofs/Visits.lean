import Bindmark.Compiler.Basic
import Bindmark.Proofs.Turns

/-!
# Visits

Compiling a document visits its nodes one after the other, in the order of the
document, and each of them is asked about. A node gives way to what one stage has
put in its place, or it stays. The statistics count the visits, and those with a
truthy answer.
-/

namespace Bindmark

open Work

namespace Visit

variable {s : Settings}

/-! ## What a node becomes -/

/-- A truthy answer is counted. -/
def countAnswer (answer : Answer) : Work Unit := if answer.truthy then Rewriting.countReplaced else pure ()

theorem countAnswer_apply (answer : Answer) (st : State) :
    countAnswer answer st =
      .ok () { st with stats := { st.stats with replaced := st.stats.replaced + if answer.truthy then 1 else 0 } } := by
  unfold countAnswer
  cases answer.truthy <;> rfl

/-- What becomes of a node that was answered about. -/
def conclude (s : Settings) (answer : Answer) (v : Visit) : Work Result :=
  match v.place, answer with
  | none, .nodes (first :: more) => do
    discard (preprocessNodes s false (first :: more))
    return .stays v.node
  | none, _ => return .stays ((← preprocessNodes s true [v.node]).headD v.node)
  | some ns, .nodes (first :: more) => do
    let nodes ← preprocessNodes s (!ns.isEmpty) (first :: more)
    return .gone (if ns.isEmpty then [] else nodes)
  | some ns, _ => do
    discard (preprocessNodes s false [v.node])
    return .gone ns

theorem visit_eq (parent : Text) (node : Node) :
    visit s parent node = (do
      Rewriting.countNode
      let answered ← (runStages s).run { node, parent := some parent }
      countAnswer answered.1
      conclude s answered.1 answered.2) := by
  unfold visit
  refine bind_congr fun _ => bind_congr fun ⟨answer, v⟩ => ?_
  unfold countAnswer
  dsimp only
  cases answer.truthy <;> rfl

/-- What a node has become when nodes were put in its place, or none: it stays, or it
    gives way to these, with their directives preprocessed. -/
def Became (s : Settings) : Result → Option (List Node) → Prop
  | .stays _, place => place = none
  | .gone out, place => ∃ ns st st', place = some ns ∧ preprocessNodes s true ns st = .ok out st'

theorem conclude_stays {answer : Answer} {node : Node} {parent : Option Text} {st st' : State} {result : Result}
    (concluded : conclude s answer { node, parent } st = .ok result st') : Became s result none := by
  unfold conclude at concluded
  cases answer with
  | nodes ns =>
    cases ns <;>
    · obtain ⟨_, _, -, done⟩ := bind_eq_ok concluded
      cases done
      rfl
  | _ =>
    obtain ⟨_, _, -, done⟩ := bind_eq_ok concluded
    cases done
    rfl

theorem conclude_gone {answer : Answer} {node : Node} {parent : Option Text} {ns : List Node} {st st' : State}
    {result : Result} (same : ns ≠ [] → answer = .nodes ns)
    (concluded : conclude s answer { node, parent, place := some ns } st = .ok result st') :
    Became s result (some ns) := by
  unfold conclude at concluded
  cases ns with
  | nil =>
    have nothing : Became s (.gone []) (some []) := ⟨[], st, st, rfl, rfl⟩
    cases answer with
    | nodes ns =>
      cases ns <;>
      · obtain ⟨_, _, -, done⟩ := bind_eq_ok concluded
        cases done
        exact nothing
    | _ =>
      obtain ⟨_, _, -, done⟩ := bind_eq_ok concluded
      cases done
      exact nothing
  | cons first more =>
    rw [same (List.cons_ne_nil _ _)] at concluded
    obtain ⟨out, st₁, preprocessed, done⟩ := bind_eq_ok concluded
    cases done
    exact ⟨_, st, _, rfl, preprocessed⟩

/-! ## Counting -/

/-- What stages and the preprocessing of directives leave alone: the stages that there
    are, how many nodes were visited, and for how many there was a truthy answer. -/
def bookkeeping (st : State) : Option (Pipeline NodeStage) × Nat × Nat :=
  (st.nodeStages, st.stats.nodes, st.stats.replaced)

theorem bookkeeping_aside : Aside bookkeeping := ⟨fun _ _ => rfl, fun _ _ => rfl, fun _ _ => rfl⟩

section
variable {R : State → State → Prop}

theorem runStage_within (admits : Admits R) (stage : NodeStage) (v : Visit) : Within R ((runStage s stage).run v) := by
  cases stage with
  | texts =>
    rw [Rewriting.runStage_texts]
    split
    · exact admits.bind (admits.log _) fun _ => admits.pure _
    · exact admits.pure _
  | attributes =>
    rw [Rewriting.runStage_attributes]
    refine admits.bind ?_ fun _ => admits.pure _
    cases v.node with
    | element tag attributes children =>
      exact admits.bind (admits.moveAttributes s tag _ _) fun _ => admits.pure _
    | leaf kind t => exact admits.pure _
  | client c =>
    rw [runStage_client]
    refine admits.bind (admits.trace _) fun _ => ?_
    cases c.respond v.node with
    | replaced ns =>
      dsimp only
      split
      · exact admits.throw _
      · exact admits.pure _
    | raised f => exact admits.throw _
    | _ => exact admits.pure _

/-- The state in which work has ended. -/
def endState {α : Type} : EStateM.Result Fault State α → State
  | .ok _ st => st
  | .error _ st => st

theorem Asked.within (admits : Admits R) {stages : List NodeStage} {v : Visit} {st : State} {turns : List Turn}
    {result : EStateM.Result Fault State (Answer × Visit)} (asked : Asked s stages v st turns result) :
    R st (endState result) := by
  have first (stage : NodeStage) (v : Visit) (st : State) := runStage_within (s := s) admits stage v st
  induction asked with
  | nobody v st => exact admits.refl st
  | answered ran last => exact stateAfter_ok ran ▸ first _ _ _
  | declined ran falsy more later ih => exact admits.trans (stateAfter_ok ran ▸ first _ _ _) ih
  | raised ran => exact stateAfter_error ran ▸ first _ _ _

theorem preprocessNode_within (admits : Admits R) (counted : Within R Rewriting.countDirectives) (inDocument : Bool)
    (node : Node) : Within R (preprocessNode s inDocument node) := by
  unfold preprocessNode
  split
  · rw [← preprocessNode.eq_1 s inDocument, Rewriting.preprocessNode_element]
    exact admits.bind (Rewriting.preprocessAttribute_within admits counted s _) fun _ => admits.pure _
  · split
    · exact admits.pure _
    · refine admits.bind (admits.notAllowed _) fun barred => admits.bind (admits.forM (fun _ => admits.log _) barred)
        fun _ => admits.bind (admits.preprocessText _) fun processed => ?_
      have marked : Within R (do
          Rewriting.countDirectives
          return .ofComment (s.openMarker processed) : Work Node) :=
        admits.bind counted fun _ => admits.pure _
      cases inDocument
      · exact admits.bind (admits.throw _) fun _ => marked
      · exact marked
  · exact admits.pure _

theorem preprocessNodes_within (admits : Admits R) (counted : Within R Rewriting.countDirectives) (inDocument : Bool)
    (nodes : List Node) : Within R (preprocessNodes s inDocument nodes) := by
  induction nodes with
  | nil => exact admits.pure _
  | cons node rest ih =>
    have others (node : Node) : Within R (do return node :: (← preprocessNodes s inDocument rest) : Work (List Node)) :=
      admits.bind ih fun _ => admits.pure _
    unfold preprocessNodes
    dsimp only
    split
    · exact admits.bind (preprocessNode_within admits counted inDocument node) others
    · exact admits.bind (admits.pure _) others

theorem conclude_within (admits : Admits R) (counted : Within R Rewriting.countDirectives) (answer : Answer)
    (v : Visit) : Within R (conclude s answer v) := by
  have preprocessed (inDocument : Bool) (nodes : List Node) :=
    preprocessNodes_within (s := s) admits counted inDocument nodes
  unfold conclude
  split
  · exact admits.bind (preprocessed _ _).discard fun _ => admits.pure _
  · exact admits.bind (preprocessed _ _) fun _ => admits.pure _
  · exact admits.bind (preprocessed _ _) fun _ => admits.pure _
  · exact admits.bind (preprocessed _ _).discard fun _ => admits.pure _

end

/-! ## One visit -/

/-- The turns that stages take when a node under a parent is visited. -/
def Takes (s : Settings) (stages : List NodeStage) (parent : Text) (node : Node) (st : State)
    (turns : List Turn) : Prop :=
  let counted := stateAfter Rewriting.countNode st
  let v : Visit := { node, parent := some parent }
  Asked s stages v counted turns ((runStages s).run v counted)

theorem exists_takes (s : Settings) (parent : Text) (node : Node) (st : State) :
    ∃ turns, Takes s (Pipeline.stagesOf st.nodeStages) parent node st turns :=
  runStages_asked { node, parent := some parent } (stateAfter Rewriting.countNode st)

/-- A visit that was made: the turns that stages took, and what the node has become,
    unless the visit was given up. -/
structure Record where
  turns : List Turn
  result? : Option Result

/-- What every visit is like: nodes are put in the place of the node once at most, and
    it gives way to these or else stays; and if no stage has a truthy answer, all of
    them are asked. -/
structure Record.Fair (s : Settings) (stages : List NodeStage) (record : Record) : Prop where
  place : ∃ place, PutOnce record.turns place ∧ ∀ result, record.result? = some result → Became s result place
  unhidden : record.result?.isSome → someTruthy record.turns = false → record.turns.map Turn.stage = stages

section
variable {stages : List NodeStage} {parent : Text} {node : Node} {st st' : State} {turns : List Turn}

/-- A visit that was given up. -/
theorem Takes.fair_none (takes : Takes s stages parent node st turns) : Record.Fair s stages ⟨turns, none⟩ where
  place := (Asked.putOnce takes rfl rfl).imp fun _ put => ⟨put.1, nofun⟩
  unhidden := nofun

/-- A visit that came to its end. -/
theorem Takes.fair_some {result : Result} (takes : Takes s stages parent node st turns)
    (ran : visit s parent node st = .ok result st') : Record.Fair s stages ⟨turns, some result⟩ := by
  rw [visit_eq] at ran
  obtain ⟨_, st₁, counted, ran⟩ := bind_eq_ok ran
  obtain ⟨⟨answer, v⟩, st₂, answered, ran⟩ := bind_eq_ok ran
  obtain ⟨_, st₃, -, concluded⟩ := bind_eq_ok ran
  have asked : Asked s stages { node, parent := some parent } st₁ turns (.ok (answer, v) st₂) := by
    rw [← answered, ← stateAfter_ok counted]
    exact takes
  constructor
  · obtain ⟨place, put, left⟩ := asked.putOnce rfl rfl
    obtain ⟨node', parent', place'⟩ := v
    obtain rfl : place' = place := left
    refine ⟨place', put, fun _ same => ?_⟩
    obtain rfl := Option.some.inj same
    cases put with
    | never => exact conclude_stays concluded
    | once before puts others last =>
      refine conclude_gone (fun nonempty => ?_) concluded
      obtain rfl := last nonempty
      exact (asked.answer_eq_last rfl).trans puts.answer
  · intro _ falsy
    exact asked.stages_eq fun turn inside => by simpa using List.any_eq_false.mp falsy turn inside

/-- A visit counts the node, and whether there was a truthy answer. -/
theorem Takes.bookkeeping_eq (takes : Takes s stages parent node st turns) :
    bookkeeping (stateAfter (visit s parent node) st) =
      (st.nodeStages, st.stats.nodes + 1, st.stats.replaced + if someTruthy turns then 1 else 0) := by
  have admits := bookkeeping_aside.admits
  have kept := Asked.within admits takes
  have truthy := Asked.any_truthy takes
  have counted : Rewriting.countNode st = .ok () (stateAfter Rewriting.countNode st) := rfl
  rw [visit_eq, stateAfter_bind_ok counted]
  cases answered : (runStages s).run { node, parent := some parent } (stateAfter Rewriting.countNode st) with
  | error e st₂ =>
    rw [answered] at kept truthy
    rw [stateAfter_error (bind_error answered), truthy]
    exact kept
  | ok result st₂ =>
    rw [answered] at kept truthy
    have before : bookkeeping st₂ = (st.nodeStages, st.stats.nodes + 1, st.stats.replaced) := kept
    simp only [bookkeeping, Prod.mk.injEq] at before
    rw [stateAfter_bind_ok answered, stateAfter_bind_ok (countAnswer_apply result.1 st₂), truthy]
    refine (conclude_within admits (fun _ => rfl) result.1 result.2 _).trans ?_
    simp only [bookkeeping, before]
    rfl

end

/-! ## All visits of a document -/

/-- Nodes under their parents are visited one after the other: the visits that are
    made, and how it ends. -/
inductive Visited (s : Settings) (stages : List NodeStage) :
    List (Text × Node) → State → List Record → EStateM.Result Fault State PUnit → Prop
  | done (st : State) : Visited s stages [] st [] (.ok ⟨⟩ st)
  | next {parent : Text} {node : Node} {more : List (Text × Node)} {st st' : State} {turns : List Turn}
      {result : Result} {records : List Record} {ended : EStateM.Result Fault State PUnit}
      (takes : Takes s stages parent node st turns) (ran : visit s parent node st = .ok result st')
      (later : Visited s stages more st' records ended) :
      Visited s stages ((parent, node) :: more) st (⟨turns, some result⟩ :: records) ended
  /-- After a visit that is given up no other is made. -/
  | gaveUp {parent : Text} {node : Node} {more : List (Text × Node)} {st st' : State} {turns : List Turn} {e : Fault}
      (takes : Takes s stages parent node st turns) (ran : visit s parent node st = .error e st') :
      Visited s stages ((parent, node) :: more) st [⟨turns, none⟩] (.error e st')

namespace Visited

variable {stages : List NodeStage} {visits more : List (Text × Node)} {st st' : State} {records records' : List Record}
  {ended : EStateM.Result Fault State PUnit} {e : Fault}

theorem append (first : Visited s stages visits st records (.ok ⟨⟩ st'))
    (others : Visited s stages more st' records' ended) :
    Visited s stages (visits ++ more) st (records ++ records') ended := by
  generalize stopped : EStateM.Result.ok PUnit.unit st' = result at first
  induction first with
  | done =>
    cases stopped
    exact others
  | next takes ran later ih => exact .next takes ran (ih stopped)
  | gaveUp => cases stopped

theorem append_error (first : Visited s stages visits st records (.error e st')) (more : List (Text × Node)) :
    Visited s stages (visits ++ more) st records (.error e st') := by
  generalize stopped : EStateM.Result.error e st' = result at first
  induction first with
  | done => cases stopped
  | next takes ran later ih => exact .next takes ran (ih stopped)
  | gaveUp takes ran =>
    cases stopped
    exact .gaveUp takes ran

/-- Every visit is counted, and every truthy answer; the stages stay as they are. -/
theorem bookkeeping_eq (visited : Visited s stages visits st records ended) :
    bookkeeping (endState ended) =
      (st.nodeStages, st.stats.nodes + records.length,
        st.stats.replaced + records.countP fun record => someTruthy record.turns) := by
  induction visited with
  | done => rfl
  | next takes ran later ih =>
    have counted := takes.bookkeeping_eq
    rw [stateAfter_ok ran] at counted
    simp only [bookkeeping, Prod.mk.injEq] at counted ih ⊢
    simp only [ih, counted, List.length_cons, List.countP_cons]
    exact ⟨trivial, by omega, by omega⟩
  | gaveUp takes ran =>
    have counted := takes.bookkeeping_eq
    rw [stateAfter_error ran] at counted
    simpa [bookkeeping, endState, List.countP_cons] using counted

theorem fair (visited : Visited s stages visits st records ended) : ∀ record ∈ records, record.Fair s stages := by
  induction visited with
  | done => nofun
  | next takes ran later ih => exact List.forall_mem_cons.mpr ⟨takes.fair_some ran, ih⟩
  | gaveUp takes ran => exact List.forall_mem_singleton.mpr takes.fair_none

/-- Unless a visit is given up, there is one of every node. -/
theorem length_eq (visited : Visited s stages visits st records (.ok ⟨⟩ st')) : records.length = visits.length := by
  generalize stopped : EStateM.Result.ok PUnit.unit st' = result at visited
  induction visited with
  | done => rfl
  | next takes ran later ih => rw [List.length_cons, List.length_cons, ih stopped]
  | gaveUp => cases stopped

end Visited
end Visit

namespace Document

mutual
/-- A node under a parent with all the nodes below it, in the order of the document,
    each with the tag of its parent. -/
def snapshot (parent : Text) : Node → List (Text × Node)
  | .element tag attributes children => (parent, .element tag attributes children) :: snapshots tag children
  | .leaf kind t => [(parent, .leaf kind t)]

/-- The children of a parent with all the nodes below them. -/
def snapshots (parent : Text) : List Node → List (Text × Node)
  | [] => []
  | node :: rest => snapshot parent node ++ snapshots parent rest
end

mutual
theorem compileNode_visited (s : Settings) (parent : Text) :
    ∀ (node : Node) (st : State), ∃ records,
      Visit.Visited s (Pipeline.stagesOf st.nodeStages) (snapshot parent node) st records
        ((discard (compileNode s parent node)) st)
  | .element tag attributes children, st => by
    obtain ⟨turns, takes⟩ := Visit.exists_takes s parent (.element tag attributes children) st
    unfold snapshot compileNode
    cases ran : Visit.visit s parent (.element tag attributes children) st with
    | error e st' =>
      rw [discard_error (bind_error ran)]
      exact ⟨_, .gaveUp takes ran⟩
    | ok result st' =>
      -- The children are visited from where the visit of the element has ended.
      obtain ⟨records, below⟩ := compileNodes_visited s tag children st'
      have kept := takes.bookkeeping_eq
      rw [stateAfter_ok ran, Visit.bookkeeping, Prod.mk.injEq] at kept
      rw [kept.1] at below
      refine ⟨⟨turns, some result⟩ :: records, .next takes ran ?_⟩
      rw [discard_bind_ok ran]
      cases result with
      | gone ns => rwa [discard_bind_pure, discard_discard]
      | stays node => rwa [discard_bind_pure]
  | .leaf kind t, st => by
    obtain ⟨turns, takes⟩ := Visit.exists_takes s parent (.leaf kind t) st
    unfold snapshot compileNode
    cases ran : Visit.visit s parent (.leaf kind t) st with
    | error e st' =>
      rw [discard_error (bind_error ran)]
      exact ⟨_, .gaveUp takes ran⟩
    | ok result st' =>
      refine ⟨[⟨turns, some result⟩], .next takes ran ?_⟩
      rw [discard_bind_ok ran]
      cases result <;> exact .done st'

theorem compileNodes_visited (s : Settings) (parent : Text) :
    ∀ (nodes : List Node) (st : State), ∃ records,
      Visit.Visited s (Pipeline.stagesOf st.nodeStages) (snapshots parent nodes) st records
        ((discard (compileNodes s parent nodes)) st)
  | [], st => by
    unfold snapshots compileNodes
    exact ⟨[], .done st⟩
  | node :: rest, st => by
    obtain ⟨records, first⟩ := compileNode_visited s parent node st
    unfold snapshots compileNodes
    cases ran : compileNode s parent node st with
    | error e st' =>
      rw [discard_error ran] at first
      rw [discard_error (bind_error ran)]
      exact ⟨records, first.append_error _⟩
    | ok ns st' =>
      rw [discard_ok ran] at first
      obtain ⟨records', others⟩ := compileNodes_visited s parent rest st'
      have kept := first.bookkeeping_eq
      rw [Visit.endState, Visit.bookkeeping, Prod.mk.injEq] at kept
      rw [kept.1] at others
      refine ⟨records ++ records', first.append ?_⟩
      rwa [discard_bind_ok ran, discard_bind_pure]
end

/-- Visits go on from the statistics that there are: they count themselves, and those
    with a truthy answer. -/
theorem exists_records (s : Settings) (nodes : List Node) (st : State) : ∃ records,
    Visit.Visited s (Pipeline.stagesOf st.nodeStages) (snapshots rootTag nodes) st records
        ((discard (compile s nodes)) st) ∧
      (stateAfter (compile s nodes) st).stats.nodes = st.stats.nodes + records.length ∧
      (stateAfter (compile s nodes) st).stats.replaced =
        st.stats.replaced + records.countP (fun record => Visit.someTruthy record.turns) ∧
      (∀ out st', compile s nodes st = .ok out st' → records.length = (snapshots rootTag nodes).length) ∧
      ∀ record ∈ records, record.Fair s (Pipeline.stagesOf st.nodeStages) := by
  obtain ⟨records, visited⟩ := compileNodes_visited s rootTag nodes st
  have counts := visited.bookkeeping_eq
  have ended : Visit.endState ((discard (compileNodes s rootTag nodes)) st) = stateAfter (compile s nodes) st := by
    rw [compile, discard_apply, stateAfter]
    cases compileNodes s rootTag nodes st <;> rfl
  rw [ended] at counts
  simp only [Visit.bookkeeping, Prod.mk.injEq] at counts
  refine ⟨records, visited, counts.2.1, counts.2.2, fun out st' ran => ?_, visited.fair⟩
  rw [compile] at ran
  rw [discard_ok ran] at visited
  exact visited.length_eq

/-- Stages that answer about nodes, put together in any way, are asked in order, all
    with the same node and arguments, up to the first that does not decline, or to the
    last, whose answer is the answer. In a document every node is visited once, in
    order, unless a visit is given up. Nodes are put in the place of a node by one
    stage at most; the statistics count the visits, and those with a truthy answer of
    some stage; and where there is none every stage was asked. With statistics of its
    own a document has these counts alone. -/
theorem compile_visited (s : Settings) {stages : List NodeStage} {st : State}
    (folded : Pipeline.Folded stages st.nodeStages) (nodes : List Node) :
    (∀ {σ β ν κ ε : Type} (truthy : β → Bool) (respond : σ → ν → κ → Except ε β) (asked : List σ)
      (pipeline : Pipeline σ) (node : ν) (arguments : κ) (answer : β), Pipeline.Folded asked (some pipeline) →
      (∃ before stage after, asked = before ++ stage :: after ∧
        (∀ other ∈ before, Pipeline.Declines truthy respond node arguments other) ∧
        (Pipeline.Declines truthy respond node arguments stage → after = []) ∧
        (pipeline.firstAnswer truthy (Pipeline.noted respond node arguments)).run [] =
          Pipeline.answered (respond stage node arguments)
            ((before ++ [stage]).map fun other => (other, node, arguments))) ∧
      ∀ (m : Type → Type) [Monad m] [LawfulMonad m] (call : σ → m β),
        pipeline.firstAnswer truthy call =
          Pipeline.linear (fun b => !truthy b) (fun other _ => call other) asked answer) ∧
    (∃ records,
      Visit.Visited s stages (snapshots rootTag nodes) st records ((discard (compile s nodes)) st) ∧
      (stateAfter (compile s nodes) st).stats.nodes = st.stats.nodes + records.length ∧
      (stateAfter (compile s nodes) st).stats.replaced =
        st.stats.replaced + records.countP (fun record => Visit.someTruthy record.turns) ∧
      (∀ out st', compile s nodes st = .ok out st' → records.length = (snapshots rootTag nodes).length) ∧
      ∀ record ∈ records, record.Fair s stages) ∧
    ∃ records,
      Visit.Visited s stages (snapshots rootTag nodes) { st with stats := {} } records
        ((discard (Compiler.compileDocument s nodes)) st) ∧
      (stateAfter (Compiler.compileDocument s nodes) st).stats.nodes = records.length ∧
      (stateAfter (Compiler.compileDocument s nodes) st).stats.replaced =
        records.countP (fun record => Visit.someTruthy record.turns) ∧
      (∀ out st', Compiler.compileDocument s nodes st = .ok out st' →
        records.length = (snapshots rootTag nodes).length) ∧
      ∀ record ∈ records, record.Fair s stages := by
  refine ⟨fun truthy respond asked pipeline node arguments answer folded =>
    Pipeline.firstAnswer_folded folded answer, ?_⟩
  obtain rfl := Pipeline.folded_iff.mp folded
  refine ⟨exists_records s nodes st, ?_⟩
  obtain ⟨records, visited, counted, replaced, all, fair⟩ := exists_records s nodes { st with stats := {} }
  have same : Compiler.compileDocument s nodes st = compile s nodes { st with stats := {} } := rfl
  have ended : stateAfter (Compiler.compileDocument s nodes) st =
      stateAfter (compile s nodes) { st with stats := {} } := rfl
  rw [Nat.zero_add] at counted replaced
  rw [ended, same]
  exact ⟨records, visited, counted, replaced, all, fair⟩

/-- A function that claims the elements of a document. -/
def claimElements : NodeClient where
  name := lit "claim"
  respond
    | .element .. => .claimed
    | .leaf .. => .declined

/-- Stages that edit attributes and then claim elements: of a paragraph and its text,
    one node has a truthy answer. -/
theorem compile_visited_claimed :
    let stages : List NodeStage := [.attributes, .client claimElements]
    let st : State := { registry := { divider := lit "." }, nodeStages := Pipeline.nestLeft stages }
    let nodes := [Node.element (lit "p") Table.empty [.ofText (lit "t")]]
    Pipeline.Folded stages st.nodeStages ∧
      ∃ records, Visit.Visited {} stages (snapshots rootTag nodes) { st with stats := {} } records
          ((discard (Compiler.compileDocument {} nodes)) st) ∧
        records.length = 2 ∧ records.countP (fun record => Visit.someTruthy record.turns) = 1 := by
  intro stages st nodes
  have folded : Pipeline.Folded stages st.nodeStages := Pipeline.folded_nestLeft stages
  obtain ⟨-, -, records, visited, counted, replaced, -⟩ := compile_visited {} folded nodes
  have two : (stateAfter (Compiler.compileDocument {} nodes) st).stats.nodes = 2 := by rfl
  have one : (stateAfter (Compiler.compileDocument {} nodes) st).stats.replaced = 1 := by rfl
  exact ⟨folded, records, visited, counted.symm.trans two, replaced.symm.trans one⟩

end Document
end Bindmark
