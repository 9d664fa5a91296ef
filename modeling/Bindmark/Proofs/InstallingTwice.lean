import Bindmark.Proofs.MovingOnce
import Bindmark.Proofs.Settling
import Bindmark.Proofs.StandardExpansions

/-!
# Installing the standard setup twice

A compiler that the standard setup is installed in once more preprocesses every
directive string whose filters are well-formed as it did before, and changes
every node as it did before. Stages that are there twice find nothing left to do.
-/

namespace Bindmark

open Work

namespace Standard

/-! ## Registries -/

/-- A tidy registry stays tidy, and is set up from then on. The keys that the setup
    amends are registered besides those that were. -/
theorem install_setUp {s : Settings} (whole : Registry.Whole s.attributeNamespace)
    (other : s.attributeNamespace ∉ otherDirectives) (st : State) (tidy : st.registry.Tidy)
    (fits : ∀ key h, st.registry.registered key = some h → Fits s.attributeNamespace key h) :
    ∃ st', install s st = .ok () st' ∧ st'.registry.Tidy ∧ SetUp s.attributeNamespace st'.registry.registered ∧
      ∀ key, (st'.registry.registered key).isSome ↔
        (st.registry.registered key).isSome ∨ key ∈ (amendments s.attributeNamespace).map Prod.fst := by
  have apart : s.attributeNamespace ≠ lit "event" := fun same => other (same ▸ by decide)
  obtain ⟨_, st', ran, tidy', amended⟩ := Amends.install whole apart st tidy nofun
  refine ⟨st', ran, tidy', ?_, fun key => ?_⟩
  · rw [amended]
    exact setUp_foldl_amend other fits
  · rw [amended]
    exact isSome_foldl_amend

theorem checked_after {ns : Text} {find : Text → Option Handler} (setUp : SetUp ns find) :
    ∃ h, find (lit "checked") = some h ∧ h.after = [ns ++ lit "." ++ lit "value"] := by
  obtain ⟨h, found, held⟩ := setUp.holds (lit "checked", .after (ns ++ lit "." ++ lit "value")) (by simp [amendments])
  refine ⟨h, found, (setUp.fits _ h found).after.resolve_left fun none_ => ?_⟩
  have held : ns ++ lit "." ++ lit "value" ∈ h.after := held
  rw [none_] at held
  cases held

/-! ## Stages for nodes -/

/-- The stages for nodes once the setup is installed again. -/
def nodeStagesAgain : Pipeline NodeStage := .andThen (.andThen nodeStages (.stage .texts)) (.stage .attributes)

end Standard

namespace Visit

variable {r : Registry} {s : Settings}

/-- From every registry that has grown from another one, stages for nodes come to an
    answer for a node, and leave it in a state. -/
def Answers (r : Registry) (s : Settings) (stages : Pipeline NodeStage) (v : Visit) (answer : Answer) (v' : Visit) :
    Prop :=
  Gives (GrownFrom r) ((stages.firstAnswer Answer.truthy (runStage s)).run v) fun result => result = (answer, v')

namespace Answers

variable {stages later : Pipeline NodeStage} {v v' v'' : Visit} {answer answer' : Answer}

/-- A truthy answer is the last one. -/
theorem ends (first : Answers r s stages v answer v') (truthy : answer.truthy = true) (later : Pipeline NodeStage) :
    Answers r s (.andThen stages later) v answer v' := by
  unfold Answers
  rw [Pipeline.firstAnswer, StateT.run_bind]
  refine Gives.bind first fun result same => ?_
  rw [same]
  simp only [truthy, if_true]
  exact Gives.pure rfl

theorem goesOn (first : Answers r s stages v answer v') (falsy : answer.truthy = false)
    (second : Answers r s later v' answer' v'') : Answers r s (.andThen stages later) v answer' v'' := by
  unfold Answers
  rw [Pipeline.firstAnswer, StateT.run_bind]
  refine Gives.bind first fun result same => ?_
  rw [same]
  simp only [falsy, Bool.false_eq_true, if_false]
  exact second

theorem texts_none (none_ : Interpolation.textNodes? s v.parent v.node = none) :
    Answers r s (.stage .texts) v .none v := by
  unfold Answers
  rw [Pipeline.firstAnswer, Rewriting.runStage_texts, none_]
  exact Gives.pure rfl

theorem texts_some {nodes : List Node} (interpolated : Interpolation.textNodes? s v.parent v.node = some nodes) :
    Answers r s (.stage .texts) v (.nodes nodes) (v.putInPlace nodes) := by
  unfold Answers
  rw [Pipeline.firstAnswer, Rewriting.runStage_texts, interpolated]
  exact (GrownFrom.log_gives _).bind fun _ _ => Gives.pure rfl

theorem attributes_leaf {kind : LeafKind} {t : Text} (leaf : v.node = .leaf kind t) :
    Answers r s (.stage .attributes) v .none v := by
  unfold Answers
  rw [Pipeline.firstAnswer, Rewriting.runStage_attributes, leaf, Interpolation.interpolateAttributes, pure_bind, ← leaf]
  exact Gives.pure rfl

theorem attributes_element (plain : r.Plain) {tag : Text} {attributes : Table AttributeValue} {children : List Node}
    (element : v.node = .element tag attributes children) :
    Answers r s (.stage .attributes) v .none
      { v with node := .element tag (Interpolation.movedIn r s attributes) children } := by
  unfold Answers
  rw [Pipeline.firstAnswer, Rewriting.runStage_attributes, element, Interpolation.interpolateAttributes, bind_assoc]
  refine (Interpolation.moveAttributes_gives_movedIn plain s tag attributes).bind fun moved same => ?_
  rw [same, pure_bind]
  exact Gives.pure rfl

end Answers

/-- What the stages of the setup come to, once and twice: no text and no attribute is
    left for the second time. -/
theorem exists_answers {r r' : Registry} (plain : r.Plain) (plain' : r'.Plain)
    (same : Interpolation.movedIn r s = Interpolation.movedIn r' s) (node : Node) (parent : Option Text) :
    ∃ answer v', Answers r s Standard.nodeStages { node, parent } answer v' ∧
      Answers r' s Standard.nodeStagesAgain { node, parent } answer v' := by
  cases node with
  | leaf kind t =>
    -- Nodes end the chain before the second stages are reached.
    cases interpolated : Interpolation.textNodes? s parent (.leaf kind t) with
    | some nodes =>
      have truthy : (Answer.nodes nodes).truthy = true := by
        simp [Answer.truthy, Interpolation.textNodes?_ne_nil interpolated]
      exact ⟨_, _, (Answers.texts_some interpolated).ends truthy _,
        (((Answers.texts_some interpolated).ends truthy _).ends truthy _).ends truthy _⟩
    | none =>
      refine ⟨_, _, (Answers.texts_none interpolated).goesOn rfl (.attributes_leaf rfl), ?_⟩
      exact (((Answers.texts_none interpolated).goesOn rfl (.attributes_leaf rfl)).goesOn rfl
        (.texts_none interpolated)).goesOn rfl (.attributes_leaf rfl)
  | element tag attributes children =>
    refine ⟨_, _, (Answers.texts_none rfl).goesOn rfl (.attributes_element plain rfl), ?_⟩
    have again : Answers r' s (.stage .attributes)
        { node := .element tag (Interpolation.movedIn r' s attributes) children, parent } .none _ :=
      .attributes_element plain' rfl
    rw [Interpolation.movedIn_movedIn] at again
    rw [same]
    exact (((Answers.texts_none rfl).goesOn rfl (.attributes_element plain' rfl)).goesOn rfl
      (.texts_none rfl)).goesOn rfl again

theorem Answers.runStages {stages : Pipeline NodeStage} {v v' : Visit} {answer : Answer} (st : State)
    (answers : Answers st.registry s stages v answer v') (staged : st.nodeStages = some stages) :
    ∃ st', (Visit.runStages s).run v st = .ok (answer, v') st' := by
  obtain ⟨_, st', ran, -, rfl⟩ := answers st (.refl _)
  refine ⟨st', ?_⟩
  rw [MirrorsDocuments.runStages_run, staged]
  exact ran

end Visit

/-! ## Keys of attributes -/

theorem Interpolation.movedIn_congr {r r' : Registry} (s : Settings)
    (same : ∀ key, (r.handlerOf key).isSome = (r'.handlerOf key).isSome) : movedIn r s = movedIn r' s := by
  have keys : keyIn r s = keyIn r' s := by
    funext name
    rw [keyIn, keyIn, same]
  funext attributes
  rw [movedIn, movedIn, keys]

namespace Registry.Tidy

variable {r r' : Registry}

/-- The same keys lead to handlers where the same keys are registered. -/
theorem isSome_handlerOf (tidy : r.Tidy) (tidy' : r'.Tidy)
    (same : ∀ key, (r.registered key).isSome = (r'.registered key).isSome) (key : Text) :
    (r.handlerOf key).isSome = (r'.handlerOf key).isSome := by
  by_cases divided : '.' ∈ key
  · rw [tidy.handlerOf_divided divided, tidy'.handlerOf_divided divided]
    cases Registry.splitKey? (lit ".") key with
    | none => rfl
    | some parts =>
      dsimp only
      rw [Option.isSome_map, Option.isSome_map, same]
  · rw [tidy.handlerOf_undivided divided, tidy'.handlerOf_undivided divided, same]

end Registry.Tidy

namespace Compiler

open Standard

/-- A compiler is made, with a registry that is set up and its stages for nodes. -/
theorem make_setUp {s : Settings} (verbosity : Option Int) (divider : s.namespaceDivider = lit ".")
    (whole : Registry.Whole s.attributeNamespace) (other : s.attributeNamespace ∉ otherDirectives) :
    ∃ once, make s verbosity true = .ok once ∧ once.state.registry.Tidy ∧
      SetUp s.attributeNamespace once.state.registry.registered := by
  obtain ⟨r, started, new⟩ := Registry.make_standard
  obtain ⟨st, ran, tidy, setUp, -⟩ := install_setUp whole other { registry := r } new.toTidy
    fun key h found => .blank (new.blank key h found)
  refine ⟨⟨s, verbosity.getD (if s.debugMode then 3 else 1), st⟩, ?_, tidy, setUp⟩
  rw [make, divider, started]
  simp only [bind, Except.bind, ofRegistry, if_true, ran]
  rfl

/-- Installing the standard setup once more changes nothing. A directive string whose
    filters are well-formed is preprocessed to the same text, the stages for nodes
    give the same answer for a node and leave it in the same state, and `checked`
    still waits for the value attribute once. -/
theorem install_twice {s : Settings} {verbosity : Option Int} (divider : s.namespaceDivider = lit ".")
    (named : s.attributeNamespace ≠ []) (undivided : '.' ∉ s.attributeNamespace)
    (other : s.attributeNamespace ∉ otherDirectives) :
    ∃ once twice, make s verbosity true = .ok once ∧ once.run (install s) = (.ok (), twice) ∧
      (∀ t, PipedThroughout s.attributeNamespace t → ∃ written,
        (once.run (Directive.preprocessText t)).1 = .ok written ∧
          (twice.run (Directive.preprocessText t)).1 = .ok written) ∧
      (∀ node parent, ∃ answered, (once.run ((Visit.runStages s).run { node, parent })).1 = .ok answered ∧
        (twice.run ((Visit.runStages s).run { node, parent })).1 = .ok answered) ∧
      (twice.state.registry.entries.get? (lit "checked")).map
        (fun e => e.handler.after.count (s.attributeNamespace ++ lit "." ++ lit "value")) = some 1 := by
  have whole : Registry.Whole s.attributeNamespace := ⟨named, undivided⟩
  obtain ⟨once, made, tidy, setUp⟩ := make_setUp verbosity divider whole other
  obtain ⟨st, ran, tidy', setUp', registered⟩ :=
    install_setUp whole other { once.state with calls := [], journal := [] } tidy setUp.fits
  have configured : Configured once.state.registry := .ofMake made
  have plain : st.registry.Plain := by
    have again :
        Configured (stateAfter (Setup.install s).work { once.state with calls := [], journal := [] }).registry :=
      .step (.install s) trivial configured
    rw [Setup.work, stateAfter_ok ran] at again
    exact again.plain
  refine ⟨once, { once with state := st }, made, by rw [run, ran]; rfl, fun t piped => ?_, fun node parent => ?_, ?_⟩
  · obtain ⟨st₁, written⟩ := preprocessText_of_leads { once.state with calls := [], journal := [] }
      configured.plain tidy.divider (tidy.leads undivided setUp) undivided piped
    obtain ⟨st₂, written'⟩ := preprocessText_of_leads { st with calls := [], journal := [] }
      plain tidy'.divider (tidy'.leads undivided setUp') undivided piped
    exact ⟨_, run_ok.mpr ⟨st₁, written⟩, run_ok.mpr ⟨st₂, written'⟩⟩
  · -- Attributes are moved under the same keys, as the same keys are registered.
    have same (key : Text) : (once.state.registry.registered key).isSome = (st.registry.registered key).isSome := by
      rw [Bool.eq_iff_iff, registered key]
      refine ⟨.inl, fun found => found.elim id fun amended => ?_⟩
      obtain ⟨amendment, inside, rfl⟩ := List.mem_map.mp amended
      obtain ⟨h, found, -⟩ := setUp.holds amendment inside
      rw [found, Option.isSome_some]
    have moved : Interpolation.movedIn once.state.registry s = Interpolation.movedIn st.registry s :=
      Interpolation.movedIn_congr s (tidy.isSome_handlerOf tidy' same)
    obtain ⟨answer, v, first, second⟩ := Visit.exists_answers configured.plain plain moved node parent
    have stages := Rewriting.nodeStages_install_chain s ran
    rw [nodeStages_make made] at stages
    obtain ⟨st₁, answered⟩ := Visit.Answers.runStages { once.state with calls := [], journal := [] } first
      (nodeStages_make made)
    obtain ⟨st₂, answered'⟩ := Visit.Answers.runStages { st with calls := [], journal := [] } second stages
    exact ⟨_, run_ok.mpr ⟨st₁, answered⟩, run_ok.mpr ⟨st₂, answered'⟩⟩
  · obtain ⟨h, found, after⟩ := checked_after setUp'
    obtain ⟨e, stands, rfl⟩ := Option.map_eq_some_iff.mp found
    rw [stands, Option.map_some, after, List.count_singleton_self]

/-- A text and an attribute with filters. -/
def filtered : Text := lit "text: a | upper, attr: \x7btitle: b | trim\x7d"

theorem install_twice_filtered :
    ({} : Settings).namespaceDivider = lit "." ∧ lit "attr" ≠ [] ∧ '.' ∉ lit "attr" ∧ lit "attr" ∉ otherDirectives ∧
      PipedThroughout (lit "attr") filtered ∧
      ∃ once twice, make {} none true = .ok once ∧ once.run (install {}) = (.ok (), twice) ∧ ∃ written,
        (once.run (Directive.preprocessText filtered)).1 = .ok written ∧
          (twice.run (Directive.preprocessText filtered)).1 = .ok written := by
  have named : lit "attr" ≠ [] := by decide
  have undivided : '.' ∉ lit "attr" := by decide
  have other : lit "attr" ∉ otherDirectives := by decide
  have each : ∀ p ∈ Pair.split filtered, ∀ v ∈ p.value, Filter.Piped v ∧
      ∀ q ∈ Directive.memberPairs (lit ".") (lit "attr") v, ∀ v ∈ q.value, Filter.Piped v := by
    decide +kernel
  have piped : PipedThroughout (lit "attr") filtered := fun p inside =>
    ⟨fun _ v value => (each p inside v value).1, fun _ v value _ q member _ v' value' =>
      (each p inside v value).2 q member v' value'⟩
  obtain ⟨once, twice, made, ran, written, -⟩ := @install_twice {} none rfl named undivided other
  exact ⟨rfl, named, undivided, other, piped, once, twice, made, ran, written filtered piped⟩

example :
    (match make {} none true with
      | .ok once =>
        match ((once.run (install {})).2.run (Directive.preprocessText filtered)).1 with
        | .ok written => written
        | .error _ => []
      | .error _ => []) = lit "text:filters['upper'](a),attr.title:filters['trim'](b)" := by
  decide +kernel

end Compiler
end Bindmark
