import Bindmark.Proofs.Dispatching
import Bindmark.Proofs.Expanding
import Bindmark.Proofs.FilteredTwice
import Bindmark.Proofs.StandardHandlers

/-!
# What directives come to under the standard setup

Every stage of the standard setup leaves its own results alone, so that it makes no
difference how often a handler has it. What a directive comes to can be read off
its key and its value (`expansion`), whichever handlers lead to it.
-/

namespace Bindmark

open Work

namespace Directive

/-- Stages that all do the same come to what one of them comes to, if that one leaves
    its own result alone. -/
theorem pipelineOutcome?_repeated {τ : Type} {outcome? : τ → Text → Option Outcome} {stage : τ} {pipeline : Pipeline τ}
    (only : ∀ s ∈ pipeline.toList, s = stage) {t : Text} {outcome : Outcome} (first : outcome? stage t = some outcome)
    (again : ∀ t', outcome.result = some t' → outcome? stage t' = some { result := some t' }) :
    pipelineOutcome? outcome? pipeline t = some outcome := by
  induction pipeline generalizing t outcome with
  | stage s =>
    rw [only s (List.mem_singleton_self s)] at *
    exact first
  | andThen before after ihBefore ihAfter =>
    have onlyBefore (s : τ) (inside : s ∈ before.toList) : s = stage := only s (List.mem_append_left _ inside)
    have onlyAfter (s : τ) (inside : s ∈ after.toList) : s = stage := only s (List.mem_append_right _ inside)
    rw [pipelineOutcome?, ihBefore onlyBefore first again]
    obtain ⟨added, result⟩ := outcome
    cases result with
    | none => simp
    | some t' =>
      have later : pipelineOutcome? outcome? after t' = some { result := some t' } :=
        ihAfter onlyAfter (again t' rfl) fun t'' same => again t'' same
      simp [later]

theorem solid?_eq_some {t t' : Text} (solid : solid? t = some t') : t' = t ∧ solid? t' = some t' := by
  have same : t' = t := by
    unfold solid? at solid
    split at solid
    · cases solid
    · exact (Option.some.inj solid).symm
  exact ⟨same, same ▸ solid⟩

end Directive

namespace Standard

open Directive

/-! ## Outcomes -/

/-- What a preprocessor of the library makes of a text. -/
def rewritten : Preprocessor → Text → Text
  | .filters, t => Filter.calls Filter.standardLookup t
  | .references, t => Reference.wrap t
  | _, t => t

/-- What is left of a property of a template. -/
def callback? (name : Text) (value : Option Text) : Option Text :=
  if templateCallbacks.contains name then value.bind fun v => solid? (Reference.wrap v) else value.bind solid?

/-- What a stage comes to, whichever handler has it. -/
def outcome (key : Text) : Stage → Text → Outcome
  | .apply p, t => { result := solid? (rewritten p t) }
  | .members, t =>
    if Pair.isObject t then { added := memberPairs (lit ".") key t, result := none } else { result := solid? t }
  | .properties, t =>
    if Pair.isObject t then
      { result := some (Pair.writeObject ((Pair.ofObject t).filterMap fun p =>
          (callback? p.key p.value).map fun v => (p.key, v))) }
    else { result := solid? t }

theorem pipelineOutcome?_references {key : Text} {pipeline : Pipeline Preprocessor}
    (only : ∀ p ∈ pipeline.toList, p = .references) (t : Text) :
    pipelineOutcome? (preprocessorOutcome? key) pipeline t = some { result := solid? (Reference.wrap t) } := by
  refine pipelineOutcome?_repeated only rfl fun t' left => ?_
  obtain ⟨rfl, solid⟩ := solid?_eq_some left
  rw [preprocessorOutcome?, Reference.wrap_wrap, solid]

theorem propertiesOutcome?_callbacks {table : Table (Pipeline Preprocessor)}
    (wraps : ∀ name, (name ∈ templateCallbacks → ∃ pipeline, table.get? name = some pipeline ∧
      ∀ p ∈ pipeline.toList, p = .references) ∧ (name ∉ templateCallbacks → table.get? name = none)) :
    ∀ ps : List Pair, propertiesOutcome? table ps =
      some ([], ps.filterMap fun p => (callback? p.key p.value).map fun v => (p.key, v))
  | [] => rfl
  | p :: rest => by
    have first : propertyOutcome? table p = some { result := callback? p.key p.value } := by
      unfold propertyOutcome? callback?
      by_cases listed : p.key ∈ templateCallbacks
      · obtain ⟨pipeline, found, only⟩ := (wraps p.key).1 listed
        rw [found, if_pos (List.contains_iff_mem.mpr listed)]
        cases p.value with
        | none => rfl
        | some v => exact pipelineOutcome?_references only v
      · rw [(wraps p.key).2 listed, if_neg (mt List.contains_iff_mem.mp listed)]
    rw [propertiesOutcome?, first, propertiesOutcome?_callbacks wraps rest]
    cases left : callback? p.key p.value with
    | none => simp [left]
    | some v => simp [left]

variable {ns : Text}

/-! ## Expansions -/

/-- A key whose values filters are meant for: one of the directives for texts, or a
    member of the attribute namespace. -/
def IsFiltered (ns key : Text) : Prop :=
  key ∈ filterDirectives ∨ ∃ member, Registry.splitKey? (lit ".") key = some (ns, member)

/-- The value of a directive is well-formed, if filters are meant for it. -/
def PipedAt (ns : Text) (p : Pair) : Prop := IsFiltered ns p.key → ∀ v, p.value = some v → Filter.Piped v

/-- The values in a directive string that filters are meant for are well-formed, also
    those of members in an object of attributes. -/
def PipedThroughout (ns t : Text) : Prop :=
  ∀ p ∈ Pair.split t, PipedAt ns p ∧
    (p.key = ns → ∀ v, p.value = some v → Pair.isObject v = true → ∀ q ∈ memberPairs (lit ".") ns v, PipedAt ns q)

theorem preprocessor_of_stage? {key : Text} {p : Preprocessor} (isStage : stage? ns key = some (.apply p)) :
    p = .filters ∧ IsFiltered ns key ∨ p = .references := by
  unfold stage? at isStage
  split at isStage
  · rename_i ns' member split
    obtain ⟨p', given, same⟩ := Option.map_eq_some_iff.mp isStage
    cases same
    rcases memberPreprocessor?_cases given with ⟨rfl, rfl⟩ | ⟨rfl, -⟩
    · exact .inl ⟨rfl, .inr ⟨member, split⟩⟩
    · exact .inr rfl
  · rcases ownStage?_cases isStage with ⟨same, -⟩ | ⟨same, listed⟩ | ⟨same, -⟩ | ⟨same, -⟩ <;> cases same
    · exact .inl ⟨rfl, .inl listed⟩
    · exact .inr rfl

/-- A handler that performs the stage of a key comes to what the stage comes to. -/
theorem pipelineOutcome?_performs {key : Text} {h : Handler} {pipeline : Pipeline Stage} {s : Stage}
    (isStage : stage? ns key = some s) (performs : Performs h pipeline s) {v : Text}
    (piped : IsFiltered ns key → Filter.Piped v) :
    pipelineOutcome? (stageOutcome? (lit ".") h key) pipeline v = some (outcome key s v) := by
  cases s with
  | apply p =>
    rcases preprocessor_of_stage? isStage with ⟨rfl, filtered⟩ | rfl
    · refine pipelineOutcome?_repeated performs.only rfl fun t left => ?_
      obtain ⟨written, solid⟩ := solid?_eq_some left
      have kept : Filter.calls Filter.standardLookup t = t := by
        rw [written]
        exact Filter.calls_calls (by decide) (piped filtered)
      rw [stageOutcome?, preprocessorOutcome?, kept, solid]
    · refine pipelineOutcome?_repeated performs.only rfl fun t left => ?_
      obtain ⟨written, solid⟩ := solid?_eq_some left
      have kept : Reference.wrap t = t := by
        rw [written]
        exact Reference.wrap_wrap v
      rw [stageOutcome?, preprocessorOutcome?, kept, solid]
  | members =>
    -- Of an object nothing is left for the stages behind; anything else passes them.
    refine pipelineOutcome?_repeated performs.only rfl fun t left => ?_
    by_cases isObject : Pair.isObject v = true
    · simp [outcome, isObject] at left
    · rw [outcome, if_neg isObject] at left
      obtain ⟨rfl, solid⟩ := solid?_eq_some left
      rw [stageOutcome?, if_neg isObject, solid]
  | properties =>
    obtain ⟨rfl, wraps⟩ := performs.properties rfl
    rw [pipelineOutcome?, stageOutcome?, outcome]
    split
    · rw [propertiesOutcome?_callbacks wraps]
      rfl
    · rfl

theorem added_outcome {s : Stage} (unsplit : s ≠ .members) {key v : Text} : (outcome key s v).added = [] := by
  cases s with
  | apply p => rfl
  | members => exact absurd rfl unsplit
  | properties =>
    rw [outcome]
    split <;> rfl

/-- Objects are not split under a key that holds a divider. -/
theorem stage?_divided (undivided : '.' ∉ ns) {key : Text} (divided : '.' ∈ key) : stage? ns key ≠ some .members := by
  unfold stage?
  split
  · rename_i ns' member _
    cases memberPreprocessor? ns ns' <;> simp
  · rw [ownStage?_divided undivided divided]
    exact nofun

/-- Only the attribute namespace and some directives have their objects split. -/
theorem whole_of_members {key : Text} (isStage : stage? ns key = some .members) :
    key = ns ∨ key ∈ memberDirectives := by
  unfold stage? at isStage
  split at isStage
  · rename_i ns' member _
    cases given : memberPreprocessor? ns ns' <;> simp [given] at isStage
  · simpa using ownStage?_cases isStage

theorem not_filtered_member {key : Text} (plain : '.' ∉ key) (other : key ≠ ns) (member : Text) :
    ¬ IsFiltered ns (key ++ lit "." ++ member) := by
  have undivided : ∀ key ∈ filterDirectives, '.' ∉ key := by decide
  rintro (listed | ⟨member', split⟩)
  · exact undivided _ listed (by simp [lit])
  · have cut := Registry.splitKey?_cut plain member
    rw [List.append_assoc, show lit "." ++ member = '.' :: member from rfl, show lit "." = ['.'] from rfl, cut] at split
    split at split
    · cases split
    · cases split
      exact other rfl

/-- The directives that are added for a directive. -/
def added (ns : Text) (p : Pair) : List Pair :=
  match stage? ns p.key, p.value with
  | some s, some v => (outcome p.key s v).added
  | _, _ => []

/-- What a directive comes to, where `inside` comes of the directives that are added. -/
def comesTo (ns : Text) (inside : List Pair) (p : Pair) : List Pair :=
  match stage? ns p.key, p.value with
  | some s, some v => inside ++ ((outcome p.key s v).result.map fun t => ⟨p.key, some t⟩).toList
  | _, _ => [p]

/-- What a directive comes to with all that is added for it: directives for members
    add none themselves. -/
def expansion (ns : Text) (p : Pair) : List Pair := comesTo ns ((added ns p).flatMap (comesTo ns [])) p

/-- Directives come to other ones, and no more are added one within the other than so
    many. -/
def ComesWithin (find : Text → Option Handler) (limit : Nat) (ps results : List Pair) : Prop :=
  ∃ height ≤ limit, Expansion (lit ".") find height ps results

section
variable {find : Text → Option Handler}

theorem comesWithin_cons (leads : ∀ key, Leads ns key (find key)) {p : Pair} (piped : PipedAt ns p) {limit : Nat}
    {inside rest results : List Pair} (first : ComesWithin find limit (added ns p) inside)
    (others : ComesWithin find (limit + 1) rest results) :
    ComesWithin find (limit + 1) (p :: rest) (comesTo ns inside p ++ results) := by
  obtain ⟨low, lower, first⟩ := first
  obtain ⟨height, fits, others⟩ := others
  have own := leads p.key
  unfold Leads at own
  unfold added at first
  unfold comesTo
  cases isStage : stage? ns p.key with
  | none =>
    rw [isStage] at own
    exact ⟨_, by omega, .stays rfl (.inr own) others⟩
  | some s =>
    rw [isStage] at own first
    obtain ⟨h, pipeline, found, performs⟩ := own
    obtain ⟨key, value⟩ := p
    cases value with
    | none => exact ⟨_, by omega, .stays rfl (.inl rfl) others⟩
    | some v =>
      have answered := pipelineOutcome?_performs isStage performs fun filtered => piped filtered v rfl
      exact ⟨_, by omega, .preprocessed found.symm performs.staged answered first others⟩

/-- Directives that are not split come to what they come to by themselves. -/
theorem comesWithin_unsplit (leads : ∀ key, Leads ns key (find key)) : ∀ {ps : List Pair},
    (∀ p ∈ ps, PipedAt ns p ∧ stage? ns p.key ≠ some .members) → ComesWithin find 1 ps (ps.flatMap (comesTo ns []))
  | [], _ => ⟨0, by omega, .nil ()⟩
  | p :: rest, each => by
    obtain ⟨⟨piped, unsplit⟩, others⟩ := List.forall_mem_cons.mp each
    have nothing : added ns p = [] := by
      unfold added
      split
      · rename_i s v isStage _
        exact added_outcome fun isMembers => unsplit (isMembers ▸ isStage)
      · rfl
    have none_ : ComesWithin find 0 (added ns p) [] := by
      rw [nothing]
      exact ⟨0, le_rfl, .nil ()⟩
    exact comesWithin_cons leads piped none_ (comesWithin_unsplit leads others)

/-- Well-formed directives come to what they come to by their keys and values. -/
theorem comesWithin_expansion (leads : ∀ key, Leads ns key (find key)) (undivided : '.' ∉ ns) : ∀ {ps : List Pair},
    (∀ p ∈ ps, PipedAt ns p ∧ (p.key = ns → ∀ v, p.value = some v → Pair.isObject v = true →
      ∀ q ∈ memberPairs (lit ".") ns v, PipedAt ns q)) → ComesWithin find 2 ps (ps.flatMap (expansion ns))
  | [], _ => ⟨0, by omega, .nil ()⟩
  | p :: rest, each => by
    obtain ⟨⟨piped, members⟩, others⟩ := List.forall_mem_cons.mp each
    refine comesWithin_cons leads piped (comesWithin_unsplit leads fun q inside => ?_)
      (comesWithin_expansion leads undivided others)
    -- Only an object that is split adds directives, and their keys hold a divider.
    unfold added at inside
    split at inside
    · rename_i s v isStage value
      by_cases isMembers : s = .members
      · subst isMembers
        by_cases isObject : Pair.isObject v = true
        · rw [outcome, if_pos isObject] at inside
          obtain ⟨q', -, rfl⟩ := List.mem_map.mp inside
          refine ⟨?_, stage?_divided undivided (by simp [lit])⟩
          by_cases same : p.key = ns
          · rw [same] at inside ⊢
            exact members same v value isObject _ inside
          · have listed := (whole_of_members isStage).resolve_left same
            have plain : ∀ key ∈ memberDirectives, '.' ∉ key := by decide
            exact fun filtered => absurd filtered (not_filtered_member (plain _ listed) same _)
        · rw [outcome, if_neg isObject] at inside
          cases inside
      · rw [added_outcome isMembers] at inside
        cases inside
    · cases inside

end

/-- Where keys lead to what their stages do, a well-formed directive string is
    preprocessed by its keys and values. -/
theorem preprocessText_of_leads (st : State) (plain : st.registry.Plain) (divider : st.registry.divider = lit ".")
    (leads : ∀ key, Leads ns key (st.registry.handlerOf key)) (undivided : '.' ∉ ns) {t : Text}
    (piped : PipedThroughout ns t) :
    ∃ st', preprocessText t st = .ok (Pair.writeDirectives ((Pair.split t).flatMap (expansion ns))) st' := by
  obtain ⟨height, fits, expands⟩ := comesWithin_expansion leads undivided piped
  obtain ⟨r', expands, -⟩ := Expansion.expands (grown_leads plain) expands st.registry (.refl _)
  have limited : height ≤ depthLimit st.registry := by
    unfold depthLimit
    omega
  obtain ⟨st', ran, -⟩ := (preprocessText_of_runs (expands.runs divider _)).1 limited
  exact ⟨st', ran⟩

end Standard
end Bindmark
