import Bindmark.Proofs.Pipelines
import Bindmark.Proofs.Properties
import Bindmark.Proofs.Refusals

/-!
# Tables of properties

Functions may be given for the properties of objects under a key, in any order and
for any property. The first one brings one stage, which runs a table; the others
only go into the table. It holds for each property the functions that were given
for it, in order, and nothing else about how they were given shows.
-/

namespace Bindmark

open Work

variable {property : Text} {calls : List (Text × Preprocessor)}

/-! ## The functions of a property -/

/-- What is given for properties, without what is no function. -/
def accepted (calls : List (Text × Preprocessor)) : List (Text × Preprocessor) :=
  calls.filter fun call => call.2.fault?.isNone

/-- The functions that are given for a property, in order. -/
def functionsOf (property : Text) (calls : List (Text × Preprocessor)) : List Preprocessor :=
  ((accepted calls).filter fun call => call.1 == property).map Prod.snd

/-- A table with more functions for its properties. -/
def Table.addFunctions (table : Table (Pipeline Preprocessor)) (calls : List (Text × Preprocessor)) :
    Table (Pipeline Preprocessor) :=
  calls.foldl (fun table call => table.insert call.1 (Pipeline.chain (table.get? call.1) (.stage call.2))) table

/-- A function goes behind those of its property, and leaves those of the others alone. -/
theorem Table.stagesOf_addFunctions (table : Table (Pipeline Preprocessor)) :
    Pipeline.stagesOf ((table.addFunctions calls).get? property) =
      Pipeline.stagesOf (table.get? property) ++
        (calls.filter fun call => call.1 == property).map Prod.snd := by
  induction calls generalizing table with
  | nil => simp [addFunctions]
  | cons call rest ih =>
    rw [addFunctions, List.foldl_cons, ← addFunctions, ih, get?_insert]
    by_cases same : call.1 = property
    · rw [if_pos same.symm, same, List.filter_cons_of_pos (by simpa using same), List.map_cons]
      simp [Pipeline.stagesOf, Pipeline.toList_chain, Pipeline.toList]
    · rw [if_neg (Ne.symm same), List.filter_cons_of_neg (by simpa using same)]

/-- What is given for different properties can be swapped. -/
theorem functionsOf_swap {first second : Text × Preprocessor} (apart : first.1 ≠ second.1)
    (rest : List (Text × Preprocessor)) (property : Text) :
    functionsOf property (second :: first :: rest) = functionsOf property (first :: second :: rest) := by
  rw [functionsOf, functionsOf, accepted, accepted, List.filter_filter, List.filter_filter]
  by_cases own : first.1 = property
  · have other : (second.1 == property) = false := beq_eq_false_iff_ne.mpr (own ▸ Ne.symm apart)
    simp [List.filter_cons, other]
  · have other : (first.1 == property) = false := beq_eq_false_iff_ne.mpr own
    simp [List.filter_cons, other]

/-- Where a property has a function, something was given that is one. -/
theorem accepted_ne_nil_iff : accepted calls ≠ [] ↔ ∃ property, functionsOf property calls ≠ [] := by
  constructor
  · intro some_
    obtain ⟨call, rest, split⟩ := List.exists_cons_of_ne_nil some_
    exact ⟨call.1, by simp [functionsOf, split]⟩
  · rintro ⟨property, some_⟩ nothing
    exact some_ (by rw [functionsOf, nothing]; rfl)

namespace Handler

/-- The functions that a handler has for a property, in order. -/
def functionsOf (h : Handler) (property : Text) : List Preprocessor :=
  Pipeline.stagesOf ((h.properties.getD .empty).get? property)

/-- A handler with functions added for properties. -/
def addFunctions (h : Handler) (calls : List (Text × Preprocessor)) : Handler :=
  calls.foldl (fun h call => h.addPropertyPreprocessor call.1 call.2) h

theorem addFunctions_of_some {h : Handler} {table : Table (Pipeline Preprocessor)} (has : h.properties = some table)
    (calls : List (Text × Preprocessor)) :
    h.addFunctions calls = { h with properties := some (table.addFunctions calls) } := by
  induction calls generalizing h table with
  | nil =>
    rw [Table.addFunctions, List.foldl_nil, ← has]
    cases h
    rfl
  | cons call rest ih =>
    have more : (h.addPropertyPreprocessor call.1 call.2).properties =
        some (table.insert call.1 (Pipeline.chain (table.get? call.1) (.stage call.2))) := by
      simp only [addPropertyPreprocessor, has]
    rw [addFunctions, List.foldl_cons, ← addFunctions, ih more]
    simp only [addPropertyPreprocessor, has]
    rfl

/-- The first function brings a stage and a table, the others only go into the table. -/
theorem addFunctions_of_none {h : Handler} (bare : h.properties = none) (some_ : calls ≠ []) :
    h.addFunctions calls =
      { h with
        preprocess := some (Pipeline.chain h.preprocess (.stage .properties))
        properties := some (Table.empty.addFunctions calls) } := by
  obtain ⟨call, rest, rfl⟩ := List.exists_cons_of_ne_nil some_
  have has : (h.addPropertyPreprocessor call.1 call.2).properties =
      some (Table.empty.insert call.1 (Pipeline.chain (Table.empty.get? call.1) (.stage call.2))) := by
    simp only [addPropertyPreprocessor, bare]
  rw [addFunctions, List.foldl_cons, ← addFunctions, addFunctions_of_some has]
  simp only [addPropertyPreprocessor, bare]
  rfl

theorem functionsOf_addFunctions {h : Handler} (bare : h.properties = none) (some_ : calls ≠ []) (property : Text) :
    (h.addFunctions calls).functionsOf property = (calls.filter fun call => call.1 == property).map Prod.snd := by
  rw [addFunctions_of_none bare some_]
  exact Table.stagesOf_addFunctions Table.empty

end Handler

/-! ## Giving functions -/

namespace Registry

variable {key : Text} {e : Entry} {st : State}

/-- The state after functions were given for properties of objects under a key. -/
def giveAll (key : Text) (calls : List (Text × Preprocessor)) (st : State) : State :=
  calls.foldl (fun st call => stateAfter (addPropertyPreprocessor key call.1 call.2) st) st

/-- A key leads to an entry, and the entry is kept under it. -/
def LeadsTo (key : Text) (e : Entry) (st : State) : Prop :=
  ∃ st', getOrCreate key st = .ok e st' ∧ st'.registry.entries.get? key = some e

theorem LeadsTo.of_stored (stands : st.registry.entries.get? key = some e) : LeadsTo key e st :=
  ⟨st, by rw [getOrCreate, bind_ok (lookup_stored stands)]; rfl, stands⟩

/-- Every key that is not empty leads to a handler that is kept there, as long as the
    functions of namespaces return and no client's function makes one without storing
    it. -/
theorem exists_leads (begun : st.registry.Begun) (returns : st.registry.Returns) (kept : st.registry.Keeps key)
    (some_ : key ≠ []) : ∃ e, LeadsTo key e st := by
  have refused := refused_getOrCreate begun returns key
  rw [keyFault?, if_neg some_] at refused
  obtain ⟨e, st', ran⟩ := refused
  refine ⟨e, st', ran, ?_⟩
  obtain ⟨entry, st₁, looked, got⟩ := bind_eq_ok ran
  cases entry with
  | some e' =>
    cases got
    cases stood : st.registry.entries.get? key with
    | some e' =>
      rw [lookup_stored stood] at looked
      cases looked
      exact stood
    | none =>
      rw [lookup, bind_ok (registry_apply st)] at looked
      simp only [stood] at looked
      obtain ⟨h, -, stored | ⟨loose, inside, apart, answer⟩⟩ := createFirst_some looked
      · exact stored
      · rw [kept loose inside apart] at answer
        cases answer
  | none =>
    obtain ⟨c, rest, rfl⟩ := List.exists_cons_of_ne_nil some_
    cases got
    exact get?_store_self st₁.registry (c :: rest) {}

/-- What is no function is refused, and nothing is changed. -/
theorem stateAfter_addPropertyPreprocessor_refused {p : Preprocessor} {f : Fault} (refused : p.fault? = some f)
    (property : Text) : stateAfter (addPropertyPreprocessor key property p) st = st := by
  cases p with
  | notCallable given => rfl
  | _ => cases refused

theorem LeadsTo.addPropertyPreprocessor (leads : LeadsTo key e st) {p : Preprocessor} (callable : p.fault? = none)
    (property : Text) :
    (stateAfter (addPropertyPreprocessor key property p) st).registry.entries.get? key =
      some ⟨e.serial, e.handler.addPropertyPreprocessor property p⟩ := by
  obtain ⟨st', found, stands⟩ := leads
  have checked : checkCallable p = pure () := by
    cases p with
    | notCallable given => cases callable
    | _ => rfl
  have changed := get?_change st'.registry e.serial (fun h => h.addPropertyPreprocessor property p) key
  rw [stands, Option.map_some, changeEntry, if_pos rfl] at changed
  rw [Registry.addPropertyPreprocessor, checked, pure_bind, stateAfter_bind_ok found]
  exact changed

theorem giveAll_of_stored (stands : st.registry.entries.get? key = some e) :
    (giveAll key calls st).registry.entries.get? key =
      some ⟨e.serial, e.handler.addFunctions (accepted calls)⟩ := by
  induction calls generalizing e st with
  | nil => exact stands
  | cons call rest ih =>
    rw [giveAll, List.foldl_cons, ← giveAll]
    cases callable : call.2.fault? with
    | some f =>
      rw [stateAfter_addPropertyPreprocessor_refused callable, ih stands, accepted, accepted,
        List.filter_cons_of_neg (by simp [callable])]
    | none =>
      rw [ih ((LeadsTo.of_stored stands).addPropertyPreprocessor callable call.1), accepted, accepted,
        List.filter_cons_of_pos (by simp [callable])]
      rfl

/-- What is given for properties reaches the handler that the key leads to. -/
theorem LeadsTo.giveAll (leads : LeadsTo key e st) (some_ : accepted calls ≠ []) :
    (giveAll key calls st).registry.entries.get? key =
      some ⟨e.serial, e.handler.addFunctions (accepted calls)⟩ := by
  induction calls with
  | nil => exact absurd rfl some_
  | cons call rest ih =>
    rw [Registry.giveAll, List.foldl_cons, ← Registry.giveAll]
    cases callable : call.2.fault? with
    | some f =>
      have same : accepted (call :: rest) = accepted rest := List.filter_cons_of_neg (by simp [callable])
      rw [stateAfter_addPropertyPreprocessor_refused callable, ih (same ▸ some_), same]
    | none =>
      rw [giveAll_of_stored (leads.addPropertyPreprocessor callable call.1), accepted, accepted,
        List.filter_cons_of_pos (by simp [callable])]
      rfl

end Registry

/-! ## One pass over the properties -/

namespace Directive

variable {add : Adder} {h h' : Handler}

/-- What is left of a property with certain functions: its value goes through them in
    order, and it goes when the result is falsy. A property without a value goes. -/
def passProperty (add : Adder) (functions : List Preprocessor) (p : Pair) : Collecting (Option (Text × Text)) :=
  match p.value with
  | none => return none
  | some v => do
    let value ← Pipeline.linear Datum.truthy (apply add p.key) functions (.text v)
    return if value.truthy then some (p.key, value.display) else none

/-- What is left of the properties of an object, one after the other. -/
def passProperties (add : Adder) (functions : Text → List Preprocessor) (ps : List Pair) :
    Collecting (List (Text × Text)) := do
  return (← ps.mapM fun p => passProperty add (functions p.key) p).filterMap id

theorem propertyValue_eq (table : Table (Pipeline Preprocessor)) (p : Pair) :
    propertyValue add table p =
      match p.value with
      | none => pure .null
      | some v => Pipeline.linear Datum.truthy (apply add p.key) (Pipeline.stagesOf (table.get? p.key)) (.text v) := by
  unfold propertyValue
  cases table.get? p.key with
  | none => cases p.value <;> rfl
  | some pipeline =>
    cases p.value with
    | none => rfl
    | some v => exact Pipeline.through_eq_linear ..

theorem propertyValues_eq (table : Table (Pipeline Preprocessor)) (ps : List Pair) :
    propertyValues add table ps = passProperties add (fun property => Pipeline.stagesOf (table.get? property)) ps := by
  induction ps with
  | nil => rfl
  | cons p rest ih =>
    rw [propertyValues, ih, propertyValue_eq]
    simp only [passProperties, List.mapM_cons, passProperty, bind_assoc, pure_bind]
    cases p.value with
    | none => simp [Datum.truthy]
    | some v =>
      simp only [bind_assoc, pure_bind]
      refine bind_congr fun value => bind_congr fun others => ?_
      cases value.truthy <;> rfl

/-- The properties of an object are preprocessed in one pass, in the order in which
    they stand there, each with the functions of the handler for it. -/
theorem preprocessProperties_eq (add : Adder) (h : Handler) (t : Text) :
    preprocessProperties add h t =
      if Pair.isObject t then do return Pair.writeObject (← passProperties add h.functionsOf (Pair.ofObject t))
      else pure t := by
  rw [preprocessProperties, propertyValues_eq]
  rfl

/-- Handlers with the same functions for every property preprocess values alike. -/
theorem preprocess_congr (same : h.functionsOf = h'.functionsOf) :
    preprocessProperties add h = preprocessProperties add h' ∧ preprocess add h = preprocess add h' := by
  have properties : preprocessProperties add h = preprocessProperties add h' := by
    funext t
    rw [preprocessProperties_eq, preprocessProperties_eq, same]
  refine ⟨properties, ?_⟩
  have stages (key : Text) : runStage add h key = runStage add h' key := by
    funext stage d
    cases stage with
    | properties => simp only [runStage, properties]
    | _ => rfl
  funext key pipeline d
  rw [preprocess, preprocess, stages]

end Directive

namespace Registry

variable {key : Text} {e : Entry} {st : State}

/-- Every key leads to a handler, unless it is empty, or a function gives up or makes
    one that is not kept. Functions for properties are added to it independently of
    each other. However they are given, in the end the handler has one more stage,
    behind those that it had, and a table with the functions of every property in
    order. An object is preprocessed in one pass over its properties. Other ways to
    give the same functions for each property, in the same order, make no difference
    for any value. -/
theorem giveAll_composes (key : Text) (st : State) :
    (st.registry.Begun → st.registry.Returns → st.registry.Keeps key → key ≠ [] → ∃ e, LeadsTo key e st) ∧
      ∀ e calls, LeadsTo key e st → e.handler.properties = none → accepted calls ≠ [] →
        ∃ table h, (giveAll key calls st).registry.entries.get? key = some ⟨e.serial, h⟩ ∧
          h = { e.handler with
            preprocess := some (Pipeline.chain e.handler.preprocess (.stage .properties)), properties := some table } ∧
          (∀ property, Pipeline.Folded (functionsOf property calls) (table.get? property)) ∧
          (∀ add t, Directive.preprocessProperties add h t =
            if Pair.isObject t then do
              return Pair.writeObject
                (← Directive.passProperties add (fun property => functionsOf property calls) (Pair.ofObject t))
            else pure t) ∧
          ∀ calls', (∀ property, functionsOf property calls' = functionsOf property calls) →
            ∃ h', (giveAll key calls' st).registry.entries.get? key = some ⟨e.serial, h'⟩ ∧
              h'.preprocess = h.preprocess ∧
              ∀ add, Directive.preprocessProperties add h' = Directive.preprocessProperties add h ∧
                Directive.preprocess add h' = Directive.preprocess add h := by
  refine ⟨exists_leads, fun e calls leads bare some_ => ?_⟩
  have functions {calls : List (Text × Preprocessor)} (some_ : accepted calls ≠ []) :
      (e.handler.addFunctions (accepted calls)).functionsOf = fun property => functionsOf property calls :=
    funext (Handler.functionsOf_addFunctions bare some_)
  refine ⟨_, _, leads.giveAll some_, Handler.addFunctions_of_none bare some_, fun property => ?_, fun add t => ?_,
    fun calls' same => ?_⟩
  · exact Pipeline.folded_iff.mpr (Table.stagesOf_addFunctions Table.empty)
  · rw [Directive.preprocessProperties_eq, functions some_]
  · have some' : accepted calls' ≠ [] := by
      simpa only [accepted_ne_nil_iff, same] using some_
    refine ⟨_, leads.giveAll some', ?_, fun add => Directive.preprocess_congr ?_⟩
    · rw [Handler.addFunctions_of_none bare some', Handler.addFunctions_of_none bare some_]
    · rw [functions some', functions some_]
      exact funext same

/-- Functions for two properties of templates, given in two orders. -/
theorem giveAll_composes_shuffled :
    let st : State := { registry := Registry.store { divider := lit "." } (lit "template") {} }
    let given : List (Text × Preprocessor) :=
      [(lit "name", .filters), (lit "afterRender", .references), (lit "name", .references)]
    let shuffled : List (Text × Preprocessor) :=
      [(lit "afterRender", .references), (lit "name", .filters), (lit "name", .references)]
    LeadsTo (lit "template") ⟨0, {}⟩ st ∧ accepted given ≠ [] ∧
      ∃ h h', (giveAll (lit "template") given st).registry.entries.get? (lit "template") = some ⟨0, h⟩ ∧
        (giveAll (lit "template") shuffled st).registry.entries.get? (lit "template") = some ⟨0, h'⟩ ∧
        h.preprocess = some (.stage .properties) ∧ h'.preprocess = h.preprocess ∧
        ∀ add, Directive.preprocess add h' = Directive.preprocess add h := by
  intro st given shuffled
  have leads : LeadsTo (lit "template") ⟨0, {}⟩ st := .of_stored rfl
  have some_ : accepted given ≠ [] := List.cons_ne_nil _ _
  have same (property : Text) : functionsOf property shuffled = functionsOf property given :=
    functionsOf_swap (by decide) [(lit "name", .references)] property
  obtain ⟨table, h, stands, shape, -, -, agree⟩ := (giveAll_composes _ st).2 _ _ leads rfl some_
  obtain ⟨h', stands', slot, alike⟩ := agree shuffled same
  exact ⟨leads, some_, h, h', stands, stands', by rw [shape]; rfl, slot, fun add => (alike add).2⟩

end Registry
end Bindmark
