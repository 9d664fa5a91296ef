import Bindmark.Proofs.StandardRegistry

/-!
# Directives with the standard setup

Preprocessing returns for every directive string when the handlers are those of
the standard setup: objects are split once at most, since no handler of a member
splits objects again. A directive of a handler with filters stays, with its
filters as calls.
-/

namespace Bindmark.Standard

open Work Directive

/-! ## Roles of handlers -/

theorem role_memberHandler {h : Handler} {role : Role} (made : memberRole? h = some role) (member : Text) :
    role? (memberHandler h member) = some role ∧ role ≠ .members := by
  unfold memberRole? at made
  split at made <;> cases made <;>
    simp_all [memberHandler, role?, Handler.derive, Handler.addPreprocessor, Preprocessor.addTo, Pipeline.chain]

/-- Every handler that a key leads to has a role, and those of members do not
    split objects. -/
theorem exists_role {key : Text} {h : Handler} (made : handlerOf key = some h) :
    ∃ role, role? h = some role ∧ ('.' ∈ key → role ≠ .members) := by
  unfold handlerOf at made
  split at made
  · split at made
    · cases made
    · obtain ⟨e, found, rfl⟩ := Option.map_eq_some_iff.mp made
      obtain ⟨role, isRole⟩ := Option.isSome_iff_exists.mp (roles_of_get? found).2.1
      obtain ⟨same, single⟩ := role_memberHandler isRole _
      exact ⟨role, same, fun _ => single⟩
  · rename_i plain
    obtain ⟨e, found, rfl⟩ := Option.map_eq_some_iff.mp made
    obtain ⟨role, isRole⟩ := Option.isSome_iff_exists.mp (roles_of_get? found).1
    exact ⟨role, isRole, fun divided => absurd divided plain⟩

/-! ## Stages -/

variable {add : Adder}

/-- Adding directives of members returns. -/
def AddsMembers (add : Adder) : Prop := ∀ p : Pair, '.' ∈ p.key → Gives Grown (add p) fun _ => True

theorem forM_give_gives (adds : AddsMembers add) {f : Pair → Pair} (divided : ∀ p, '.' ∈ (f p).key) :
    ∀ (ps : List Pair) (carried : List Pair),
      Gives Grown ((ps.forM fun p => give add (f p)).run carried) fun _ => True
  | [], _ => Gives.pure trivial
  | p :: rest, carried => by
    have split : ((p :: rest).forM fun p => give add (f p)).run carried =
        add (f p) >>= fun pairs => (rest.forM fun p => give add (f p)).run (carried ++ pairs) := by
      simp [give, List.forM_cons, StateT.run_bind]
    rw [split]
    exact (adds (f p) (divided p)).bind fun pairs _ => forM_give_gives adds divided rest (carried ++ pairs)

/-- Splitting an object returns, for the members it adds do not split objects. -/
theorem splitMembers_gives (adds : AddsMembers add) (key t : Text) (carried : List Pair) :
    Gives Grown ((splitMembers add key t).run carried) fun _ => True := by
  unfold splitMembers
  split
  · intro st grown
    have divided (p : Pair) : '.' ∈ (key ++ st.registry.divider ++ p.key) := by
      rw [grown.divider]
      simp [lit]
    have split : ((do
        let r ← (Work.registry : Work Registry)
        (Pair.ofObject t).forM fun p => give add ⟨key ++ r.divider ++ p.key, p.value⟩
        return .null : Collecting Datum).run carried) st =
        (((Pair.ofObject t).forM fun p => give add ⟨key ++ st.registry.divider ++ p.key, p.value⟩).run carried >>=
          fun result => pure (.null, result.2)) st := by
      rfl
    rw [split]
    have given := forM_give_gives adds (f := fun p => ⟨key ++ st.registry.divider ++ p.key, p.value⟩) divided
      (Pair.ofObject t) carried
    exact (given.bind fun _ _ => Gives.pure trivial) st grown
  · exact Gives.pure trivial

/-- The properties of a handler, when references are all that they wrap. -/
def WrapsReferences (table : Table (Pipeline Preprocessor)) : Prop :=
  ∀ entry ∈ table.entries, wrapsReferences entry.2

theorem propertyValue_gives {table : Table (Pipeline Preprocessor)} (wraps : WrapsReferences table) (p : Pair)
    (carried : List Pair) : Gives Grown ((propertyValue add table p).run carried) fun _ => True := by
  unfold propertyValue
  split
  · rename_i pipeline value found _
    have single := wraps _ (Table.mem_of_get? found)
    unfold wrapsReferences at single
    split at single
    · rename_i references
      change pipeline = .stage .references at references
      subst references
      exact fun st grown => ⟨_, st, rfl, grown, trivial⟩
    · cases single
  · exact Gives.pure trivial

theorem propertyValues_gives {table : Table (Pipeline Preprocessor)} (wraps : WrapsReferences table) :
    ∀ (ps carried : List Pair), Gives Grown ((propertyValues add table ps).run carried) fun _ => True
  | [], _ => Gives.pure trivial
  | p :: rest, carried => by
    have split : (propertyValues add table (p :: rest)).run carried =
        (propertyValue add table p).run carried >>= fun value =>
          (propertyValues add table rest).run value.2 >>= fun others =>
            pure (if value.1.truthy then (p.key, value.1.display) :: others.1 else others.1, others.2) := by
      simp [propertyValues, StateT.run_bind]
    rw [split]
    exact (propertyValue_gives wraps p carried).bind fun value _ =>
      (propertyValues_gives wraps rest value.2).bind fun _ _ => Gives.pure trivial

theorem preprocessProperties_gives {h : Handler} (wraps : WrapsReferences (h.properties.getD .empty)) (t : Text)
    (carried : List Pair) : Gives Grown ((preprocessProperties add h t).run carried) fun _ => True := by
  unfold preprocessProperties
  split
  · have given : Gives Grown ((propertyValues add (h.properties.getD .empty) (Pair.ofObject t)).run carried)
        fun _ => True := propertyValues_gives wraps _ _
    rw [StateT.run_bind]
    exact given.bind fun _ _ => Gives.pure trivial
  · exact Gives.pure trivial

/-- Sending a text through the single stage of a handler returns. Filters make
    calls of it and add nothing. -/
theorem preprocess_gives {h : Handler} {role : Role} (isRole : role? h = some role) {pipeline : Pipeline Stage}
    (staged : h.preprocess = some pipeline) (adds : role = .members → AddsMembers add) (key t : Text) :
    Gives Grown (preprocess add h key pipeline (.text t)) fun result =>
      role = .filters → result = (.text (Filter.calls Filter.standardLookup t), []) := by
  unfold role? at isRole
  rw [staged] at isRole
  split at isRole
  · rename_i none
    cases none
  · rename_i same
    cases same
    exact fun st grown => ⟨_, st, rfl, grown, fun _ => rfl⟩
  · rename_i same
    cases same
    cases isRole
    exact fun st grown => ⟨_, st, rfl, grown, by simp⟩
  · rename_i same
    cases same
    cases isRole
    exact (splitMembers_gives (adds rfl) key t []).weaken fun _ _ => by simp
  · rename_i same
    cases same
    split at isRole
    · rename_i wraps
      cases isRole
      rw [List.all_eq_true] at wraps
      have given : Gives Grown ((preprocessProperties add h t).run []) fun _ => True :=
        preprocessProperties_gives wraps t []
      have run : preprocess add h key (.stage .properties) (.text t) =
          (preprocessProperties add h t).run [] >>= fun result => pure (.text result.1, result.2) := by
        simp [preprocess, Pipeline.through, runStage, textOf]
      rw [run]
      exact given.bind fun _ _ => Gives.pure (by simp)
    · cases isRole
  · cases isRole

/-! ## Directives -/

/-- What comes of a directive whose handler has filters, and leaves something
    of its value. -/
def Filtered (p : Pair) (ps : List Pair) : Prop :=
  ∀ h value, handlerOf p.key = some h → role? h = some .filters → p.value = some value →
    Filter.calls Filter.standardLookup value ≠ [] →
      ps = [⟨p.key, some (Filter.calls Filter.standardLookup value)⟩]

/-- A directive is preprocessed, with one more level for those that split
    objects. -/
theorem expand_gives : ∀ (depth : Nat) (p : Pair), ('.' ∈ p.key ∨ 1 ≤ depth) →
    Gives Grown (expand (depth + 1) p) (Filtered p)
  | depth, p, deep => by
    refine (lookup_gives p.key).bind fun entry same => ?_
    cases entry with
    | none =>
      have missing : handlerOf p.key = none := same.symm
      have stays : Gives Grown (pure [p]) (Filtered p) := Gives.pure fun h _ made => by simp [missing] at made
      cases p.value <;> exact stays
    | some e =>
      have made : handlerOf p.key = some e.handler := same.symm
      obtain ⟨role, isRole, single⟩ := exists_role made
      have adds : role = .members → AddsMembers (expand depth) := by
        rintro isMembers q divided
        obtain ⟨depth, rfl⟩ : ∃ d, depth = d + 1 := by
          rcases deep with member | level
          · exact absurd isMembers (single member)
          · exact ⟨depth - 1, by omega⟩
        exact (expand_gives depth q (.inl divided)).weaken fun _ _ => trivial
      cases value : p.value with
      | none => exact Gives.pure fun h v _ _ valued => by simp [value] at valued
      | some v =>
        cases staged : e.handler.preprocess with
        | none =>
          have stays : Filtered p [p] := by
            intro h _ made' filters
            rw [made, Option.some.injEq] at made'
            rw [← made', role?, staged] at filters
            cases filters
          simpa only [Option.bind_some, staged, Option.map_none] using Gives.pure stays
        | some pipeline =>
          have ran := preprocess_gives isRole staged adds p.key v
          simp only [Option.bind_some, staged, Option.map_some]
          refine ran.bind fun result called => ?_
          obtain ⟨d, added⟩ := result
          have isFiltered (ps : List Pair) (calls : role = .filters →
              Filter.calls Filter.standardLookup v ≠ [] → ps = [⟨p.key, some (Filter.calls Filter.standardLookup v)⟩]) :
              Filtered p ps := by
            intro h v' made' filters valued some_
            rw [made, Option.some.injEq] at made'
            rw [value, Option.some.injEq] at valued
            rw [← made', isRole, Option.some.injEq] at filters
            subst valued
            exact calls filters some_
          by_cases holds : d.truthy
          · simp only [holds, if_true]
            refine Gives.pure (isFiltered _ fun filters _ => ?_)
            obtain ⟨rfl, rfl⟩ := Prod.mk.inj (called filters)
            rfl
          · simp only [holds, Bool.false_eq_true, if_false]
            refine (log_gives _).bind fun _ _ => Gives.pure (isFiltered _ fun filters some_ => ?_)
            obtain ⟨rfl, rfl⟩ := Prod.mk.inj (called filters)
            simp [Datum.truthy, some_] at holds

/-- A list of directives is preprocessed; one whose handler has filters stays
    among them, with its filters as calls. -/
theorem expandAll_gives (depth : Nat) : ∀ ps : List Pair,
    Gives Grown (expandAll (depth + 2) ps) fun results =>
      ∀ key h value, ⟨key, some value⟩ ∈ ps → handlerOf key = some h → role? h = some .filters →
        Filter.calls Filter.standardLookup value ≠ [] →
          ⟨key, some (Filter.calls Filter.standardLookup value)⟩ ∈ results
  | [] => Gives.pure fun _ _ _ inside => absurd inside List.not_mem_nil
  | p :: rest => by
    refine (expand_gives (depth + 1) p (.inr (by omega))).bind fun first filtered =>
      (expandAll_gives depth rest).bind fun others later => Gives.pure ?_
    intro key h value inside made filters some_
    rcases List.mem_cons.mp inside with rfl | inside
    · rw [filtered h value made filters rfl some_]
      exact List.mem_append_left _ (List.mem_singleton_self _)
    · exact List.mem_append_right _ (later key h value inside made filters some_)

/-- A directive string is preprocessed when its directives are, since there are
    always levels enough. -/
theorem preprocessText_of_expandAll {t : Text} {Q : List Pair → Prop}
    (expanded : ∀ depth, Gives Grown (expandAll (depth + 2) (Pair.split t)) Q) :
    Gives Grown (preprocessText t) fun processed => ∃ pairs, processed = Pair.writeDirectives pairs ∧ Q pairs := by
  intro st grown
  have ran := expanded (depthLimit st.registry - 2)
  have written := ran.bind fun pairs holds => Gives.pure (Q := fun processed =>
    ∃ pairs, processed = Pair.writeDirectives pairs ∧ Q pairs) ⟨pairs, rfl, holds⟩
  exact written st grown

theorem preprocessText_returns (t : Text) : Gives Grown (preprocessText t) fun _ => True :=
  (preprocessText_of_expandAll fun depth => expandAll_gives depth (Pair.split t)).weaken fun _ _ => trivial

/-- A string of one directive. -/
theorem preprocessText_unit {t : Text} {p : Pair} (unit : Pair.split t = [p]) :
    Gives Grown (preprocessText t) fun processed =>
      ∃ pairs, processed = Pair.writeDirectives pairs ∧ Filtered p pairs := by
  refine preprocessText_of_expandAll fun depth => ?_
  rw [unit]
  refine (expand_gives (depth + 1) p (.inr (by omega))).bind fun pairs filtered => ?_
  have only : (do return pairs ++ (← expandAll (depth + 2) []) : Work (List Pair)) = pure pairs := by simp [expandAll]
  exact only ▸ Gives.pure filtered

end Bindmark.Standard
