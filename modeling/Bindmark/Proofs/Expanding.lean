import Bindmark.Proofs.ObjectValues
import Bindmark.Proofs.Twins

/-!
# Directives with all that they add

What comes of directives, told without calling back. A value is answered with the
directives that are added for it, in order, and with what is left of it. The
directives that are added are dealt with in the same way. What comes of them is
put before what is left, and stays when nothing is left. Preprocessing comes to
just that, unless directives are added deeper, one within the other, than it
goes.
-/

namespace Bindmark

open Work

namespace Directive

/-! ## Answers to a value -/

/-- What a value comes to: the directives that are added for it, in order, and what
    is left of it, unless that is falsy. -/
structure Outcome where
  added : List Pair := []
  result : Option Text

/-- A text, unless it is empty. -/
def solid? (t : Text) : Option Text := if t.isEmpty then none else some t

/-- The text that is left, if a result is a text or falsy. -/
def left? : Datum → Option (Option Text)
  | .text t => some (solid? t)
  | d => if d.truthy then none else some none

/-- The answer of a preprocessor under a key, unless it gives up or its result is
    neither a text nor falsy. -/
def preprocessorOutcome? (key : Text) : Preprocessor → Text → Option Outcome
  | .filters, t => some { result := solid? (Filter.calls Filter.standardLookup t) }
  | .references, t => some { result := solid? (Reference.wrap t) }
  | .client c, t =>
    let reply := c.respond (.text t) key
    match reply.result with
    | .ok d => (left? d).map fun result => { added := reply.added, result }
    | .error _ => none
  | .notCallable _, _ => none

/-- The answer of stages that answer one after the other, each to what the one
    before has left, as long as anything is left. -/
def pipelineOutcome? {τ : Type} (outcome? : τ → Text → Option Outcome) : Pipeline τ → Text → Option Outcome
  | .stage stage, t => outcome? stage t
  | .andThen first second, t => do
    let before ← pipelineOutcome? outcome? first t
    match before.result with
    | none => return before
    | some t' =>
      let after ← pipelineOutcome? outcome? second t'
      return { added := before.added ++ after.added, result := after.result }

/-- The answer to a property of an object. -/
def propertyOutcome? (table : Table (Pipeline Preprocessor)) (p : Pair) : Option Outcome :=
  match table.get? p.key, p.value with
  | some pipeline, some v => pipelineOutcome? (preprocessorOutcome? p.key) pipeline v
  | _, value => some { result := value.bind solid? }

/-- The directives that are added for properties, and what is left of these. -/
def propertiesOutcome? (table : Table (Pipeline Preprocessor)) : List Pair → Option (List Pair × List (Text × Text))
  | [] => some ([], [])
  | p :: rest => do
    let first ← propertyOutcome? table p
    let others ← propertiesOutcome? table rest
    return (first.added ++ others.1, (first.result.map fun t => (p.key, t)).toList ++ others.2)

/-- The answer of a stage of a handler under a key. -/
def stageOutcome? (divider : Text) (h : Handler) (key : Text) : Stage → Text → Option Outcome
  | .apply p, t => preprocessorOutcome? key p t
  | .members, t =>
    some (if Pair.isObject t then { added := memberPairs divider key t, result := none } else { result := solid? t })
  | .properties, t =>
    if Pair.isObject t then
      (propertiesOutcome? (h.properties.getD .empty) (Pair.ofObject t)).map fun outcome =>
        { added := outcome.1, result := some (Pair.writeObject outcome.2) }
    else some { result := solid? t }

/-! ## Expansions -/

/-- What directives come to, with all that they add, and how deep these are added
    one within the other. A key leads to a handler, or to none, and the registry
    may be another one then. -/
inductive Expands {σ : Type} (divider : Text) (finds : σ → Text → Option Handler → σ → Prop) :
    Nat → σ → List Pair → List Pair → σ → Prop
  | nil (r : σ) : Expands divider finds 0 r [] [] r
  | stays {height : Nat} {r r' r'' : σ} {p : Pair} {rest results : List Pair} {h : Option Handler}
      (found : finds r p.key h r') (unprocessed : p.value = none ∨ h.bind Handler.preprocess = none)
      (others : Expands divider finds height r' rest results r'') :
      Expands divider finds (max 1 height) r (p :: rest) (p :: results) r''
  | preprocessed {height height' : Nat} {r r' r'' r''' : σ} {key v : Text} {h : Handler} {pipeline : Pipeline Stage}
      {outcome : Outcome} {rest inside results : List Pair} (found : finds r key (some h) r')
      (staged : h.preprocess = some pipeline)
      (answered : pipelineOutcome? (stageOutcome? divider h key) pipeline v = some outcome)
      (added : Expands divider finds height r' outcome.added inside r'')
      (others : Expands divider finds height' r'' rest results r''') :
      Expands divider finds (max (height + 1) height') r (⟨key, some v⟩ :: rest)
        (inside ++ (outcome.result.map fun t => ⟨key, some t⟩).toList ++ results) r'''

/-! ## What stages collect -/

theorem expandAll_append (depth : Nat) (ps ps' : List Pair) : expandAll depth (ps ++ ps') = (do
    let first ← expandAll depth ps
    let others ← expandAll depth ps'
    return first ++ others) := by
  induction ps with
  | nil => simp [expandAll]
  | cons p ps ih => simp only [List.cons_append, expandAll, ih, bind_assoc, pure_bind, List.append_assoc]

section
variable {α β : Type} {start : Registry} {depth : Nat} {P : α → Prop} {P' : β → Prop}

/-- Work gives a value of a kind, and besides collects what comes of directives. -/
def Gathers (start : Registry) (depth : Nat) (P : α → Prop) (w : Collecting α) (added : List Pair) : Prop :=
  ∀ carried, Alike (Twins start) (fun result pairs => P result.1 ∧ result.2 = carried ++ pairs) (w.run carried)
    (expandAll depth added)

namespace Gathers

theorem pure {a : α} (holds : P a) : Gathers start depth P (pure a) [] := by
  intro carried st st' twins
  exact ⟨⟨holds, (List.append_nil carried).symm⟩, twins⟩

theorem bind {w : Collecting α} {next : α → Collecting β} {added added' : List Pair}
    (first : Gathers start depth P w added) (rest : ∀ a, P a → Gathers start depth P' (next a) added') :
    Gathers start depth P' (w >>= next) (added ++ added') := by
  intro carried
  rw [expandAll_append, StateT.run_bind]
  refine (first carried).bind fun result pairs ⟨holds, collected⟩ => ?_
  rw [← bind_pure ((next result.1).run result.2)]
  refine (rest result.1 holds result.2).bind fun result' pairs' ⟨holds', collected'⟩ => ?_
  intro st st' twins
  refine ⟨⟨holds', ?_⟩, twins⟩
  rw [collected', collected, List.append_assoc]

/-- Work after which nothing more is collected. -/
theorem map {w : Collecting α} {added : List Pair} (gathers : Gathers start depth P w added) {f : α → β}
    (kind : ∀ a, P a → P' (f a)) : Gathers start depth P' (do return f (← w)) added := by
  rw [← List.append_nil added]
  exact gathers.bind fun a holds => pure (kind a holds)

/-- A call that is traced first. -/
theorem trace {w : Collecting α} {added : List Pair} (gathers : Gathers start depth P w added) (c : Call) :
    Gathers start depth P (do Work.trace c; w) added :=
  fun carried st st' twins => gathers carried { st with calls := st.calls ++ [c] } st' ⟨twins.same, twins.persists⟩

/-- Work that goes on from the registry. -/
theorem registry {next : Registry → Collecting α} {added : List Pair}
    (gathers : ∀ r, Registry.Persists start r → Gathers start depth P (next r) added) :
    Gathers start depth P ((Work.registry : Collecting Registry) >>= next) added :=
  fun carried st st' twins => gathers st.registry twins.persists carried st st' twins

/-- Directives that are added one after the other. -/
theorem gives (f : Pair → Pair) (ps : List Pair) :
    Gathers start depth (fun _ => True) (ps.forM fun p => give (expand depth) (f p)) (ps.map f) := by
  intro carried
  have repeated : Alike (Twins start) Eq (expandAll depth (ps.map f)) (expandAll depth (ps.map f)) :=
    Twins.mirrors.expandAll depth (ps.map f)
  rw [forM_give_expand]
  nth_rewrite 2 [← bind_pure (expandAll depth (ps.map f))]
  refine repeated.bind fun pairs pairs' same => ?_
  intro st st' twins
  exact ⟨⟨trivial, congrArg (carried ++ ·) same⟩, twins⟩

end Gathers
end

/-- A result is the text that is left, or falsy when nothing is. -/
def IsLeft : Option Text → Datum → Prop
  | some t, d => d = .text t ∧ d.truthy = true
  | none, d => d.truthy = false

theorem isLeft_solid? (t : Text) : IsLeft (solid? t) (.text t) := by
  cases t with
  | nil => rfl
  | cons c t => exact ⟨rfl, rfl⟩

theorem isLeft_of_left? {d : Datum} {result : Option Text} (left : left? d = some result) : IsLeft result d := by
  cases d with
  | text t =>
    cases left
    exact isLeft_solid? t
  | _ =>
    simp only [left?, Option.ite_none_left_eq_some, Option.some.injEq] at left
    obtain ⟨falsy, rfl⟩ := left
    exact (Bool.not_eq_true _).mp falsy

/-- Work collects what comes of the directives in an outcome, and has the result of
    that one. -/
abbrev Follows (start : Registry) (depth : Nat) (w : Collecting Datum) (outcome : Outcome) : Prop :=
  Gathers start depth (IsLeft outcome.result) w outcome.added

section
variable {start : Registry} {depth : Nat} {outcome : Outcome} {t : Text}

theorem apply_follows {key : Text} {p : Preprocessor} (answered : preprocessorOutcome? key p t = some outcome) :
    Follows start depth (apply (expand depth) key p (.text t)) outcome := by
  cases p with
  | filters =>
    cases answered
    exact Gathers.pure (isLeft_solid? _)
  | references =>
    cases answered
    exact Gathers.pure (isLeft_solid? _)
  | notCallable given => cases answered
  | client c =>
    have called : apply (expand depth) key (.client c) (.text t) = (do
        Work.trace (.preprocess c.name (.text t) key)
        (c.respond (.text t) key).added.forM fun p => give (expand depth) p
        match (c.respond (.text t) key).result with
        | .ok result => return result
        | .error f => throw (.raised f)) := rfl
    rw [called]
    cases replied : (c.respond (.text t) key).result with
    | error f => simp [preprocessorOutcome?, replied] at answered
    | ok d =>
      simp only [preprocessorOutcome?, replied, Option.map_eq_some_iff] at answered
      obtain ⟨result, left, rfl⟩ := answered
      have given : Gathers start depth _ _ _ := .gives id (c.respond (.text t) key).added
      rw [List.map_id] at given
      exact (given.map fun _ _ => isLeft_of_left? left).trace _

theorem through_follows {τ : Type} {answer? : τ → Text → Option Outcome} {call : τ → Datum → Collecting Datum}
    (each : ∀ {stage t outcome}, answer? stage t = some outcome → Follows start depth (call stage (.text t)) outcome)
    {pipeline : Pipeline τ} : ∀ {t : Text} {outcome : Outcome}, pipelineOutcome? answer? pipeline t = some outcome →
      Follows start depth (pipeline.through Datum.truthy call (.text t)) outcome := by
  induction pipeline with
  | stage stage => exact each
  | andThen first second ihFirst ihSecond =>
    intro t outcome answered
    obtain ⟨before, answeredFirst, answered⟩ := Option.bind_eq_some_iff.mp answered
    have followed := ihFirst answeredFirst
    rw [Pipeline.through]
    cases left : before.result with
    | none =>
      rw [left] at answered
      cases answered
      rw [Follows, ← List.append_nil outcome.added]
      refine followed.bind fun d isLeft => ?_
      have falsy : d.truthy = false := by
        rw [left] at isLeft
        exact isLeft
      rw [falsy, if_neg Bool.false_ne_true]
      exact Gathers.pure isLeft
    | some t' =>
      rw [left] at answered
      obtain ⟨after, answeredSecond, last⟩ := Option.bind_eq_some_iff.mp answered
      cases last
      refine followed.bind fun d shown => ?_
      rw [left] at shown
      obtain ⟨rfl, truthy⟩ := shown
      rw [if_pos truthy]
      exact ihSecond answeredSecond

theorem propertyValue_follows {table : Table (Pipeline Preprocessor)} {p : Pair}
    (answered : propertyOutcome? table p = some outcome) :
    Follows start depth (propertyValue (expand depth) table p) outcome := by
  unfold propertyOutcome? at answered
  unfold propertyValue
  cases found : table.get? p.key with
  | none =>
    rw [found] at answered
    cases answered
    cases value : p.value with
    | none => exact Gathers.pure rfl
    | some v => exact Gathers.pure (isLeft_solid? v)
  | some pipeline =>
    rw [found] at answered
    cases value : p.value with
    | none =>
      rw [value] at answered
      cases answered
      exact Gathers.pure rfl
    | some v =>
      rw [value] at answered
      exact through_follows (fun answered => apply_follows answered) answered

theorem propertyValues_gather {table : Table (Pipeline Preprocessor)} : ∀ {ps : List Pair} {added : List Pair}
    {members : List (Text × Text)}, propertiesOutcome? table ps = some (added, members) →
      Gathers start depth (· = members) (propertyValues (expand depth) table ps) added
  | [], _, _, answered => by
    cases answered
    exact Gathers.pure rfl
  | p :: rest, added, members, answered => by
    obtain ⟨first, answeredFirst, answered⟩ := Option.bind_eq_some_iff.mp answered
    obtain ⟨⟨added', others⟩, answeredOthers, last⟩ := Option.bind_eq_some_iff.mp answered
    cases last
    rw [propertyValues]
    refine (propertyValue_follows answeredFirst).bind fun d isLeft => ?_
    refine (propertyValues_gather answeredOthers).map fun kept same => ?_
    subst same
    cases left : first.result with
    | none =>
      have falsy : d.truthy = false := by
        rw [left] at isLeft
        exact isLeft
      simp [falsy]
    | some t =>
      rw [left] at isLeft
      obtain ⟨rfl, truthy⟩ := isLeft
      simp [truthy, Datum.display]

theorem runStage_follows {h : Handler} {key : Text} {stage : Stage}
    (answered : stageOutcome? start.divider h key stage t = some outcome) :
    Follows start depth (runStage (expand depth) h key stage (.text t)) outcome := by
  cases stage with
  | apply p => exact apply_follows answered
  | members =>
    have started : runStage (expand depth) h key .members (.text t) = splitMembers (expand depth) key t := rfl
    rw [started, splitMembers]
    simp only [stageOutcome?, Option.some.injEq] at answered
    subst answered
    by_cases isObject : Pair.isObject t = true
    · rw [if_pos isObject, if_pos isObject]
      refine Gathers.registry fun r persists => ?_
      have same : memberPairs start.divider key t =
          (Pair.ofObject t).map fun p => ⟨key ++ r.divider ++ p.key, p.value⟩ := by
        rw [memberPairs, persists.divider]
      rw [same]
      exact (Gathers.gives _ _).map fun _ _ => rfl
    · rw [if_neg isObject, if_neg isObject]
      exact Gathers.pure (isLeft_solid? t)
  | properties =>
    have started : runStage (expand depth) h key .properties (.text t) =
        (do return .text (← preprocessProperties (expand depth) h t)) := rfl
    rw [started, preprocessProperties]
    by_cases isObject : Pair.isObject t = true
    · simp only [stageOutcome?, isObject, if_true, Option.map_eq_some_iff] at answered
      obtain ⟨⟨added, members⟩, answeredAll, rfl⟩ := answered
      rw [if_pos isObject, bind_assoc]
      have gathered : Gathers start depth _ _ _ := propertyValues_gather answeredAll
      refine gathered.map fun kept same => ?_
      subst same
      exact ⟨rfl, rfl⟩
    · simp only [stageOutcome?, isObject, Bool.false_eq_true, if_false, Option.some.injEq] at answered
      subst answered
      rw [if_neg isObject, pure_bind]
      exact Gathers.pure (isLeft_solid? t)

end

/-! ## Runs -/

/-- Directives come to what they expand to, in a registry that lookups have made of
    the one at the start. They are given up when not as many levels are left as they
    are added one within the other. -/
structure Runs (height depth : Nat) (ps results : List Pair) (r r' : Registry) : Prop where
  ends : height ≤ depth → ∀ st, st.registry = r → ∃ st', expandAll depth ps st = .ok results st' ∧ st'.registry = r'
  givenUp : depth < height → ∀ st, st.registry = r → ∃ st', expandAll depth ps st = .error .tooDeep st'

end Directive

namespace Registry

/-- A key leads to a handler, or to none, and looking it up leaves a registry. -/
def Finds (r : Registry) (key : Text) (h : Option Handler) (r' : Registry) : Prop :=
  ∃ entry st', lookup key { registry := r } = .ok entry st' ∧ entry.map Entry.handler = h ∧ st'.registry = r'

variable {r r' : Registry} {key : Text} {h : Option Handler}

theorem Finds.lookup (finds : Finds r key h r') {st : State} (same : st.registry = r) :
    ∃ entry st', Registry.lookup key st = .ok entry st' ∧ entry.map Entry.handler = h ∧ st'.registry = r' := by
  obtain ⟨entry, t, ran, handler, after⟩ := finds
  have repeated := lookup_repeats key { registry := r } st same.symm
  obtain ⟨_, st', ran', rfl, same'⟩ := repeated.of_ok ran
  exact ⟨entry, st', ran', handler, same'.symm.trans after⟩

theorem Finds.divider (finds : Finds r key h r') : r'.divider = r.divider := by
  obtain ⟨entry, t, ran, -, rfl⟩ := finds
  have persists := persists_admits.lookup key { registry := r }
  rw [stateAfter_ok ran] at persists
  exact persists.divider

end Registry

namespace Directive

theorem Expands.divider {divider : Text} {height : Nat} {ps results : List Pair} {r r' : Registry}
    (expands : Expands divider Registry.Finds height r ps results r') : r'.divider = r.divider := by
  induction expands with
  | nil => rfl
  | stays found _ _ ih => exact ih.trans found.divider
  | preprocessed found _ _ _ _ ihAdded ihOthers => exact ihOthers.trans (ihAdded.trans found.divider)

section
variable {depth : Nat} {key v : Text} {st st' : State} {entry : Option Entry}

/-- A directive that is not preprocessed stays. -/
theorem expand_unprocessed {p : Pair} (looked : Registry.lookup p.key st = .ok entry st')
    (unprocessed : p.value = none ∨ (entry.map Entry.handler).bind Handler.preprocess = none) :
    expand (depth + 1) p st = .ok [p] st' := by
  rw [expand, bind_ok looked]
  cases value : p.value with
  | none => rfl
  | some v =>
    rcases unprocessed with bare | unstaged
    · rw [value] at bare
      cases bare
    · have unstaged' : (entry.bind fun e => e.handler.preprocess.map (e.handler, ·)) = none := by
        cases entry with
        | none => rfl
        | some e => simpa using unstaged
      rw [unstaged']
      rfl

/-- A directive that is preprocessed comes to what comes of the directives that are
    added, and what is left of its value. -/
theorem expand_preprocessed {e : Entry} {pipeline : Pipeline Stage} {outcome : Outcome}
    (looked : Registry.lookup key st = .ok (some e) st') (staged : e.handler.preprocess = some pipeline)
    (answered : pipelineOutcome? (stageOutcome? st'.registry.divider e.handler key) pipeline v = some outcome) :
    Agree OneRegistry (fun results inside => results = inside ++ (outcome.result.map fun t => ⟨key, some t⟩).toList)
      (expand (depth + 1) ⟨key, some v⟩ st) (expandAll depth outcome.added st') := by
  have followed : Agree (Twins st'.registry)
      (fun result pairs => IsLeft outcome.result result.1 ∧ result.2 = [] ++ pairs)
      (preprocess (expand depth) e.handler key pipeline (.text v) st') (expandAll depth outcome.added st') :=
    through_follows (fun answered => runStage_follows answered) answered [] st' st' (.refl st')
  rw [expand, bind_ok looked]
  simp only [Option.bind_some, staged, Option.map_some]
  rw [bind_apply]
  cases inside : expandAll depth outcome.added st' with
  | error f t' =>
    obtain ⟨t, ran, twins⟩ := followed.symm.of_error inside
    rw [ran]
    exact ⟨rfl, twins.same⟩
  | ok pairs t' =>
    obtain ⟨result, t, ran, ⟨isLeft, collected⟩, twins⟩ := followed.symm.of_ok inside
    rw [ran]
    rw [List.nil_append] at collected
    cases left : outcome.result with
    | none =>
      rw [left] at isLeft
      have falsy : result.1.truthy = false := isLeft
      simp only [falsy, Bool.false_eq_true, if_false]
      refine ⟨?_, twins.same⟩
      rw [collected]
      exact (List.append_nil pairs).symm
    | some t =>
      rw [left] at isLeft
      obtain ⟨text, truthy⟩ := isLeft
      simp only [truthy, if_true]
      refine ⟨?_, twins.same⟩
      rw [collected, text]
      rfl

end

theorem expandAll_singleton (depth : Nat) (p : Pair) : expandAll depth [p] = expand depth p := by
  simp [expandAll]

namespace Runs

variable {height height' depth : Nat} {ps ps' results results' : List Pair} {r r' r'' : Registry}

theorem nil (depth : Nat) (r : Registry) : Runs 0 depth [] [] r r where
  ends _ st same := ⟨st, rfl, same⟩
  givenUp deep := absurd deep (Nat.not_lt_zero depth)

theorem append (first : Runs height depth ps results r r') (others : Runs height' depth ps' results' r' r'') :
    Runs (max height height') depth (ps ++ ps') (results ++ results') r r'' where
  ends fits st same := by
    obtain ⟨st₁, ran, same₁⟩ := first.ends (by omega) st same
    obtain ⟨st₂, ran', same₂⟩ := others.ends (by omega) st₁ same₁
    refine ⟨st₂, ?_, same₂⟩
    rw [expandAll_append, bind_ok ran, bind_ok ran']
    rfl
  givenUp deep st same := by
    by_cases fits : height ≤ depth
    · obtain ⟨st₁, ran, same₁⟩ := first.ends fits st same
      obtain ⟨st₂, ran'⟩ := others.givenUp (by omega) st₁ same₁
      refine ⟨st₂, ?_⟩
      rw [expandAll_append, bind_ok ran, bind_error ran']
    · obtain ⟨st₁, ran⟩ := first.givenUp (by omega) st same
      refine ⟨st₁, ?_⟩
      rw [expandAll_append, bind_error ran]

/-- No directive is dealt with when no level is left. -/
theorem zero (p : Pair) (some_ : 0 < height) : Runs height 0 [p] results r r' where
  ends fits := absurd fits (by omega)
  givenUp _ st _ := ⟨st, by rw [expandAll_singleton]; rfl⟩

theorem unprocessed {p : Pair} {h : Option Handler} (found : Registry.Finds r p.key h r')
    (unprocessed : p.value = none ∨ h.bind Handler.preprocess = none) : Runs 1 (depth + 1) [p] [p] r r' where
  ends _ st same := by
    obtain ⟨entry, st', looked, rfl, same'⟩ := found.lookup same
    refine ⟨st', ?_, same'⟩
    rw [expandAll_singleton]
    exact expand_unprocessed looked unprocessed
  givenUp deep := absurd deep (by omega)

theorem preprocessed {key v : Text} {h : Handler} {pipeline : Pipeline Stage} {outcome : Outcome}
    (found : Registry.Finds r key (some h) r') (staged : h.preprocess = some pipeline)
    (answered : pipelineOutcome? (stageOutcome? r'.divider h key) pipeline v = some outcome)
    (added : Runs height depth outcome.added results r' r'') :
    Runs (height + 1) (depth + 1) [⟨key, some v⟩]
      (results ++ (outcome.result.map fun t => ⟨key, some t⟩).toList) r r'' := by
  have follows {st : State} (same : st.registry = r) : ∃ st', st'.registry = r' ∧ Agree OneRegistry
      (fun results inside => results = inside ++ (outcome.result.map fun t => ⟨key, some t⟩).toList)
      (expandAll (depth + 1) [⟨key, some v⟩] st) (expandAll depth outcome.added st') := by
    obtain ⟨entry, st', looked, handler, same'⟩ := found.lookup same
    obtain ⟨e, rfl, rfl⟩ := Option.map_eq_some_iff.mp handler
    refine ⟨st', same', ?_⟩
    rw [expandAll_singleton]
    exact expand_preprocessed looked staged (same' ▸ answered)
  constructor
  · intro fits st same
    obtain ⟨st', same', agree⟩ := follows same
    obtain ⟨st'', inside, same''⟩ := added.ends (by omega) st' same'
    obtain ⟨pairs, t, ran, rfl, one⟩ := agree.symm.of_ok inside
    exact ⟨t, ran, one.trans same''⟩
  · intro deep st same
    obtain ⟨st', same', agree⟩ := follows same
    obtain ⟨st'', inside⟩ := added.givenUp (by omega) st' same'
    obtain ⟨t, ran, -⟩ := agree.symm.of_error inside
    exact ⟨t, ran⟩

end Runs

/-- Preprocessing expands directives. -/
theorem Expands.runs {divider : Text} {height : Nat} {ps results : List Pair} {r r' : Registry}
    (expands : Expands divider Registry.Finds height r ps results r') (ofRegistry : r.divider = divider)
    (depth : Nat) : Runs height depth ps results r r' := by
  induction expands generalizing depth with
  | nil r => exact .nil depth r
  | @stays _ r r' _ p _ _ _ found unprocessed _ ih =>
    have others := ih (found.divider.trans ofRegistry) depth
    -- Where no level is left, the first directive is given up, whatever it would come to.
    cases depth with
    | zero =>
      have first : Runs 1 0 [p] [p] r r' := .zero p Nat.one_pos
      exact first.append others
    | succ depth => exact (Runs.unprocessed found unprocessed).append others
  | preprocessed found staged answered added _ ihAdded ihOthers =>
    have same := found.divider.trans ofRegistry
    have others := ihOthers (added.divider.trans same) depth
    cases depth with
    | zero => exact (Runs.zero _ (Nat.succ_pos _)).append others
    | succ depth => exact (Runs.preprocessed found staged (same ▸ answered) (ihAdded same depth)).append others

/-! ## Expansions without lookups -/

/-- What directives come to when every key leads to the handler that a function has
    for it, whatever was looked up before. -/
abbrev Expansion (divider : Text) (find : Text → Option Handler) (height : Nat) (ps results : List Pair) : Prop :=
  Expands divider (fun (_ : Unit) key h _ => h = find key) height () ps results ()

/-- In registries where lookups agree with a function, directives come to what they
    come to by that one. -/
theorem Expansion.expands {P : Registry → Prop} {find : Text → Option Handler}
    (leads : ∀ r key, P r → ∃ r', r.Finds key (find key) r' ∧ P r') {divider : Text} {height : Nat} {u u' : Unit}
    {ps results : List Pair}
    (expansion : Expands divider (fun (_ : Unit) key h _ => h = find key) height u ps results u') :
    ∀ r, P r → ∃ r', Expands divider Registry.Finds height r ps results r' ∧ P r' := by
  induction expansion with
  | nil _ => exact fun r has => ⟨r, .nil r, has⟩
  | @stays _ _ _ _ p _ _ _ found unprocessed _ ih =>
    intro r has
    subst found
    obtain ⟨r', finds, has'⟩ := leads r p.key has
    obtain ⟨r'', others, has''⟩ := ih r' has'
    exact ⟨r'', .stays finds unprocessed others, has''⟩
  | @preprocessed _ _ _ _ _ _ key _ _ _ _ _ _ _ found staged answered _ _ ihAdded ihOthers =>
    intro r has
    obtain ⟨r', finds, has'⟩ := leads r key has
    rw [← found] at finds
    obtain ⟨r'', added, has''⟩ := ihAdded r' has'
    obtain ⟨last, others, hasLast⟩ := ihOthers r'' has''
    exact ⟨last, .preprocessed finds staged answered added others, hasLast⟩

/-- A plain registry leads keys to the handlers that it settles, and so does every
    registry that lookups make of it. -/
theorem grown_leads {start : Registry} (plain : start.Plain) (r : Registry) (key : Text)
    (grown : Registry.Grown start r) :
    ∃ r', r.Finds key (start.handlerOf key) r' ∧ Registry.Grown start r' := by
  obtain ⟨entry, r', events, ran, -, grown', handler, -⟩ := Registry.lookup_grown plain key { registry := r } grown
  exact ⟨r', ⟨entry, _, ran, handler, rfl⟩, grown'⟩

/-! ## Directive strings -/

theorem preprocessText_apply (t : Text) (st : State) : preprocessText t st =
    (do return Pair.writeDirectives (← expandAll (depthLimit st.registry) (Pair.split t)) : Work Text) st := rfl

theorem preprocessText_of_runs {t : Text} {st : State} {height : Nat} {results : List Pair} {r' : Registry}
    (runs : Runs height (depthLimit st.registry) (Pair.split t) results st.registry r') :
    (height ≤ depthLimit st.registry →
      ∃ st', preprocessText t st = .ok (Pair.writeDirectives results) st' ∧ st'.registry = r') ∧
    (depthLimit st.registry < height → ∃ st', preprocessText t st = .error .tooDeep st') := by
  constructor
  · intro fits
    obtain ⟨st', ran, same⟩ := runs.ends fits st rfl
    refine ⟨st', ?_, same⟩
    rw [preprocessText_apply, bind_ok ran]
    rfl
  · intro deep
    obtain ⟨st', ran⟩ := runs.givenUp deep st rfl
    exact ⟨st', by rw [preprocessText_apply, bind_error ran]⟩

/-- Whatever the registry is, and the preprocessors in it: when the expansion of a
    directive string ends, preprocessing writes what it comes to, as long as the
    directives that are added one within the other are not more than it goes through.
    Deeper ones are given up. Where lookups do not go by what was looked up before,
    every directive is expanded on its own. What is collected for a closed text comes
    before what is collected for the text behind it. -/
theorem preprocessText_expands (st : State) :
    (∀ t height results r', Expands st.registry.divider Registry.Finds height st.registry (Pair.split t) results r' →
      (height ≤ depthLimit st.registry →
        ∃ st', preprocessText t st = .ok (Pair.writeDirectives results) st' ∧ st'.registry = r') ∧
      (depthLimit st.registry < height → ∃ st', preprocessText t st = .error .tooDeep st')) ∧
    (∀ (P : Registry → Prop) (find : Text → Option Handler),
      (∀ r key, P r → ∃ r', r.Finds key (find key) r' ∧ P r') → P st.registry →
        ∀ t height results, Expansion st.registry.divider find height (Pair.split t) results →
          (height ≤ depthLimit st.registry →
            ∃ st', preprocessText t st = .ok (Pair.writeDirectives results) st' ∧ P st'.registry) ∧
          (depthLimit st.registry < height → ∃ st', preprocessText t st = .error .tooDeep st')) ∧
    ∀ (depth : Nat) (a b : Text), Reading.Closed a → expandAll depth (Pair.split (a ++ lit "," ++ b)) = (do
      let first ← expandAll depth (Pair.split a)
      let others ← expandAll depth (Pair.split b)
      return first ++ others) := by
  refine ⟨?_, ?_, ?_⟩
  · intro t height results r' expands
    exact preprocessText_of_runs (expands.runs rfl _)
  · intro P find leads has t height results expansion
    obtain ⟨r', expands, has'⟩ := Expansion.expands leads expansion st.registry has
    obtain ⟨ends, givenUp⟩ := preprocessText_of_runs (expands.runs rfl _)
    refine ⟨fun fits => ?_, givenUp⟩
    obtain ⟨st', ran, rfl⟩ := ends fits
    exact ⟨st', ran, has'⟩
  · intro depth a b closed
    rw [Pair.split_append closed, expandAll_append]

/-- A function that adds an object of classes, and leaves nothing of the value. -/
def listing : Client where
  name := lit "list"
  respond d _ := { added := [⟨lit "css", some (lit "\x7ba: " ++ d.display ++ lit "\x7d")⟩], result := .ok .null }

def listingHandler : Handler := { preprocess := some (.stage (.apply (.client listing))) }

/-- A registry with that handler and with one that splits objects. -/
def listed : State := { classes with registry := classes.registry.store (lit "multi") listingHandler }

theorem plain_listed : listed.registry.Plain := by
  have derives (pipeline : Pipeline Stage) : ({ preprocess := some pipeline } : Handler).DerivesMembers := by
    intro synthesis given
    cases given
  exact ((Registry.Plain.empty (lit ".")).store (lit "css") (derives _)).store (lit "multi") (derives _)

theorem preprocessText_expands_listed :
    Expansion (lit ".") listed.registry.handlerOf 3 (Pair.split (lit "multi: x, text: y"))
        [⟨lit "css.a", some (lit "x")⟩, ⟨lit "text", some (lit "y")⟩] ∧
      3 ≤ depthLimit listed.registry ∧
      ∃ st', preprocessText (lit "multi: x, text: y") listed = .ok (lit "css.a:x,text:y") st' ∧
        Registry.Grown listed.registry st'.registry := by
  have member : Expansion (lit ".") listed.registry.handlerOf 1 [⟨lit "css.a", some (lit "x")⟩]
      [⟨lit "css.a", some (lit "x")⟩] := .stays rfl (.inr rfl) (.nil ())
  have answered : pipelineOutcome? (stageOutcome? (lit ".") { preprocess := some (.stage .members) } (lit "css"))
      (.stage .members) (lit "\x7ba: x\x7d") = some { added := [⟨lit "css.a", some (lit "x")⟩], result := none } := rfl
  have split : Expansion (lit ".") listed.registry.handlerOf 2 [⟨lit "css", some (lit "\x7ba: x\x7d")⟩]
      [⟨lit "css.a", some (lit "x")⟩] := Expands.preprocessed rfl rfl answered member (.nil ())
  have rest : Expansion (lit ".") listed.registry.handlerOf 1 [⟨lit "text", some (lit "y")⟩]
      [⟨lit "text", some (lit "y")⟩] := .stays rfl (.inr rfl) (.nil ())
  have answered' : pipelineOutcome? (stageOutcome? (lit ".") listingHandler (lit "multi"))
      (.stage (.apply (.client listing))) (lit "x") =
        some { added := [⟨lit "css", some (lit "\x7ba: x\x7d")⟩], result := none } := rfl
  have expansion : Expansion (lit ".") listed.registry.handlerOf 3 (Pair.split (lit "multi: x, text: y"))
      [⟨lit "css.a", some (lit "x")⟩, ⟨lit "text", some (lit "y")⟩] := Expands.preprocessed rfl rfl answered' split rest
  have fits : 3 ≤ depthLimit listed.registry := by decide
  obtain ⟨-, expanded, -⟩ := preprocessText_expands listed
  obtain ⟨st', ran, grown⟩ := (expanded (Registry.Grown listed.registry) listed.registry.handlerOf
    (grown_leads plain_listed) (.refl _) _ 3 _ expansion).1 fits
  exact ⟨expansion, fits, st', ran, grown⟩

end Directive
end Bindmark
