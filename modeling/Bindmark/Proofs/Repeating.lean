import Bindmark.Compiler.Document
import Bindmark.Proofs.Keeping

/-!
# Repeated work

Two runs of work may start from states that differ. They end in the same way if
what the work reads of a state is the same in both. That is said by a relation
between the states of the two runs: work that gives the same value or the same
fault from related states, and leaves related states, repeats itself. Compiling
a document repeats itself under every relation under which looking up a key
leads to the same handler.
-/

namespace Bindmark
namespace Work

variable {α β γ δ σ : Type}

/-! ## Two runs -/

/-- Two runs end with related values or with the same fault, in related states. -/
def Agree (S : State → State → Prop) (Q : α → β → Prop) :
    EStateM.Result Fault State α → EStateM.Result Fault State β → Prop
  | .ok a st, .ok b st' => Q a b ∧ S st st'
  | .error e st, .error e' st' => e = e' ∧ S st st'
  | .ok _ _, .error _ _ => False
  | .error _ _, .ok _ _ => False

/-- From related states, two pieces of work agree. -/
def Alike (S : State → State → Prop) (Q : α → β → Prop) (w : Work α) (w' : Work β) : Prop :=
  ∀ st st', S st st' → Agree S Q (w st) (w' st')

/-- From related states, work ends in the same way. -/
def Repeats (S : State → State → Prop) (w : Work α) : Prop := Alike S Eq w w

variable {S : State → State → Prop} {Q : α → β → Prop} {Q' : γ → δ → Prop}

namespace Agree

variable {ran : EStateM.Result Fault State α} {ran' : EStateM.Result Fault State β}

theorem of_ok (agree : Agree S Q ran ran') {a : α} {t : State} (is : ran = .ok a t) :
    ∃ b t', ran' = .ok b t' ∧ Q a b ∧ S t t' := by
  subst is
  cases ran' with
  | ok b t' => exact ⟨b, t', rfl, agree⟩
  | error e t' => exact agree.elim

theorem of_error (agree : Agree S Q ran ran') {e : Fault} {t : State} (is : ran = .error e t) :
    ∃ t', ran' = .error e t' ∧ S t t' := by
  subst is
  cases ran' with
  | ok b t' => exact agree.elim
  | error e' t' =>
    obtain ⟨rfl, states⟩ := agree
    exact ⟨t', rfl, states⟩

theorem mono {S' : State → State → Prop} {Q'' : α → β → Prop} (agree : Agree S Q ran ran')
    (values : ∀ a b, Q a b → Q'' a b) (states : ∀ t t', S t t' → S' t t') : Agree S' Q'' ran ran' := by
  cases is : ran with
  | ok a t =>
    obtain ⟨b, t', rfl, value, state⟩ := agree.of_ok is
    exact ⟨values a b value, states t t' state⟩
  | error e t =>
    obtain ⟨t', rfl, state⟩ := agree.of_error is
    exact ⟨rfl, states t t' state⟩

theorem symm (agree : Agree S Q ran ran') : Agree (fun t' t => S t t') (fun b a => Q a b) ran' ran := by
  cases is : ran with
  | ok a t =>
    obtain ⟨b, t', rfl, value, state⟩ := agree.of_ok is
    exact ⟨value, state⟩
  | error e t =>
    obtain ⟨t', rfl, state⟩ := agree.of_error is
    exact ⟨rfl, state⟩

end Agree

theorem Alike.bind {w : Work α} {w' : Work β} {next : α → Work γ} {next' : β → Work δ} (first : Alike S Q w w')
    (rest : ∀ a b, Q a b → Alike S Q' (next a) (next' b)) : Alike S Q' (w >>= next) (w' >>= next') := by
  intro st st' related
  have ran := first st st' related
  rw [bind_apply, bind_apply]
  cases one : w st with
  | ok a t =>
    obtain ⟨b, t', two, values, states⟩ := ran.of_ok one
    rw [two]
    exact rest a b values t t' states
  | error e t =>
    obtain ⟨t', two, states⟩ := ran.of_error one
    rw [two]
    exact ⟨rfl, states⟩

theorem Alike.weaken {Q'' : α → β → Prop} {w : Work α} {w' : Work β} (alike : Alike S Q w w')
    (weaker : ∀ a b, Q a b → Q'' a b) : Alike S Q'' w w' :=
  fun st st' related => (alike st st' related).mono weaker fun _ _ same => same

namespace Repeats

theorem pure (a : α) : Repeats S (pure a : Work α) := fun _ _ related => ⟨rfl, related⟩

theorem throw (e : Fault) : Repeats S (throw e : Work α) := fun _ _ related => ⟨rfl, related⟩

theorem bind {w : Work α} {next : α → Work β} (first : Repeats S w) (rest : ∀ a, Repeats S (next a)) :
    Repeats S (w >>= next) :=
  Alike.bind first fun a _ same => same ▸ rest a

/-- Work before which something is done at times. -/
theorem optional {c : Prop} [Decidable c] {w : Work PUnit} {next : PUnit → Work α} (first : Repeats S w)
    (rest : ∀ u, Repeats S (next u)) : Repeats S (if c then w >>= next else next PUnit.unit) := by
  split
  · exact first.bind rest
  · exact rest _

theorem discard {w : Work α} (repeats : Repeats S w) : Repeats S (Functor.discard w) :=
  repeats.bind fun _ => pure PUnit.unit

theorem forM {f : α → Work PUnit} (each : ∀ a, Repeats S (f a)) : ∀ as : List α, Repeats S (as.forM f)
  | [] => pure _
  | a :: as => (each a).bind fun _ => forM each as

/-- Work that goes on from the registry repeats itself if it does from every
    registry, and if it goes on in the same way from registries of related states. -/
theorem registry {next : Registry → Work α} (same : ∀ st st', S st st' → next st.registry = next st'.registry)
    (rest : ∀ r, Repeats S (next r)) : Repeats S (Work.registry >>= next) := by
  intro st st' related
  rw [bind_ok (registry_apply st), bind_ok (registry_apply st'), same st st' related]
  exact rest _ st st' related

/-- A run that is compared with itself ends in a state that is related to itself. -/
theorem stateAfter {w : Work α} (repeats : Repeats S w) {st : State} (related : S st st) :
    S (stateAfter w st) (Work.stateAfter w st) := by
  have ran := repeats st st related
  cases one : w st with
  | ok a t =>
    rw [one] at ran
    rw [stateAfter_ok one]
    exact ran.2
  | error e t =>
    rw [one] at ran
    rw [stateAfter_error one]
    exact ran.2

end Repeats

/-! ## Carrying more along -/

/-- Work that carries more along repeats itself whatever it carries. -/
def RepeatsCarrying (S : State → State → Prop) (w : StateT σ Work α) : Prop :=
  ∀ carried, Repeats S (w.run carried)

namespace RepeatsCarrying

theorem pure (a : α) : RepeatsCarrying S (pure a : StateT σ Work α) := fun carried => Repeats.pure (a, carried)

theorem throw (e : Fault) : RepeatsCarrying S (MonadExcept.throw e : StateT σ Work α) := fun _ => Repeats.throw e

theorem lift {w : Work α} (repeats : Repeats S w) : RepeatsCarrying S (w : StateT σ Work α) :=
  fun carried => repeats.bind fun a => Repeats.pure (a, carried)

theorem registry {next : Registry → StateT σ Work α}
    (same : ∀ st st', S st st' → next st.registry = next st'.registry) (rest : ∀ r, RepeatsCarrying S (next r)) :
    RepeatsCarrying S ((Work.registry : StateT σ Work Registry) >>= next) := by
  intro carried st st' related
  change Agree S Eq ((next st.registry).run carried st) ((next st'.registry).run carried st')
  rw [same st st' related]
  exact rest _ carried st st' related

theorem get : RepeatsCarrying S (get : StateT σ Work σ) := fun carried => Repeats.pure (carried, carried)

theorem set (c : σ) : RepeatsCarrying S (set c : StateT σ Work PUnit) := fun _ => Repeats.pure (PUnit.unit, c)

theorem modify (f : σ → σ) : RepeatsCarrying S (modify f : StateT σ Work PUnit) :=
  fun carried => Repeats.pure (PUnit.unit, f carried)

theorem bind {w : StateT σ Work α} {next : α → StateT σ Work β} (first : RepeatsCarrying S w)
    (rest : ∀ a, RepeatsCarrying S (next a)) : RepeatsCarrying S (w >>= next) :=
  fun carried => (first carried).bind fun result => rest result.1 result.2

theorem forM {f : α → StateT σ Work PUnit} (each : ∀ a, RepeatsCarrying S (f a)) :
    ∀ as : List α, RepeatsCarrying S (as.forM f)
  | [] => pure _
  | a :: as => (each a).bind fun _ => forM each as

theorem through {τ : Type} {truthy : α → Bool} {call : τ → α → StateT σ Work α}
    (each : ∀ stage a, RepeatsCarrying S (call stage a)) (pipeline : Pipeline τ) :
    ∀ a, RepeatsCarrying S (pipeline.through truthy call a) := by
  induction pipeline with
  | stage stage => exact each stage
  | andThen first second ihFirst ihSecond =>
    intro a
    refine (ihFirst a).bind fun result => ?_
    by_cases holds : truthy result
    · simpa only [holds, if_true] using ihSecond result
    · simpa only [holds, Bool.false_eq_true, if_false] using pure result

theorem firstAnswer {τ : Type} {truthy : α → Bool} {call : τ → StateT σ Work α}
    (each : ∀ stage, RepeatsCarrying S (call stage)) (pipeline : Pipeline τ) :
    RepeatsCarrying S (pipeline.firstAnswer truthy call) := by
  induction pipeline with
  | stage stage => exact each stage
  | andThen first second ihFirst ihSecond =>
    refine ihFirst.bind fun answer => ?_
    by_cases holds : truthy answer
    · simpa only [holds, if_true] using pure answer
    · simpa only [holds, Bool.false_eq_true, if_false] using ihSecond

end RepeatsCarrying

/-! ## Preprocessing -/

/-- Whether a directive has a handler but comment markers may not hold it. -/
def isBarred (key : Text) : Work Bool := do
  let entry ← Registry.lookup key
  let r ← Work.registry
  return entry.isSome && !r.isVirtual key

/-- A key is barred alike where it leads to one handler and is permitted alike. -/
theorem isBarred_agree {key : Text} {st st' t t' : State} {entry entry' : Option Entry}
    (ran : Registry.lookup key st = .ok entry t) (ran' : Registry.lookup key st' = .ok entry' t')
    (same : entry.map Entry.handler = entry'.map Entry.handler)
    (permitted : entry.isSome → t.registry.isVirtual key = t'.registry.isVirtual key) (after : S t t') :
    Agree S Eq (isBarred key st) (isBarred key st') := by
  rw [isBarred, bind_ok ran, bind_ok ran']
  refine ⟨?_, after⟩
  have both : entry.isSome = entry'.isSome := by rw [← Option.isSome_map, same, Option.isSome_map]
  cases some_ : entry.isSome with
  | false => rw [← both, some_, Bool.false_and, Bool.false_and]
  | true => rw [← both, some_, permitted some_]

/-- A relation under which the preprocessing of directives repeats itself. -/
structure Mirrors (S : State → State → Prop) : Prop where
  log : ∀ e, Repeats S (Work.log e)
  trace : ∀ c, Repeats S (Work.trace c)
  lookup : ∀ key, Alike S (fun entry entry' => entry.map Entry.handler = entry'.map Entry.handler)
    (Registry.lookup key) (Registry.lookup key)
  barred : ∀ key, Repeats S (isBarred key)
  divider : ∀ st st', S st st' → st.registry.divider = st'.registry.divider
  depthLimit : ∀ st st', S st st' → Directive.depthLimit st.registry = Directive.depthLimit st'.registry

namespace Mirrors

section
variable {add : Directive.Adder}

theorem give (added : ∀ p, Repeats S (add p)) (p : Pair) : RepeatsCarrying S (Directive.give add p) :=
  (RepeatsCarrying.lift (added p)).bind fun _ => RepeatsCarrying.modify _

theorem applyFilters (d : Datum) : Repeats S (Directive.applyFilters d) := by
  unfold Directive.applyFilters
  split
  · exact Repeats.pure _
  · split
    · exact Repeats.throw _
    · exact Repeats.pure _
  · split
    · exact Repeats.throw _
    · exact Repeats.pure _
  · exact Repeats.throw _

theorem applyReferences (d : Datum) : Repeats S (Directive.applyReferences d) := by
  unfold Directive.applyReferences
  split
  · exact Repeats.pure _
  · exact Repeats.throw _

theorem textOf (d : Datum) : Repeats S (Directive.textOf d) := by
  unfold Directive.textOf
  split
  · exact Repeats.pure _
  · exact Repeats.throw _

theorem apply (mirrors : Mirrors S) (added : ∀ p, Repeats S (add p)) (key : Text) (p : Preprocessor) (d : Datum) :
    RepeatsCarrying S (Directive.apply add key p d) := by
  cases p with
  | filters => exact RepeatsCarrying.lift (applyFilters d)
  | references => exact RepeatsCarrying.lift (applyReferences d)
  | client c =>
    refine (RepeatsCarrying.lift (mirrors.trace _)).bind fun _ =>
      (RepeatsCarrying.forM (give added) _).bind fun _ => ?_
    split
    · exact RepeatsCarrying.pure _
    · exact RepeatsCarrying.throw _
  | notCallable given => exact RepeatsCarrying.throw _

theorem splitMembers (mirrors : Mirrors S) (added : ∀ p, Repeats S (add p)) (key t : Text) :
    RepeatsCarrying S (Directive.splitMembers add key t) := by
  unfold Directive.splitMembers
  split
  · exact RepeatsCarrying.registry (fun st st' related => by rw [mirrors.divider st st' related]) fun r =>
      (RepeatsCarrying.forM (fun p => give added _) _).bind fun _ => RepeatsCarrying.pure _
  · exact RepeatsCarrying.pure _

theorem propertyValue (mirrors : Mirrors S) (added : ∀ p, Repeats S (add p)) (table : Table (Pipeline Preprocessor))
    (p : Pair) : RepeatsCarrying S (Directive.propertyValue add table p) := by
  unfold Directive.propertyValue
  split
  · exact RepeatsCarrying.through (fun stage d => mirrors.apply added p.key stage d) _ _
  · exact RepeatsCarrying.pure _

theorem propertyValues (mirrors : Mirrors S) (added : ∀ p, Repeats S (add p)) (table : Table (Pipeline Preprocessor)) :
    ∀ ps : List Pair, RepeatsCarrying S (Directive.propertyValues add table ps)
  | [] => RepeatsCarrying.pure _
  | p :: rest =>
    (mirrors.propertyValue added table p).bind fun _ =>
      (mirrors.propertyValues added table rest).bind fun _ => RepeatsCarrying.pure _

theorem preprocessProperties (mirrors : Mirrors S) (added : ∀ p, Repeats S (add p)) (h : Handler) (t : Text) :
    RepeatsCarrying S (Directive.preprocessProperties add h t) := by
  unfold Directive.preprocessProperties
  split
  · exact (mirrors.propertyValues added _ _).bind fun _ => RepeatsCarrying.pure _
  · exact RepeatsCarrying.pure _

theorem runStage (mirrors : Mirrors S) (added : ∀ p, Repeats S (add p)) (h : Handler) (key : Text) (stage : Stage)
    (d : Datum) : RepeatsCarrying S (Directive.runStage add h key stage d) := by
  cases stage with
  | apply p => exact mirrors.apply added key p d
  | members => exact (RepeatsCarrying.lift (textOf d)).bind fun t => mirrors.splitMembers added key t
  | properties =>
    exact (RepeatsCarrying.lift (textOf d)).bind fun t =>
      (mirrors.preprocessProperties added h t).bind fun _ => RepeatsCarrying.pure _

theorem preprocess (mirrors : Mirrors S) (added : ∀ p, Repeats S (add p)) (h : Handler) (key : Text)
    (pipeline : Pipeline Stage) (d : Datum) : Repeats S (Directive.preprocess add h key pipeline d) :=
  RepeatsCarrying.through (mirrors.runStage added h key) pipeline d []

end

theorem expand (mirrors : Mirrors S) : ∀ (depth : Nat) (p : Pair), Repeats S (Directive.expand depth p)
  | 0, _ => Repeats.throw _
  | depth + 1, p => by
    refine Alike.bind (mirrors.lookup p.key) fun entry entry' same => ?_
    have pipeline : (entry.bind fun e => e.handler.preprocess.map (e.handler, ·)) =
        entry'.bind fun e => e.handler.preprocess.map (e.handler, ·) := by
      have through (o : Option Entry) : (o.bind fun e => e.handler.preprocess.map (e.handler, ·)) =
          (o.map Entry.handler).bind fun h => h.preprocess.map (h, ·) := by cases o <;> rfl
      rw [through, through, same]
    simp only [pipeline]
    split
    · refine (mirrors.preprocess (mirrors.expand depth) _ _ _ _).bind fun outcome => ?_
      obtain ⟨result, added⟩ := outcome
      by_cases holds : result.truthy
      · simpa only [holds, if_true] using Repeats.pure _
      · simpa only [holds, Bool.false_eq_true, if_false] using (mirrors.log _).bind fun _ => Repeats.pure _
    · exact Repeats.pure _

theorem expandAll (mirrors : Mirrors S) (depth : Nat) : ∀ ps : List Pair, Repeats S (Directive.expandAll depth ps)
  | [] => Repeats.pure _
  | p :: rest => (mirrors.expand depth p).bind fun _ => (mirrors.expandAll depth rest).bind fun _ => Repeats.pure _

theorem preprocessText (mirrors : Mirrors S) (t : Text) : Repeats S (Directive.preprocessText t) :=
  Repeats.registry (fun st st' related => by rw [mirrors.depthLimit st st' related]) fun _ =>
    (mirrors.expandAll _ (Pair.split t)).bind fun _ => Repeats.pure _

/-! ## Attributes and markers -/

theorem attributeKey (mirrors : Mirrors S) (s : Settings) (name : Text) :
    Repeats S (Interpolation.attributeKey s name) := by
  unfold Interpolation.attributeKey
  split
  · exact Repeats.pure _
  · refine Alike.bind (mirrors.lookup name) fun entry entry' same => ?_
    cases entry with
    | none =>
      cases entry' with
      | none => exact Repeats.pure _
      | some e' => cases same
    | some e =>
      cases entry' with
      | none => cases same
      | some e' => exact Repeats.pure _

theorem moveAttributes (mirrors : Mirrors S) (s : Settings) (tag : Text) :
    ∀ (entries : List (Text × AttributeValue)) (attributes : Table AttributeValue),
      Repeats S (Interpolation.moveAttributes s tag entries attributes)
  | [], attributes => Repeats.pure attributes
  | (name, value) :: rest, attributes => by
    unfold Interpolation.moveAttributes
    split
    · exact mirrors.moveAttributes s tag rest attributes
    · split
      · exact mirrors.moveAttributes s tag rest attributes
      · exact (mirrors.attributeKey s _).bind fun _ =>
          (mirrors.log _).bind fun _ => mirrors.moveAttributes s tag rest _

theorem notAllowed_cons (p : Pair) (rest : List Pair) :
    Visit.notAllowed (p :: rest) = (do
      let barred ← isBarred p.key
      let others ← Visit.notAllowed rest
      return if barred then p.key :: others else others) := by
  rw [Visit.notAllowed, isBarred]
  simp only [bind_assoc, pure_bind]

theorem notAllowed (mirrors : Mirrors S) : ∀ ps : List Pair, Repeats S (Visit.notAllowed ps)
  | [] => Repeats.pure _
  | p :: rest => by
    rw [notAllowed_cons]
    exact (mirrors.barred p.key).bind fun _ => (mirrors.notAllowed rest).bind fun _ => Repeats.pure _

theorem directivesOf? (s : Settings) (attributes : Table AttributeValue) :
    Repeats S (Visit.directivesOf? s attributes) := by
  unfold Visit.directivesOf?
  split
  · exact Repeats.pure _
  · split
    · exact Repeats.pure _
    · exact Repeats.throw _
  · exact Repeats.pure _

end Mirrors

/-! ## One run -/

/-- A run and itself, at a state that is related to the one it started from. -/
def Since (R : State → State → Prop) (start : State) (st st' : State) : Prop := st = st' ∧ R start st

section
variable {R : State → State → Prop}

theorem Chains.repeats (chains : Chains R) (start : State) {w : Work α} (within : Within R w) :
    Repeats (Since R start) w := by
  rintro st st' ⟨rfl, since⟩
  have after := chains.trans since (within st)
  cases ran : w st with
  | ok a t => exact ⟨rfl, rfl, stateAfter_ok ran ▸ after⟩
  | error e t => exact ⟨rfl, rfl, stateAfter_error ran ▸ after⟩

theorem Chains.within (chains : Chains R) {w : Work α} (repeats : ∀ start, Repeats (Since R start) w) : Within R w :=
  fun st => ((repeats st).stateAfter ⟨rfl, chains.refl st⟩).2

namespace Admits

theorem mirrors (admits : Admits R) (start : State) : Mirrors (Since R start) where
  log e := admits.repeats start (admits.log e)
  trace c := admits.repeats start (admits.trace c)
  lookup key := by
    intro st st' related
    have ran := admits.repeats start (admits.lookup key) st st' related
    obtain ⟨rfl, -⟩ := related
    cases found : Registry.lookup key st with
    | ok entry t =>
      rw [found] at ran
      exact ⟨rfl, ran.2⟩
    | error e t =>
      rw [found] at ran
      exact ran
  barred key := by
    have barred : Within R (isBarred key) :=
      admits.bind (admits.lookup key) fun _ => admits.bind admits.registry fun _ => admits.pure _
    exact admits.repeats start barred
  divider st st' related := by rw [related.1]
  depthLimit st st' related := by rw [related.1]

theorem preprocessText (admits : Admits R) (t : Text) : Within R (Directive.preprocessText t) :=
  admits.within fun start => (admits.mirrors start).preprocessText t

theorem moveAttributes (admits : Admits R) (s : Settings) (tag : Text) (entries : List (Text × AttributeValue))
    (attributes : Table AttributeValue) : Within R (Interpolation.moveAttributes s tag entries attributes) :=
  admits.within fun start => (admits.mirrors start).moveAttributes s tag entries attributes

theorem notAllowed (admits : Admits R) (ps : List Pair) : Within R (Visit.notAllowed ps) :=
  admits.within fun start => (admits.mirrors start).notAllowed ps

theorem directivesOf? (admits : Admits R) (s : Settings) (attributes : Table AttributeValue) :
    Within R (Visit.directivesOf? s attributes) :=
  admits.within fun _ => Mirrors.directivesOf? s attributes

end Admits
end

/-! ## Documents -/

/-- A relation under which compiling documents repeats itself. -/
structure MirrorsDocuments (S : State → State → Prop) : Prop extends Mirrors S where
  count : ∀ f, Repeats S (Work.count f)
  nodeStages : ∀ st st', S st st' → st.nodeStages = st'.nodeStages

namespace MirrorsDocuments

theorem interpolateAttributes (mirrors : MirrorsDocuments S) (s : Settings) :
    ∀ node : Node, Repeats S (Interpolation.interpolateAttributes s node)
  | .element tag _ _ => (mirrors.moveAttributes s tag _ _).bind fun _ => Repeats.pure _
  | .leaf _ _ => Repeats.pure _

theorem runStage (mirrors : MirrorsDocuments S) (s : Settings) (stage : NodeStage) :
    RepeatsCarrying S (Visit.runStage s stage) := by
  cases stage with
  | texts =>
    refine RepeatsCarrying.get.bind fun v => ?_
    split
    · exact RepeatsCarrying.pure _
    · exact (RepeatsCarrying.set _).bind fun _ =>
        (RepeatsCarrying.lift (mirrors.log _)).bind fun _ => RepeatsCarrying.pure _
  | attributes =>
    exact RepeatsCarrying.get.bind fun v =>
      (RepeatsCarrying.lift (mirrors.interpolateAttributes s v.node)).bind fun _ =>
        (RepeatsCarrying.set _).bind fun _ => RepeatsCarrying.pure _
  | client c =>
    refine RepeatsCarrying.get.bind fun v => (RepeatsCarrying.lift (mirrors.trace _)).bind fun _ => ?_
    split
    · exact RepeatsCarrying.pure _
    · exact RepeatsCarrying.pure _
    · exact RepeatsCarrying.pure _
    · have placed (ns : List Node) : RepeatsCarrying S (do
          set (v.putInPlace ns)
          return Answer.nodes ns : Visit.Visiting Answer) :=
        (RepeatsCarrying.set _).bind fun _ => RepeatsCarrying.pure _
      dsimp only
      split
      · exact (RepeatsCarrying.throw _).bind fun _ => placed _
      · exact placed _
    · exact RepeatsCarrying.throw _

theorem runStages_run (s : Settings) (carried : Visit) (st : State) :
    (Visit.runStages s).run carried st = (match st.nodeStages with
      | none => pure Answer.none
      | some stages => stages.firstAnswer Answer.truthy (Visit.runStage s) : Visit.Visiting Answer).run carried st :=
  rfl

theorem runStages (mirrors : MirrorsDocuments S) (s : Settings) : RepeatsCarrying S (Visit.runStages s) := by
  intro carried st st' related
  rw [runStages_run, runStages_run, mirrors.nodeStages st st' related]
  cases st'.nodeStages with
  | none => exact RepeatsCarrying.pure Answer.none carried st st' related
  | some stages => exact RepeatsCarrying.firstAnswer (mirrors.runStage s) stages carried st st' related

theorem preprocessNode (mirrors : MirrorsDocuments S) (s : Settings) (inDocument : Bool) (node : Node) :
    Repeats S (Visit.preprocessNode s inDocument node) := by
  unfold Visit.preprocessNode
  split
  · refine (Mirrors.directivesOf? s _).bind fun directives => ?_
    split
    · exact Repeats.pure _
    · exact (mirrors.preprocessText _).bind fun _ => (mirrors.count _).bind fun _ => Repeats.pure _
  · split
    · exact Repeats.pure _
    · refine (mirrors.notAllowed _).bind fun barred => (Repeats.forM (fun _ => mirrors.log _) barred).bind fun _ =>
        (mirrors.preprocessText _).bind fun processed => ?_
      exact Repeats.optional (Repeats.throw _) fun _ => (mirrors.count _).bind fun _ => Repeats.pure _
  · exact Repeats.pure _

theorem preprocessNodes (mirrors : MirrorsDocuments S) (s : Settings) (inDocument : Bool) :
    ∀ nodes : List Node, Repeats S (Visit.preprocessNodes s inDocument nodes)
  | [] => Repeats.pure _
  | node :: rest => by
    have others (node : Node) :
        Repeats S (do return node :: (← Visit.preprocessNodes s inDocument rest) : Work (List Node)) :=
      (mirrors.preprocessNodes s inDocument rest).bind fun _ => Repeats.pure _
    unfold Visit.preprocessNodes
    dsimp only
    split
    · exact (mirrors.preprocessNode s inDocument node).bind others
    · exact (Repeats.pure _).bind others

theorem visit (mirrors : MirrorsDocuments S) (s : Settings) (parent : Text) (node : Node) :
    Repeats S (Visit.visit s parent node) := by
  unfold Visit.visit
  refine (mirrors.count _).bind fun _ => (mirrors.runStages s _).bind fun outcome => ?_
  obtain ⟨answer, v⟩ := outcome
  refine Repeats.optional (mirrors.count _) fun _ => ?_
  split
  · exact (mirrors.preprocessNodes s _ _).discard.bind fun _ => Repeats.pure _
  · exact (mirrors.preprocessNodes s _ _).bind fun _ => Repeats.pure _
  · exact (mirrors.preprocessNodes s _ _).bind fun _ => Repeats.pure _
  · exact (mirrors.preprocessNodes s _ _).discard.bind fun _ => Repeats.pure _

mutual
theorem compileNode (mirrors : MirrorsDocuments S) (s : Settings) (parent : Text) :
    ∀ node : Node, Repeats S (Document.compileNode s parent node)
  | .element tag attributes children => by
    unfold Document.compileNode
    refine (mirrors.visit s parent _).bind fun result => ?_
    split
    · exact (mirrors.compileNodes s tag children).discard.bind fun _ => Repeats.pure _
    · exact (mirrors.compileNodes s tag children).bind fun _ => Repeats.pure _
  | .leaf kind t => by
    unfold Document.compileNode
    refine (mirrors.visit s parent _).bind fun result => ?_
    split
    · exact Repeats.pure _
    · exact Repeats.pure _

theorem compileNodes (mirrors : MirrorsDocuments S) (s : Settings) (parent : Text) :
    ∀ nodes : List Node, Repeats S (Document.compileNodes s parent nodes)
  | [] => by
    unfold Document.compileNodes
    exact Repeats.pure _
  | node :: rest => by
    unfold Document.compileNodes
    exact (mirrors.compileNode s parent node).bind fun _ =>
      (mirrors.compileNodes s parent rest).bind fun _ => Repeats.pure _
end

end MirrorsDocuments
end Work
end Bindmark
