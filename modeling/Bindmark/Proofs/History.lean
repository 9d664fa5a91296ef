import Bindmark.Compiler.Basic
import Bindmark.Proofs.Configuring
import Bindmark.Proofs.Growing
import Bindmark.Proofs.StandardRegistry

/-!
# Independence of history

A compiler that is configured without creators of its own and with derived
members compiles a document in the same way whatever it has done since: no
handler that was made for a member, and no key that was permitted with it, makes
a difference.
-/

namespace Bindmark

open Work

/-! ## Plain registries -/

namespace Registry.Plain

variable {r : Registry}

theorem empty (divider : Text) : Plain { divider } where
  creators := rfl
  derives _ _ stands := by cases stands

theorem allowVirtual (plain : r.Plain) (key : Text) : (r.allowVirtual key).Plain := ⟨plain.creators, plain.derives⟩

theorem store (plain : r.Plain) (key : Text) {h : Handler} (derives : h.DerivesMembers) : (r.store key h).Plain where
  creators := plain.creators
  derives k e stands := by
    rw [get?_store] at stands
    split at stands
    · cases stands
      exact derives
    · exact plain.derives k e stands

theorem withMember (plain : r.Plain) (key ns : Text) {h : Handler} (derives : h.DerivesMembers) :
    (r.withMember key ns h).Plain := by
  unfold Registry.withMember
  split
  · exact (plain.allowVirtual key).store key derives
  · exact plain.store key derives

theorem change (plain : r.Plain) (serial : Nat) {f : Handler → Handler}
    (derives : ∀ h : Handler, h.DerivesMembers → (f h).DerivesMembers) : (r.change serial f).Plain where
  creators := plain.creators
  derives k e stands := by
    rw [get?_change] at stands
    obtain ⟨e', stood, rfl⟩ := Option.map_eq_some_iff.mp stands
    have old := plain.derives k e' stood
    unfold changeEntry
    split
    · exact derives _ old
    · exact old

theorem looksUp (plain : r.Plain) {key : Text} {entry : Option Entry} {r' : Registry}
    (looked : LooksUp key r entry r') : r'.Plain := by
  cases looked with
  | registered stands => exact plain
  | unknown missing nowhere => exact plain
  | derived missing split stands => exact plain.withMember key _ ((plain.derives _ _ stands).memberHandler _)

theorem addBuiltin (plain : r.Plain) (builtin : Text × Bool × Text) : (r.addBuiltin builtin).Plain := by
  obtain ⟨key, isVirtual, description⟩ := builtin
  have stored : (r.store key { description }).Plain := plain.store key nofun
  cases isVirtual with
  | false => exact stored
  | true => exact stored.allowVirtual key

theorem make {withBuiltins : Bool} {divider : Text} (made : Registry.make withBuiltins divider = .ok r) : r.Plain := by
  have added (builtins : List (Text × Bool × Text)) (r : Registry) (plain : r.Plain) :
      (builtins.foldl Registry.addBuiltin r).Plain := by
    induction builtins generalizing r with
    | nil => exact plain
    | cons builtin builtins ih => exact ih _ (plain.addBuiltin builtin)
  unfold Registry.make at made
  split at made
  · cases made
  · cases made
    split
    · exact added _ _ (empty divider)
    · exact empty divider

end Registry.Plain

/-! ## Configured registries -/

/-- A step in configuring a compiler. -/
inductive Setup where
  | register (key : Text) (h : Handler) (isVirtual : Bool)
  | addPreprocessor (key : Text) (p : Preprocessor)
  | addPreprocessorTo (entry : Entry) (p : Preprocessor)
  | splitMembers (key : Text)
  | addMemberPreprocessor (ns : Text) (p : Preprocessor)
  | addPropertyPreprocessor (key property : Text) (p : Preprocessor)
  | addNodePreprocessor (given : Except Datum NodeClient)
  /-- The standard setup. -/
  | install (s : Settings)

namespace Setup

def work : Setup → Work Unit
  | .register key h isVirtual => discard (Registry.register key h isVirtual)
  | .addPreprocessor key p => discard (Registry.addPreprocessor key p)
  | .addPreprocessorTo entry p => discard (Registry.addPreprocessorTo entry p)
  | .splitMembers key => Registry.splitMembers key
  | .addMemberPreprocessor ns p => Registry.addMemberPreprocessor ns p
  | .addPropertyPreprocessor key property p => discard (Registry.addPropertyPreprocessor key property p)
  | .addNodePreprocessor given => Standard.addNodePreprocessor given
  | .install s => Standard.install s

/-- A step that registers no handler with a synthesis of its own. -/
def DerivesMembers : Setup → Prop
  | .register _ h _ => h.DerivesMembers
  | _ => True

/-- A registry that was plain is plain afterwards. -/
def StaysPlain (st st' : State) : Prop := st.registry.Plain → st'.registry.Plain

theorem staysPlain_configures : Configures StaysPlain where
  refl _ plain := plain
  trans first second plain := second (first plain)
  lookup key := by
    intro st plain
    have derives : st.registry.DerivesKey key := fun ns _ e _ stands => plain.derives ns e stands
    obtain ⟨entry, r, events, ran, looked, -⟩ := Registry.lookup_looksUp plain.creators derives
    rw [stateAfter_ok ran]
    exact plain.looksUp looked
  storeNew key h derives _ plain := plain.store key derives
  allowVirtual key _ plain := plain.allowVirtual key
  change serial _ extends_ _ plain := plain.change serial fun h derives => derives.extend (extends_ h)

/-- Every step stays within a relation that operations on a registry and new
    stages for nodes stay within, and registering if the step is that. -/
theorem within {R : State → State → Prop} (operates : Operates R)
    (staged : ∀ stage, Within R (Standard.addNodeStage stage)) (step : Setup)
    (registered : ∀ key h isVirtual, step = .register key h isVirtual → Within R (Registry.register key h isVirtual)) :
    Within R step.work := by
  cases step with
  | register key h isVirtual => exact Within.discard (registered key h isVirtual rfl)
  | addPreprocessor key p => exact Within.discard (operates.addPreprocessor key p)
  | addPreprocessorTo entry p => exact Within.discard (operates.addPreprocessorTo entry p)
  | splitMembers key => exact operates.splitMembers key
  | addMemberPreprocessor ns p => exact operates.addMemberPreprocessor ns p
  | addPropertyPreprocessor key property p => exact Within.discard (operates.addPropertyPreprocessor key property p)
  | addNodePreprocessor given =>
    cases given with
    | ok c => exact staged (.client c)
    | error given => exact operates.throw _
  | install s => exact operates.install staged s

theorem staysPlain (step : Setup) (derives : step.DerivesMembers) : Within StaysPlain step.work := by
  refine within staysPlain_configures.operates (fun _ _ plain => plain) step fun key h isVirtual same => ?_
  subst same
  exact staysPlain_configures.register key derives isVirtual

end Setup

/-- A registry that a sequence of steps has made of a new one, also when steps
    were given up. -/
inductive Configured : Registry → Prop
  | made {withBuiltins : Bool} {divider : Text} {r : Registry} (made : Registry.make withBuiltins divider = .ok r) :
      Configured r
  | step {st : State} (step : Setup) (derives : step.DerivesMembers) (before : Configured st.registry) :
      Configured (stateAfter step.work st).registry

/-- The registry of a compiler that is made from a configured registry. -/
theorem Configured.ofRegistry {r : Registry} (configured : Configured r) {s : Settings} {verbosity : Option Int}
    {standard : Bool} {c : Compiler} (made : Compiler.ofRegistry s verbosity standard r = .ok c) :
    Configured c.state.registry := by
  cases standard with
  | true =>
    rw [Standard.state_ofRegistry made]
    exact .step (.install s) trivial configured
  | false =>
    cases made
    exact configured

theorem Configured.ofMake {s : Settings} {verbosity : Option Int} {standard : Bool} {c : Compiler}
    (made : Compiler.make s verbosity standard = .ok c) : Configured c.state.registry := by
  unfold Compiler.make at made
  cases registry : Registry.make true s.namespaceDivider with
  | error e =>
    rw [registry] at made
    cases made
  | ok r =>
    rw [registry] at made
    exact Configured.ofRegistry (.made registry) made

theorem Configured.plain {r : Registry} (configured : Configured r) : r.Plain := by
  induction configured with
  | made made => exact .make made
  | step step derives _ plain => exact step.staysPlain derives _ plain

/-! ## Compilers at work -/

/-- Something that is asked of a compiler. -/
inductive Job where
  | compile (nodes : List Node)
  | preprocess (t : Text)
  | lookup (key : Text)

def Job.work (s : Settings) : Job → Work Unit
  | .compile nodes => discard (Compiler.compileDocument s nodes)
  | .preprocess t => discard (Directive.preprocessText t)
  | .lookup key => discard (Registry.lookup key)

namespace Compiler

/-- A compiler after jobs, whether they were given up or not. -/
def after (c : Compiler) (jobs : List Job) : Compiler := jobs.foldl (fun c job => (c.run (job.work c.settings)).2) c

/-- A document is compiled. -/
def compileTree (c : Compiler) (nodes : List Node) : Except Fault (List Node) × Compiler :=
  c.run (compileDocument c.settings nodes)

end Compiler

theorem compileDocument_repeats {S : State → State → Prop} (mirrors : MirrorsDocuments S) (s : Settings)
    (nodes : List Node) : Repeats S (Compiler.compileDocument s nodes) :=
  (mirrors.count _).bind fun _ => mirrors.compileNodes s _ nodes

theorem Job.repeats {S : State → State → Prop} (mirrors : MirrorsDocuments S) (s : Settings) (job : Job) :
    Repeats S (job.work s) := by
  cases job with
  | compile nodes => exact (compileDocument_repeats mirrors s nodes).discard
  | preprocess t => exact (mirrors.preprocessText t).discard
  | lookup key => exact Alike.bind (mirrors.lookup key) fun _ _ _ => Repeats.pure _

/-- A job stays within a relation that preprocessing and counting stay within. -/
theorem Job.within {R : State → State → Prop} (admits : Admits R) (counted : ∀ f, Within R (Work.count f))
    (s : Settings) (job : Job) : Within R (job.work s) := by
  refine admits.within fun start => job.repeats ⟨admits.mirrors start, ?_, ?_⟩ s
  · exact fun f => admits.repeats start (counted f)
  · exact fun st st' related => by rw [related.1]

/-! ## Forgetting -/

theorem Reached.refl (st : State) : Reached st st := ⟨.refl _, rfl⟩

theorem Work.Agree.outcome {α : Type} {S : State → State → Prop} {ran ran' : EStateM.Result Fault State α}
    (agree : Agree S Eq ran ran') :
    (Compiler.outcome ran).1 = (Compiler.outcome ran').1 ∧ S (Compiler.outcome ran).2 (Compiler.outcome ran').2 := by
  cases is : ran with
  | ok a st =>
    obtain ⟨_, st', rfl, rfl, related⟩ := agree.of_ok is
    exact ⟨rfl, related⟩
  | error e st =>
    obtain ⟨st', rfl, related⟩ := agree.of_error is
    exact ⟨rfl, related⟩

/-- A job does not lead out of the states that a start leads to. -/
theorem Reached.job {start st : State} (reached : Reached start st) (plain : start.registry.Plain) (s : Settings)
    (job : Job) : Reached start (stateAfter (job.work s) { st with calls := [], journal := [] }) := by
  have cleared : Reached start { st with calls := [], journal := [] } := ⟨reached.grown, reached.nodeStages⟩
  exact ((job.repeats (Mirrored.mirrorsDocuments plain) s).stateAfter ⟨cleared, cleared, rfl, rfl, rfl⟩).left

namespace Compiler

theorem state_run {α : Type} (c : Compiler) (work : Work α) :
    (c.run work).2.state = stateAfter work { c.state with calls := [], journal := [] } := by
  rw [run]
  cases ran : work { c.state with calls := [], journal := [] } with
  | ok a st => rw [stateAfter_ok ran]; rfl
  | error e st => rw [stateAfter_error ran]; rfl

theorem settings_after : ∀ (jobs : List Job) (c : Compiler), (c.after jobs).settings = c.settings
  | [], _ => rfl
  | job :: jobs, c => settings_after jobs (c.run (job.work c.settings)).2

theorem reached_after {start : State} (plain : start.registry.Plain) : ∀ (jobs : List Job) (c : Compiler),
    Reached start c.state → Reached start (c.after jobs).state
  | [], _, reached => reached
  | job :: jobs, c, reached => by
    have next : Reached start (c.run (job.work c.settings)).2.state := by
      rw [state_run]
      exact reached.job plain c.settings job
    exact reached_after plain jobs _ next

/-- In a state that a plain start leads to, a key leads to the handler that was
    settled at the start. -/
theorem handler_lookup {start : State} (plain : start.registry.Plain) {c : Compiler} (reached : Reached start c.state)
    (key : Text) : ∃ entry, (c.run (Registry.lookup key)).1 = .ok entry ∧
      entry.map Entry.handler = start.registry.handlerOf key := by
  obtain ⟨entry, r, events, ran, -, -, handler, -⟩ := Registry.lookup_grown plain key
    { c.state with calls := [], journal := [] } reached.grown
  refine ⟨entry, ?_, handler⟩
  rw [run, ran]
  rfl

/-- The state in which the nodes of a document are visited first. -/
def cleared (c : Compiler) : State := { c.state with calls := [], journal := [], stats := {} }

theorem compileTree_apply (c : Compiler) (nodes : List Node) :
    (c.compileTree nodes).1 = (outcome (Document.compileNodes c.settings Document.rootTag nodes c.cleared)).1 ∧
      (c.compileTree nodes).2.state =
        (outcome (Document.compileNodes c.settings Document.rootTag nodes c.cleared)).2 :=
  ⟨rfl, rfl⟩

/-- What a configured compiler makes of a document does not depend on what it was
    asked before: result, statistics, calls and log are those of a compiler that
    was asked nothing, but for the log of handlers that are made for members. Every
    key leads both compilers to the same handler. -/
theorem compileTree_after_jobs {c : Compiler} (configured : Configured c.state.registry) (jobs : List Job)
    (nodes : List Node) :
    ((c.after jobs).compileTree nodes).1 = (c.compileTree nodes).1 ∧
      ((c.after jobs).compileTree nodes).2.state.stats = (c.compileTree nodes).2.state.stats ∧
      ((c.after jobs).compileTree nodes).2.state.calls = (c.compileTree nodes).2.state.calls ∧
      told ((c.after jobs).compileTree nodes).2.state.journal = told (c.compileTree nodes).2.state.journal ∧
      ∀ key, ∃ entry entry', ((c.after jobs).run (Registry.lookup key)).1 = .ok entry ∧
        (c.run (Registry.lookup key)).1 = .ok entry' ∧ entry.map Entry.handler = entry'.map Entry.handler := by
  have plain := configured.plain
  have reached := reached_after plain jobs c (.refl c.state)
  -- Compiling starts with new statistics, so that both runs start from mirrored states.
  have mirrored : Mirrored c.state (c.after jobs).cleared c.cleared :=
    ⟨⟨reached.grown, reached.nodeStages⟩, ⟨.refl _, rfl⟩, rfl, rfl, rfl⟩
  have repeats := (Mirrored.mirrorsDocuments plain).compileNodes c.settings Document.rootTag nodes
  obtain ⟨same, after⟩ := (repeats _ _ mirrored).outcome
  obtain ⟨later, laterState⟩ := (c.after jobs).compileTree_apply nodes
  obtain ⟨fresh, freshState⟩ := c.compileTree_apply nodes
  rw [settings_after] at later laterState
  rw [later, laterState, fresh, freshState]
  refine ⟨same, after.stats, after.calls, after.journal, fun key => ?_⟩
  obtain ⟨entry, looked, handler⟩ := handler_lookup plain reached key
  obtain ⟨entry', looked', handler'⟩ := handler_lookup plain (.refl c.state) key
  exact ⟨entry, entry', looked, looked', handler.trans handler'.symm⟩

/-- A compiler with the standard setup. -/
def standard : Compiler where
  settings := {}
  verbosity := 1
  state := stateAfter (Standard.install {}) Standard.bareState

theorem configured_standard : Configured standard.state.registry :=
  @Configured.step Standard.bareState (.install {}) trivial (.made Standard.make_bareState)

/-- A link whose target is interpolated, behind a marker. -/
def link : List Node :=
  [.ofComment (lit "ko attr.href: a"),
    .element (lit "a") (Table.ofList [(lit "href", .text (lit "/\x7b\x7b id \x7d\x7d"))]) []]

/-- Jobs that have handlers made for members. -/
def visits : List Job := [.lookup (lit "css.on"), .preprocess (lit "attr: \x7bhref: b\x7d"), .compile link]

theorem compileTree_after_jobs_link :
    Configured standard.state.registry ∧
      (standard.after visits).state.registry.entries.keys ≠ standard.state.registry.entries.keys ∧
      ((standard.after visits).compileTree link).1 = (standard.compileTree link).1 ∧
      ((standard.after visits).compileTree link).2.state.stats =
        (standard.compileTree link).2.state.stats ∧
      told ((standard.after visits).compileTree link).2.state.journal =
        told (standard.compileTree link).2.state.journal := by
  obtain ⟨result, stats, -, journal, -⟩ := compileTree_after_jobs configured_standard visits link
  exact ⟨configured_standard, by decide +kernel, result, stats, journal⟩

example :
    (match ((standard.after visits).compileTree link).1 with
      | .ok nodes => Html.write nodes
      | .error _ => []) =
      lit "<!--ko attr.href:a--><a data-bind='attr.href:\"\"+\"/\"+unwrap( id )'></a>" := by
  decide +kernel

end Compiler
end Bindmark
