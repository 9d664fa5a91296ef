import Bindmark.Proofs.History
import Bindmark.Proofs.StandardHandlers

/-!
# Stages of the library's own

Registries that are furnished with nothing but stages of the library: pipe filters,
wrapped references, objects that are split into their members, and properties with
filters and references of their own. Whatever order they are added in, every handler
then only holds stages of the library, and so does every handler that it makes for a
member.
-/

namespace Bindmark

open Work

/-! ## Preprocessors and stages -/

/-- Whether a preprocessor is one of the library. -/
def Preprocessor.isOwn : Preprocessor → Bool
  | .filters => true
  | .references => true
  | .client _ => false
  | .notCallable _ => false

theorem Preprocessor.callable_of_isOwn {p : Preprocessor} (own : p.isOwn) : ∀ given, p ≠ .notCallable given := by
  rintro given rfl
  cases own

/-- Whether a stage is one of the library. -/
def Stage.isOwn : Stage → Bool
  | .apply p => p.isOwn
  | .members => true
  | .properties => true

/-- Whether something that is added to a handler is of the library. -/
def Amendment.isOwn : Amendment → Bool
  | .stage s => s.isOwn
  | .member p => p.isOwn
  | .property _ p => p.isOwn
  | .after _ => true

/-! ## Handlers -/

namespace Handler

/-- A handler with no stages yet, which makes those of members in the standard way. -/
structure Fresh (h : Handler) : Prop where
  preprocess : h.preprocess = none
  synthesis : h.synthesis = none
  properties : h.properties = none

/-- A handler that holds stages of the library only, also for properties and for the
    members of its namespace, and derives these in the standard way. -/
structure Own (h : Handler) : Prop where
  stages : ∀ s ∈ h.stages, s.isOwn
  properties : ∀ name, ∀ p ∈ h.propertyStages name, p.isOwn
  derives : h.DerivesMembers
  added : ∀ p ∈ h.synthesisOf.added, p.isOwn

theorem Fresh.empty : ({} : Handler).Fresh := ⟨rfl, rfl, rfl⟩

theorem Fresh.own {h : Handler} (fresh : h.Fresh) : h.Own where
  stages s inside := by simp [stages, fresh.preprocess] at inside
  properties name p inside := by simp [propertyStages, fresh.properties] at inside
  derives synthesis given := by
    rw [fresh.synthesis] at given
    cases given
  added p inside := by simp [synthesisOf, fresh.synthesis] at inside

namespace Own

variable {h : Handler}

/-- Whatever the library adds to a handler leaves it one of the library. -/
theorem amend (own : h.Own) {a : Amendment} (added : a.isOwn) : (a.apply h).Own := by
  cases a with
  | stage s =>
    refine ⟨fun s' inside => ?_, own.properties, own.derives, own.added⟩
    rw [Amendment.apply, stages_addStage, List.mem_append, List.mem_singleton] at inside
    rcases inside with old | rfl
    · exact own.stages s' old
    · exact added
  | member p =>
    refine ⟨own.stages, own.properties, own.derives.extend (.addMemberPreprocessor h p), fun p' inside => ?_⟩
    rw [Amendment.apply, added_addMemberPreprocessor, List.mem_append, List.mem_singleton] at inside
    rcases inside with old | rfl
    · exact own.added p' old
    · exact added
  | property name p =>
    have derives := own.derives.extend (.addPropertyPreprocessor h name p)
    refine ⟨fun s inside => ?_, fun name' p' inside => ?_, derives, ?_⟩
    · rw [Amendment.apply, stages_addPropertyPreprocessor] at inside
      split at inside
      · exact own.stages s inside
      · rcases List.mem_append.mp inside with old | new
        · exact own.stages s old
        · rw [List.mem_singleton.mp new]
          rfl
    · rw [Amendment.apply, propertyStages_addPropertyPreprocessor] at inside
      split at inside
      · rcases List.mem_append.mp inside with old | new
        · exact own.properties name p' old
        · rw [List.mem_singleton.mp new]
          exact added
      · exact own.properties name' p' inside
    · rw [Amendment.apply, synthesisOf_addPropertyPreprocessor]
      exact own.added
  | after earlier =>
    rw [Amendment.apply]
    split
    · exact own
    · exact ⟨own.stages, own.properties, own.derives, own.added⟩

theorem addPreprocessor (own : h.Own) {p : Preprocessor} (added : p.isOwn) : (h.addPreprocessor p).Own := by
  rw [addPreprocessor_eq_addStage (Preprocessor.callable_of_isOwn added)]
  exact own.amend (a := .stage (.apply p)) added

/-- Handlers of members hold stages of the library as well. -/
theorem memberHandler (own : h.Own) (member : Text) : (Standard.memberHandler h member).Own := by
  have each (ps : List Preprocessor) (added : ∀ p ∈ ps, p.isOwn) (h : Handler) (own : h.Own) :
      (ps.foldl Handler.addPreprocessor h).Own := by
    induction ps generalizing h with
    | nil => exact own
    | cons p ps ih =>
      obtain ⟨first, others⟩ := List.forall_mem_cons.mp added
      exact ih others _ (own.addPreprocessor first)
  refine each _ own.added (h.derive member) ⟨?_, ?_, own.derives, own.added⟩
  · intro s inside
    simp [Handler.stages, derive] at inside
  · intro name p inside
    simp [Handler.propertyStages, derive] at inside

end Own
end Handler

/-! ## Registries -/

namespace Registry

/-- A registry whose handlers hold stages of the library only. -/
structure Own (r : Registry) : Prop where
  creators : r.creators = [.namespaces]
  divided : r.divider ≠ []
  handlers : ∀ key e, r.entries.get? key = some e → e.handler.Own

namespace Own

variable {r r' : Registry} {key : Text}

theorem plain (own : r.Own) : r.Plain := ⟨own.creators, fun key e stands => (own.handlers key e stands).derives⟩

theorem handlerOf (own : r.Own) {h : Handler} (leads : r.handlerOf key = some h) : h.Own := by
  unfold Registry.handlerOf at leads
  split at leads
  · rename_i e stands
    cases leads
    exact own.handlers key e stands
  · split at leads
    · obtain ⟨e, stands, rfl⟩ := Option.map_eq_some_iff.mp leads
      exact (own.handlers _ e stands).memberHandler _
    · cases leads

theorem allowVirtual (own : r.Own) (key : Text) : (r.allowVirtual key).Own :=
  ⟨own.creators, own.divided, own.handlers⟩

theorem store (own : r.Own) (key : Text) {h : Handler} (holds : h.Own) : (r.store key h).Own where
  creators := own.creators
  divided := own.divided
  handlers k e stands := by
    rw [get?_store] at stands
    split at stands
    · cases stands
      exact holds
    · exact own.handlers k e stands

theorem withMember (own : r.Own) (key ns : Text) {h : Handler} (holds : h.Own) : (r.withMember key ns h).Own := by
  unfold Registry.withMember
  split
  · exact (own.allowVirtual key).store key holds
  · exact own.store key holds

theorem change (own : r.Own) (serial : Nat) {f : Handler → Handler} (keeps : ∀ h : Handler, h.Own → (f h).Own) :
    (r.change serial f).Own where
  creators := own.creators
  divided := own.divided
  handlers k e stands := by
    rw [get?_change] at stands
    obtain ⟨e', stood, rfl⟩ := Option.map_eq_some_iff.mp stands
    have old := own.handlers k e' stood
    unfold changeEntry
    split
    · exact keeps _ old
    · exact old

theorem looksUp (own : r.Own) {entry : Option Entry} (looked : LooksUp key r entry r') : r'.Own := by
  cases looked with
  | registered stands => exact own
  | unknown missing nowhere => exact own
  | derived missing split stands => exact own.withMember key _ ((own.handlers _ _ stands).memberHandler _)

theorem addBuiltin (own : r.Own) (builtin : Text × Bool × Text) : (r.addBuiltin builtin).Own := by
  obtain ⟨key, isVirtual, description⟩ := builtin
  have stored : (r.store key { description }).Own := own.store key (Handler.Fresh.own ⟨rfl, rfl, rfl⟩)
  cases isVirtual with
  | false => exact stored
  | true => exact stored.allowVirtual key

theorem make {withBuiltins : Bool} {divider : Text} (made : Registry.make withBuiltins divider = .ok r) : r.Own := by
  have added (builtins : List (Text × Bool × Text)) (r : Registry) (own : r.Own) :
      (builtins.foldl Registry.addBuiltin r).Own := by
    induction builtins generalizing r with
    | nil => exact own
    | cons builtin builtins ih => exact ih _ (own.addBuiltin builtin)
  unfold Registry.make at made
  split at made
  · cases made
  · rename_i solid
    have empty : ({ divider } : Registry).Own := ⟨rfl, by simpa using solid, nofun⟩
    cases made
    split
    · exact added _ _ empty
    · exact empty

end Own
end Registry

/-! ## Steps -/

namespace Setup

/-- A step that adds stages of the library, or registers a handler that has none yet. -/
def IsOwn : Setup → Prop
  | .register _ h _ => h.Fresh
  | .addPreprocessor _ p => p.isOwn
  | .addPreprocessorTo _ p => p.isOwn
  | .splitMembers _ => True
  | .addMemberPreprocessor _ p => p.isOwn
  | .addPropertyPreprocessor _ _ p => p.isOwn
  | .addNodePreprocessor _ => True
  | .install _ => True

/-- A registry that only held stages of the library does so afterwards. -/
def StaysOwn (st st' : State) : Prop := st.registry.Own → st'.registry.Own

namespace StaysOwn

theorem chains : Chains StaysOwn := ⟨fun _ own => own, fun first second own => second (first own)⟩

theorem lookup (key : Text) : Within StaysOwn (Registry.lookup key) := by
  intro st own
  have derives : st.registry.DerivesKey key := fun ns _ e _ stands => own.plain.derives ns e stands
  obtain ⟨entry, r, events, ran, looked, -⟩ := Registry.lookup_looksUp own.creators derives
  rw [stateAfter_ok ran]
  exact own.looksUp looked

theorem register (key : Text) {h : Handler} (fresh : h.Fresh) (isVirtual : Bool) :
    Within StaysOwn (Registry.register key h isVirtual) :=
  chains.register (fun _ _ own => own.store key fresh.own) (fun _ _ own => own.allowVirtual key) isVirtual

theorem getOrCreate (key : Text) : Within StaysOwn (Registry.getOrCreate key) :=
  chains.getOrCreate (lookup key) (register key .empty false)

theorem changeHandler (entry : Entry) {f : Handler → Handler} (keeps : ∀ h : Handler, h.Own → (f h).Own) :
    Within StaysOwn (Registry.changeHandler entry f) :=
  chains.bind (fun _ own => own.change entry.serial keeps) fun _ => chains.bind chains.registry fun _ => chains.pure _

theorem checkCallable (p : Preprocessor) : Within StaysOwn (Registry.checkCallable p) := by
  cases p with
  | notCallable given => exact chains.throw _
  | _ => exact chains.pure _

theorem addPreprocessorTo (entry : Entry) {p : Preprocessor} (added : p.isOwn) :
    Within StaysOwn (Registry.addPreprocessorTo entry p) :=
  chains.bind (checkCallable p) fun _ => changeHandler entry fun _ own => own.addPreprocessor added

theorem addPreprocessor (key : Text) {p : Preprocessor} (added : p.isOwn) :
    Within StaysOwn (Registry.addPreprocessor key p) :=
  chains.bind (checkCallable p) fun _ =>
    chains.bind (getOrCreate key) fun _ => changeHandler _ fun _ own => own.addPreprocessor added

theorem splitMembers (key : Text) : Within StaysOwn (Registry.splitMembers key) :=
  chains.bind (getOrCreate key) fun _ =>
    Within.discard (changeHandler _ fun _ own => own.amend (a := .stage .members) rfl)

theorem addMemberPreprocessor (ns : Text) {p : Preprocessor} (added : p.isOwn) :
    Within StaysOwn (Registry.addMemberPreprocessor ns p) := by
  refine chains.bind (lookup ns) fun entry => ?_
  split
  · exact chains.pure _
  · exact Within.discard (changeHandler _ fun _ own => own.amend (a := .member p) added)

theorem addPropertyPreprocessor (key property : Text) {p : Preprocessor} (added : p.isOwn) :
    Within StaysOwn (Registry.addPropertyPreprocessor key property p) :=
  chains.bind (checkCallable p) fun _ =>
    chains.bind (getOrCreate key) fun _ => changeHandler _ fun _ own => own.amend (a := .property property p) added

theorem addAfter (key earlier : Text) : Within StaysOwn (Registry.addAfter key earlier) :=
  chains.bind (getOrCreate key) fun _ =>
    Within.discard (changeHandler _ fun _ own => own.amend (a := .after earlier) rfl)

theorem addNodeStage (stage : NodeStage) : Within StaysOwn (Standard.addNodeStage stage) := fun _ own => own

theorem install (s : Settings) : Within StaysOwn (Standard.install s) :=
  chains.bind (addNodeStage .texts) fun _ =>
    chains.bind (chains.bind (splitMembers _) fun _ => addNodeStage .attributes) fun _ =>
    chains.bind (chains.forM splitMembers _) fun _ =>
    chains.bind chains.registry fun _ =>
    chains.bind (addAfter _ _) fun _ =>
    chains.bind (chains.forM (fun key => .discard (addPreprocessor key rfl)) _) fun _ =>
    chains.bind (addMemberPreprocessor _ rfl) fun _ =>
    chains.bind (chains.forM (fun key => .discard (addPreprocessor key rfl)) _) fun _ =>
    chains.bind (addMemberPreprocessor _ rfl) fun _ =>
    chains.forM (fun property => .discard (addPropertyPreprocessor _ property rfl)) _

end StaysOwn

theorem staysOwn (step : Setup) (own : step.IsOwn) : Within StaysOwn step.work := by
  cases step with
  | register key h isVirtual => exact Within.discard (StaysOwn.register key own isVirtual)
  | addPreprocessor key p => exact Within.discard (StaysOwn.addPreprocessor key own)
  | addPreprocessorTo entry p => exact Within.discard (StaysOwn.addPreprocessorTo entry own)
  | splitMembers key => exact StaysOwn.splitMembers key
  | addMemberPreprocessor ns p => exact StaysOwn.addMemberPreprocessor ns own
  | addPropertyPreprocessor key property p => exact Within.discard (StaysOwn.addPropertyPreprocessor key property own)
  | addNodePreprocessor given =>
    cases given with
    | ok c => exact StaysOwn.addNodeStage (.client c)
    | error given => exact StaysOwn.chains.throw _
  | install s => exact StaysOwn.install s

end Setup

/-- A registry that steps of the library have made of a new one, in any order, also
    when some of them were given up. -/
inductive Furnished : Registry → Prop
  | made {withBuiltins : Bool} {divider : Text} {r : Registry} (made : Registry.make withBuiltins divider = .ok r) :
      Furnished r
  | step {st : State} (step : Setup) (own : step.IsOwn) (before : Furnished st.registry) :
      Furnished (stateAfter step.work st).registry

theorem Furnished.own {r : Registry} (furnished : Furnished r) : r.Own := by
  induction furnished with
  | made made => exact .make made
  | step step own _ ih => exact step.staysOwn own _ ih

end Bindmark
