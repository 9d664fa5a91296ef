import Bindmark.Proofs.Amending
import Bindmark.Proofs.Pipelines

/-!
# Handlers of the standard setup

However often a registry is set up, each handler only gets what is meant for it.
So a key leads to a handler whose stages all do the same, or to none at all, and
which stage that is can be read off the key (`stage?`).
-/

namespace Bindmark

open Work

namespace Handler

/-! ## What handlers hold -/

/-- The stages that values are sent through, in order. -/
def stages (h : Handler) : List Stage := (h.preprocess.map Pipeline.toList).getD []

/-- The preprocessors of a property, in order. -/
def propertyStages (h : Handler) (name : Text) : List Preprocessor :=
  ((h.properties.bind fun table => table.get? name).map Pipeline.toList).getD []

variable (h : Handler)

@[simp] theorem stages_addStage (s : Stage) : (h.addStage s).stages = h.stages ++ [s] := by
  obtain ⟨_, _, slot, _, _, _, _⟩ := h
  cases slot <;> rfl

theorem stages_addPropertyPreprocessor (name : Text) (p : Preprocessor) :
    (h.addPropertyPreprocessor name p).stages =
      if h.properties.isSome then h.stages else h.stages ++ [.properties] := by
  obtain ⟨_, _, slot, _, _, _, table⟩ := h
  cases table with
  | none => cases slot <;> rfl
  | some table => rfl

@[simp] theorem added_addMemberPreprocessor (p : Preprocessor) :
    (h.addMemberPreprocessor p).synthesisOf.added = h.synthesisOf.added ++ [p] := rfl

@[simp] theorem synthesisOf_addPropertyPreprocessor (name : Text) (p : Preprocessor) :
    (h.addPropertyPreprocessor name p).synthesisOf = h.synthesisOf := by
  unfold addPropertyPreprocessor
  cases h.properties <;> rfl

theorem propertyStages_addPropertyPreprocessor (name : Text) (p : Preprocessor) (name' : Text) :
    (h.addPropertyPreprocessor name p).propertyStages name' =
      if name' = name then h.propertyStages name ++ [p] else h.propertyStages name' := by
  have inserted (table : Table (Pipeline Preprocessor)) :
      (((table.insert name (Pipeline.chain (table.get? name) (.stage p))).get? name').map Pipeline.toList).getD [] =
        if name' = name then ((table.get? name).map Pipeline.toList).getD [] ++ [p]
        else ((table.get? name').map Pipeline.toList).getD [] := by
    rw [Table.get?_insert]
    split
    · cases table.get? name <;> rfl
    · rfl
  obtain ⟨_, _, _, _, _, _, table⟩ := h
  cases table with
  | none => exact inserted Table.empty
  | some table => exact inserted table

@[simp] theorem after_addPropertyPreprocessor (name : Text) (p : Preprocessor) :
    (h.addPropertyPreprocessor name p).after = h.after := by
  unfold addPropertyPreprocessor
  cases h.properties <;> rfl

theorem stages_eq_nil_iff : h.stages = [] ↔ h.preprocess = none := by
  unfold stages
  cases h.preprocess with
  | none => simp
  | some pipeline => simp [pipeline.toList_ne_nil]

/-- Members get the preprocessors that were added for them, one after the other. -/
theorem stages_memberHandler (member : Text) (callable : ∀ p ∈ h.synthesisOf.added, ∀ given, p ≠ .notCallable given) :
    (Standard.memberHandler h member).stages = h.synthesisOf.added.map .apply := by
  have added (ps : List Preprocessor) (callable : ∀ p ∈ ps, ∀ given, p ≠ .notCallable given) (h : Handler) :
      (ps.foldl addPreprocessor h).stages = h.stages ++ ps.map .apply := by
    induction ps generalizing h with
    | nil => simp
    | cons p ps ih =>
      obtain ⟨own, others⟩ := List.forall_mem_cons.mp callable
      rw [List.foldl_cons, ih others, addPreprocessor_eq_addStage own, stages_addStage]
      simp
  exact added _ callable (h.derive member)

end Handler

namespace Standard

/-! ## What is meant for a key -/

/-- The directives that the standard setup configures besides those whose objects
    are only split. -/
def otherDirectives : List Text :=
  [lit "event", lit "checked", lit "template"] ++ filterDirectives ++ callbackDirectives

/-- The stage of a key that holds no divider. -/
def ownStage? (ns key : Text) : Option Stage :=
  if key = ns ∨ key ∈ memberDirectives then some .members
  else if key ∈ filterDirectives then some (.apply .filters)
  else if key ∈ callbackDirectives then some (.apply .references)
  else if key = lit "template" then some .properties
  else none

/-- The preprocessor of the members of a namespace. -/
def memberPreprocessor? (ns key : Text) : Option Preprocessor :=
  if key = ns then some .filters else if key = lit "event" then some .references else none

/-- The stage of a key, also of one that a member stands under. -/
def stage? (ns key : Text) : Option Stage :=
  match Registry.splitKey? (lit ".") key with
  | some (ns', _) => (memberPreprocessor? ns ns').map .apply
  | none => ownStage? ns key

/-- An amendment adds what is meant for a key. -/
def Suits (ns key : Text) : Amendment → Prop
  | .stage s => ownStage? ns key = some s ∧ key ≠ lit "template"
  | .member p => memberPreprocessor? ns key = some p
  | .property name p => key = lit "template" ∧ name ∈ templateCallbacks ∧ p = .references
  | .after earlier => earlier = ns ++ lit "." ++ lit "value"

variable {ns : Text}

/-- Which keys have which stage. -/
theorem ownStage?_cases {key : Text} {s : Stage} (own : ownStage? ns key = some s) :
    s = .members ∧ (key = ns ∨ key ∈ memberDirectives) ∨ s = .apply .filters ∧ key ∈ filterDirectives ∨
      s = .apply .references ∧ key ∈ callbackDirectives ∨ s = .properties ∧ key = lit "template" := by
  unfold ownStage? at own
  split at own
  · rename_i listed
    exact .inl ⟨(Option.some.inj own).symm, listed⟩
  · split at own
    · rename_i listed
      exact .inr (.inl ⟨(Option.some.inj own).symm, listed⟩)
    · split at own
      · rename_i listed
        exact .inr (.inr (.inl ⟨(Option.some.inj own).symm, listed⟩))
      · split at own
        · rename_i same
          exact .inr (.inr (.inr ⟨(Option.some.inj own).symm, same⟩))
        · cases own

/-- Which keys have which preprocessor for members. -/
theorem memberPreprocessor?_cases {key : Text} {p : Preprocessor} (given : memberPreprocessor? ns key = some p) :
    p = .filters ∧ key = ns ∨ p = .references ∧ key = lit "event" := by
  unfold memberPreprocessor? at given
  split at given
  · rename_i same
    exact .inl ⟨(Option.some.inj given).symm, same⟩
  · split at given
    · rename_i same
      exact .inr ⟨(Option.some.inj given).symm, same⟩
    · cases given

theorem ne_of_mem_otherDirectives (other : ns ∉ otherDirectives) {key : Text} (inside : key ∈ otherDirectives) :
    key ≠ ns :=
  fun same => other (same ▸ inside)

theorem amendments_suit (other : ns ∉ otherDirectives) :
    ∀ amendment ∈ amendments ns, Suits ns amendment.1 amendment.2 := by
  have apart {key : Text} (inside : key ∈ otherDirectives) : key ≠ ns := ne_of_mem_otherDirectives other inside
  have members : ∀ key ∈ memberDirectives, key ≠ lit "template" := by decide
  have filters : ∀ key ∈ filterDirectives, key ∈ otherDirectives ∧ key ∉ memberDirectives ∧ key ≠ lit "template" := by
    decide
  have callbacks : ∀ key ∈ callbackDirectives,
      key ∈ otherDirectives ∧ key ∉ memberDirectives ∧ key ∉ filterDirectives ∧ key ≠ lit "template" := by
    decide
  unfold amendments
  simp only [List.forall_mem_append, List.forall_mem_singleton, List.forall_mem_map]
  refine ⟨⟨if_pos (.inl rfl), (apart (by decide)).symm⟩, fun key inside => ?_, rfl, fun key inside => ?_, if_pos rfl,
    fun key inside => ?_, ?_, fun property inside => ⟨rfl, inside, rfl⟩⟩
  · have stands := (List.mem_filter.mp inside).1
    exact ⟨if_pos (.inr stands), members key stands⟩
  · obtain ⟨listed, member, template⟩ := filters key inside
    exact ⟨by rw [ownStage?, if_neg (not_or.mpr ⟨apart listed, member⟩), if_pos inside], template⟩
  · obtain ⟨listed, member, filter, template⟩ := callbacks key inside
    exact ⟨by rw [ownStage?, if_neg (not_or.mpr ⟨apart listed, member⟩), if_neg filter, if_pos inside], template⟩
  · exact (if_neg (apart (by decide))).trans (if_pos rfl)

theorem ownStage?_template (other : ns ∉ otherDirectives) : ownStage? ns (lit "template") = some .properties := by
  have apart := ne_of_mem_otherDirectives other (by decide : lit "template" ∈ otherDirectives)
  rw [ownStage?, if_neg (not_or.mpr ⟨apart, by decide⟩), if_neg (by decide), if_neg (by decide), if_pos rfl]

/-! ## Handlers that fit -/

/-- A handler that holds one stage, perhaps several times, sends values through it. -/
theorem exists_pipeline {h : Handler} {s : Stage} (only : ∀ s' ∈ h.stages, s' = s) (inside : s ∈ h.stages) :
    ∃ pipeline, h.preprocess = some pipeline ∧ ∀ s' ∈ pipeline.toList, s' = s := by
  unfold Handler.stages at only inside
  cases staged : h.preprocess with
  | none => simp [staged] at inside
  | some pipeline =>
    simp only [staged, Option.map_some, Option.getD_some] at only
    exact ⟨pipeline, rfl, only⟩

/-- A handler holds nothing but what is meant for its key. -/
structure Fits (ns key : Text) (h : Handler) : Prop where
  stages : ∀ s ∈ h.stages, ownStage? ns key = some s
  /-- The stage for properties comes with their table, and only once. -/
  template : key = lit "template" → h.preprocess = h.properties.map fun _ => .stage .properties
  derives : h.DerivesMembers
  members : ∀ p ∈ h.synthesisOf.added, memberPreprocessor? ns key = some p
  properties : ∀ name, ∀ p ∈ h.propertyStages name, name ∈ templateCallbacks ∧ p = .references
  after : h.after = [] ∨ h.after = [ns ++ lit "." ++ lit "value"]

namespace Fits

variable {key : Text} {h : Handler}

theorem blank (blank : h.Blank) : Fits ns key h where
  stages s inside := by simp [Handler.stages, blank.preprocess] at inside
  template _ := by rw [blank.preprocess, blank.properties, Option.map_none]
  derives synthesis given := by
    rw [blank.synthesis] at given
    cases given
  members p inside := by simp [Handler.synthesisOf, blank.synthesis] at inside
  properties name p inside := by simp [Handler.propertyStages, blank.properties] at inside
  after := .inl blank.after

/-- What is meant for a key may be added. -/
theorem apply (other : ns ∉ otherDirectives) (fits : Fits ns key h) {a : Amendment} (suits : Suits ns key a) :
    Fits ns key (a.apply h) := by
  cases a with
  | stage s =>
    refine ⟨fun s' inside => ?_, fun isTemplate => absurd isTemplate suits.2, fits.derives, fits.members,
      fits.properties, fits.after⟩
    rw [Amendment.apply, Handler.stages_addStage, List.mem_append, List.mem_singleton] at inside
    rcases inside with old | rfl
    · exact fits.stages s' old
    · exact suits.1
  | member p =>
    refine ⟨fits.stages, fits.template, fits.derives.extend (.addMemberPreprocessor h p), fun p' inside => ?_,
      fits.properties, fits.after⟩
    rw [Amendment.apply, Handler.added_addMemberPreprocessor, List.mem_append, List.mem_singleton] at inside
    rcases inside with old | rfl
    · exact fits.members p' old
    · exact suits
  | property name p =>
    obtain ⟨rfl, listed, rfl⟩ := suits
    refine ⟨fun s inside => ?_, fun _ => ?_, fits.derives.extend (.addPropertyPreprocessor h name .references),
      fun p inside => ?_, fun name' p inside => ?_, ?_⟩
    · rw [Amendment.apply, Handler.stages_addPropertyPreprocessor] at inside
      split at inside
      · exact fits.stages s inside
      · rcases List.mem_append.mp inside with old | own
        · exact fits.stages s old
        · obtain rfl := List.mem_singleton.mp own
          exact ownStage?_template other
    · have staged := fits.template rfl
      rw [Amendment.apply]
      unfold Handler.addPropertyPreprocessor
      cases held : h.properties with
      | none =>
        rw [held, Option.map_none] at staged
        simp [Handler.addStage, staged, Pipeline.chain]
      | some table =>
        rw [held, Option.map_some] at staged
        exact staged
    · rw [Amendment.apply, Handler.synthesisOf_addPropertyPreprocessor] at inside
      exact fits.members p inside
    · rw [Amendment.apply, Handler.propertyStages_addPropertyPreprocessor] at inside
      split at inside
      · rename_i same
        rcases List.mem_append.mp inside with old | own
        · exact same ▸ fits.properties name p old
        · exact ⟨same ▸ listed, List.mem_singleton.mp own⟩
      · exact fits.properties name' p inside
    · rw [Amendment.apply, Handler.after_addPropertyPreprocessor]
      exact fits.after
  | after earlier =>
    obtain rfl : earlier = ns ++ lit "." ++ lit "value" := suits
    rw [Amendment.apply]
    split
    · exact fits
    · rename_i missing
      refine ⟨fits.stages, fits.template, fits.derives, fits.members, fits.properties, .inr ?_⟩
      rcases fits.after with none_ | held
      · rw [none_, List.nil_append]
      · exact absurd (by rw [held, List.contains_cons, beq_self_eq_true, Bool.true_or]) missing

/-- What stands in a handler is the stage of its key. -/
theorem only_stage (fits : Fits ns key h) {s : Stage} (own : ownStage? ns key = some s) : ∀ s' ∈ h.stages, s' = s := by
  intro s' inside
  have same := fits.stages s' inside
  rw [own, Option.some.injEq] at same
  exact same.symm

/-- A handler of a key without a stage sends values through nothing. -/
theorem preprocess_eq_none (fits : Fits ns key h) (own : ownStage? ns key = none) : h.preprocess = none := by
  refine h.stages_eq_nil_iff.mp (List.eq_nil_iff_forall_not_mem.mpr fun s inside => ?_)
  have same := fits.stages s inside
  rw [own] at same
  cases same

/-- A handler whose members have a preprocessor gives it to them. -/
theorem only_member (fits : Fits ns key h) {p : Preprocessor} (given : memberPreprocessor? ns key = some p)
    (inside : p ∈ h.synthesisOf.added) (member : Text) :
    ∃ pipeline, (memberHandler h member).preprocess = some pipeline ∧ ∀ s ∈ pipeline.toList, s = .apply p := by
  have only (p' : Preprocessor) (stands : p' ∈ h.synthesisOf.added) : p' = p := by
    have same := fits.members p' stands
    rw [given, Option.some.injEq] at same
    exact same.symm
  have stages := h.stages_memberHandler member fun p' stands => by
    rw [only p' stands]
    rcases memberPreprocessor?_cases given with ⟨rfl, -⟩ | ⟨rfl, -⟩ <;> exact nofun
  refine exists_pipeline ?_ ?_
  · rw [stages]
    intro s stands
    obtain ⟨p', given', rfl⟩ := List.mem_map.mp stands
    rw [only p' given']
  · rw [stages]
    exact List.mem_map_of_mem inside

/-- Members of a key without a preprocessor for them send values through nothing. -/
theorem memberHandler_preprocess_eq_none (fits : Fits ns key h) (given : memberPreprocessor? ns key = none)
    (member : Text) : (memberHandler h member).preprocess = none := by
  have added : h.synthesisOf.added = [] := by
    refine List.eq_nil_iff_forall_not_mem.mpr fun p inside => ?_
    have same := fits.members p inside
    rw [given] at same
    cases same
  refine (Handler.stages_eq_nil_iff _).mp ?_
  rw [h.stages_memberHandler member (by simp [added]), added]
  rfl

end Fits

/-! ## What amendments leave -/

/-- A handler holds what an amendment adds. -/
def Holds (h : Handler) : Amendment → Prop
  | .stage s => s ∈ h.stages
  | .member p => p ∈ h.synthesisOf.added
  | .property name p => p ∈ h.propertyStages name
  | .after earlier => earlier ∈ h.after

theorem holds_apply (a : Amendment) (h : Handler) : Holds (a.apply h) a := by
  cases a with
  | stage s => simp [Holds, Amendment.apply]
  | member p => simp [Holds, Amendment.apply]
  | property name p =>
    rw [Holds, Amendment.apply, Handler.propertyStages_addPropertyPreprocessor, if_pos rfl]
    exact List.mem_append_right _ List.mem_cons_self
  | after earlier =>
    rw [Amendment.apply]
    split
    · rename_i held
      exact List.contains_iff_mem.mp held
    · exact List.mem_append_right _ List.mem_cons_self

/-- A handler holds all that another one holds. -/
structure Gains (h h' : Handler) : Prop where
  stages : h.stages ⊆ h'.stages
  added : h.synthesisOf.added ⊆ h'.synthesisOf.added
  properties : ∀ name, h.propertyStages name ⊆ h'.propertyStages name
  after : h.after ⊆ h'.after

theorem Gains.refl (h : Handler) : Gains h h :=
  ⟨List.Subset.refl _, List.Subset.refl _, fun _ => List.Subset.refl _, List.Subset.refl _⟩

/-- Amendments take nothing away. -/
theorem gains_apply (a : Amendment) (h : Handler) : Gains h (a.apply h) := by
  cases a with
  | stage s =>
    refine { Gains.refl h with stages := ?_ }
    rw [Amendment.apply, Handler.stages_addStage]
    exact List.subset_append_left _ _
  | member p => exact { Gains.refl h with added := List.subset_append_left _ _ }
  | property name p =>
    refine ⟨?_, ?_, fun name' => ?_, ?_⟩
    · rw [Amendment.apply, Handler.stages_addPropertyPreprocessor]
      split
      · exact List.Subset.refl _
      · exact List.subset_append_left _ _
    · rw [Amendment.apply, Handler.synthesisOf_addPropertyPreprocessor]
      exact List.Subset.refl _
    · rw [Amendment.apply, Handler.propertyStages_addPropertyPreprocessor]
      split
      · rename_i same
        exact same ▸ List.subset_append_left _ _
      · exact List.Subset.refl _
    · rw [Amendment.apply, Handler.after_addPropertyPreprocessor]
      exact List.Subset.refl _
  | after earlier =>
    rw [Amendment.apply]
    split
    · exact .refl h
    · exact { Gains.refl h with after := List.subset_append_left _ _ }

theorem Holds.gains {h h' : Handler} {a : Amendment} (holds : Holds h a) (gains : Gains h h') : Holds h' a := by
  cases a with
  | stage s => exact gains.stages holds
  | member p => exact gains.added holds
  | property name p => exact gains.properties name holds
  | after earlier => exact gains.after holds

/-! ## Handlers that are set up -/

/-- The handlers of keys hold what the setup adds, and nothing that is not meant
    for them. -/
structure SetUp (ns : Text) (find : Text → Option Handler) : Prop where
  fits : ∀ key h, find key = some h → Fits ns key h
  holds : ∀ amendment ∈ amendments ns, ∃ h, find amendment.1 = some h ∧ Holds h amendment.2

variable {find : Text → Option Handler}

theorem fits_amend (other : ns ∉ otherDirectives) (fits : ∀ key h, find key = some h → Fits ns key h)
    {amendment : Text × Amendment} (suits : Suits ns amendment.1 amendment.2) :
    ∀ key h, Amendment.amend find amendment key = some h → Fits ns key h := by
  intro key h found
  obtain ⟨key', a⟩ := amendment
  by_cases same : key = key'
  · subst same
    rw [Amendment.amend_self] at found
    cases found
    refine Fits.apply other ?_ suits
    cases old : find key with
    | none => exact .blank ⟨rfl, rfl, rfl, rfl⟩
    | some h => exact fits key h old
  · rw [Amendment.amend_other find same] at found
    exact fits key h found

theorem holds_amend {key : Text} {a : Amendment} (holds : ∃ h, find key = some h ∧ Holds h a)
    (amendment : Text × Amendment) : ∃ h, Amendment.amend find amendment key = some h ∧ Holds h a := by
  obtain ⟨h, found, holds⟩ := holds
  obtain ⟨key', later⟩ := amendment
  by_cases same : key = key'
  · subst same
    rw [Amendment.amend_self, found]
    exact ⟨later.apply h, rfl, holds.gains (gains_apply later h)⟩
  · rw [Amendment.amend_other find same]
    exact ⟨h, found, holds⟩

theorem holds_foldl_amend {amendments : List (Text × Amendment)} {key : Text} {a : Amendment}
    (added : (∃ h, find key = some h ∧ Holds h a) ∨ (key, a) ∈ amendments) :
    ∃ h, amendments.foldl Amendment.amend find key = some h ∧ Holds h a := by
  induction amendments generalizing find with
  | nil => exact added.resolve_right (List.not_mem_nil)
  | cons amendment amendments ih =>
    rw [List.foldl_cons]
    apply ih
    rcases added with held | inside
    · exact .inl (holds_amend held amendment)
    · rcases List.mem_cons.mp inside with rfl | later
      · rw [Amendment.amend_self]
        exact .inl ⟨_, rfl, holds_apply a _⟩
      · exact .inr later

/-- Handlers that fit are set up by the amendments of the setup, whatever they hold
    of it already. -/
theorem setUp_foldl_amend (other : ns ∉ otherDirectives) (fits : ∀ key h, find key = some h → Fits ns key h) :
    SetUp ns ((amendments ns).foldl Amendment.amend find) where
  fits := List.foldlRecOn (motive := fun find => ∀ key h, find key = some h → Fits ns key h) (amendments ns)
    Amendment.amend fits fun _ fits amendment inside => fits_amend other fits (amendments_suit other amendment inside)
  holds _ inside := holds_foldl_amend (.inr inside)

/-! ## What keys lead to -/

/-- A handler sends values through one stage, perhaps several times. The stage for
    properties is there once, and wraps the callbacks among them. -/
structure Performs (h : Handler) (pipeline : Pipeline Stage) (s : Stage) : Prop where
  staged : h.preprocess = some pipeline
  only : ∀ s' ∈ pipeline.toList, s' = s
  properties : s = .properties → pipeline = .stage .properties ∧ ∀ name,
    (name ∈ templateCallbacks → ∃ wraps, (h.properties.getD .empty).get? name = some wraps ∧
      ∀ p ∈ wraps.toList, p = .references) ∧
    (name ∉ templateCallbacks → (h.properties.getD .empty).get? name = none)

/-- What a key leads to does what its stage does, or nothing if it has none. -/
def Leads (ns key : Text) (h : Option Handler) : Prop :=
  match stage? ns key with
  | some s => ∃ h' pipeline, h = some h' ∧ Performs h' pipeline s
  | none => h.bind Handler.preprocess = none

theorem mem_amendments_of_ownStage? {key : Text} {s : Stage} (own : ownStage? ns key = some s)
    (plain : s ≠ .properties) : (key, .stage s) ∈ amendments ns := by
  rcases ownStage?_cases own with ⟨rfl, listed⟩ | ⟨rfl, listed⟩ | ⟨rfl, listed⟩ | ⟨rfl, -⟩
  · by_cases same : key = ns
    · simp [amendments, same]
    · simp [amendments, same, listed.resolve_left same]
  · simp [amendments, listed]
  · simp [amendments, listed]
  · exact absurd rfl plain

theorem mem_amendments_of_memberPreprocessor? {key : Text} {p : Preprocessor}
    (given : memberPreprocessor? ns key = some p) : (key, .member p) ∈ amendments ns := by
  rcases memberPreprocessor?_cases given with ⟨rfl, same⟩ | ⟨rfl, same⟩
  · simp [amendments, same]
  · simp [amendments, same]

/-- The template directive preprocesses its callbacks, and nothing else. -/
theorem performs_template (setUp : SetUp ns find) :
    ∃ h pipeline, find (lit "template") = some h ∧ Performs h pipeline .properties := by
  have held (name : Text) (listed : name ∈ templateCallbacks) :
      ∃ h, find (lit "template") = some h ∧ .references ∈ h.propertyStages name :=
    setUp.holds (lit "template", .property name .references) (by simp [amendments, listed])
  obtain ⟨h, found, inside⟩ := held (lit "afterAdd") (by decide)
  have fits := setUp.fits _ h found
  cases tabled : h.properties with
  | none => simp [Handler.propertyStages, tabled] at inside
  | some table =>
    have staged := fits.template rfl
    rw [tabled, Option.map_some] at staged
    refine ⟨h, .stage .properties, found, staged, ?_,
      fun _ => ⟨rfl, fun name => ⟨fun listed => ?_, fun unlisted => ?_⟩⟩⟩
    · simp [Pipeline.toList]
    · obtain ⟨h', found', inside⟩ := held name listed
      rw [found, Option.some.injEq] at found'
      subst found'
      have properties := fits.properties name
      simp only [Handler.propertyStages, tabled, Option.bind_some, Option.getD_some] at inside properties ⊢
      cases own : table.get? name with
      | none => simp [own] at inside
      | some wraps =>
        rw [own] at properties
        exact ⟨wraps, rfl, fun p stands => (properties p stands).2⟩
    · have properties := fits.properties name
      simp only [Handler.propertyStages, tabled, Option.bind_some, Option.getD_some] at properties ⊢
      cases own : table.get? name with
      | none => rfl
      | some wraps =>
        -- Pipelines are never empty, and this one would hold what is not meant for it.
        rw [own] at properties
        obtain ⟨p, stands⟩ := List.exists_mem_of_ne_nil _ wraps.toList_ne_nil
        exact absurd (properties p stands).1 unlisted

/-- A key with a stage of its own leads to a handler that performs it. -/
theorem performs_own (setUp : SetUp ns find) {key : Text} {s : Stage}
    (own : ownStage? ns key = some s) : ∃ h pipeline, find key = some h ∧ Performs h pipeline s := by
  by_cases isProperties : s = .properties
  · subst isProperties
    obtain rfl : key = lit "template" := by simpa using ownStage?_cases own
    exact performs_template setUp
  · obtain ⟨h, found, inside⟩ := setUp.holds _ (mem_amendments_of_ownStage? own isProperties)
    obtain ⟨pipeline, staged, only⟩ := exists_pipeline ((setUp.fits key h found).only_stage own) inside
    exact ⟨h, pipeline, found, staged, only, fun same => absurd same isProperties⟩

theorem ownStage?_divided (undivided : '.' ∉ ns) {key : Text} (divided : '.' ∈ key) : ownStage? ns key = none := by
  have listed : ∀ key ∈ memberDirectives ++ filterDirectives ++ callbackDirectives ++ [lit "template"], '.' ∉ key := by
    decide
  have unlisted : key ∉ memberDirectives ++ filterDirectives ++ callbackDirectives ++ [lit "template"] :=
    fun inside => listed key inside divided
  simp only [List.mem_append, List.mem_singleton, not_or] at unlisted
  obtain ⟨⟨⟨members, filters⟩, callbacks⟩, template⟩ := unlisted
  have other : key ≠ ns := fun same => undivided (same ▸ divided)
  rw [ownStage?, if_neg (not_or.mpr ⟨other, members⟩), if_neg filters, if_neg callbacks, if_neg template]

end Standard

namespace Registry

open Standard

variable {r : Registry} {ns key : Text}

theorem Tidy.handlerOf_undivided (tidy : r.Tidy) (undivided : '.' ∉ key) : r.handlerOf key = r.registered key := by
  rw [handlerOf, registered]
  cases stands : r.entries.get? key with
  | some e => rfl
  | none =>
    rw [tidy.divider, Tidy.splitKey? undivided]
    rfl

theorem Tidy.handlerOf_divided (tidy : r.Tidy) (divided : '.' ∈ key) : r.handlerOf key =
    match Registry.splitKey? (lit ".") key with
    | some (ns, member) => (r.registered ns).map fun h => memberHandler h member
    | none => none := by
  have missing : r.entries.get? key = none := by
    rw [Option.eq_none_iff_forall_ne_some]
    exact fun e stands => tidy.whole key e stands divided
  rw [handlerOf, missing, tidy.divider]
  cases Registry.splitKey? (lit ".") key with
  | none => rfl
  | some parts =>
    dsimp only
    rw [registered, Option.map_map]
    rfl

/-- In a registry that is set up, every key leads to what its stage does. -/
theorem Tidy.leads (tidy : r.Tidy) (undivided : '.' ∉ ns)
    (setUp : SetUp ns r.registered) (key : Text) : Leads ns key (r.handlerOf key) := by
  unfold Leads stage?
  cases split : Registry.splitKey? (lit ".") key with
  | none =>
    dsimp only
    -- A key may hold a divider and still not be cut at it.
    by_cases divided : '.' ∈ key
    · rw [tidy.handlerOf_divided divided, split, ownStage?_divided undivided divided]
      rfl
    · rw [tidy.handlerOf_undivided divided]
      cases own : ownStage? ns key with
      | some s =>
        obtain ⟨h, pipeline, found, performs⟩ := performs_own setUp own
        exact ⟨h, pipeline, found, performs⟩
      | none =>
        cases found : r.registered key with
        | none => rfl
        | some h =>
          exact (setUp.fits key h found).preprocess_eq_none own
  | some parts =>
    obtain ⟨ns', member⟩ := parts
    have divided : '.' ∈ key := by
      obtain ⟨whole, -, -⟩ := splitKey?_eq_some split
      simp [whole, lit]
    rw [tidy.handlerOf_divided divided, split]
    dsimp only
    cases given : memberPreprocessor? ns ns' with
    | some p =>
      obtain ⟨h, found, inside⟩ := setUp.holds _ (mem_amendments_of_memberPreprocessor? given)
      obtain ⟨pipeline, staged, only⟩ := (setUp.fits ns' h found).only_member given inside member
      exact ⟨memberHandler h member, pipeline, by rw [found]; rfl, staged, only, nofun⟩
    | none =>
      cases found : r.registered ns' with
      | none => rfl
      | some h => exact (setUp.fits ns' h found).memberHandler_preprocess_eq_none given member

end Registry
end Bindmark
