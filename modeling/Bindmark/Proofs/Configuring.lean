import Bindmark.Compiler.Basic
import Bindmark.Proofs.LookingUp

/-!
# Configuring a registry

Configuring looks keys up, registers handlers, permits keys in comment markers
and changes handlers that are registered; no change touches how the members of
a namespace are made, apart from the preprocessors that they get. A relation
between states that those four stay within is one that every step in configuring
stays within, and the standard setup with them.
-/

namespace Bindmark

/-! ## Changes of handlers -/

namespace Handler

/-- A changed handler makes the handlers of members as before, apart from
    preprocessors that they get as well. -/
structure Extends (h h' : Handler) : Prop where
  source : h'.synthesisOf.source = h.synthesisOf.source
  added : h.synthesisOf.added <+: h'.synthesisOf.added

namespace Extends

variable {h h' h'' : Handler}

theorem refl (h : Handler) : h.Extends h := ⟨rfl, List.prefix_refl _⟩

theorem trans (first : h.Extends h') (second : h'.Extends h'') : h.Extends h'' :=
  ⟨second.source.trans first.source, first.added.trans second.added⟩

theorem of_synthesis (same : h'.synthesis = h.synthesis) : h.Extends h' := by
  have kept : h'.synthesisOf = h.synthesisOf := by rw [synthesisOf, same, synthesisOf]
  exact ⟨congrArg Synthesis.source kept, kept ▸ List.prefix_refl _⟩

theorem addPreprocessor (h : Handler) (p : Preprocessor) : h.Extends (h.addPreprocessor p) := of_synthesis rfl

theorem addStage (h : Handler) (s : Stage) : h.Extends (h.addStage s) := of_synthesis rfl

theorem addMemberPreprocessor (h : Handler) (p : Preprocessor) : h.Extends (h.addMemberPreprocessor p) :=
  ⟨rfl, List.prefix_append _ _⟩

theorem addPropertyPreprocessor (h : Handler) (property : Text) (p : Preprocessor) :
    h.Extends (h.addPropertyPreprocessor property p) := by
  apply of_synthesis
  unfold Handler.addPropertyPreprocessor
  cases h.properties <;> rfl

theorem addAfter (h : Handler) (earlier : Text) :
    h.Extends (if h.after.contains earlier then h else { h with after := h.after ++ [earlier] }) := by
  split
  · exact .refl h
  · exact of_synthesis rfl

end Extends

namespace DerivesMembers

variable {h h' : Handler}

theorem empty : ({} : Handler).DerivesMembers := nofun

theorem extend (derives : h.DerivesMembers) (extends_ : h.Extends h') : h'.DerivesMembers := by
  rw [derivesMembers_iff] at derives ⊢
  rw [extends_.source, derives]

theorem memberHandler (derives : h.DerivesMembers) (member : Text) :
    (Standard.memberHandler h member).DerivesMembers := by
  have added (ps : List Preprocessor) (h : Handler) (derives : h.DerivesMembers) :
      (ps.foldl Handler.addPreprocessor h).DerivesMembers := by
    induction ps generalizing h with
    | nil => exact derives
    | cons p ps ih => exact ih _ derives
  exact added _ (h.derive member) derives

end DerivesMembers
end Handler

/-- What the standard setup does with the registry once the attribute namespace is
    there. -/
def Standard.installDirectives (s : Settings) : Work Unit := do
  (memberDirectives.filter (· != s.attributeNamespace)).forM Registry.splitMembers
  let r ← Work.registry
  Registry.addAfter (lit "checked") (s.attributeNamespace ++ r.divider ++ lit "value")
  filterDirectives.forM addFilters
  Registry.addMemberPreprocessor s.attributeNamespace .filters
  callbackDirectives.forM addReferences
  Registry.addMemberPreprocessor (lit "event") .references
  templateCallbacks.forM addTemplateCallback

/-- The standard setup of a compiler ended in the state that the compiler has. -/
theorem Standard.install_ofRegistry {s : Settings} {verbosity : Option Int} {r : Registry} {c : Compiler}
    (made : Compiler.ofRegistry s verbosity true r = .ok c) : ∃ u, install s { registry := r } = .ok u c.state := by
  unfold Compiler.ofRegistry at made
  simp only [if_true] at made
  cases installed : install s { registry := r } with
  | ok u st =>
    rw [installed] at made
    cases made
    exact ⟨u, rfl⟩
  | error e st =>
    rw [installed] at made
    cases made

theorem Standard.install_eq_installDirectives (s : Settings) : install s = (do
    interpolateTexts
    interpolateAttributes s
    installDirectives s) := rfl

namespace Work

/-! ## Steps in configuring -/

/-- A relation that configuring stays within, where namespaces derive their members. -/
structure Configures (R : State → State → Prop) : Prop extends Chains R where
  lookup : ∀ key, Within R (Registry.lookup key)
  storeNew : ∀ key h, h.DerivesMembers → Within R (Registry.storeNew key h)
  allowVirtual : ∀ key, Within R (Work.changeRegistry fun r => r.allowVirtual key)
  change : ∀ serial f, (∀ h : Handler, h.Extends (f h)) → Within R (Work.changeRegistry fun r => r.change serial f)

theorem Aside.configures {π : Type} {part : State → π} (aside : Aside part) : Configures (Keeps part) where
  toChains := Keeps.chains
  lookup key := (aside.looks key).lookup
  storeNew key h _ := (aside.looks key).storeNew h
  allowVirtual _ := aside.changeRegistry _
  change _ _ _ := aside.changeRegistry _

/-! ## Operations on a registry -/

/-- A relation that operations on a registry stay within: looking up, registering
    an empty handler where there is none, and changing handlers in a way that only
    adds to how namespaces make those of their members. -/
structure Operates (R : State → State → Prop) : Prop extends Chains R where
  lookup : ∀ key, Within R (Registry.lookup key)
  getOrCreate : ∀ key, Within R (Registry.getOrCreate key)
  change : ∀ serial f, (∀ h : Handler, h.Extends (f h)) → Within R (Work.changeRegistry fun r => r.change serial f)

variable {R : State → State → Prop}

theorem Chains.register (chains : Chains R) {key : Text} {h : Handler}
    (stored : key ≠ [] → Within R (Registry.storeNew key h))
    (allowed : key ≠ [] → Within R (Work.changeRegistry fun r => r.allowVirtual key)) (isVirtual : Bool) :
    Within R (Registry.register key h isVirtual) := by
  cases key with
  | nil => exact chains.throw _
  | cons c rest =>
    refine chains.bind (stored (List.cons_ne_nil c rest)) fun _ => ?_
    cases isVirtual
    · exact chains.pure _
    · exact chains.bind (allowed (List.cons_ne_nil c rest)) fun _ => chains.pure _

theorem Chains.getOrCreate (chains : Chains R) {key : Text} (lookup : Within R (Registry.lookup key))
    (register : Within R (Registry.register key {} false)) : Within R (Registry.getOrCreate key) := by
  refine chains.bind lookup fun entry => ?_
  split
  · exact chains.pure _
  · exact register

namespace Configures

theorem register (configures : Configures R) (key : Text) {h : Handler} (derives : h.DerivesMembers)
    (isVirtual : Bool) : Within R (Registry.register key h isVirtual) :=
  configures.toChains.register (fun _ => configures.storeNew key h derives) (fun _ => configures.allowVirtual key)
    isVirtual

theorem operates (configures : Configures R) : Operates R where
  toChains := configures.toChains
  lookup := configures.lookup
  getOrCreate key := configures.toChains.getOrCreate (configures.lookup key) (configures.register key .empty false)
  change := configures.change

end Configures

namespace Operates

theorem changeHandler (operates : Operates R) (entry : Entry) {f : Handler → Handler}
    (extends_ : ∀ h : Handler, h.Extends (f h)) : Within R (Registry.changeHandler entry f) :=
  operates.bind (operates.change _ f extends_) fun _ =>
    operates.bind operates.registry fun _ => operates.pure _

theorem checkCallable (operates : Operates R) (p : Preprocessor) : Within R (Registry.checkCallable p) := by
  cases p with
  | notCallable given => exact operates.throw _
  | _ => exact operates.pure _

theorem addPreprocessorTo (operates : Operates R) (entry : Entry) (p : Preprocessor) :
    Within R (Registry.addPreprocessorTo entry p) :=
  operates.bind (operates.checkCallable p) fun _ => operates.changeHandler entry fun h => .addPreprocessor h p

theorem addPreprocessor (operates : Operates R) (key : Text) (p : Preprocessor) :
    Within R (Registry.addPreprocessor key p) :=
  operates.bind (operates.checkCallable p) fun _ =>
    operates.bind (operates.getOrCreate key) fun _ => operates.changeHandler _ fun h => .addPreprocessor h p

theorem splitMembers (operates : Operates R) (key : Text) : Within R (Registry.splitMembers key) :=
  operates.bind (operates.getOrCreate key) fun _ =>
    Within.discard (operates.changeHandler _ fun h => .addStage h .members)

theorem addMemberPreprocessor (operates : Operates R) (ns : Text) (p : Preprocessor) :
    Within R (Registry.addMemberPreprocessor ns p) := by
  refine operates.bind (operates.lookup ns) fun entry => ?_
  split
  · exact operates.pure _
  · exact Within.discard (operates.changeHandler _ fun h => .addMemberPreprocessor h p)

theorem addPropertyPreprocessor (operates : Operates R) (key property : Text) (p : Preprocessor) :
    Within R (Registry.addPropertyPreprocessor key property p) :=
  operates.bind (operates.checkCallable p) fun _ =>
    operates.bind (operates.getOrCreate key) fun _ =>
      operates.changeHandler _ fun h => .addPropertyPreprocessor h property p

theorem addAfter (operates : Operates R) (key earlier : Text) : Within R (Registry.addAfter key earlier) :=
  operates.bind (operates.getOrCreate key) fun _ =>
    Within.discard (operates.changeHandler _ fun h => .addAfter h earlier)

/-! ## The standard setup -/

theorem installDirectives (operates : Operates R) (s : Settings) : Within R (Standard.installDirectives s) :=
  operates.bind (operates.forM operates.splitMembers _) fun _ =>
    operates.bind operates.registry fun _ =>
    operates.bind (operates.addAfter _ _) fun _ =>
    operates.bind (operates.forM (fun key => .discard (operates.addPreprocessor key _)) _) fun _ =>
    operates.bind (operates.addMemberPreprocessor _ _) fun _ =>
    operates.bind (operates.forM (fun key => .discard (operates.addPreprocessor key _)) _) fun _ =>
    operates.bind (operates.addMemberPreprocessor _ _) fun _ =>
    operates.forM (fun property => .discard (operates.addPropertyPreprocessor _ property _)) _

theorem install (operates : Operates R) (staged : ∀ stage, Within R (Standard.addNodeStage stage)) (s : Settings) :
    Within R (Standard.install s) :=
  operates.bind (staged .texts) fun _ =>
    operates.bind (operates.bind (operates.splitMembers _) fun _ => staged .attributes) fun _ =>
      operates.installDirectives s

end Operates
end Work
end Bindmark
