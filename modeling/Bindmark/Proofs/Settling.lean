import Bindmark.Proofs.History
import Bindmark.Proofs.Rewriting

/-!
# What a start settles

A compiler may have looked keys up, counted and logged since it was configured.
What comes of compiling is settled before that, by the start: from every state
that the start leads to, the same work ends with the same value or the same
fault.
-/

namespace Bindmark

open Work

variable {start : State}

/-! ## Two states of one start -/

/-- Two states that a start leads to. -/
def Alongside (start st st' : State) : Prop := Reached start st ∧ Reached start st'

/-- A key leads to the same handler in two states of one start. -/
theorem Alongside.lookup (plain : start.registry.Plain) (key : Text) {st st' : State} (left : Reached start st)
    (right : Reached start st') :
    ∃ entry entry' t t', Registry.lookup key st = .ok entry t ∧ Registry.lookup key st' = .ok entry' t' ∧
      Alongside start t t' ∧ entry.map Entry.handler = entry'.map Entry.handler ∧
      (entry.isSome → t.registry.isVirtual key = t'.registry.isVirtual key) := by
  obtain ⟨entry, entry', r, r', events, events', ran, ran', -, -, grown, grown', same, permitted⟩ :=
    Registry.lookup_both plain key left.grown right.grown
  exact ⟨entry, entry', _, _, ran, ran', ⟨⟨grown, left.nodeStages⟩, ⟨grown', right.nodeStages⟩⟩, same, permitted⟩

/-- Compiling repeats itself in all the states that a plain start leads to. -/
theorem Alongside.mirrorsDocuments (plain : start.registry.Plain) : MirrorsDocuments (Alongside start) where
  log e := fun _ _ ⟨left, right⟩ => ⟨rfl, ⟨left.grown, left.nodeStages⟩, ⟨right.grown, right.nodeStages⟩⟩
  trace c := fun _ _ ⟨left, right⟩ => ⟨rfl, ⟨left.grown, left.nodeStages⟩, ⟨right.grown, right.nodeStages⟩⟩
  count f := fun _ _ ⟨left, right⟩ => ⟨rfl, ⟨left.grown, left.nodeStages⟩, ⟨right.grown, right.nodeStages⟩⟩
  lookup key := by
    rintro st st' ⟨left, right⟩
    obtain ⟨entry, entry', t, t', ran, ran', after, same, -⟩ := lookup plain key left right
    rw [ran, ran']
    exact ⟨same, after⟩
  barred key := by
    rintro st st' ⟨left, right⟩
    obtain ⟨entry, entry', t, t', ran, ran', after, same, permitted⟩ := lookup plain key left right
    exact isBarred_agree ran ran' same permitted after
  divider := fun _ _ ⟨left, right⟩ => left.grown.divider.trans right.grown.divider.symm
  depthLimit := fun _ _ ⟨left, right⟩ => left.grown.depthLimit.trans right.grown.depthLimit.symm
  nodeStages := fun _ _ ⟨left, right⟩ => left.nodeStages.trans right.nodeStages.symm

/-! ## Settled work -/

section
variable {α β : Type}

theorem ok_of_bind {r : Except Fault α} {f : α → Except Fault β} {b : β} (ended : r >>= f = .ok b) :
    ∃ a, r = .ok a ∧ f a = .ok b := by
  cases r with
  | error e => cases ended
  | ok a => exact ⟨a, rfl, ended⟩

/-- What work comes to at a start. -/
def settled (start : State) (w : Work α) : Except Fault α := (Compiler.outcome (w start)).1

/-- From every state that a start leads to, work comes to the same, in a state
    that the start leads to as well. -/
def Settles (start : State) (w : Work α) (r : Except Fault α) : Prop :=
  ∀ st, Reached start st → ∃ st', Compiler.outcome (w st) = (r, st') ∧ Reached start st'

theorem Settles.congr {w : Work α} {r r' : Except Fault α} (settles : Settles start w r) (same : r = r') :
    Settles start w r' := same ▸ settles

theorem Settles.pure (a : α) : Settles start (pure a) (.ok a) := fun st reached => ⟨st, rfl, reached⟩

theorem Settles.bind {w : Work α} {next : α → Work β} {r : Except Fault α} {f : α → Except Fault β}
    (first : Settles start w r) (rest : ∀ a, Settles start (next a) (f a)) : Settles start (w >>= next) (r >>= f) := by
  intro st reached
  obtain ⟨st', ended, reached'⟩ := first st reached
  rw [bind_apply]
  cases ran : w st with
  | ok a t =>
    rw [ran] at ended
    cases ended
    exact rest a st' reached'
  | error e t =>
    rw [ran] at ended
    cases ended
    exact ⟨st', rfl, reached'⟩

/-- Work that repeats itself comes to what it comes to at the start. -/
theorem settles_of_repeats {w : Work α} (repeats : Repeats (Alongside start) w) :
    Settles start w (settled start w) := by
  intro st reached
  obtain ⟨same, left, -⟩ := (repeats st start ⟨reached, .refl start⟩).outcome
  exact ⟨(Compiler.outcome (w st)).2, Prod.ext same rfl, left⟩

/-- Work that returns from the start settles what it gives. -/
theorem settled_eq_ok {P : State → Prop} {Q : α → Prop} {w : Work α} (gives : Gives P w Q) (has : P start) :
    ∃ a, settled start w = .ok a ∧ Q a := by
  obtain ⟨a, st', ran, -, holds⟩ := gives start has
  exact ⟨a, by rw [settled, ran]; rfl, holds⟩

end

/-! ## Settled documents -/

namespace Rewriting

theorem rewriteNodes_repeats (plain : start.registry.Plain) (standard : start.nodeStages = some Standard.nodeStages)
    (s : Settings) (parent : Text) (nodes : List Node) :
    Repeats (Alongside start) (rewriteNodes s parent nodes) := by
  intro st st' related
  have compiled := (Alongside.mirrorsDocuments plain).compileNodes s parent nodes st st' related
  rwa [compileNodes_eq_rewriteNodes s parent nodes (related.1.nodeStages.trans standard),
    compileNodes_eq_rewriteNodes s parent nodes (related.2.nodeStages.trans standard)] at compiled

theorem rewriteAttributes_repeats (plain : start.registry.Plain) (s : Settings) (tag : Text)
    (attributes : Table AttributeValue) : Repeats (Alongside start) (rewriteAttributes s tag attributes) := by
  have mirrors := Alongside.mirrorsDocuments plain
  refine (mirrors.moveAttributes s tag _ attributes).bind fun moved => ?_
  split
  · refine (Mirrors.directivesOf? s moved).bind fun directives => ?_
    cases directives with
    | none => exact Repeats.pure _
    | some t => exact (mirrors.preprocessText t).bind fun _ => (mirrors.count _).bind fun _ => Repeats.pure _
  · exact Repeats.pure moved

/-- What compiling comes to in a state that is reached is what rewriting settles. -/
theorem compileTree_of_reached {c : Compiler} (standard : start.nodeStages = some Standard.nodeStages)
    (reached : Reached start c.state) {nodes : List Node} {r : Except Fault (List Node)}
    (settles : Settles start (rewriteNodes c.settings Document.rootTag nodes) r) : (c.compileTree nodes).1 = r := by
  have cleared : Reached start c.cleared := ⟨reached.grown, reached.nodeStages⟩
  obtain ⟨st', ended, -⟩ := settles c.cleared cleared
  have same : Document.compileNodes c.settings Document.rootTag nodes c.cleared =
      rewriteNodes c.settings Document.rootTag nodes c.cleared :=
    compileNodes_eq_rewriteNodes _ _ _ (reached.nodeStages.trans standard)
  rw [(c.compileTree_apply nodes).1, same, ended]

theorem compileTree_of_settles {c : Compiler} (standard : c.state.nodeStages = some Standard.nodeStages)
    {nodes : List Node} {r : Except Fault (List Node)}
    (settles : Settles c.state (rewriteNodes c.settings Document.rootTag nodes) r) : (c.compileTree nodes).1 = r :=
  compileTree_of_reached standard (.refl _) settles

end Rewriting

namespace Compiler

variable {s : Settings} {verbosity : Option Int} {c : Compiler}

theorem settings_make (made : make s verbosity true = .ok c) : c.settings = s := by
  unfold make at made
  obtain ⟨r, -, made⟩ := ok_of_bind made
  unfold ofRegistry at made
  dsimp only at made
  split at made
  · cases made
    rfl
  · cases made

theorem nodeStages_make (made : make s verbosity true = .ok c) : c.state.nodeStages = some Standard.nodeStages := by
  unfold make at made
  obtain ⟨r, -, made⟩ := ok_of_bind made
  exact Rewriting.nodeStages_ofRegistry s verbosity r made

theorem nodeStages_standard : standard.state.nodeStages = some Standard.nodeStages := by
  have returns : (outcome (Standard.install {} Standard.bareState)).1.toOption.isSome = true := by decide +kernel
  cases ran : Standard.install {} Standard.bareState with
  | error e st =>
    rw [ran] at returns
    cases returns
  | ok u st =>
    rw [standard, stateAfter_ok ran]
    exact Rewriting.nodeStages_install {} rfl ran

/-- Work that returns from a plain start, and repeats itself in all the states that
    the start leads to, returns after any jobs. -/
theorem run_after_of_gives {α : Type} {P : State → Prop} {Q : α → Prop} {w : Work α} (plain : c.state.registry.Plain)
    (repeats : Repeats (Alongside c.state) w) (gives : Gives P w Q) (has : P c.state) (jobs : List Job) :
    ∃ a, ((c.after jobs).run w).1 = .ok a ∧ Q a := by
  have reached := reached_after plain jobs c (.refl c.state)
  obtain ⟨a, ended, holds⟩ := settled_eq_ok gives has
  obtain ⟨st', ran, -⟩ := settles_of_repeats repeats { (c.after jobs).state with calls := [], journal := [] }
    ⟨reached.grown, reached.nodeStages⟩
  refine ⟨a, ?_, holds⟩
  rw [run, ran, ended]

end Compiler
end Bindmark
