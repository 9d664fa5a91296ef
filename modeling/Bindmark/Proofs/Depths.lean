import Bindmark.Directive.Preprocess
import Bindmark.Proofs.Keeping

/-!
# How deep directives are added

One more level only matters to preprocessing that was given up for want of it: all
other runs are the same, whatever they end with.
-/

namespace Bindmark
namespace Work

variable {α β σ : Type}

/-! ## Work that goes deeper -/

/-- From every state, one piece of work is given up as too deep, or another one runs
    in the same way. -/
def Deepens (w w' : Work α) : Prop := ∀ st, (∃ st', w st = .error .tooDeep st') ∨ w' st = w st

theorem Deepens.refl (w : Work α) : Deepens w w := fun _ => .inr rfl

theorem Deepens.bind {w w' : Work α} {next next' : α → Work β} (first : Deepens w w')
    (rest : ∀ a, Deepens (next a) (next' a)) : Deepens (w >>= next) (w' >>= next') := by
  intro st
  rcases first st with ⟨st', deep⟩ | same
  · exact .inl ⟨st', bind_error deep⟩
  · rw [bind_apply, bind_apply, same]
    cases ran : w st with
    | ok a st' => exact rest a st'
    | error e st' => exact .inr rfl

/-- The same for work that carries more along. -/
def DeepensCarrying (w w' : StateT σ Work α) : Prop := ∀ carried, Deepens (w.run carried) (w'.run carried)

namespace DeepensCarrying

theorem refl (w : StateT σ Work α) : DeepensCarrying w w := fun _ => .refl _

theorem bind {w w' : StateT σ Work α} {next next' : α → StateT σ Work β} (first : DeepensCarrying w w')
    (rest : ∀ a, DeepensCarrying (next a) (next' a)) : DeepensCarrying (w >>= next) (w' >>= next') :=
  fun carried => (first carried).bind fun result => rest result.1 result.2

theorem lift {w w' : Work α} (deepens : Deepens w w') :
    DeepensCarrying (w : StateT σ Work α) (w' : StateT σ Work α) :=
  fun _ => deepens.bind fun _ => .refl _

theorem forM {f f' : α → StateT σ Work PUnit} (each : ∀ a, DeepensCarrying (f a) (f' a)) :
    ∀ as : List α, DeepensCarrying (as.forM f) (as.forM f')
  | [] => refl _
  | a :: as => (each a).bind fun _ => forM each as

theorem through {τ : Type} {truthy : α → Bool} {call call' : τ → α → StateT σ Work α}
    (each : ∀ stage a, DeepensCarrying (call stage a) (call' stage a)) (pipeline : Pipeline τ) :
    ∀ a, DeepensCarrying (pipeline.through truthy call a) (pipeline.through truthy call' a) := by
  induction pipeline with
  | stage stage => exact each stage
  | andThen first second ihFirst ihSecond =>
    intro a
    refine (ihFirst a).bind fun result => ?_
    by_cases holds : truthy result = true
    · rw [if_pos holds, if_pos holds]
      exact ihSecond result
    · rw [if_neg holds, if_neg holds]
      exact refl _

end DeepensCarrying
end Work

namespace Directive

open Work

section
variable {add add' : Adder} (deepens : ∀ p, Deepens (add p) (add' p))
include deepens

theorem give_deepens (p : Pair) : DeepensCarrying (give add p) (give add' p) :=
  (DeepensCarrying.lift (deepens p)).bind fun _ => .refl _

theorem apply_deepens (key : Text) (p : Preprocessor) (d : Datum) :
    DeepensCarrying (apply add key p d) (apply add' key p d) := by
  cases p with
  | client c =>
    exact (DeepensCarrying.refl _).bind fun _ =>
      (DeepensCarrying.forM (give_deepens deepens) _).bind fun _ => .refl _
  | _ => exact .refl _

theorem splitMembers_deepens (key t : Text) :
    DeepensCarrying (splitMembers add key t) (splitMembers add' key t) := by
  unfold splitMembers
  split
  · exact (DeepensCarrying.refl _).bind fun _ =>
      (DeepensCarrying.forM (fun p => give_deepens deepens _) _).bind fun _ => .refl _
  · exact .refl _

theorem propertyValue_deepens (table : Table (Pipeline Preprocessor)) (p : Pair) :
    DeepensCarrying (propertyValue add table p) (propertyValue add' table p) := by
  unfold propertyValue
  split
  · exact .through (fun stage d => apply_deepens deepens p.key stage d) _ _
  · exact .refl _

theorem propertyValues_deepens (table : Table (Pipeline Preprocessor)) :
    ∀ ps : List Pair, DeepensCarrying (propertyValues add table ps) (propertyValues add' table ps)
  | [] => .refl _
  | p :: rest =>
    (propertyValue_deepens deepens table p).bind fun _ =>
      (propertyValues_deepens table rest).bind fun _ => .refl _

theorem preprocessProperties_deepens (h : Handler) (t : Text) :
    DeepensCarrying (preprocessProperties add h t) (preprocessProperties add' h t) := by
  unfold preprocessProperties
  split
  · exact (propertyValues_deepens deepens _ _).bind fun _ => .refl _
  · exact .refl _

theorem runStage_deepens (h : Handler) (key : Text) (stage : Stage) (d : Datum) :
    DeepensCarrying (runStage add h key stage d) (runStage add' h key stage d) := by
  cases stage with
  | apply p => exact apply_deepens deepens key p d
  | members => exact (DeepensCarrying.refl _).bind fun t => splitMembers_deepens deepens key t
  | properties =>
    exact (DeepensCarrying.refl _).bind fun t => (preprocessProperties_deepens deepens h t).bind fun _ => .refl _

theorem preprocess_deepens (h : Handler) (key : Text) (pipeline : Pipeline Stage) (d : Datum) :
    Deepens (preprocess add h key pipeline d) (preprocess add' h key pipeline d) :=
  DeepensCarrying.through (runStage_deepens deepens h key) pipeline d []

end

/-- With one more level, a directive comes to the same unless there were too few. -/
theorem expand_deepens : ∀ (depth : Nat) (p : Pair), Deepens (expand depth p) (expand (depth + 1) p)
  | 0, _ => fun st => .inl ⟨st, rfl⟩
  | depth + 1, p => by
    refine (Deepens.refl _).bind fun entry => ?_
    split
    · exact (preprocess_deepens (expand_deepens depth) _ _ _ _).bind fun _ => .refl _
    · exact .refl _

theorem expandAll_deepens (depth : Nat) : ∀ ps : List Pair, Deepens (expandAll depth ps) (expandAll (depth + 1) ps)
  | [] => .refl _
  | p :: rest => (expand_deepens depth p).bind fun _ => (expandAll_deepens depth rest).bind fun _ => .refl _

end Directive
end Bindmark
