/-!
# Pipelines

Functions that share one extension point run one after the other, in the
order in which they were added. A value goes through a pipeline until a stage
gives a falsy result. A question goes to the stages of a pipeline until one
gives a truthy answer.
-/

namespace Bindmark

/-- Stages one after the other, as they were put together. -/
inductive Pipeline (σ : Type) where
  | stage (s : σ)
  | andThen (first second : Pipeline σ)

namespace Pipeline
variable {σ : Type}

/-- What takes the place of `slot` when a pipeline is added behind it. -/
def chain (slot : Option (Pipeline σ)) (next : Pipeline σ) : Pipeline σ :=
  match slot with
  | none => next
  | some existing => .andThen existing next

def toList : Pipeline σ → List σ
  | .stage s => [s]
  | .andThen first second => first.toList ++ second.toList

def isStage : Pipeline σ → Bool
  | .stage _ => true
  | .andThen _ _ => false

variable {m : Type → Type} [Monad m]

/-- A value sent through the stages; the first falsy result is the result. -/
def through {α : Type} (truthy : α → Bool) (call : σ → α → m α) : Pipeline σ → α → m α
  | .stage s, a => call s a
  | .andThen first second, a => do
    let result ← through truthy call first a
    if truthy result then through truthy call second result else pure result

/-- The answer of the first stage whose answer is truthy, else that of the last. -/
def firstAnswer {β : Type} (truthy : β → Bool) (call : σ → m β) : Pipeline σ → m β
  | .stage s => call s
  | .andThen first second => do
    let answer ← firstAnswer truthy call first
    if truthy answer then pure answer else firstAnswer truthy call second

end Pipeline
end Bindmark
