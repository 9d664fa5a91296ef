import Bindmark.Proofs.Pipelines

/-!
# First answers

A question goes to the stages of a pipeline in order, until one has a truthy
answer. It goes through them as a value does, with answers taken the other way
round and nothing passed on: however stages are put together, they are asked in
order, all with the same question. The calls are those of the stages that
decline and of one more stage, whose answer is the answer.
-/

namespace Bindmark.Pipeline

variable {σ β ν κ ε : Type}

section
variable {m : Type → Type} [Monad m] (truthy : β → Bool) (call : σ → m β)

/-- A question goes through a pipeline as a value that is not handed on goes through
    it, which a truthy answer stops. -/
theorem firstAnswer_eq_through (pipeline : Pipeline σ) (answer : β) :
    pipeline.firstAnswer truthy call = pipeline.through (fun b => !truthy b) (fun s _ => call s) answer := by
  induction pipeline generalizing answer with
  | stage s => rfl
  | andThen first second ihFirst ihSecond =>
    rw [firstAnswer, through, ihFirst answer]
    congr 1
    funext answer'
    rw [ihSecond answer']
    cases truthy answer' <;> rfl

/-- Asking a pipeline is asking its stages, in order. -/
theorem firstAnswer_eq_linear [LawfulMonad m] (pipeline : Pipeline σ) (answer : β) :
    pipeline.firstAnswer truthy call = linear (fun b => !truthy b) (fun s _ => call s) pipeline.toList answer := by
  rw [firstAnswer_eq_through truthy call pipeline answer, through_eq_linear]

end

/-! ## The calls that are made -/

/-- A stage is asked about a node, with further arguments; the call is noted before the
    stage answers or gives up. -/
def noted (respond : σ → ν → κ → Except ε β) (node : ν) (arguments : κ) (s : σ) :
    EStateM ε (List (σ × ν × κ)) β := do
  modify (· ++ [(s, node, arguments)])
  match respond s node arguments with
  | .ok answer => pure answer
  | .error e => throw e

/-- How asking ends: with an answer or an error, and with the calls made. -/
def answered (outcome : Except ε β) (calls : List (σ × ν × κ)) : EStateM.Result ε (List (σ × ν × κ)) β :=
  match outcome with
  | .ok answer => .ok answer calls
  | .error e => .error e calls

/-- A stage returns, with a falsy answer. -/
def Declines (truthy : β → Bool) (respond : σ → ν → κ → Except ε β) (node : ν) (arguments : κ) (s : σ) : Prop :=
  ∃ answer, respond s node arguments = .ok answer ∧ truthy answer = false

section
variable {truthy : β → Bool} {respond : σ → ν → κ → Except ε β} {node : ν} {arguments : κ}

theorem run_noted (s : σ) (calls : List (σ × ν × κ)) :
    (noted respond node arguments s).run calls =
      answered (respond s node arguments) (calls ++ [(s, node, arguments)]) := by
  unfold noted
  cases respond s node arguments <;> rfl

/-- Stages are asked up to the first that does not decline, or to the last. -/
theorem exists_answering (truthy : β → Bool) (respond : σ → ν → κ → Except ε β) (node : ν) (arguments : κ)
    {stages : List σ} (some_ : stages ≠ []) (calls : List (σ × ν × κ)) (answer : β) :
    ∃ before s after, stages = before ++ s :: after ∧ (∀ b ∈ before, Declines truthy respond node arguments b) ∧
      (Declines truthy respond node arguments s → after = []) ∧
      (linear (fun b => !truthy b) (fun s _ => noted respond node arguments s) stages answer).run calls =
        answered (respond s node arguments) (calls ++ (before ++ [s]).map fun s => (s, node, arguments)) := by
  induction stages generalizing calls answer with
  | nil => exact absurd rfl some_
  | cons s rest ih =>
    have asked : (noted respond node arguments s).run calls =
        answered (respond s node arguments) (calls ++ [(s, node, arguments)]) := run_noted s calls
    cases returned : respond s node arguments with
    | error e =>
      rw [returned] at asked
      refine ⟨[], s, rest, rfl, nofun, fun ⟨_, same, _⟩ => ?_, ?_⟩
      · rw [returned] at same
        cases same
      · rw [linear_cons, run_bind_of_error asked, returned]
        rfl
    | ok answer' =>
      rw [returned] at asked
      cases isTruthy : truthy answer' with
      | true =>
        refine ⟨[], s, rest, rfl, nofun, fun ⟨_, same, falsy⟩ => ?_, ?_⟩
        · rw [returned] at same
          cases same
          rw [isTruthy] at falsy
          cases falsy
        · rw [linear_cons, run_bind_of_ok asked, returned, isTruthy]
          rfl
      | false =>
        have declines : Declines truthy respond node arguments s := ⟨answer', returned, isTruthy⟩
        by_cases last : rest = []
        · subst last
          refine ⟨[], s, [], rfl, nofun, fun _ => rfl, ?_⟩
          rw [linear_cons, run_bind_of_ok asked, returned, isTruthy]
          rfl
        · obtain ⟨before, t, after, split, declined, ends, ran⟩ := ih last (calls ++ [(s, node, arguments)]) answer'
          refine ⟨s :: before, t, after, by rw [split, List.cons_append], ?_, ends, ?_⟩
          · exact List.forall_mem_cons.mpr ⟨declines, declined⟩
          · rw [linear_cons, run_bind_of_ok asked, isTruthy]
            simpa using ran

/-- Stages that are put together in any way are asked in order, all with the same node
    and arguments, up to the first that does not decline, or to the last. The answer
    is that of the stage that was asked last. -/
theorem firstAnswer_folded {stages : List σ} {pipeline : Pipeline σ} (folded : Folded stages (some pipeline))
    (answer : β) :
    (∃ before s after, stages = before ++ s :: after ∧ (∀ b ∈ before, Declines truthy respond node arguments b) ∧
      (Declines truthy respond node arguments s → after = []) ∧
      (pipeline.firstAnswer truthy (noted respond node arguments)).run [] =
        answered (respond s node arguments) ((before ++ [s]).map fun s => (s, node, arguments))) ∧
    ∀ (m : Type → Type) [Monad m] [LawfulMonad m] (call : σ → m β),
      pipeline.firstAnswer truthy call = linear (fun b => !truthy b) (fun s _ => call s) stages answer := by
  obtain rfl : pipeline.toList = stages := folded_iff.mp folded
  refine ⟨?_, fun m _ _ call => firstAnswer_eq_linear truthy call pipeline answer⟩
  obtain ⟨before, s, after, split, declined, ends, ran⟩ :=
    exists_answering truthy respond node arguments pipeline.toList_ne_nil [] answer
  refine ⟨before, s, after, split, declined, ends, ?_⟩
  rw [firstAnswer_eq_linear truthy _ pipeline answer, ran, List.nil_append]

end
end Bindmark.Pipeline
