import Bindmark.Pipeline
import Bindmark.Text.Basic
import Mathlib.Tactic.Common

/-!
# Pipelines in order

However stages are put together, what a value goes through is the list of the
stages (`linear`): grouping does not show in results, effects or errors. What
a value goes through is written down call by call in `Course`: every result
that is truthy is what the next stage is called with, and the first falsy
result or error is the end.
-/

namespace Bindmark.Pipeline

variable {σ α κ ε : Type} {m : Type → Type}

/-! ## Stages folded into a slot -/

/-- What a slot holds once a list of stages is folded into it, in any grouping:
    nothing at first, one stage as it is, and parts that are folded already one
    behind the other. -/
inductive Folded : List σ → Option (Pipeline σ) → Prop
  | empty : Folded [] none
  | stage (s : σ) : Folded [s] (some (.stage s))
  | chain {before after : List σ} {slot : Option (Pipeline σ)} {next : Pipeline σ} (first : Folded before slot)
      (second : Folded after (some next)) : Folded (before ++ after) (some (chain slot next))

/-- The stages in a slot, in order. -/
def stagesOf (slot : Option (Pipeline σ)) : List σ := slot.elim [] toList

theorem toList_chain (slot : Option (Pipeline σ)) (next : Pipeline σ) :
    (chain slot next).toList = stagesOf slot ++ next.toList := by
  cases slot <;> rfl

theorem toList_ne_nil (pipeline : Pipeline σ) : pipeline.toList ≠ [] := by
  induction pipeline with
  | stage s => simp [toList]
  | andThen first second ih _ => simp [toList, ih]

/-- Every grouping of a list of stages can be folded, and nothing else. -/
theorem folded_iff {stages : List σ} {slot : Option (Pipeline σ)} : Folded stages slot ↔ stagesOf slot = stages := by
  constructor
  · intro folded
    induction folded with
    | empty => rfl
    | stage s => rfl
    | @chain before after slot next _ _ first second =>
      show (Pipeline.chain slot next).toList = before ++ after
      rw [toList_chain, first, show next.toList = after from second]
  · rintro rfl
    cases slot with
    | none => exact .empty
    | some pipeline =>
      induction pipeline with
      | stage s => exact .stage s
      | andThen first second ihFirst ihSecond => exact .chain ihFirst ihSecond

/-- Stages that are added one by one. -/
def nestLeft (stages : List σ) : Option (Pipeline σ) := stages.foldl (fun slot s => some (chain slot (.stage s))) none

/-- Stages that are put in front one by one, from the last to the first. -/
def nestRight : List σ → Option (Pipeline σ)
  | [] => none
  | s :: rest => some ((nestRight rest).elim (.stage s) (chain (some (.stage s))))

theorem folded_nestLeft (stages : List σ) : Folded stages (nestLeft stages) := by
  have onto : ∀ slot : Option (Pipeline σ),
      stagesOf (stages.foldl (fun slot s => some (chain slot (.stage s))) slot) = stagesOf slot ++ stages := by
    induction stages with
    | nil => simp
    | cons s rest ih =>
      intro slot
      rw [List.foldl_cons, ih]
      simp [stagesOf, toList_chain, toList]
  exact folded_iff.mpr (onto none)

theorem folded_nestRight (stages : List σ) : Folded stages (nestRight stages) := by
  induction stages with
  | nil => exact .empty
  | cons s rest ih =>
    rw [nestRight]
    cases nested : nestRight rest with
    | none =>
      rw [nested] at ih
      rw [← folded_iff.mp ih]
      exact .stage s
    | some later => exact .chain (.stage s) (nested ▸ ih)

/-! ## The linear pipeline -/

/-- A value sent through a list of stages, called in order; the first falsy
    result is the result. -/
def linear [Monad m] (truthy : α → Bool) (call : σ → α → m α) : List σ → α → m α
  | [], a => pure a
  | s :: rest, a => do
    let result ← call s a
    if truthy result then linear truthy call rest result else pure result

theorem linear_cons [Monad m] (truthy : α → Bool) (call : σ → α → m α) (s : σ) (rest : List σ) (a : α) :
    linear truthy call (s :: rest) a =
      call s a >>= fun result => if truthy result then linear truthy call rest result else pure result := rfl

theorem linear_map [Monad m] {τ : Type} (truthy : α → Bool) (call : σ → α → m α) (f : τ → σ) (stages : List τ) (a : α) :
    linear truthy call (stages.map f) a = linear truthy (fun s => call (f s)) stages a := by
  induction stages generalizing a with
  | nil => rfl
  | cons s rest ih =>
    rw [List.map_cons, linear_cons, linear_cons]
    simp only [ih]

section
variable [Monad m] [LawfulMonad m] (truthy : α → Bool) (call : σ → α → m α)

theorem linear_singleton (s : σ) (a : α) : linear truthy call [s] a = call s a := by
  simp [linear]

/-- The stages of two lists: the second list is gone through from a truthy
    result of the first. -/
theorem linear_append (stages more : List σ) (nonempty : stages ≠ []) (a : α) :
    linear truthy call (stages ++ more) a =
      linear truthy call stages a >>= fun result =>
        if truthy result then linear truthy call more result else pure result := by
  induction stages generalizing a with
  | nil => exact absurd rfl nonempty
  | cons s rest ih =>
    -- The result of the last stage is only tested where more stages follow.
    cases rest with
    | nil => rw [linear_singleton, List.singleton_append, linear_cons]
    | cons t rest =>
      rw [List.cons_append, linear_cons, linear_cons, bind_assoc]
      congr 1
      funext result
      cases passed : truthy result with
      | true => simp only [↓reduceIte, ih (List.cons_ne_nil _ _)]
      | false => simp [passed]

/-- Sending a value through a pipeline is sending it through its stages. -/
theorem through_eq_linear (pipeline : Pipeline σ) (a : α) :
    pipeline.through truthy call a = linear truthy call pipeline.toList a := by
  induction pipeline generalizing a with
  | stage s => rw [toList, linear_singleton, through]
  | andThen first second ihFirst ihSecond =>
    rw [toList, linear_append _ _ _ _ first.toList_ne_nil, through, ihFirst]
    simp only [ihSecond]

end

/-! ## The calls that are made -/

/-- A stage called with a value and further arguments; the call is recorded
    before the stage returns or gives up. -/
def recorded (respond : σ → α → κ → Except ε α) (arguments : κ) (s : σ) (a : α) :
    EStateM ε (List (σ × α × κ)) α := do
  modify (· ++ [(s, a, arguments)])
  match respond s a arguments with
  | .ok result => pure result
  | .error e => throw e

/-- How a recording ends: with a result or an error, and with the calls made. -/
def ended (outcome : Except ε α) (calls : List (σ × α × κ)) : EStateM.Result ε (List (σ × α × κ)) α :=
  match outcome with
  | .ok result => .ok result calls
  | .error e => .error e calls

/-- The course of a value through a list of stages: the calls that are made and
    the outcome. -/
inductive Course (truthy : α → Bool) (respond : σ → α → κ → Except ε α) (arguments : κ) :
    List σ → α → List (σ × α × κ) → Except ε α → Prop
  /-- After the last stage the value is the result. -/
  | done (a : α) : Course truthy respond arguments [] a [] (.ok a)
  /-- A truthy result is what the rest of the stages start from. -/
  | passed {s : σ} {rest : List σ} {a result : α} {calls : List (σ × α × κ)} {outcome : Except ε α}
      (returned : respond s a arguments = .ok result) (kept : truthy result = true)
      (later : Course truthy respond arguments rest result calls outcome) :
      Course truthy respond arguments (s :: rest) a ((s, a, arguments) :: calls) outcome
  /-- A falsy result is the result, and no further stage is called. -/
  | stopped {s : σ} {rest : List σ} {a result : α} (returned : respond s a arguments = .ok result)
      (falsy : truthy result = false) :
      Course truthy respond arguments (s :: rest) a [(s, a, arguments)] (.ok result)
  /-- After an error no further stage is called. -/
  | raised {s : σ} {rest : List σ} {a : α} {e : ε} (gaveUp : respond s a arguments = .error e) :
      Course truthy respond arguments (s :: rest) a [(s, a, arguments)] (.error e)

section
variable {β τ : Type} {x : EStateM ε τ α} {before after : τ}

theorem run_bind_of_ok {result : α} (called : x.run before = .ok result after) (next : α → EStateM ε τ β) :
    (x >>= next).run before = (next result).run after := by
  simp only [EStateM.run, bind, EStateM.bind] at called ⊢
  rw [called]

theorem run_bind_of_error {e : ε} (called : x.run before = .error e after) (next : α → EStateM ε τ β) :
    (x >>= next).run before = .error e after := by
  simp only [EStateM.run, bind, EStateM.bind] at called ⊢
  rw [called]

end

section
variable {truthy : α → Bool} {respond : σ → α → κ → Except ε α} {arguments : κ} {stages : List σ} {a : α}

/-- Every value has a course through every list of stages. -/
theorem exists_course (truthy : α → Bool) (respond : σ → α → κ → Except ε α) (arguments : κ) (stages : List σ)
    (a : α) : ∃ calls outcome, Course truthy respond arguments stages a calls outcome := by
  induction stages generalizing a with
  | nil => exact ⟨_, _, .done a⟩
  | cons s rest ih =>
    cases returned : respond s a arguments with
    | error e => exact ⟨_, _, .raised returned⟩
    | ok result =>
      cases kept : truthy result with
      | false => exact ⟨_, _, .stopped returned kept⟩
      | true =>
        obtain ⟨calls, outcome, later⟩ := ih result
        exact ⟨_, _, .passed returned kept later⟩

/-- A recorded call adds itself to the calls made before, and ends as its stage does. -/
theorem run_recorded (respond : σ → α → κ → Except ε α) (arguments : κ) (s : σ) (a : α)
    (before : List (σ × α × κ)) :
    (recorded respond arguments s a).run before =
      ended (respond s a arguments) (before ++ [(s, a, arguments)]) := by
  unfold recorded
  cases respond s a arguments <;> rfl

/-- The linear pipeline makes the calls of the course, after those made before. -/
theorem Course.run_linear {calls : List (σ × α × κ)} {outcome : Except ε α}
    (course : Course truthy respond arguments stages a calls outcome) (before : List (σ × α × κ)) :
    (linear truthy (recorded respond arguments) stages a).run before = ended outcome (before ++ calls) := by
  induction course generalizing before with
  | done a =>
    rw [List.append_nil]
    rfl
  | @passed s rest a result calls outcome returned kept _ ih =>
    have called := run_recorded respond arguments s a before
    have next := ih (before ++ [(s, a, arguments)])
    rw [returned] at called
    rw [List.append_assoc, List.singleton_append] at next
    rw [linear_cons, run_bind_of_ok called, if_pos kept, next]
  | @stopped s rest a result returned falsy =>
    have called := run_recorded respond arguments s a before
    rw [returned] at called
    rw [linear_cons, run_bind_of_ok called, if_neg (Bool.eq_false_iff.mp falsy)]
    rfl
  | @raised s rest a e gaveUp =>
    have called := run_recorded respond arguments s a before
    rw [gaveUp] at called
    rw [linear_cons, run_bind_of_error called]
    rfl

theorem ended_inj {outcome outcome' : Except ε α} {calls calls' : List (σ × α × κ)}
    (same : ended outcome calls = ended outcome' calls') : outcome = outcome' ∧ calls = calls' := by
  cases outcome <;> cases outcome' <;> simp_all [ended]

/-- How the linear pipeline runs is the course of the value. -/
theorem run_linear_iff {calls : List (σ × α × κ)} {outcome : Except ε α} :
    (linear truthy (recorded respond arguments) stages a).run [] = ended outcome calls ↔
      Course truthy respond arguments stages a calls outcome := by
  constructor
  · intro ran
    obtain ⟨calls', outcome', course⟩ := exists_course truthy respond arguments stages a
    obtain ⟨rfl, rfl⟩ := ended_inj (ran.symm.trans (course.run_linear []))
    exact course
  · intro course
    exact course.run_linear []

end

/-! ## Every grouping is the linear pipeline -/

/-- Stages that are folded into an empty slot, one by one, from the last to the
    first or in any other grouping, make one pipeline: the one that calls them in
    order. In every monad it has the results and the effects of the linear
    pipeline; with its calls recorded, it makes those of the value's course with
    the same further arguments and has its outcome. One stage is kept as it is. -/
theorem through_folded (truthy : α → Bool) (stages : List σ) :
    (∀ pipeline, Folded stages (some pipeline) →
      (∀ (m : Type → Type) [Monad m] [LawfulMonad m] (call : σ → α → m α) (a : α),
        pipeline.through truthy call a = linear truthy call stages a) ∧
      ∀ (κ ε : Type) (respond : σ → α → κ → Except ε α) (arguments : κ) (a : α) (calls : List (σ × α × κ))
        (outcome : Except ε α),
        (pipeline.through truthy (recorded respond arguments) a).run [] = ended outcome calls ↔
          Course truthy respond arguments stages a calls outcome) ∧
    Folded stages (nestLeft stages) ∧ Folded stages (nestRight stages) ∧
    ∀ (s : σ) (pipeline : Pipeline σ), Folded [s] (some pipeline) ↔ pipeline = .stage s := by
  refine ⟨fun pipeline folded => ?_, folded_nestLeft stages, folded_nestRight stages, fun s pipeline => ?_⟩
  · obtain rfl : pipeline.toList = stages := folded_iff.mp folded
    refine ⟨fun m _ _ call a => through_eq_linear truthy call pipeline a, ?_⟩
    intro κ ε respond arguments a calls outcome
    rw [through_eq_linear, run_linear_iff]
  · constructor
    · intro folded
      have one : pipeline.toList = [s] := folded_iff.mp folded
      cases pipeline with
      | stage t => exact congrArg Pipeline.stage (List.singleton_inj.mp one)
      | andThen first second =>
        have length := congrArg List.length one
        have := List.length_pos_iff.mpr first.toList_ne_nil
        have := List.length_pos_iff.mpr second.toList_ne_nil
        simp only [toList, List.length_append, List.length_singleton] at length
        omega
    · rintro rfl
      exact .stage s

/-- Numbers from the last stage to the first: the third stage gives zero, which
    is the result, and the fourth, which would give up, is not called. -/
theorem through_folded_stops :
    let respond : Char → Nat → Nat → Except Text Nat := fun s a n =>
      if s = '+' then .ok (a + n) else if s = '-' then .ok (a - n) else .error (lit "fourth")
    let pipeline : Pipeline Char := .andThen (.stage '+') (.andThen (.andThen (.stage '-') (.stage '-')) (.stage '!'))
    Folded ['+', '-', '-', '!'] (some pipeline) ∧
      Course (· != 0) respond 5 ['+', '-', '-', '!'] 4 [('+', 4, 5), ('-', 9, 5), ('-', 4, 5)] (.ok 0) := by
  intro respond pipeline
  have folded : Folded ['+', '-', '-', '!'] (some pipeline) := folded_iff.mpr rfl
  have runs : (pipeline.through (· != 0) (recorded respond 5) 4).run [] =
      ended (.ok 0) [('+', 4, 5), ('-', 9, 5), ('-', 4, 5)] := rfl
  have every := ((through_folded (· != 0) ['+', '-', '-', '!']).1 pipeline folded).2
  exact ⟨folded, (every Nat Text respond 5 4 _ _).mp runs⟩

end Bindmark.Pipeline
