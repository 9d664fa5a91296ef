import Bindmark.Proofs.Keeping
import Mathlib.Tactic.Choose

/-!
# Work that is listened to

Work logs events as it goes on, whoever listens. It is put together from parts that
leave the journal alone and from statements that log an event (`Speaks`). When each
of these statements is gated, so that it logs its event only if that is heard
(`Gated`), everything else stays as it was: the value or the fault, the state apart
from the journal, and the order of the events that are heard.
-/

namespace Bindmark
namespace Work

variable {α β σ : Type}

/-! ## Journals -/

/-- The end of work with another journal. -/
def withJournal (journal : List Event) : EStateM.Result Fault State α → EStateM.Result Fault State α
  | .ok a st => .ok a { st with journal }
  | .error e st => .error e { st with journal }

/-- Work that neither reads nor writes the journal. -/
def Quiet (w : Work α) : Prop :=
  ∀ (st : State) (journal : List Event), w { st with journal } = withJournal journal (w st)

/-- Whatever the journal holds, work that starts in a state adds events to it, and does
    not depend on it otherwise. -/
def Logs (w : Work α) (st : State) (events : List Event) : Prop :=
  ∀ journal : List Event, w { st with journal } = withJournal (journal ++ events) (w st)

/-- The events that work logs when it starts in a state. -/
def logged (w : Work α) (st : State) : List Event := (stateAfter w { st with journal := [] }).journal

theorem Quiet.logs {w : Work α} (quiet : Quiet w) (st : State) : Logs w st [] :=
  fun journal => by rw [List.append_nil, quiet st journal]

namespace Logs

variable {w : Work α} {next : α → Work β} {st st' : State} {a : α} {e : Fault} {events events' : List Event}

theorem of_eq {ran : EStateM.Result Fault State α} (logs : Logs w st events) (is : w st = ran)
    (journal : List Event) : w { st with journal } = withJournal (journal ++ events) ran := is ▸ logs journal

/-- What work logs is settled by the state that it starts in. -/
theorem logged_eq (logs : Logs w st events) : logged w st = events := by
  have ran := logs []
  rw [logged, stateAfter, ran]
  cases w st <;> rfl

theorem bind_ok (first : Logs w st events) (ran : w st = .ok a st') (others : Logs (next a) st' events') :
    Logs (w >>= next) st (events ++ events') := by
  intro journal
  rw [Work.bind_ok (first.of_eq ran journal), Work.bind_ok ran, ← List.append_assoc]
  exact others (journal ++ events)

theorem bind_error (first : Logs w st events) (ran : w st = .error e st') : Logs (w >>= next) st events := by
  intro journal
  rw [Work.bind_error (first.of_eq ran journal), Work.bind_error ran]
  rfl

end Logs

/-! ## Work that logs events -/

/-- Work that is put together from quiet parts and from statements that log events with
    a property. -/
inductive Speaks (P : Event → Prop) : {α : Type} → Work α → Prop
  | quiet {α : Type} {w : Work α} (quiet : Quiet w) : Speaks P w
  | log {e : Event} (told : P e) : Speaks P (Work.log e)
  | bind {α β : Type} {w : Work α} {next : α → Work β} (first : Speaks P w) (rest : ∀ a, Speaks P (next a)) :
      Speaks P (w >>= next)

/-- The same work twice, where in the second an event is only logged if it is heard at
    the time when it comes up. -/
inductive Gated (hears : Event → Bool) : {α : Type} → Work α → Work α → Prop
  | quiet {α : Type} {w : Work α} (quiet : Quiet w) : Gated hears w w
  | log (e : Event) : Gated hears (Work.log e) (if hears e then Work.log e else pure ())
  | bind {α β : Type} {w w' : Work α} {next next' : α → Work β} (first : Gated hears w w')
      (rest : ∀ a, Gated hears (next a) (next' a)) : Gated hears (w >>= next) (w' >>= next')

variable {P : Event → Prop}

theorem Speaks.exists_logs {w : Work α} (speaks : Speaks P w) (st : State) :
    ∃ events, Logs w st events ∧ ∀ e ∈ events, P e := by
  induction speaks generalizing st with
  | quiet quiet => exact ⟨[], quiet.logs st, by simp⟩
  | @log e told => exact ⟨[e], fun _ => rfl, by simpa using told⟩
  | bind _ _ ihFirst ihRest =>
    rename_i w next _ _
    obtain ⟨events, logs, told⟩ := ihFirst st
    cases ran : w st with
    | error e st' => exact ⟨events, logs.bind_error ran, told⟩
    | ok a st' =>
      obtain ⟨events', logs', told'⟩ := ihRest a st'
      exact ⟨events ++ events', logs.bind_ok ran logs', List.forall_mem_append.mpr ⟨told, told'⟩⟩

theorem Speaks.logs {w : Work α} (speaks : Speaks P w) (st : State) : Logs w st (logged w st) := by
  obtain ⟨events, logs, -⟩ := speaks.exists_logs st
  rwa [logs.logged_eq]

theorem Speaks.of_mem_logged {w : Work α} (speaks : Speaks P w) {st : State} {e : Event} (inside : e ∈ logged w st) :
    P e := by
  obtain ⟨events, logs, told⟩ := speaks.exists_logs st
  rw [logs.logged_eq] at inside
  exact told e inside

/-- Every statement of such work can be gated. -/
theorem Speaks.exists_gated {w : Work α} (speaks : Speaks P w) (hears : Event → Bool) : ∃ w', Gated hears w w' := by
  induction speaks with
  | quiet quiet => exact ⟨_, .quiet quiet⟩
  | log told => exact ⟨_, .log _⟩
  | bind _ _ ihFirst ihRest =>
    obtain ⟨w', first⟩ := ihFirst
    choose next' rest using ihRest
    exact ⟨w' >>= next', .bind first rest⟩

theorem Gated.exists_logs {hears : Event → Bool} {w w' : Work α} (gated : Gated hears w w') (st : State) :
    ∃ events, Logs w st events ∧
      ∀ journal : List Event, w' { st with journal } = withJournal (journal ++ events.filter hears) (w st) := by
  induction gated generalizing st with
  | quiet quiet => exact ⟨[], quiet.logs st, quiet.logs st⟩
  | log e =>
    refine ⟨[e], fun _ => rfl, fun journal => ?_⟩
    cases heard : hears e with
    | true => simp [heard]; rfl
    | false => simp [heard]; rfl
  | bind _ _ ihFirst ihRest =>
    rename_i w w' next next' _ _
    obtain ⟨events, logs, heard⟩ := ihFirst st
    cases ran : w st with
    | error e st' =>
      rw [ran] at heard
      refine ⟨events, logs.bind_error ran, fun journal => ?_⟩
      rw [Work.bind_error (heard journal), Work.bind_error ran]
      rfl
    | ok a st' =>
      rw [ran] at heard
      obtain ⟨events', logs', heard'⟩ := ihRest a st'
      refine ⟨events ++ events', logs.bind_ok ran logs', fun journal => ?_⟩
      rw [Work.bind_ok (heard journal), Work.bind_ok ran, List.filter_append, ← List.append_assoc]
      exact heard' (journal ++ events.filter hears)

/-- Gated work ends as the work itself does, apart from the journal: that gets those of
    the events that are heard, in their order. -/
theorem Gated.run_eq {hears : Event → Bool} {w w' : Work α} (gated : Gated hears w w') (st : State)
    (journal : List Event) :
    w' { st with journal } = withJournal (journal ++ (logged w st).filter hears) (w st) := by
  obtain ⟨events, logs, heard⟩ := gated.exists_logs st
  rw [logs.logged_eq, heard journal]

/-! ## Putting work together -/

namespace Speaks

theorem pure (a : α) : Speaks P (pure a : Work α) := .quiet fun _ _ => rfl

theorem throw (e : Fault) : Speaks P (throw e : Work α) := .quiet fun _ _ => rfl

theorem registry : Speaks P Work.registry := .quiet fun _ _ => rfl

theorem changeRegistry (f : Registry → Registry) : Speaks P (Work.changeRegistry f) := .quiet fun _ _ => rfl

theorem trace (c : Call) : Speaks P (Work.trace c) := .quiet fun _ _ => rfl

theorem count (f : Stats → Stats) : Speaks P (Work.count f) := .quiet fun _ _ => rfl

/-- Work before which something is done at times. -/
theorem optional {c : Prop} [Decidable c] {w : Work PUnit} {next : PUnit → Work α} (first : Speaks P w)
    (rest : ∀ u, Speaks P (next u)) : Speaks P (if c then w >>= next else next PUnit.unit) := by
  split
  · exact first.bind rest
  · exact rest _

theorem discard {w : Work α} (speaks : Speaks P w) : Speaks P (Functor.discard w) :=
  speaks.bind fun _ => pure PUnit.unit

theorem forM {f : α → Work PUnit} (each : ∀ a, Speaks P (f a)) : ∀ as : List α, Speaks P (as.forM f)
  | [] => pure _
  | a :: as => (each a).bind fun _ => forM each as

theorem mono {P' : Event → Prop} {w : Work α} (speaks : Speaks P w) (weaker : ∀ e, P e → P' e) : Speaks P' w := by
  induction speaks with
  | quiet quiet => exact .quiet quiet
  | log told => exact .log (weaker _ told)
  | bind _ _ ihFirst ihRest => exact ihFirst.bind ihRest

end Speaks

/-- The same for work that carries more along. -/
def SpeaksCarrying (P : Event → Prop) (w : StateT σ Work α) : Prop := ∀ carried, Speaks P (w.run carried)

namespace SpeaksCarrying

theorem pure (a : α) : SpeaksCarrying P (pure a : StateT σ Work α) := fun carried => .pure (a, carried)

theorem throw (e : Fault) : SpeaksCarrying P (MonadExcept.throw e : StateT σ Work α) := fun _ => .throw e

theorem lift {w : Work α} (speaks : Speaks P w) : SpeaksCarrying P (w : StateT σ Work α) :=
  fun carried => speaks.bind fun a => .pure (a, carried)

theorem get : SpeaksCarrying P (get : StateT σ Work σ) := fun carried => .pure (carried, carried)

theorem set (c : σ) : SpeaksCarrying P (set c : StateT σ Work PUnit) := fun _ => .pure (PUnit.unit, c)

theorem modify (f : σ → σ) : SpeaksCarrying P (modify f : StateT σ Work PUnit) :=
  fun carried => .pure (PUnit.unit, f carried)

theorem bind {w : StateT σ Work α} {next : α → StateT σ Work β} (first : SpeaksCarrying P w)
    (rest : ∀ a, SpeaksCarrying P (next a)) : SpeaksCarrying P (w >>= next) :=
  fun carried => (first carried).bind fun result => rest result.1 result.2

theorem forM {f : α → StateT σ Work PUnit} (each : ∀ a, SpeaksCarrying P (f a)) :
    ∀ as : List α, SpeaksCarrying P (as.forM f)
  | [] => pure _
  | a :: as => (each a).bind fun _ => forM each as

theorem through {τ : Type} {truthy : α → Bool} {call : τ → α → StateT σ Work α}
    (each : ∀ stage a, SpeaksCarrying P (call stage a)) (pipeline : Pipeline τ) :
    ∀ a, SpeaksCarrying P (pipeline.through truthy call a) := by
  induction pipeline with
  | stage stage => exact each stage
  | andThen first second ihFirst ihSecond =>
    intro a
    refine (ihFirst a).bind fun result => ?_
    by_cases holds : truthy result = true
    · rw [if_pos holds]
      exact ihSecond result
    · rw [if_neg holds]
      exact pure result

theorem firstAnswer {τ : Type} {truthy : α → Bool} {call : τ → StateT σ Work α}
    (each : ∀ stage, SpeaksCarrying P (call stage)) (pipeline : Pipeline τ) :
    SpeaksCarrying P (pipeline.firstAnswer truthy call) := by
  induction pipeline with
  | stage stage => exact each stage
  | andThen first second ihFirst ihSecond =>
    refine ihFirst.bind fun answer => ?_
    by_cases holds : truthy answer = true
    · rw [if_pos holds]
      exact pure answer
    · rw [if_neg holds]
      exact ihSecond

end SpeaksCarrying
end Work
end Bindmark
