import Bindmark.Proofs.FirstAnswers
import Bindmark.Proofs.Rewriting

/-!
# Turns

The stages for nodes are asked about a node in turn, each as the earlier ones have
left the node, up to the first truthy answer. One stage at most puts other nodes in
the place of the node, and what it puts there is what it answers.
-/

namespace Bindmark

open Work

namespace Visit

variable {s : Settings}

/-! ## Turns -/

/-- A stage that was asked about a node: how the node was then, what the stage
    answered, and how it left the node. -/
structure Turn where
  stage : NodeStage
  before : Visit
  answer : Answer
  after : Visit

/-- Stages are asked about a node, one after the other: the turns that they take, and
    how it ends. -/
inductive Asked (s : Settings) :
    List NodeStage → Visit → State → List Turn → EStateM.Result Fault State (Answer × Visit) → Prop
  | nobody (v : Visit) (st : State) : Asked s [] v st [] (.ok (.none, v) st)
  /-- A truthy answer, or that of the last stage, is the answer. -/
  | answered {stage : NodeStage} {rest : List NodeStage} {v v' : Visit} {st st' : State} {answer : Answer}
      (ran : (runStage s stage).run v st = .ok (answer, v') st') (last : answer.truthy = true ∨ rest = []) :
      Asked s (stage :: rest) v st [⟨stage, v, answer, v'⟩] (.ok (answer, v') st')
  /-- After a falsy answer the next stage is asked about the node as it was left. -/
  | declined {stage : NodeStage} {rest : List NodeStage} {v v' : Visit} {st st' : State} {answer : Answer}
      {turns : List Turn} {result : EStateM.Result Fault State (Answer × Visit)}
      (ran : (runStage s stage).run v st = .ok (answer, v') st') (falsy : answer.truthy = false) (more : rest ≠ [])
      (later : Asked s rest v' st' turns result) :
      Asked s (stage :: rest) v st (⟨stage, v, answer, v'⟩ :: turns) result
  /-- A stage that gives up ends the visit. -/
  | raised {stage : NodeStage} {rest : List NodeStage} {v : Visit} {st st' : State} {e : Fault}
      (ran : (runStage s stage).run v st = .error e st') : Asked s (stage :: rest) v st [] (.error e st')

/-- Whether some stage had a truthy answer. -/
def someTruthy (turns : List Turn) : Bool := turns.any fun turn => turn.answer.truthy

/-- Whether asking ended with a truthy answer. -/
def endsTruthy : EStateM.Result Fault State (Answer × Visit) → Bool
  | .ok (answer, _) _ => answer.truthy
  | .error _ _ => false

theorem exists_asked {stages : List NodeStage} (some_ : stages ≠ []) (v : Visit) (st : State) (answer : Answer) :
    ∃ turns, Asked s stages v st turns
      ((Pipeline.linear (fun a => !a.truthy) (fun stage _ => runStage s stage) stages answer).run v st) := by
  induction stages generalizing v st answer with
  | nil => exact absurd rfl some_
  | cons stage rest ih =>
    rw [Pipeline.linear_cons, StateT.run_bind]
    cases ran : (runStage s stage).run v st with
    | error e st' =>
      rw [bind_error ran]
      exact ⟨_, .raised ran⟩
    | ok result st' =>
      obtain ⟨answer', v'⟩ := result
      rw [bind_ok ran]
      cases isTruthy : answer'.truthy with
      | true => exact ⟨_, .answered ran (.inl isTruthy)⟩
      | false =>
        by_cases last : rest = []
        · subst last
          exact ⟨_, .answered ran (.inr rfl)⟩
        · obtain ⟨turns, later⟩ := ih last v' st' answer'
          exact ⟨_, .declined ran isTruthy last later⟩

/-- The stages of the compiler are asked in the order in which they were added. -/
theorem runStages_asked (v : Visit) (st : State) :
    ∃ turns, Asked s (Pipeline.stagesOf st.nodeStages) v st turns ((runStages s).run v st) := by
  rw [MirrorsDocuments.runStages_run]
  cases st.nodeStages with
  | none => exact ⟨[], .nobody v st⟩
  | some stages =>
    dsimp only
    rw [Pipeline.firstAnswer_eq_linear _ _ stages .none]
    exact exists_asked stages.toList_ne_nil v st .none

namespace Asked

variable {stages : List NodeStage} {v v' : Visit} {st st' : State} {turns : List Turn} {answer : Answer}
  {result : EStateM.Result Fault State (Answer × Visit)}

/-- Whether some stage had a truthy answer shows in the answer. -/
theorem any_truthy (asked : Asked s stages v st turns result) : someTruthy turns = endsTruthy result := by
  induction asked with
  | nobody => rfl
  | answered ran last => exact Bool.or_false _
  | declined ran falsy more later ih => simpa [someTruthy, falsy] using ih
  | raised ran => rfl

/-- Unless a stage has a truthy answer or gives up, all of them are asked, once each
    and in order. -/
theorem stages_eq (asked : Asked s stages v st turns (.ok (answer, v') st'))
    (falsy : ∀ turn ∈ turns, turn.answer.truthy = false) : turns.map Turn.stage = stages := by
  generalize ended : EStateM.Result.ok (answer, v') st' = result at asked
  induction asked with
  | nobody => rfl
  | answered ran last =>
    rcases last with isTruthy | rfl
    · rw [falsy _ (List.mem_singleton_self _)] at isTruthy
      cases isTruthy
    · rfl
  | declined ran _ more later ih =>
    rw [List.map_cons, ih (fun turn inside => falsy turn (List.mem_cons_of_mem _ inside)) ended]
  | raised ran => cases ended

end Asked

/-! ## The place of a node -/

namespace Turn

/-- A stage puts nodes in the place of the node that it is asked about, and answers
    with them. -/
structure Puts (turn : Turn) (ns : List Node) : Prop where
  before : turn.before.place = none
  after : turn.after.place = some ns
  answer : turn.answer = .nodes ns

/-- A stage leaves the place of the node alone. -/
def Spares (turn : Turn) : Prop := turn.after.place = turn.before.place

end Turn

/-- A node that has lost its place has no parent, and the other way round. -/
def Placed (v : Visit) : Prop := v.parent.isSome = v.place.isNone

theorem runStage_client (c : NodeClient) (v : Visit) :
    (runStage s (.client c)).run v = (do
      Work.trace (.node c.name v.node.label)
      match c.respond v.node with
      | .declined => return (.none, v)
      | .nothing => return (.nodes [], v)
      | .claimed => return (.itself, v)
      | .replaced ns => if v.parent.isNone && !ns.isEmpty then throw .noParent else return (.nodes ns, v.putInPlace ns)
      | .raised f => throw (.raised f) : Work (Answer × Visit)) := by
  simp only [runStage, StateT.run_bind, StateT.run_get, pure_bind, StateT.run_monadLift, bind_assoc]
  congr 1
  funext _
  cases c.respond v.node with
  | replaced ns =>
    simp only
    split <;> rfl
  | _ => rfl

/-- Nodes that are answered with are put in the place of the node, if it has one. -/
theorem putInPlace_turn (stage : NodeStage) {v : Visit} (placed : v.Placed) (ns : List Node) :
    (v.putInPlace ns).Placed ∧
      ((⟨stage, v, .nodes ns, v.putInPlace ns⟩ : Turn).Spares ∨
        (⟨stage, v, .nodes ns, v.putInPlace ns⟩ : Turn).Puts ns) := by
  obtain ⟨node, parent, place⟩ := v
  cases parent with
  | none => exact ⟨placed, .inl rfl⟩
  | some parent =>
    have none_ : place = none := Option.isNone_iff_eq_none.mp placed.symm
    exact ⟨rfl, .inr ⟨none_, rfl, rfl⟩⟩

/-- A stage leaves the place of a node alone, or puts nodes there that it answers with. -/
theorem runStage_turn {stage : NodeStage} {v v' : Visit} {st st' : State} {answer : Answer} (placed : v.Placed)
    (ran : (runStage s stage).run v st = .ok (answer, v') st') :
    v'.Placed ∧ ((⟨stage, v, answer, v'⟩ : Turn).Spares ∨ ∃ ns, (⟨stage, v, answer, v'⟩ : Turn).Puts ns) := by
  have put (ns : List Node) := putInPlace_turn stage placed ns
  have spared : v.Placed ∧ ((⟨stage, v, answer, v⟩ : Turn).Spares ∨ ∃ ns, (⟨stage, v, answer, v⟩ : Turn).Puts ns) :=
    ⟨placed, .inl rfl⟩
  cases stage with
  | texts =>
    rw [Rewriting.runStage_texts] at ran
    cases interpolated : Interpolation.textNodes? s v.parent v.node with
    | none =>
      rw [interpolated] at ran
      cases ran
      exact spared
    | some ns =>
      rw [interpolated] at ran
      cases ran
      exact ⟨(put ns).1, (put ns).2.imp_right fun puts => ⟨ns, puts⟩⟩
  | attributes =>
    rw [Rewriting.runStage_attributes] at ran
    obtain ⟨node, st₁, -, done⟩ := bind_eq_ok ran
    cases done
    exact ⟨placed, .inl rfl⟩
  | client c =>
    rw [runStage_client] at ran
    obtain ⟨_, st₁, -, responded⟩ := bind_eq_ok ran
    cases response : c.respond v.node with
    | replaced ns =>
      simp only [response] at responded
      split at responded
      · cases responded
      · cases responded
        exact ⟨(put ns).1, (put ns).2.imp_right fun puts => ⟨ns, puts⟩⟩
    | raised f =>
      simp only [response] at responded
      cases responded
    | _ =>
      simp only [response] at responded
      cases responded
      exact spared

/-- Nodes are put in the place of a node at most once. -/
inductive PutOnce : List Turn → Option (List Node) → Prop
  | never {turns : List Turn} (spared : ∀ turn ∈ turns, turn.Spares) : PutOnce turns none
  | once (before : List Turn) {after : List Turn} {turn : Turn} {ns : List Node} (puts : turn.Puts ns)
      (others : ∀ other ∈ before ++ after, other.Spares) (last : ns ≠ [] → after = []) :
      PutOnce (before ++ turn :: after) (some ns)

theorem PutOnce.cons_spared {turns : List Turn} {place : Option (List Node)} {turn : Turn} (put : PutOnce turns place)
    (spared : turn.Spares) : PutOnce (turn :: turns) place := by
  cases put with
  | never others => exact .never (List.forall_mem_cons.mpr ⟨spared, others⟩)
  | once before puts others last =>
    exact .once (turn :: before) puts (List.forall_mem_cons.mpr ⟨spared, others⟩) last

namespace Asked

variable {stages : List NodeStage} {v : Visit} {st : State} {turns : List Turn}
  {result : EStateM.Result Fault State (Answer × Visit)}

/-- How asking leaves the place of a node, unless a stage gives up. -/
def LeavesPlace (place : Option (List Node)) : EStateM.Result Fault State (Answer × Visit) → Prop
  | .ok (_, v) _ => v.place = place
  | .error _ _ => True

/-- Of a node that has lost its place nothing is put anywhere. -/
theorem spares (asked : Asked s stages v st turns result) (placed : v.Placed) {place : Option (List Node)}
    (lost : v.place = place) (isLost : place ≠ none) :
    (∀ turn ∈ turns, turn.Spares) ∧ LeavesPlace place result := by
  induction asked with
  | nobody => exact ⟨nofun, lost⟩
  | answered ran last =>
    obtain ⟨-, spared | ⟨ns, puts⟩⟩ := runStage_turn placed ran
    · exact ⟨List.forall_mem_singleton.mpr spared, Eq.trans spared lost⟩
    · exact absurd (lost.symm.trans puts.before) isLost
  | declined ran falsy more later ih =>
    obtain ⟨placed', spared | ⟨ns, puts⟩⟩ := runStage_turn placed ran
    · obtain ⟨others, same⟩ := ih placed' (Eq.trans spared lost)
      exact ⟨List.forall_mem_cons.mpr ⟨spared, others⟩, same⟩
    · exact absurd (lost.symm.trans puts.before) isLost
  | raised ran => exact ⟨nofun, trivial⟩

/-- One stage at most puts nodes in the place of a node. -/
theorem putOnce (asked : Asked s stages v st turns result) (placed : v.Placed) (whole : v.place = none) :
    ∃ place, PutOnce turns place ∧ LeavesPlace place result := by
  induction asked with
  | nobody => exact ⟨none, .never nofun, whole⟩
  | answered ran last =>
    obtain ⟨-, spared | ⟨ns, puts⟩⟩ := runStage_turn placed ran
    · exact ⟨none, .never (List.forall_mem_singleton.mpr spared), Eq.trans spared whole⟩
    · exact ⟨some ns, .once [] puts nofun fun _ => rfl, puts.after⟩
  | @declined _ _ _ _ _ _ answer _ _ ran falsy more later ih =>
    obtain ⟨placed', spared | ⟨ns, puts⟩⟩ := runStage_turn placed ran
    · obtain ⟨place, put, left⟩ := ih placed' (Eq.trans spared whole)
      exact ⟨place, put.cons_spared spared, left⟩
    · obtain ⟨others, left⟩ := later.spares placed' puts.after (Option.some_ne_none ns)
      refine ⟨some ns, .once [] puts others fun nonempty => ?_, left⟩
      rw [show answer = .nodes ns from puts.answer] at falsy
      exact absurd (by simpa [Answer.truthy] using falsy) nonempty
  | raised ran => exact ⟨none, .never nofun, trivial⟩

/-- The answer is that of the stage that was asked last. -/
theorem answer_eq_last {v' : Visit} {st' : State} {answer : Answer}
    (asked : Asked s stages v st turns (.ok (answer, v') st')) {before : List Turn} {turn : Turn}
    (split : turns = before ++ [turn]) : answer = turn.answer := by
  generalize ended : EStateM.Result.ok (answer, v') st' = result at asked
  induction asked generalizing before with
  | nobody => simp at split
  | answered ran last =>
    cases ended
    have one : [] ++ [_] = before ++ [turn] := split
    obtain ⟨-, rfl⟩ := List.append_singleton_inj.mp one
    rfl
  | declined ran falsy more later ih =>
    cases before with
    | nil =>
      obtain ⟨-, rfl⟩ := List.cons.inj split
      cases later with
      | nobody => exact absurd rfl more
      | raised => cases ended
    | cons first before => exact ih (List.cons.inj split).2 ended
  | raised ran => cases ended

end Asked

end Visit
end Bindmark
