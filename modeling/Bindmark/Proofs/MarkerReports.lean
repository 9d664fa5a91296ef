import Bindmark.Proofs.Growing
import Bindmark.Proofs.Speaking

/-!
# What comment markers report

With the normal verbosity nothing is heard but reports of directives that comment
markers may not hold. They are known from the markers of a document: when a marker is
preprocessed, its keys are looked up first, one after the other, and each key that has
a handler but is not permitted is reported, once for each time that it stands there.
-/

namespace Bindmark

open Work

/-! ## Normal events -/

/-- The events that are heard with the normal verbosity. -/
def normal (events : List Event) : List Event := events.filter fun e => !e.isDetail

theorem normal_append (events events' : List Event) : normal (events ++ events') = normal events ++ normal events' :=
  List.filter_append ..

namespace Work

variable {α β : Type} {P P' : Event → Prop}

/-! ## Events of work that is put together -/

/-- The normal events of work that starts in a state. -/
def normally (w : Work α) (st : State) : List Event := normal (logged w st)

theorem Speaks.normally_eq_nil {w : Work α} (speaks : Speaks (fun e => e.isDetail) w) (st : State) :
    normally w st = [] :=
  List.filter_eq_nil_iff.mpr fun e inside => by simp [speaks.of_mem_logged inside]

section
variable {w : Work α} {next : α → Work β} {st st' : State} {a : α} {e : Fault}

theorem normally_bind_ok (first : Speaks P w) (rest : ∀ a, Speaks P' (next a)) (ran : w st = .ok a st') :
    normally (w >>= next) st = normally w st ++ normally (next a) st' := by
  have logs := (first.logs st).bind_ok ran ((rest a).logs st')
  rw [normally, logs.logged_eq, normal_append]
  rfl

theorem normally_bind_error (first : Speaks P w) (ran : w st = .error e st') :
    normally (w >>= next) st = normally w st := by
  rw [normally, ((first.logs st).bind_error ran).logged_eq]
  rfl

/-- Only what comes next counts where what comes first only tells details. -/
theorem normally_detail_bind (first : Speaks (fun e => e.isDetail) w) (rest : ∀ a, Speaks P (next a))
    (ran : w st = .ok a st') : normally (w >>= next) st = normally (next a) st' := by
  rw [normally_bind_ok first rest ran, first.normally_eq_nil, List.nil_append]

/-- Only what comes first counts where what comes next only tells details. -/
theorem normally_bind_detail (first : Speaks P w) (rest : ∀ a, Speaks (fun e => e.isDetail) (next a)) (st : State) :
    normally (w >>= next) st = normally w st := by
  cases ran : w st with
  | ok a st' => rw [normally_bind_ok first rest ran, (rest a).normally_eq_nil, List.append_nil]
  | error e st' => exact normally_bind_error first ran

theorem normally_discard (speaks : Speaks P w) (st : State) : normally (Functor.discard w) st = normally w st := by
  have pure (a : α) : Speaks P (pure PUnit.unit : Work PUnit) := .pure _
  cases ran : w st with
  | ok a st' =>
    have nothing : normally (Pure.pure PUnit.unit : Work PUnit) st' = [] := rfl
    exact (normally_bind_ok speaks pure ran).trans (by rw [nothing, List.append_nil])
  | error e st' => exact normally_bind_error speaks ran

/-- The journal that work leaves has its events behind what was there before. -/
theorem Speaks.journal_stateAfter (speaks : Speaks P w) (st : State) :
    (stateAfter w st).journal = st.journal ++ logged w st := by
  have ran : w st = withJournal (st.journal ++ logged w st) (w st) := speaks.logs st st.journal
  unfold stateAfter
  generalize w st = ended at ran
  cases ended with
  | ok a st' => exact congrArg State.journal (EStateM.Result.ok.inj ran).2
  | error e st' => exact congrArg State.journal (EStateM.Result.error.inj ran).2

end
end Work

/-! ## Markers -/

namespace Visit

/-- The keys of directives, looked up one after the other, and those among them that
    have a handler then, but that comment markers may not hold. -/
inductive Checks : State → List Pair → List Text → State → Prop
  | done (st : State) : Checks st [] [] st
  | next {p : Pair} {rest : List Pair} {st st' st'' : State} {entry : Option Entry} {keys : List Text}
      (looked : Registry.lookup p.key st = .ok entry st') (others : Checks st' rest keys st'') :
      Checks st (p :: rest) (if entry.isSome && !st'.registry.isVirtual p.key then p.key :: keys else keys) st''

theorem checks_of_notAllowed : ∀ {ps : List Pair} {st st' : State} {keys : List Text},
    notAllowed ps st = .ok keys st' → Checks st ps keys st'
  | [], st, _, _, ran => by
    cases ran
    exact .done st
  | p :: rest, st, _, _, ran => by
    obtain ⟨entry, st₁, looked, ran⟩ := bind_eq_ok ran
    rw [bind_ok (registry_apply st₁)] at ran
    obtain ⟨others, st₂, checked, last⟩ := bind_eq_ok ran
    cases last
    exact .next looked (checks_of_notAllowed checked)

/-- A marker whose directives are preprocessed, once its keys are looked up. -/
structure Marker where
  directives : Text
  before : State
  /-- The keys that it holds, but may not hold, as often as it holds them. -/
  keys : List Text
  after : State
  checks : Checks before (Pair.split directives) keys after

def Marker.reports (m : Marker) : List Event := m.keys.map .notAllowed

/-- The marker that a node is, unless looking its keys up is given up. -/
def markersOf (s : Settings) (node : Node) (st : State) : List Marker :=
  match marker? s node with
  | none => []
  | some directives =>
    match ran : notAllowed (Pair.split directives) st with
    | .ok keys after => [⟨directives, st, keys, after, checks_of_notAllowed ran⟩]
    | .error _ _ => []

/-- The markers among nodes that are preprocessed one after the other. -/
def markersOfNodes (s : Settings) (inDocument : Bool) : List Node → State → List Marker
  | [], _ => []
  | node :: rest, st =>
    markersOf s node st ++
      match preprocessNode s inDocument node st with
      | .ok _ st' => markersOfNodes s inDocument rest st'
      | .error _ _ => []

/-- The nodes that are preprocessed when a node was answered about, and whether they
    stand in the document. -/
def preprocessed (answer : Answer) (v : Visit) : Bool × List Node :=
  match v.place, answer with
  | none, .nodes (first :: more) => (false, first :: more)
  | none, _ => (true, [v.node])
  | some ns, .nodes (first :: more) => (!ns.isEmpty, first :: more)
  | some _, _ => (false, [v.node])

/-- The markers that are preprocessed when a node under a parent is visited. -/
def markersOfVisit (s : Settings) (parent : Text) (node : Node) (st : State) : List Marker :=
  if s.preprocessDirectives then
    match (runStages s).run { node, parent := some parent } (stateAfter Rewriting.countNode st) with
    | .ok (answer, v) st' =>
      markersOfNodes s (preprocessed answer v).1 (preprocessed answer v).2 (stateAfter (countAnswer answer) st')
    | .error _ _ => []
  else []

/-- The markers that are preprocessed in visits, one after the other, until one is
    given up. -/
def markersOfVisits (s : Settings) : List (Text × Node) → State → List Marker
  | [], _ => []
  | (parent, node) :: more, st =>
    markersOfVisit s parent node st ++
      match visit s parent node st with
      | .ok _ st' => markersOfVisits s more st'
      | .error _ _ => []

/-! ## What markers tell -/

/-- The events that markers tell, in order. -/
def reports (ms : List Marker) : List Event := ms.flatMap Marker.reports

theorem reports_append (ms ms' : List Marker) : reports (ms ++ ms') = reports ms ++ reports ms' :=
  List.flatMap_append

theorem normally_forM_log (keys : List Text) (st : State) :
    normally (keys.forM fun key => Work.log (.notAllowed key)) st = keys.map .notAllowed := by
  have each (key : Text) : Speaks (fun _ => True) (Work.log (.notAllowed key)) := .log trivial
  induction keys generalizing st with
  | nil => rfl
  | cons key keys ih =>
    have first : Work.log (.notAllowed key) st = .ok () { st with journal := st.journal ++ [.notAllowed key] } := rfl
    have others (_ : PUnit) : Speaks (fun _ => True) (keys.forM fun key => Work.log (.notAllowed key)) :=
      .forM each keys
    exact (normally_bind_ok (each key) others first).trans
      (congrArg (normally (Work.log (.notAllowed key)) st ++ ·) (ih _))

theorem normally_preprocessNode (s : Settings) (inDocument : Bool) (node : Node) (st : State) :
    normally (preprocessNode s inDocument node) st = reports (markersOf s node st) := by
  have detail : ∀ e : Event, e.isDetail → e.isDetail := fun _ => id
  unfold markersOf
  split
  · rename_i unmarked
    refine Speaks.normally_eq_nil (preprocessNode_speaks detail s inDocument node fun directives marked => ?_) st
    rw [unmarked] at marked
    cases marked
  · rename_i directives marked
    have checked : Speaks (fun e => e.isDetail) (notAllowed (Pair.split directives)) := notAllowed_speaks detail _
    have told (keys : List Text) : Speaks (fun _ => True) (keys.forM fun key => Work.log (.notAllowed key)) :=
      .forM (fun _ => .log trivial) keys
    have replaced := replaceMarker_speaks detail s inDocument directives
    rw [preprocessNode_marker inDocument marked]
    -- All keys are looked up before the first is told of, so a lookup that fails leaves none.
    split
    · rename_i keys after ran
      have later (keys : List Text) : Speaks (fun _ => True) (do
          keys.forM fun key => Work.log (.notAllowed key)
          replaceMarker s inDocument directives) :=
        (told keys).bind fun _ => replaceMarker_speaks (fun _ _ => trivial) s inDocument directives
      rw [normally_detail_bind checked later ran, normally_bind_detail (told keys) fun _ => replaced,
        normally_forM_log]
      exact (List.append_nil _).symm
    · rename_i ran
      rw [normally_bind_error checked ran, checked.normally_eq_nil]
      rfl

section
variable {s : Settings}

theorem preprocessNodes_off (off : s.preprocessDirectives = false) (inDocument : Bool) (nodes : List Node) :
    preprocessNodes s inDocument nodes = pure nodes := by
  induction nodes with
  | nil => rfl
  | cons node rest ih =>
    rw [preprocessNodes, ih, off]
    rfl

theorem preprocessNodes_cons (on : s.preprocessDirectives = true) (inDocument : Bool) (node : Node)
    (rest : List Node) : preprocessNodes s inDocument (node :: rest) = (do
      let node ← preprocessNode s inDocument node
      return node :: (← preprocessNodes s inDocument rest)) := by
  rw [preprocessNodes, if_pos on]

theorem normally_preprocessNodes (on : s.preprocessDirectives = true) (inDocument : Bool) (nodes : List Node)
    (st : State) :
    normally (preprocessNodes s inDocument nodes) st = reports (markersOfNodes s inDocument nodes st) := by
  induction nodes generalizing st with
  | nil => rfl
  | cons node rest ih =>
    have all : ∀ e : Event, e.isDetail → True := fun _ _ => trivial
    have first := preprocessNode_speaks all s inDocument node fun _ _ _ => trivial
    have others (node : Node) : Speaks (fun _ => True) (do
        return node :: (← preprocessNodes s inDocument rest) : Work (List Node)) :=
      (preprocessNodes_speaks all (fun _ => trivial) s inDocument rest).bind fun _ => .pure _
    rw [preprocessNodes_cons on, markersOfNodes, reports_append, ← normally_preprocessNode]
    cases ran : preprocessNode s inDocument node st with
    | error e st' =>
      rw [normally_bind_error first ran]
      exact (List.append_nil _).symm
    | ok node' st' =>
      have rest_ := normally_bind_detail (preprocessNodes_speaks all (fun _ => trivial) s inDocument rest)
        (fun nodes => .pure (node' :: nodes)) st'
      rw [normally_bind_ok first others ran, rest_, ih st']

/-- Whatever the answer, one list of nodes is preprocessed, and it settles what the node
    has become. -/
theorem exists_conclude_eq (answer : Answer) (v : Visit) : ∃ f : List Node → Result, conclude s answer v = (do
    return f (← preprocessNodes s (preprocessed answer v).1 (preprocessed answer v).2)) := by
  have dropped (inDocument : Bool) (nodes : List Node) (result : Result) :
      (do discard (preprocessNodes s inDocument nodes); return result) = (do
        let _ ← preprocessNodes s inDocument nodes
        return result : Work Result) := by
    funext st
    rw [bind_apply, bind_apply, discard_apply]
    cases preprocessNodes s inDocument nodes st <;> rfl
  obtain ⟨node, parent, place⟩ := v
  cases place with
  | none =>
    match answer with
    | .nodes (first :: more) => exact ⟨fun _ => .stays node, dropped _ _ _⟩
    | .nodes [] => exact ⟨fun nodes => .stays (nodes.headD node), rfl⟩
    | .none => exact ⟨fun nodes => .stays (nodes.headD node), rfl⟩
    | .itself => exact ⟨fun nodes => .stays (nodes.headD node), rfl⟩
  | some ns =>
    match answer with
    | .nodes (first :: more) => exact ⟨fun nodes => .gone (if ns.isEmpty then [] else nodes), rfl⟩
    | .nodes [] => exact ⟨fun _ => .gone ns, dropped _ _ _⟩
    | .none => exact ⟨fun _ => .gone ns, dropped _ _ _⟩
    | .itself => exact ⟨fun _ => .gone ns, dropped _ _ _⟩

theorem normally_conclude (answer : Answer) (v : Visit) (st : State) :
    normally (conclude s answer v) st =
      normally (preprocessNodes s (preprocessed answer v).1 (preprocessed answer v).2) st := by
  have all : ∀ e : Event, e.isDetail → True := fun _ _ => trivial
  obtain ⟨f, same⟩ := exists_conclude_eq (s := s) answer v
  rw [same]
  exact normally_bind_detail (preprocessNodes_speaks all (fun _ => trivial) s _ _) (fun _ => .pure _) st

/-- A visit tells what its markers tell: stages only tell details. -/
theorem normally_visit (parent : Text) (node : Node) (st : State) :
    normally (visit s parent node) st = reports (markersOfVisit s parent node st) := by
  have all : ∀ e : Event, e.isDetail → True := fun _ _ => trivial
  have counted : Rewriting.countNode st = .ok () (stateAfter Rewriting.countNode st) := rfl
  have counts : Speaks (fun e => e.isDetail) Rewriting.countNode := .count _
  have asked : Speaks (fun e => e.isDetail) ((runStages s).run { node, parent := some parent }) :=
    runStages_speaks (fun _ => id) s _
  have concluded (answered : Answer × Visit) : Speaks (fun _ => True) (do
      countAnswer answered.1
      conclude s answered.1 answered.2) :=
    (countAnswer_speaks _).bind fun _ => conclude_speaks all (fun _ => trivial) s _ _
  rw [visit_eq, normally_detail_bind counts (fun _ => (asked.mono all).bind concluded) counted, markersOfVisit]
  cases ran : (runStages s).run { node, parent := some parent } (stateAfter Rewriting.countNode st) with
  | error e st' =>
    rw [normally_bind_error asked ran, asked.normally_eq_nil]
    split <;> rfl
  | ok answered st' =>
    obtain ⟨answer, v⟩ := answered
    have noted := countAnswer_apply answer st'
    have notes : Speaks (fun e => e.isDetail) (countAnswer answer) := countAnswer_speaks answer
    have last (_ : Unit) : Speaks (fun _ => True) (conclude s answer v) := conclude_speaks all (fun _ => trivial) s _ _
    rw [normally_detail_bind asked concluded ran, normally_detail_bind notes last noted, normally_conclude]
    dsimp only
    rw [stateAfter_ok noted]
    by_cases on : s.preprocessDirectives = true
    · rw [if_pos on]
      exact normally_preprocessNodes on _ _ _
    · rw [if_neg on, preprocessNodes_off (eq_false_of_ne_true on)]
      rfl

end

namespace Visited

variable {s : Settings} {stages : List NodeStage} {visits : List (Text × Node)} {st : State} {records : List Record}
  {ended : EStateM.Result Fault State PUnit}

/-- Visits tell what their markers tell, in order. -/
theorem normal_journal (visited : Visited s stages visits st records ended) :
    normal (endState ended).journal = normal st.journal ++ reports (markersOfVisits s visits st) := by
  have told (parent : Text) (node : Node) (st : State) :
      normal (stateAfter (visit s parent node) st).journal =
        normal st.journal ++ reports (markersOfVisit s parent node st) := by
    have speaks : Speaks (fun _ => True) (visit s parent node) :=
      visit_speaks (fun _ _ => trivial) (fun _ => trivial) s parent node
    rw [speaks.journal_stateAfter, normal_append, ← normally_visit]
    rfl
  induction visited with
  | done st => exact (List.append_nil _).symm
  | @next parent node _ st _ _ _ _ _ takes ran later ih =>
    have first := told parent node st
    rw [stateAfter_ok ran] at first
    rw [ih, first, markersOfVisits, ran, reports_append, List.append_assoc]
  | @gaveUp parent node _ st _ _ _ takes ran =>
    have first := told parent node st
    rw [stateAfter_error ran] at first
    rw [markersOfVisits, ran, List.append_nil, ← first]
    rfl

end Visited
end Visit

namespace Document

/-- The markers that are preprocessed while a document is compiled. -/
def markers (s : Settings) (nodes : List Node) (st : State) : List Visit.Marker :=
  Visit.markersOfVisits s (snapshots rootTag nodes) st

/-- Compiling a document tells what its markers tell, in the order of the document. -/
theorem normally_compile (s : Settings) (nodes : List Node) (st : State) :
    normally (compile s nodes) st = Visit.reports (markers s nodes st) := by
  have speaks : Speaks (fun _ => True) (compileNodes s rootTag nodes) :=
    compileNodes_speaks (fun _ _ => trivial) (fun _ => trivial) s rootTag nodes
  obtain ⟨records, visited⟩ := compileNodes_visited s rootTag nodes st
  have told := visited.normal_journal
  have ended : Visit.endState ((discard (compileNodes s rootTag nodes)) st) =
      stateAfter (discard (compileNodes s rootTag nodes)) st := rfl
  rw [ended, speaks.discard.journal_stateAfter, normal_append] at told
  rw [compile, ← normally_discard speaks]
  exact List.append_cancel_left told

end Document

theorem Compiler.normally_compileDocument (s : Settings) (nodes : List Node) (st : State) :
    normally (compileDocument s nodes) st = Visit.reports (Document.markers s nodes { st with stats := {} }) := by
  have reset : resetStats st = .ok () { st with stats := {} } := rfl
  have counts : Speaks (fun e => e.isDetail) resetStats := .count _
  have compiled : Speaks (fun _ => True) (Document.compile s nodes) :=
    Document.compileNodes_speaks (fun _ _ => trivial) (fun _ => trivial) s Document.rootTag nodes
  rw [compileDocument, normally_detail_bind counts (fun _ => compiled) reset, Document.normally_compile]

/-! ## Plain registries -/

/-- Whether a key leads to a handler, but comment markers may not hold it. -/
def Registry.bars (r : Registry) (key : Text) : Bool := (r.handlerOf key).isSome && !r.permits key

namespace Visit

variable {r : Registry}

/-- In registries that have grown from a plain one it is settled at the start which
    keys are reported. -/
theorem Checks.keys_eq (plain : r.Plain) {ps : List Pair} {st st' : State} {keys : List Text}
    (checks : Checks st ps keys st') (grown : r.Grown st.registry) : keys = (ps.map Pair.key).filter r.bars := by
  induction checks with
  | done => rfl
  | @next p rest st st' _ entry keys looked others ih =>
    obtain ⟨entry', r', events, ran, -, grown', handler, permitted⟩ := Registry.lookup_grown plain p.key st grown
    obtain ⟨rfl, rfl⟩ := EStateM.Result.ok.inj (looked.symm.trans ran)
    have barred : (entry.isSome && !r'.isVirtual p.key) = r.bars p.key := by
      rw [Registry.bars, ← handler, Option.isSome_map]
      cases known : entry.isSome with
      | false => rfl
      | true => rw [permitted known]
    rw [List.map_cons, List.filter_cons, ← ih grown']
    exact if_congr (Bool.eq_iff_iff.mp barred) rfl rfl

/-- A registry that has grown from an earlier one still has afterwards. -/
def StaysGrown (r : Registry) (st st' : State) : Prop := r.Grown st.registry → r.Grown st'.registry

theorem staysGrown_admits (plain : r.Plain) : Admits (StaysGrown r) where
  refl _ grown := grown
  trans first second grown := second (first grown)
  log _ _ grown := grown
  trace _ _ grown := grown
  lookup key st grown := by
    obtain ⟨entry, r', events, ran, -, grown', -⟩ := Registry.lookup_grown plain key st grown
    rw [stateAfter_ok ran]
    exact grown'

section
variable (plain : r.Plain) {s : Settings}
include plain

/-- Work that repeats itself wherever documents are compiled lets registries grow. -/
theorem staysGrown {α : Type} {w : Work α} (repeats : ∀ S, MirrorsDocuments S → Repeats S w) :
    Within (StaysGrown r) w :=
  (staysGrown_admits plain).within fun start => repeats _
    ⟨(staysGrown_admits plain).mirrors start, fun _ => (staysGrown_admits plain).repeats start fun _ grown => grown,
      fun st st' related => by rw [related.1]⟩

theorem grown_of_mem_markersOfNodes (inDocument : Bool) : ∀ {nodes : List Node} {st : State},
    r.Grown st.registry → ∀ m ∈ markersOfNodes s inDocument nodes st, r.Grown m.before.registry
  | [], _, _, _, inside => absurd inside List.not_mem_nil
  | node :: rest, st, grown, m, inside => by
    rw [markersOfNodes] at inside
    rcases List.mem_append.mp inside with own | later
    · unfold markersOf at own
      split at own
      · cases own
      · split at own
        · rw [List.mem_singleton.mp own]
          exact grown
        · cases own
    · have after := staysGrown plain (fun _ mirrors => mirrors.preprocessNode s inDocument node) st grown
      split at later
      · rename_i ran
        rw [stateAfter_ok ran] at after
        exact grown_of_mem_markersOfNodes inDocument after m later
      · cases later

theorem grown_of_mem_markersOfVisit {parent : Text} {node : Node} {st : State} (grown : r.Grown st.registry) :
    ∀ m ∈ markersOfVisit s parent node st, r.Grown m.before.registry := by
  intro m inside
  have after := staysGrown plain (fun _ mirrors => mirrors.runStages s { node, parent := some parent })
    (stateAfter Rewriting.countNode st) grown
  unfold markersOfVisit at inside
  split at inside
  · split at inside
    · rename_i answer v st' ran
      rw [stateAfter_ok ran] at after
      have counted : r.Grown (stateAfter (countAnswer answer) st').registry := by
        rw [stateAfter_ok (countAnswer_apply answer st')]
        exact after
      exact grown_of_mem_markersOfNodes plain _ counted m inside
    · cases inside
  · cases inside

theorem grown_of_mem_markersOfVisits : ∀ {visits : List (Text × Node)} {st : State}, r.Grown st.registry →
    ∀ m ∈ markersOfVisits s visits st, r.Grown m.before.registry
  | [], _, _, _, inside => absurd inside List.not_mem_nil
  | (parent, node) :: more, st, grown, m, inside => by
    rw [markersOfVisits] at inside
    rcases List.mem_append.mp inside with own | later
    · exact grown_of_mem_markersOfVisit plain grown m own
    · have after := staysGrown plain (fun _ mirrors => mirrors.visit s parent node) st grown
      split at later
      · rename_i ran
        rw [stateAfter_ok ran] at after
        exact grown_of_mem_markersOfVisits after m later
      · cases later

end
end Visit

theorem Document.grown_of_mem_markers {r : Registry} (plain : r.Plain) {s : Settings} {nodes : List Node} {st : State}
    {m : Visit.Marker} (inside : m ∈ markers s nodes st) (grown : r.Grown st.registry) : r.Grown m.before.registry := by
  exact Visit.grown_of_mem_markersOfVisits plain grown m inside

end Bindmark
