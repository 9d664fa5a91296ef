import Bindmark.Proofs.MarkerReports
import Mathlib.Data.List.Basic

/-!
# The order of comment markers

With the standard stages the markers that are preprocessed are those that stand in the
document and those that its texts become, in the order of the document, up to the one
at which compiling is given up.
-/

namespace Bindmark

open Work

namespace Visit

/-! ## Markers of nodes -/

/-- The directive strings of markers are the first of a list, and all of it where the
    work has come to its end. -/
structure Follows (ms : List Marker) (texts : List Text) (finished : Prop) : Prop where
  first : ms.map Marker.directives <+: texts
  all : finished → ms.map Marker.directives = texts

namespace Follows

variable {ms ms' : List Marker} {texts texts' : List Text} {finished finished' : Prop}

theorem nothing : Follows [] [] finished where
  first := List.prefix_rfl
  all _ := rfl

/-- More markers come once what was before them has come to its end. -/
theorem append (follows : Follows ms texts finished) (ended : finished) (others : Follows ms' texts' finished') :
    Follows (ms ++ ms') (texts ++ texts') finished' where
  first := by
    rw [List.map_append, follows.all ended]
    exact (List.prefix_append_right_inj texts).mpr others.first
  all ended' := by rw [List.map_append, follows.all ended, others.all ended']

/-- No more markers come once something was given up. -/
theorem giveUp (follows : Follows ms texts finished) (texts' : List Text) (never : ¬finished') :
    Follows (ms ++ []) (texts ++ texts') finished' where
  first := by
    rw [List.append_nil]
    exact follows.first.trans (List.prefix_append ..)
  all ended := absurd ended never

theorem mono (follows : Follows ms texts finished) (weaker : finished' → finished) : Follows ms texts finished' where
  first := follows.first
  all ended := follows.all (weaker ended)

end Follows

/-- Whether work that starts in a state comes to its end. -/
def Finishes {α : Type} (w : Work α) (st : State) : Prop := ∃ a st', w st = .ok a st'

variable {s : Settings}

theorem markersOf_follows (inDocument : Bool) (node : Node) (st : State) :
    Follows (markersOf s node st) (marker? s node).toList (Finishes (preprocessNode s inDocument node) st) := by
  unfold markersOf
  split
  · rename_i unmarked
    rw [unmarked]
    exact .nothing
  · rename_i directives marked
    rw [marked]
    split
    · exact ⟨List.prefix_rfl, fun _ => rfl⟩
    · rename_i failed
      refine ⟨List.nil_prefix, ?_⟩
      rintro ⟨_, _, ran⟩
      rw [preprocessNode_marker inDocument marked, bind_error failed] at ran
      cases ran

theorem markersOfNodes_follows (on : s.preprocessDirectives = true) (inDocument : Bool) (nodes : List Node)
    (st : State) : Follows (markersOfNodes s inDocument nodes st) (nodes.filterMap (marker? s))
      (Finishes (preprocessNodes s inDocument nodes) st) := by
  rw [List.filterMap_eq_flatMap_toList]
  induction nodes generalizing st with
  | nil => exact .nothing
  | cons node rest ih =>
    have first := markersOf_follows (s := s) inDocument node st
    rw [markersOfNodes, List.flatMap_cons, preprocessNodes_cons on]
    cases ran : preprocessNode s inDocument node st with
    | error e st' =>
      refine first.giveUp _ ?_
      rintro ⟨_, _, finished⟩
      rw [bind_error ran] at finished
      cases finished
    | ok node' st' =>
      refine first.append ⟨node', st', ran⟩ ((ih st').mono ?_)
      rintro ⟨_, _, finished⟩
      rw [bind_ok ran] at finished
      obtain ⟨nodes, st'', preprocessed, -⟩ := bind_eq_ok finished
      exact ⟨nodes, st'', preprocessed⟩

/-! ## Markers of visits -/

/-- The nodes whose directives are preprocessed when a node under a parent is visited
    with the standard stages: those that a text becomes, or the node itself. -/
def standIns (s : Settings) (visit : Text × Node) : List Node :=
  (Interpolation.textNodes? s (some visit.1) visit.2).getD [visit.2]

/-- The directive strings of the markers that are visited with the standard stages. -/
def markerTexts (s : Settings) (visits : List (Text × Node)) : List Text :=
  (visits.flatMap (standIns s)).filterMap (marker? s)

/-- Once stages have answered, markers follow the nodes that are to be preprocessed. -/
theorem markersOfVisit_follows (on : s.preprocessDirectives = true) {parent : Text} {node : Node} {st st' : State}
    {answer : Answer} {v : Visit}
    (ran : (runStages s).run { node, parent := some parent } (stateAfter Rewriting.countNode st) =
      .ok (answer, v) st') :
    Follows (markersOfVisit s parent node st) ((preprocessed answer v).2.filterMap (marker? s))
      (Finishes (visit s parent node) st) := by
  have counted : Rewriting.countNode st = .ok () (stateAfter Rewriting.countNode st) := rfl
  rw [markersOfVisit, if_pos on, ran]
  refine (markersOfNodes_follows on _ _ _).mono ?_
  rintro ⟨_, _, finished⟩
  obtain ⟨f, same⟩ := exists_conclude_eq (s := s) answer v
  rw [visit_eq, bind_ok counted, bind_ok ran, bind_ok (countAnswer_apply answer st'), same] at finished
  obtain ⟨nodes, st'', preprocessed, -⟩ := bind_eq_ok finished
  rw [stateAfter_ok (countAnswer_apply answer st')]
  exact ⟨nodes, st'', preprocessed⟩

theorem markersOfVisit_standard (on : s.preprocessDirectives = true) {st : State}
    (standard : st.nodeStages = some Standard.nodeStages) (parent : Text) (node : Node) :
    Follows (markersOfVisit s parent node st) ((standIns s (parent, node)).filterMap (marker? s))
      (Finishes (visit s parent node) st) := by
  have counted : (stateAfter Rewriting.countNode st).nodeStages = some Standard.nodeStages := standard
  cases node with
  | element tag attributes children =>
    have ran := Rewriting.runStages_element (s := s) (some parent) none tag attributes children counted
    -- An element is no marker, whether its attributes could be moved or not.
    cases moved : Interpolation.moveAttributes s tag attributes.entries attributes
      (stateAfter Rewriting.countNode st) with
    | ok moved st' =>
      rw [bind_ok moved] at ran
      exact markersOfVisit_follows on ran
    | error e st' =>
      rw [bind_error moved] at ran
      rw [markersOfVisit, if_pos on, ran]
      exact .nothing
  | leaf kind t =>
    have ran := Rewriting.runStages_leaf (s := s) parent kind t counted
    unfold standIns
    cases interpolated : Interpolation.textNodes? s (some parent) (.leaf kind t) with
    | none =>
      rw [interpolated] at ran
      exact markersOfVisit_follows on ran
    | some nodes =>
      obtain ⟨first, rest, rfl⟩ := List.exists_cons_of_ne_nil (Interpolation.textNodes?_ne_nil interpolated)
      rw [interpolated] at ran
      exact markersOfVisit_follows on ran

theorem nodeStages_visit {parent : Text} {node : Node} {st st' : State} {result : Result}
    (ran : visit s parent node st = .ok result st') : st'.nodeStages = st.nodeStages := by
  obtain ⟨turns, takes⟩ := exists_takes s parent node st
  have kept := takes.bookkeeping_eq
  rw [stateAfter_ok ran] at kept
  exact congrArg Prod.fst kept

theorem markersOfVisits_standard (on : s.preprocessDirectives = true) {visits : List (Text × Node)} {st : State}
    {stages : List NodeStage} {records : List Record} {ended : EStateM.Result Fault State PUnit}
    (visited : Visited s stages visits st records ended) (standard : st.nodeStages = some Standard.nodeStages) :
    Follows (markersOfVisits s visits st) (markerTexts s visits) (∃ st', ended = .ok ⟨⟩ st') := by
  unfold markerTexts
  induction visited with
  | done => exact .nothing
  | @next parent node more st _ _ _ _ _ takes ran later ih =>
    have own := markersOfVisit_standard on standard parent node
    rw [markersOfVisits, ran, List.flatMap_cons, List.filterMap_append]
    exact own.append ⟨_, _, ran⟩ (ih (nodeStages_visit ran ▸ standard))
  | @gaveUp parent node more st _ _ _ takes ran =>
    have own := markersOfVisit_standard on standard parent node
    rw [markersOfVisits, ran, List.flatMap_cons, List.filterMap_append]
    refine own.giveUp _ ?_
    rintro ⟨_, finished⟩
    cases finished

end Visit

/-- With the standard stages the markers that are preprocessed follow the document, and
    none is left out when compiling comes to its end. -/
theorem Document.markers_follow {s : Settings} (on : s.preprocessDirectives = true) (nodes : List Node) {st : State}
    (standard : st.nodeStages = some Standard.nodeStages) :
    Visit.Follows (markers s nodes st) (Visit.markerTexts s (snapshots rootTag nodes))
      (Visit.Finishes (compile s nodes) st) := by
  obtain ⟨records, visited⟩ := compileNodes_visited s rootTag nodes st
  refine (Visit.markersOfVisits_standard on visited standard).mono ?_
  rintro ⟨nodes', st', finished⟩
  exact ⟨st', discard_ok finished⟩

end Bindmark
