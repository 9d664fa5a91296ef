import Bindmark.Proofs.Markers
import Bindmark.Proofs.RawTexts

/-!
# Nested regions

Opening and closing markers are the edges of regions. The nodes that a text node
gives way to have the edges of its blocks, and the two of an empty region for
every other expression, so that regions are nested in them just as the blocks
are. Preprocessing gives an opening marker another directive string, perhaps an
empty one, and leaves every other leaf as it is. A compiled document therefore
has the edges of its source, each of them among the children of the same element.
-/

namespace Bindmark

/-! ## Edges of regions -/

/-- Where a region begins or ends. -/
inductive Edge where
  | opening
  | closing
  deriving DecidableEq

namespace Edge

/-- How many more regions are opened than closed. -/
def net (es : List Edge) : Int := (es.count .opening : Int) - es.count .closing

/-- How many regions are open behind edges, with `open_` of them before. A region
    that is not open cannot be closed. -/
def openAfter : Nat → List Edge → Option Nat
  | open_, [] => some open_
  | open_, .opening :: es => openAfter (open_ + 1) es
  | 0, .closing :: _ => none
  | open_ + 1, .closing :: es => openAfter open_ es

/-- No region is closed that is not open, and none stays open. -/
structure WellNested (es : List Edge) : Prop where
  opened : ∀ p, p <+: es → 0 ≤ net p
  closed : net es = 0

theorem net_append (es es' : List Edge) : net (es ++ es') = net es + net es' := by
  simp only [net, List.count_append]
  omega

theorem openAfter_append (es es' : List Edge) : ∀ open_ : Nat,
    openAfter open_ (es ++ es') = (openAfter open_ es).bind fun between => openAfter between es' := by
  induction es with
  | nil =>
    intro open_
    simp [openAfter]
  | cons e es ih =>
    intro open_
    cases e with
    | opening =>
      rw [List.cons_append, openAfter, openAfter]
      exact ih (open_ + 1)
    | closing =>
      cases open_ with
      | zero => simp [openAfter]
      | succ open_ =>
        rw [List.cons_append, openAfter, openAfter]
        exact ih open_

/-- An empty region leaves as many regions open as before. -/
theorem openAfter_empty (open_ : Nat) : openAfter open_ [.opening, .closing] = some open_ := by
  simp [openAfter]

theorem net_cons_opening (es : List Edge) : net (.opening :: es) = 1 + net es := by
  simp only [net, List.count_cons_self, List.count_cons_of_ne (show Edge.opening ≠ .closing by decide)]
  omega

theorem net_cons_closing (es : List Edge) : net (.closing :: es) = net es - 1 := by
  simp only [net, List.count_cons_self, List.count_cons_of_ne (show Edge.closing ≠ .opening by decide)]
  omega

/-- Counting goes through to the end when no start closes more regions than are
    open there. -/
theorem openAfter_eq_some_iff {es : List Edge} : ∀ {open_ after : Nat}, openAfter open_ es = some after ↔
    (∀ p, p <+: es → 0 ≤ (open_ : Int) + net p) ∧ (after : Int) = open_ + net es := by
  induction es with
  | nil =>
    intro open_ after
    have none_ : net [] = 0 := rfl
    simp only [openAfter, Option.some.injEq, none_, List.prefix_nil, forall_eq]
    omega
  | cons e es ih =>
    intro open_ after
    have starts : (∀ p, p <+: e :: es → 0 ≤ (open_ : Int) + net p) ↔
        ∀ p, p <+: es → 0 ≤ (open_ : Int) + net (e :: p) := by
      constructor
      · intro all p start
        exact all (e :: p) ((List.prefix_cons_inj e).mpr start)
      · intro all p start
        rcases List.prefix_cons_iff.mp start with rfl | ⟨q, rfl, front⟩
        · have none_ : net [] = 0 := rfl
          rw [none_]
          omega
        · exact all q front
    rw [starts]
    cases e with
    | opening =>
      rw [openAfter, ih]
      simp only [net_cons_opening]
      refine and_congr (forall₂_congr fun p _ => ?_) ?_
      · omega
      · omega
    | closing =>
      simp only [net_cons_closing]
      cases open_ with
      | zero =>
        have none_ : net [] = 0 := rfl
        simp only [openAfter, reduceCtorEq, false_iff]
        rintro ⟨all, -⟩
        have first := all [] List.nil_prefix
        rw [none_] at first
        omega
      | succ open_ =>
        rw [openAfter, ih]
        refine and_congr (forall₂_congr fun p _ => ?_) ?_
        · omega
        · omega

theorem wellNested_iff {es : List Edge} : WellNested es ↔ openAfter 0 es = some 0 := by
  rw [openAfter_eq_some_iff]
  constructor
  · intro nested
    refine ⟨fun p start => ?_, by simp [nested.closed]⟩
    have := nested.opened p start
    omega
  · rintro ⟨all, total⟩
    refine ⟨fun p start => ?_, by omega⟩
    have := all p start
    omega

instance (es : List Edge) : Decidable (WellNested es) := decidable_of_iff _ wellNested_iff.symm

end Edge

/-! ## Edges in text and among nodes -/

namespace Block

/-- The edge that an expression is: `#` begins a region, unless a slash at its end
    closes it at once, and `/` ends one. -/
def edge? (e : Text) : Option Edge :=
  if e.strip.head? = some '#' then if e.strip.getLast? = some '/' then none else some .opening
  else if e.strip.head? = some '/' then some .closing
  else none

/-- The edges that an expression has: its own, or those of an empty region. -/
def edges (e : Text) : List Edge := (edge? e).elim [.opening, .closing] fun edge => [edge]

/-- The edges among the expressions of a text. -/
def edgesIn (segments : List Segment) : List Edge :=
  segments.filterMap fun segment => if segment.isExpression then edge? segment.text else none

/-- The edges that segments have. -/
def allEdges (segments : List Segment) : List Edge :=
  segments.flatMap fun segment => if segment.isExpression then edges segment.text else []

theorem edgesIn_cons_literal (t : Text) (segments : List Segment) :
    edgesIn (.literal t :: segments) = edgesIn segments := rfl

theorem allEdges_cons_literal (t : Text) (segments : List Segment) :
    allEdges (.literal t :: segments) = allEdges segments := rfl

theorem allEdges_cons_expression (e : Text) (segments : List Segment) :
    allEdges (.expression e :: segments) = edges e ++ allEdges segments := rfl

theorem edgesIn_cons_expression (e : Text) (segments : List Segment) :
    edgesIn (.expression e :: segments) = (edge? e).toList ++ edgesIn segments := by
  cases isEdge : edge? e with
  | none => simp [edgesIn, Segment.isExpression, Segment.text, isEdge]
  | some edge => simp [edgesIn, Segment.isExpression, Segment.text, isEdge]

/-- The empty regions of the other expressions change no count. -/
theorem net_allEdges (segments : List Segment) : Edge.net (allEdges segments) = Edge.net (edgesIn segments) := by
  induction segments with
  | nil => rfl
  | cons segment segments ih =>
    cases segment with
    | literal t => rw [allEdges_cons_literal, edgesIn_cons_literal, ih]
    | expression e =>
      rw [allEdges_cons_expression, edgesIn_cons_expression, Edge.net_append, Edge.net_append, ih]
      cases isEdge : edge? e with
      | none => simp [edges, isEdge, Edge.net]
      | some edge => simp [edges, isEdge]

theorem openAfter_allEdges (segments : List Segment) : ∀ open_ : Nat,
    Edge.openAfter open_ (allEdges segments) = Edge.openAfter open_ (edgesIn segments) := by
  induction segments with
  | nil => exact fun _ => rfl
  | cons segment segments ih =>
    intro open_
    cases segment with
    | literal t => rw [allEdges_cons_literal, edgesIn_cons_literal, ih]
    | expression e =>
      rw [allEdges_cons_expression, edgesIn_cons_expression, Edge.openAfter_append, Edge.openAfter_append]
      cases isEdge : edge? e with
      | none =>
        simp only [edges, isEdge, Option.elim_none, Edge.openAfter_empty, Option.bind_some, Option.toList_none]
        exact ih open_
      | some edge =>
        simp only [edges, isEdge, Option.elim_some, Option.toList_some, ih]

theorem wellNested_allEdges (segments : List Segment) :
    Edge.WellNested (allEdges segments) ↔ Edge.WellNested (edgesIn segments) := by
  rw [Edge.wellNested_iff, Edge.wellNested_iff, openAfter_allEdges]

end Block

namespace Settings

/-- A comment begins a region: it was written for a directive string, perhaps an
    empty one, or is read with one. -/
def Begins (s : Settings) (t : Text) : Prop := (∃ d, t = s.openMarker d) ∨ (s.readMarker? t).isSome

theorem exists_openMarker_iff {s : Settings} {t : Text} : (∃ d, t = s.openMarker d) ↔ s.openMarker [] <+: t := by
  constructor
  · rintro ⟨d, rfl⟩
    exact ⟨d, by simp [openMarker]⟩
  · rintro ⟨d, rfl⟩
    exact ⟨d, by simp [openMarker]⟩

instance (s : Settings) (t : Text) : Decidable (s.Begins t) :=
  have : Decidable (∃ d, t = s.openMarker d) := decidable_of_iff _ exists_openMarker_iff.symm
  inferInstanceAs (Decidable (_ ∨ _))

/-- The edge of a region that a node is. -/
def edge? (s : Settings) : Node → Option Edge
  | .leaf .comment t => if s.Begins t then some .opening else if t = s.closeMarker then some .closing else none
  | _ => none

/-- The edges in a list of nodes. -/
def edges (s : Settings) (nodes : List Node) : List Edge := nodes.filterMap s.edge?

theorem edge?_openMarker (s : Settings) (d : Text) : s.edge? (.ofComment (s.openMarker d)) = some .opening := by
  have begins : s.Begins (s.openMarker d) := .inl ⟨d, rfl⟩
  simp [edge?, begins]

/-- A closing marker is no opening one: those end with a blank at least, where a
    closing marker that is as long ends with its word. -/
theorem openMarker_ne_closeMarker (s : Settings) (d : Text) : s.closeMarker ≠ s.openMarker d := by
  intro same
  have long := congrArg List.length same
  simp only [closeMarker, openMarker, lit, List.length_append] at long
  have empty : d = [] := by
    rw [← List.length_eq_zero_iff]
    simp at long
    omega
  subst empty
  -- Both texts being the word with one more character, all characters of the word are slashes.
  have slashes (word : Text) : ∀ t : Text, '/' :: word ≠ word ++ ' ' :: t := by
    induction word with
    | nil => simp
    | cons c word ih =>
      intro t equal
      obtain ⟨rfl, rest⟩ := List.cons.inj equal
      exact ih t rest
  exact slashes s.markerWord [] (by simpa [closeMarker, openMarker, lit] using same)

theorem edge?_closeMarker (s : Settings) : s.edge? (.ofComment s.closeMarker) = some .closing := by
  have other : ¬ s.Begins s.closeMarker := by
    rintro (⟨d, same⟩ | read)
    · exact s.openMarker_ne_closeMarker d same
    · rw [s.readMarker?_closeMarker] at read
      cases read
  simp [edge?, other]

end Settings

/-! ## Nodes of a text -/

namespace Interpolation

variable {s : Settings}

theorem block_of_neutral {e : Text} (neutral : Block.edge? e = none) : ∃ d, Block.ofExpression e = .whole d := by
  unfold Block.edge? at neutral
  unfold Block.ofExpression Block.ofStripped
  by_cases hash : e.strip.head? = some '#'
  · rw [if_pos hash] at neutral ⊢
    by_cases slash : e.strip.getLast? = some '/'
    · rw [if_pos slash]
      exact ⟨_, rfl⟩
    · rw [if_neg slash] at neutral
      cases neutral
  · rw [if_neg hash] at neutral ⊢
    by_cases slash : e.strip.head? = some '/'
    · rw [if_pos slash] at neutral
      cases neutral
    · rw [if_neg slash]
      split
      · exact ⟨_, rfl⟩
      · exact ⟨_, rfl⟩

theorem block_of_opening {e : Text} (opening : Block.edge? e = some .opening) :
    ∃ d, Block.ofExpression e = .begins d := by
  unfold Block.edge? at opening
  unfold Block.ofExpression Block.ofStripped
  by_cases hash : e.strip.head? = some '#'
  · rw [if_pos hash] at opening ⊢
    by_cases slash : e.strip.getLast? = some '/'
    · rw [if_pos slash] at opening
      cases opening
    · rw [if_neg slash]
      exact ⟨_, rfl⟩
  · rw [if_neg hash] at opening
    split at opening <;> cases opening

theorem block_of_closing {e : Text} (closing : Block.edge? e = some .closing) : Block.ofExpression e = .ends := by
  unfold Block.edge? at closing
  unfold Block.ofExpression Block.ofStripped
  by_cases hash : e.strip.head? = some '#'
  · rw [if_pos hash] at closing
    split at closing <;> cases closing
  · rw [if_neg hash] at closing ⊢
    by_cases slash : e.strip.head? = some '/'
    · rw [if_pos slash]
    · rw [if_neg slash] at closing
      cases closing

/-- Every expression that is no edge has an opening marker and a closing one
    behind it. -/
theorem segmentNodes_of_neutral (s : Settings) {e : Text} (neutral : Block.edge? e = none) :
    ∃ d, segmentNodes s (.expression e) = [.ofComment (s.openMarker d), .ofComment s.closeMarker] := by
  obtain ⟨d, block⟩ := block_of_neutral neutral
  exact ⟨d, by simp [segmentNodes, block, Block.markers]⟩

theorem edges_segmentNodes (s : Settings) (e : Text) : s.edges (segmentNodes s (.expression e)) = Block.edges e := by
  cases isEdge : Block.edge? e with
  | none =>
    obtain ⟨d, nodes⟩ := segmentNodes_of_neutral s isEdge
    rw [nodes]
    simp [Settings.edges, s.edge?_openMarker, s.edge?_closeMarker, Block.edges, isEdge]
  | some edge =>
    cases edge with
    | opening =>
      obtain ⟨d, block⟩ := block_of_opening isEdge
      simp [segmentNodes, block, Block.markers, Settings.edges, s.edge?_openMarker, Block.edges, isEdge]
    | closing =>
      have block := block_of_closing isEdge
      simp [segmentNodes, block, Block.markers, Settings.edges, s.edge?_closeMarker, Block.edges, isEdge]

/-- The nodes of segments have the edges of these. -/
theorem edges_segmentsNodes (s : Settings) (segments : List Segment) :
    s.edges (segmentsNodes s segments) = Block.allEdges segments := by
  induction segments with
  | nil => rfl
  | cons segment segments ih =>
    have split : s.edges (segmentsNodes s (segment :: segments)) =
        s.edges (segmentNodes s segment) ++ s.edges (segmentsNodes s segments) := by
      simp [segmentsNodes, Settings.edges]
    rw [split, ih]
    cases segment with
    | literal t => rfl
    | expression e => rw [edges_segmentNodes, Block.allEdges_cons_expression]

end Interpolation

/-! ## Preprocessed markers -/

namespace Visit

open Work

/-- What preprocessing makes of a node. An opening marker gets another directive
    string, and stays an opening marker whatever is left of that. Every other leaf
    stays as it is, and an element keeps its children. -/
inductive Preprocessed (s : Settings) : Node → Node → Prop
  | element (tag : Text) (attributes attributes' : Table AttributeValue) (children : List Node) :
      Preprocessed s (.element tag attributes children) (.element tag attributes' children)
  | marker {t d processed : Text} {st st' : State} (read : s.readMarker? t = some d)
      (ran : Directive.preprocessText d st = .ok processed st') :
      Preprocessed s (.ofComment t) (.ofComment (s.openMarker processed))
  | comment {t : Text} (other : s.readMarker? t = none) : Preprocessed s (.ofComment t) (.ofComment t)
  | leaf {kind : LeafKind} (other : kind ≠ .comment) (t : Text) : Preprocessed s (.leaf kind t) (.leaf kind t)

variable {s : Settings}

theorem preprocessed_of_preprocessNode {inDocument : Bool} {node node' : Node} {st st' : State}
    (ran : preprocessNode s inDocument node st = .ok node' st') : Preprocessed s node node' := by
  cases node with
  | element tag attributes children =>
    rw [Rewriting.preprocessNode_element] at ran
    obtain ⟨attributes', _, -, last⟩ := bind_eq_ok ran
    rw [← (pure_eq_ok last).1]
    exact .element tag attributes attributes' children
  | leaf kind t =>
    by_cases comment : kind = .comment
    · subst comment
      unfold preprocessNode at ran
      cases read : s.readMarker? t with
      | none =>
        simp only [read] at ran
        rw [← (pure_eq_ok ran).1]
        exact .comment read
      | some d =>
        simp only [read] at ran
        obtain ⟨_, _, _, ran⟩ := bind_eq_ok ran
        obtain ⟨_, _, _, ran⟩ := bind_eq_ok ran
        obtain ⟨processed, _, preprocessed, ran⟩ := bind_eq_ok ran
        cases inDocument with
        | false =>
          obtain ⟨_, _, thrown, _⟩ := bind_eq_ok ran
          cases thrown
        | true =>
          obtain ⟨_, _, _, last⟩ := bind_eq_ok ran
          rw [← (pure_eq_ok last).1]
          exact .marker read preprocessed
    · have stays : preprocessNode s inDocument (.leaf kind t) = pure (.leaf kind t) := by
        cases kind <;> simp_all [preprocessNode]
      rw [stays] at ran
      rw [← (pure_eq_ok ran).1]
      exact .leaf comment t

/-- Nodes are preprocessed one by one, each in its place, unless the settings say
    that they are not. -/
theorem preprocessed_of_preprocessNodes {inDocument : Bool} : ∀ {nodes nodes' : List Node} {st st' : State},
    preprocessNodes s inDocument nodes st = .ok nodes' st' →
      if s.preprocessDirectives then List.Forall₂ (Preprocessed s) nodes nodes' else nodes' = nodes
  | [], nodes', st, st', ran => by
    rw [← (pure_eq_ok ran).1]
    split
    · exact .nil
    · rfl
  | node :: rest, nodes', st, st', ran => by
    unfold preprocessNodes at ran
    by_cases wanted : s.preprocessDirectives = true
    · simp only [wanted, if_true] at ran ⊢
      obtain ⟨node', _, first, ran⟩ := bind_eq_ok ran
      obtain ⟨others, _, later, last⟩ := bind_eq_ok ran
      have each := preprocessed_of_preprocessNodes later
      rw [if_pos wanted] at each
      rw [← (pure_eq_ok last).1]
      exact .cons (preprocessed_of_preprocessNode first) each
    · simp only [wanted, Bool.false_eq_true, if_false, pure_bind] at ran ⊢
      obtain ⟨others, _, later, last⟩ := bind_eq_ok ran
      have each := preprocessed_of_preprocessNodes later
      rw [if_neg wanted] at each
      rw [← (pure_eq_ok last).1, each]

theorem Preprocessed.edge? {node node' : Node} (preprocessed : Preprocessed s node node') :
    s.edge? node' = s.edge? node := by
  cases preprocessed with
  | element => rfl
  | marker read ran =>
    rename_i t d processed _ _
    have begins : s.Begins t := .inr (by simp [read])
    rw [s.edge?_openMarker]
    simp [Settings.edge?, begins]
  | comment => rfl
  | leaf => rfl

/-- Preprocessed nodes have the edges that they had. -/
theorem edges_of_preprocessNodes {inDocument : Bool} {nodes nodes' : List Node} {st st' : State}
    (ran : preprocessNodes s inDocument nodes st = .ok nodes' st') : s.edges nodes' = s.edges nodes := by
  have each := preprocessed_of_preprocessNodes ran
  clear ran
  split at each
  · induction each with
    | nil => rfl
    | cons first _ ih =>
      rw [Settings.edges, Settings.edges, List.filterMap_cons, List.filterMap_cons, first.edge?]
      cases s.edge? _ with
      | none => exact ih
      | some edge => exact congrArg (edge :: ·) ih
  · rw [each]

end Visit

/-! ## Regions in documents -/

/-- The regions in a list of nodes: the edges among them, and the elements with
    the regions in these. -/
inductive Outline where
  | edge (e : Edge)
  | element (inside : List Outline)

namespace Rewriting

open Work

mutual
def outline (s : Settings) : Node → List Outline
  | .element _ _ children => [.element (outlines s children)]
  | .leaf kind t => (s.edge? (.leaf kind t)).toList.map .edge

def outlines (s : Settings) : List Node → List Outline
  | [] => []
  | node :: rest => outline s node ++ outlines s rest
end

mutual
/-- The regions of a node before it is compiled: a text has the edges of its
    expressions, unless it is kept. -/
def sourceOutline (s : Settings) (parent : Text) : Node → List Outline
  | .element tag _ children => [.element (sourceOutlines s tag children)]
  | .leaf kind t =>
    match Interpolation.textNodes? s (some parent) (.leaf kind t) with
    | some _ => (Block.allEdges ((Segment.scan s.openToken s.closeToken t).getD [])).map .edge
    | none => outline s (.leaf kind t)

def sourceOutlines (s : Settings) (parent : Text) : List Node → List Outline
  | [] => []
  | node :: rest => sourceOutline s parent node ++ sourceOutlines s parent rest
end

variable {s : Settings}

theorem outlines_append (before after : List Node) :
    outlines s (before ++ after) = outlines s before ++ outlines s after := by
  induction before with
  | nil => rfl
  | cons node before ih => rw [List.cons_append, outlines, outlines, ih, List.append_assoc]

theorem outlines_singleton (node : Node) : outlines s [node] = outline s node := by
  rw [outlines, outlines, List.append_nil]

theorem outlines_of_leaves : ∀ {nodes : List Node}, (∀ node ∈ nodes, ∃ kind t, node = .leaf kind t) →
    outlines s nodes = (s.edges nodes).map .edge
  | [], _ => by
    rw [outlines]
    rfl
  | node :: rest, leaves => by
    obtain ⟨kind, t, rfl⟩ := leaves node (List.mem_cons_self ..)
    have later := outlines_of_leaves fun node inside => leaves node (List.mem_cons_of_mem _ inside)
    rw [outlines, outline, later, Settings.edges, Settings.edges, List.filterMap_cons]
    cases s.edge? (.leaf kind t) <;> rfl

theorem outline_of_preprocessed {node node' : Node} (preprocessed : Visit.Preprocessed s node node') :
    outline s node' = outline s node := by
  have same := preprocessed.edge?
  cases preprocessed with
  | element =>
    rw [outline, outline]
  | marker read ran => rw [outline, outline, same]
  | comment other => rfl
  | leaf other t => rfl

theorem outlines_of_preprocessNodes {inDocument : Bool} {nodes nodes' : List Node} {st st' : State}
    (ran : Visit.preprocessNodes s inDocument nodes st = .ok nodes' st') : outlines s nodes' = outlines s nodes := by
  have each := Visit.preprocessed_of_preprocessNodes ran
  clear ran
  split at each
  · induction each with
    | nil => rfl
    | cons first _ ih => rw [outlines, outlines, outline_of_preprocessed first, ih]
  · rw [each]

mutual
theorem outlines_of_rewriteNode : ∀ {node : Node} {parent : Text} {outs : List Node} {st st' : State},
    rewriteNode s parent node st = .ok outs st' → outlines s outs = sourceOutline s parent node
  | .element tag attributes children, parent, outs, st, st', ran => by
    unfold rewriteNode at ran
    obtain ⟨_, _, _, ran⟩ := bind_eq_ok ran
    obtain ⟨_, _, _, ran⟩ := bind_eq_ok ran
    obtain ⟨inside, _, below, last⟩ := bind_eq_ok ran
    rw [← (pure_eq_ok last).1, outlines_singleton, outline, sourceOutline, outlines_of_rewriteNodes below]
  | .leaf kind t, parent, outs, st, st', ran => by
    unfold rewriteNode at ran
    obtain ⟨_, counted, _, ran⟩ := bind_eq_ok ran
    unfold rewriteLeaf at ran
    rw [sourceOutline]
    cases interpolated : Interpolation.textNodes? s (some parent) (.leaf kind t) with
    | none =>
      rw [interpolated] at ran
      obtain ⟨node, _, rewritten, last⟩ := bind_eq_ok ran
      have alone : ∃ after, Visit.preprocessNodes s true [.leaf kind t] counted = .ok [node] after := by
        rw [preprocessNodes_leaves s [.leaf kind t] fun node inside => ⟨kind, t, List.mem_singleton.mp inside⟩,
          List.mapM_cons, List.mapM_nil, bind_ok rewritten]
        exact ⟨_, rfl⟩
      obtain ⟨_, preprocessed⟩ := alone
      rw [← (pure_eq_ok last).1, outlines_of_preprocessNodes preprocessed, outlines_singleton]
    | some nodes =>
      rw [interpolated] at ran
      obtain ⟨_, _, _, ran⟩ := bind_eq_ok ran
      obtain ⟨_, _, _, ran⟩ := bind_eq_ok ran
      have leaves := Interpolation.textNodes?_leaves interpolated
      rw [← preprocessNodes_leaves s nodes leaves] at ran
      obtain ⟨kind', t', segments, same, -, scanned, rfl⟩ := Interpolation.textNodes?_eq_some interpolated
      cases same
      rw [outlines_of_preprocessNodes ran, outlines_of_leaves leaves, Interpolation.edges_segmentsNodes, scanned,
        Option.getD_some]

theorem outlines_of_rewriteNodes : ∀ {nodes : List Node} {parent : Text} {outs : List Node} {st st' : State},
    rewriteNodes s parent nodes st = .ok outs st' → outlines s outs = sourceOutlines s parent nodes
  | [], parent, outs, st, st', ran => by
    unfold rewriteNodes at ran
    rw [← (pure_eq_ok ran).1, outlines, sourceOutlines]
  | node :: rest, parent, outs, st, st', ran => by
    unfold rewriteNodes at ran
    obtain ⟨first, _, here, ran⟩ := bind_eq_ok ran
    obtain ⟨others, _, later, last⟩ := bind_eq_ok ran
    rw [← (pure_eq_ok last).1, outlines_append, outlines_of_rewriteNode here, outlines_of_rewriteNodes later,
      sourceOutlines]
end

/-! ## Nesting -/

/-- The nodes that a text gives way to are those of its segments, and behind any
    number of these as many regions more are opened than closed as there are
    expressions more that begin a block than such that end one. So regions are well
    nested among the nodes just when blocks are in the text. Every other expression
    has an opening marker and a closing one behind it.

    Preprocessing keeps every node in its place and every region open or closed. An
    opening marker stays one, even when no directive is left of it, and no other
    comment is changed. A document that is compiled with the standard stages has the
    edges of its source, in the same elements. -/
theorem nesting_kept (s : Settings) :
    (∀ (parent : Option Text) (node : Node) (nodes : List Node), Interpolation.textNodes? s parent node = some nodes →
      ∃ kind t segments, node = .leaf kind t ∧ Segment.scan s.openToken s.closeToken t = some segments ∧
        nodes = Interpolation.segmentsNodes s segments ∧
        (∀ before, before <+: segments →
          Edge.net (s.edges (Interpolation.segmentsNodes s before)) = Edge.net (Block.edgesIn before)) ∧
        (Edge.WellNested (s.edges nodes) ↔ Edge.WellNested (Block.edgesIn segments)) ∧
        ∀ e, .expression e ∈ segments → Block.edge? e = none →
          ∃ d, Interpolation.segmentNodes s (.expression e) = [.ofComment (s.openMarker d), .ofComment s.closeMarker]) ∧
      (∀ (inDocument : Bool) (nodes nodes' : List Node) (st st' : State),
        Visit.preprocessNodes s inDocument nodes st = .ok nodes' st' →
          (if s.preprocessDirectives then List.Forall₂ (Visit.Preprocessed s) nodes nodes' else nodes' = nodes) ∧
            s.edges nodes' = s.edges nodes) ∧
      ∀ (st st' : State) (parent : Text) (nodes outs : List Node), st.nodeStages = some Standard.nodeStages →
        Document.compileNodes s parent nodes st = .ok outs st' → outlines s outs = sourceOutlines s parent nodes := by
  refine ⟨?_, ?_, ?_⟩
  · intro parent node nodes interpolated
    obtain ⟨kind, t, segments, rfl, -, scanned, rfl⟩ := Interpolation.textNodes?_eq_some interpolated
    refine ⟨kind, t, segments, rfl, scanned, rfl, ?_, ?_, ?_⟩
    · intro before _
      rw [Interpolation.edges_segmentsNodes, Block.net_allEdges]
    · rw [Interpolation.edges_segmentsNodes, Block.wellNested_allEdges]
    · intro e _ neutral
      exact Interpolation.segmentNodes_of_neutral s neutral
  · intro inDocument nodes nodes' st st' ran
    exact ⟨Visit.preprocessed_of_preprocessNodes ran, Visit.edges_of_preprocessNodes ran⟩
  · intro st st' parent nodes outs standard ran
    rw [compileNodes_eq_rewriteNodes s parent nodes standard] at ran
    exact outlines_of_rewriteNodes ran

/-- A block around an expression. -/
def blockText : Text := lit "\x7b\x7b#if a\x7d\x7db\x7b\x7bc\x7d\x7d\x7b\x7b/if\x7d\x7d"

def blockSegments : List Segment :=
  [.expression (lit "#if a"), .literal (lit "b"), .expression (lit "c"), .expression (lit "/if")]

/-- The standard stages for nodes, and a handler that removes every `text`. -/
def removingTexts : State :=
  { registry := Registry.store { divider := lit "." } (lit "text")
      { preprocess :=
          some (.stage (.apply (.client { name := lit "drop", respond := fun _ _ => { result := .ok .null } }))) }
    nodeStages := some Standard.nodeStages }

theorem nesting_kept_removed :
    Edge.WellNested (Settings.edges {} (Interpolation.segmentsNodes {} blockSegments)) ∧
      removingTexts.nodeStages = some Standard.nodeStages ∧
      ∃ nodes outs st st', Visit.preprocessNodes {} true (Interpolation.segmentsNodes {} blockSegments) removingTexts =
          .ok nodes st ∧
        Settings.edges {} nodes = [.opening, .opening, .closing, .closing] ∧
        Document.compileNodes {} (lit "p") [.ofText blockText] removingTexts = .ok outs st' ∧
        Html.write outs = lit "<!--ko if:a-->b<!--ko --><!--/ko--><!--/ko-->" ∧
        outlines {} outs = [.edge .opening, .edge .opening, .edge .closing, .edge .closing] := by
  have preprocessed : (match Visit.preprocessNodes {} true (Interpolation.segmentsNodes {} blockSegments)
        removingTexts with
      | .ok _ _ => true
      | .error _ _ => false) = true := by decide +kernel
  have written : (match Document.compileNodes {} (lit "p") [.ofText blockText] removingTexts with
      | .ok outs _ => Html.write outs
      | .error _ _ => []) = lit "<!--ko if:a-->b<!--ko --><!--/ko--><!--/ko-->" := by decide +kernel
  obtain ⟨texts, preprocessing, compiling⟩ := nesting_kept {}
  have scanned : Segment.scan (lit "\x7b\x7b") (lit "\x7d\x7d") blockText = some blockSegments := by decide +kernel
  have interpolated : Interpolation.textNodes? {} (some (lit "p")) (.ofText blockText) =
      some (Interpolation.segmentsNodes {} blockSegments) := by
    have unkept : Interpolation.isRaw {} (some (lit "p")) = false := by decide
    simp only [Interpolation.textNodes?, Interpolation.isInterpolated, unkept, scanned, blockSegments, Bool.not_false,
      Bool.and_self, if_true]
  have nested : Edge.WellNested (Settings.edges {} (Interpolation.segmentsNodes {} blockSegments)) := by
    obtain ⟨_, _, segments, same, scanned', -, -, nested, -⟩ := texts _ _ _ interpolated
    cases same
    cases scanned.symm.trans scanned'
    exact nested.mpr (by decide)
  cases ran : Visit.preprocessNodes {} true (Interpolation.segmentsNodes {} blockSegments) removingTexts with
  | error e st =>
    rw [ran] at preprocessed
    cases preprocessed
  | ok nodes st =>
    cases compiled : Document.compileNodes {} (lit "p") [.ofText blockText] removingTexts with
    | error e st' =>
      rw [compiled] at written
      exact absurd written (by simp)
    | ok outs st' =>
      rw [compiled] at written
      have kept := (preprocessing true _ nodes _ st ran).2
      have regions := compiling _ st' _ _ outs rfl compiled
      refine ⟨nested, rfl, nodes, outs, st, st', rfl, ?_, rfl, written, ?_⟩
      · rw [kept]
        decide +kernel
      · rw [regions, sourceOutlines, sourceOutlines, sourceOutline, interpolated]
        simp only [scanned, Option.getD_some, List.append_nil]
        have edges : Block.allEdges blockSegments = [.opening, .opening, .closing, .closing] := by decide
        simp [edges]

end Rewriting
end Bindmark
