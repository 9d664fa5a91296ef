import Bindmark.Proofs.Moving
import Bindmark.Proofs.Settling
import Bindmark.Proofs.StandardDirectives
import Bindmark.Proofs.WordLists

/-!
# Spots in a document

A spot is what is around a place in a document. What compiling makes of the
nodes there stands in a spot again, with the same elements around it, and what
has become of the rest does not depend on those nodes.
-/

namespace Bindmark

open Work Rewriting

/-- What is around a place among nodes: it lies between two lists of them, or
    below an element that lies between them. -/
inductive Spot where
  | here (before after : List Node)
  | within (before : List Node) (tag : Text) (attributes : Table AttributeValue) (inner : Spot) (after : List Node)

namespace Spot

/-- The nodes of a document with some of them in a spot. -/
def fill (nodes : List Node) : Spot → List Node
  | .here before after => before ++ (nodes ++ after)
  | .within before tag attributes inner after => before ++ .element tag attributes (inner.fill nodes) :: after

/-- The tag of the parent of the nodes in a spot. -/
def parent (outermost : Text) : Spot → Text
  | .here _ _ => outermost
  | .within _ tag _ inner _ => inner.parent tag

/-- The tags of the elements around a spot, the outermost first. -/
def tags : Spot → List Text
  | .here _ _ => []
  | .within _ tag _ inner _ => tag :: inner.tags

end Spot

/-! ## Rewriting around a spot -/

namespace Rewriting

variable {start : State} {s : Settings}

theorem rewriteNodes_append (s : Settings) (parent : Text) (before after : List Node) :
    rewriteNodes s parent (before ++ after) = do
      let first ← rewriteNodes s parent before
      let others ← rewriteNodes s parent after
      return first ++ others := by
  induction before with
  | nil => simp [rewriteNodes]
  | cons node rest ih =>
    rw [List.cons_append, rewriteNodes, rewriteNodes, ih]
    simp only [bind_assoc, pure_bind, List.append_assoc]

theorem rewriteNodes_singleton (s : Settings) (parent : Text) (node : Node) :
    rewriteNodes s parent [node] = rewriteNode s parent node := by
  rw [rewriteNodes, rewriteNodes]
  simp

/-! ## Rewriting returns -/

open Standard

theorem count_gives (f : Stats → Stats) : Gives Grown (Work.count f) fun _ => True :=
  fun _ grown => ⟨_, _, rfl, grown.of_registry rfl, trivial⟩

theorem forM_gives {α : Type} {f : α → Work PUnit} (each : ∀ a, Gives Grown (f a) fun _ => True) :
    ∀ as : List α, Gives Grown (as.forM f) fun _ => True
  | [] => Gives.pure trivial
  | a :: as => (each a).bind fun _ _ => forM_gives each as

theorem notAllowed_gives : ∀ ps : List Pair, Gives Grown (Visit.notAllowed ps) fun _ => True
  | [] => Gives.pure trivial
  | p :: rest => by
    have read : Gives Grown Work.registry fun _ => True := fun st grown => ⟨_, st, rfl, grown, trivial⟩
    exact (lookup_gives p.key).bind fun _ _ => read.bind fun _ _ =>
      (notAllowed_gives rest).bind fun _ _ => Gives.pure trivial

/-- An opening marker is preprocessed with its directive string. -/
theorem preprocessMarker_gives (s : Settings) {directives : Text} {Q : Text → Prop}
    (processed : Gives Grown (Directive.preprocessText directives) Q) :
    Gives Grown (preprocessMarker s directives) fun node => ∃ t, node = .ofComment (s.openMarker t) ∧ Q t :=
  (notAllowed_gives _).bind fun _ _ => (forM_gives (fun _ => log_gives _) _).bind fun _ _ =>
    processed.bind fun t holds => (count_gives _).bind fun _ _ => Gives.pure ⟨t, rfl, holds⟩

theorem rewriteMarker_gives (s : Settings) (node : Node) : Gives Grown (rewriteMarker s node) fun _ => True := by
  cases node with
  | element => exact Gives.pure trivial
  | leaf kind t =>
    rw [rewriteMarker]
    split
    · unfold preprocessLeaf
      split
      · exact (preprocessMarker_gives s (preprocessText_returns _)).weaken fun _ _ => trivial
      · exact Gives.pure trivial
    · exact Gives.pure trivial

theorem mapM_gives {f : Node → Work Node} (each : ∀ node, Gives Grown (f node) fun _ => True) (nodes : List Node) :
    Gives Grown (nodes.mapM f) fun _ => True := by
  induction nodes with
  | nil => simpa using Gives.pure trivial
  | cons node rest ih =>
    rw [List.mapM_cons]
    exact (each node).bind fun _ _ => ih.bind fun _ _ => Gives.pure trivial

theorem rewriteLeaf_gives (s : Settings) (parent : Text) (kind : LeafKind) (t : Text) :
    Gives Grown (rewriteLeaf s parent kind t) fun _ => True := by
  unfold rewriteLeaf
  split
  · exact (log_gives _).bind fun _ _ => (count_gives _).bind fun _ _ => mapM_gives (rewriteMarker_gives s) _
  · exact (rewriteMarker_gives s _).bind fun _ _ => Gives.pure trivial

/-- Attributes are rewritten, if those with the directives are no list of words. -/
theorem rewriteAttributes_gives (tag : Text) {attributes : Table AttributeValue}
    (noWords : NoWordList s attributes) :
    Gives Grown (rewriteAttributes s tag attributes) fun _ => True := by
  refine (Interpolation.moveAttributes_gives s tag attributes.entries attributes).bind fun moved held => ?_
  have noWords' : NoWordList s moved := by
    intro words isWords
    rw [isWords] at held
    split at held
    · exact noWords words held.symm
    · cases held
  have directives : Gives Grown (Visit.directivesOf? s moved) fun _ => True := by
    unfold Visit.directivesOf?
    split
    · exact Gives.pure trivial
    · rename_i words isWords
      rw [noWords' words isWords]
      exact Gives.pure trivial
    · exact Gives.pure trivial
  split
  · refine directives.bind fun t _ => ?_
    cases t with
    | none => exact Gives.pure trivial
    | some t => exact (preprocessText_returns t).bind fun _ _ => (count_gives _).bind fun _ _ => Gives.pure trivial
  · exact Gives.pure trivial

mutual
theorem rewriteNode_gives (s : Settings) (parent : Text) :
    ∀ node : Node, NoWords s node → Gives Grown (rewriteNode s parent node) fun _ => True
  | .element tag attributes children, noWords => by
    rw [NoWords] at noWords
    rw [rewriteNode]
    exact (count_gives _).bind fun _ _ => (rewriteAttributes_gives tag noWords.1).bind fun _ _ =>
      (rewriteNodes_gives s tag children noWords.2).bind fun _ _ => Gives.pure trivial
  | .leaf kind t, _ => by
    rw [rewriteNode]
    exact (count_gives _).bind fun _ _ => rewriteLeaf_gives s parent kind t

theorem rewriteNodes_gives (s : Settings) (parent : Text) :
    ∀ nodes : List Node, NoWordsIn s nodes → Gives Grown (rewriteNodes s parent nodes) fun _ => True
  | [], _ => by
    rw [rewriteNodes]
    exact Gives.pure trivial
  | node :: rest, noWords => by
    rw [NoWordsIn] at noWords
    rw [rewriteNodes]
    exact (rewriteNode_gives s parent node noWords.1).bind fun _ _ =>
      (rewriteNodes_gives s parent rest noWords.2).bind fun _ _ => Gives.pure trivial
end

theorem countNode_settles : Settles start countNode (.ok ()) :=
  fun _ reached => ⟨_, rfl, reached.grown, reached.nodeStages⟩

end Rewriting

namespace Spot

variable {start : State} {s : Settings}

/-- What becomes of a spot. -/
def compiled (start : State) (s : Settings) (parent : Text) : Spot → Except Fault Spot
  | .here before after => do
    let before ← settled start (rewriteNodes s parent before)
    let after ← settled start (rewriteNodes s parent after)
    return .here before after
  | .within before tag attributes inner after => do
    let before ← settled start (rewriteNodes s parent before)
    let attributes ← settled start (rewriteAttributes s tag attributes)
    let inner ← inner.compiled start s tag
    let after ← settled start (rewriteNodes s parent after)
    return .within before tag attributes inner after

/-- Compiling keeps the elements around a spot. -/
theorem tags_compiled : ∀ {spot after : Spot} {parent : Text}, spot.compiled start s parent = .ok after →
    after.tags = spot.tags
  | .here before behind, after, parent, ended => by
    unfold compiled at ended
    obtain ⟨_, _, rest⟩ := ok_of_bind ended
    obtain ⟨_, _, last⟩ := ok_of_bind rest
    cases last
    rfl
  | .within before tag attributes inner behind, after, parent, ended => by
    unfold compiled at ended
    obtain ⟨_, _, rest⟩ := ok_of_bind ended
    obtain ⟨_, _, rest⟩ := ok_of_bind rest
    obtain ⟨inner', isInner, rest⟩ := ok_of_bind rest
    obtain ⟨_, _, last⟩ := ok_of_bind rest
    cases last
    rw [tags, tags, tags_compiled isInner]

theorem noWordsIn_fill {nodes : List Node} : ∀ {spot : Spot}, NoWordsIn s (spot.fill nodes) → NoWordsIn s (spot.fill [])
  | .here before after, noWords => by
    rw [fill, noWordsIn_append, noWordsIn_append] at noWords
    exact noWordsIn_append.mpr ⟨noWords.1, noWords.2.2⟩
  | .within before tag attributes inner after, noWords => by
    rw [fill, noWordsIn_append, NoWordsIn, NoWords] at noWords ⊢
    obtain ⟨outside, ⟨own, below⟩, others⟩ := noWords
    exact ⟨outside, ⟨own, noWordsIn_fill below⟩, others⟩

/-- A spot is compiled, unless there are lists of words where directives stand. -/
theorem exists_compiled (grown : Standard.Grown start) : ∀ {spot : Spot} (parent : Text), NoWordsIn s (spot.fill []) →
    ∃ after, spot.compiled start s parent = .ok after
  | .here before after, parent, noWords => by
    rw [fill, noWordsIn_append, List.nil_append] at noWords
    obtain ⟨_, first, -⟩ := settled_eq_ok (rewriteNodes_gives s parent before noWords.1) grown
    obtain ⟨_, last, -⟩ := settled_eq_ok (rewriteNodes_gives s parent after noWords.2) grown
    rw [compiled, first, last]
    exact ⟨_, rfl⟩
  | .within before tag attributes inner after, parent, noWords => by
    rw [fill, noWordsIn_append, NoWordsIn, NoWords] at noWords
    obtain ⟨noWordsBefore, ⟨own, below⟩, noWordsAfter⟩ := noWords
    obtain ⟨_, first, -⟩ := settled_eq_ok (rewriteNodes_gives s parent before noWordsBefore) grown
    obtain ⟨_, opening, -⟩ := settled_eq_ok (rewriteAttributes_gives tag own) grown
    obtain ⟨_, inside⟩ := exists_compiled grown tag below
    obtain ⟨_, last, -⟩ := settled_eq_ok (rewriteNodes_gives s parent after noWordsAfter) grown
    rw [compiled, first, opening, inside, last]
    exact ⟨_, rfl⟩

/-- The nodes in a spot are compiled on their own, and the rest around them. -/
theorem fill_settles (plain : start.registry.Plain) (standard : start.nodeStages = some Standard.nodeStages)
    {nodes outs : List Node} : ∀ {spot : Spot} {parent : Text},
    Settles start (rewriteNodes s (spot.parent parent) nodes) (.ok outs) →
      Settles start (rewriteNodes s parent (spot.fill nodes)) (fill outs <$> spot.compiled start s parent)
  | .here before after, parent, settles => by
    have around (nodes : List Node) := settles_of_repeats (rewriteNodes_repeats plain standard s parent nodes)
    have inside := settles.bind fun outs => (around after).bind fun after => Settles.pure (outs ++ after)
    have whole := (around before).bind fun before => inside.bind fun rest => Settles.pure (before ++ rest)
    rw [fill, rewriteNodes_append, rewriteNodes_append]
    refine whole.congr ?_
    rw [compiled]
    cases settled start (rewriteNodes s parent before) <;> cases settled start (rewriteNodes s parent after) <;> rfl
  | .within before tag attributes inner after, parent, settles => by
    have around (nodes : List Node) := settles_of_repeats (rewriteNodes_repeats plain standard s parent nodes)
    have opening := settles_of_repeats (rewriteAttributes_repeats plain s tag attributes)
    have below : Settles start (rewriteNodes s tag (inner.fill nodes)) (fill outs <$> inner.compiled start s tag) :=
      fill_settles plain standard settles
    have element := countNode_settles.bind fun _ => opening.bind fun attributes =>
      below.bind fun children => Settles.pure [Node.element tag attributes children]
    have rest := element.bind fun first => (around after).bind fun others => Settles.pure (first ++ others)
    have whole := (around before).bind fun before => rest.bind fun rest => Settles.pure (before ++ rest)
    rw [fill, rewriteNodes_append, rewriteNodes, rewriteNode]
    refine whole.congr ?_
    rw [compiled]
    cases settled start (rewriteNodes s parent before) <;> cases settled start (rewriteAttributes s tag attributes) <;>
      cases inner.compiled start s tag <;> cases settled start (rewriteNodes s parent after) <;> rfl

end Spot
end Bindmark
