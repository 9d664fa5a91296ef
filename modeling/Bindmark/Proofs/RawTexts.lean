import Bindmark.Html.Printer
import Bindmark.Proofs.Scanning
import Bindmark.Proofs.Spots

/-!
# Texts that are kept

Which text nodes a document keeps when it is compiled. The nodes in a spot are
compiled in their turn, between what is before and what is behind them
(`rewriteNodes_fill`), whatever the registry is. A text stays in its place as it
is exactly when its parent keeps its text or when no segment is found in it.
Elements further out make no difference: a text that is not a child of a raw
container but only somewhere below it is interpolated like any other.
-/

namespace Bindmark

open Work Rewriting

/-! ## What becomes of a spot -/

namespace Spot

/-- What becomes of a spot and of what is in it, which is worked on in its turn. -/
def rewrite (s : Settings) (inside : Work (List Node)) (parent : Text) : Spot → Work (Spot × List Node)
  | .here before after => do
    let before ← rewriteNodes s parent before
    let nodes ← inside
    let after ← rewriteNodes s parent after
    return (.here before after, nodes)
  | .within before tag attributes inner after => do
    let before ← rewriteNodes s parent before
    countNode
    let attributes ← rewriteAttributes s tag attributes
    let (inner, nodes) ← inner.rewrite s inside tag
    let after ← rewriteNodes s parent after
    return (.within before tag attributes inner after, nodes)

/-- What becomes of a spot when its document is compiled. -/
def compile (s : Settings) (inside : Work (List Node)) (spot : Spot) : Work (Spot × List Node) :=
  spot.rewrite s inside Document.rootTag

/-- The nodes in a spot are rewritten in their turn, and stand in what becomes of
    the spot. -/
theorem rewriteNodes_fill (s : Settings) (nodes : List Node) : ∀ (spot : Spot) (parent : Text),
    rewriteNodes s parent (spot.fill nodes) = do
      let (after, outs) ← spot.rewrite s (rewriteNodes s (spot.parent parent) nodes) parent
      return after.fill outs
  | .here before after, parent => by
    rw [fill, rewriteNodes_append, rewriteNodes_append, rewrite, Spot.parent]
    simp [fill]
  | .within before tag attributes inner after, parent => by
    rw [fill, rewriteNodes_append, rewriteNodes, rewriteNode, rewriteNodes_fill s nodes inner tag, rewrite, Spot.parent]
    simp [fill]

/-- A spot keeps the elements around it, and holds what the work inside gives. -/
theorem rewrite_eq_ok {s : Settings} {inside : Work (List Node)} {nodes : List Node} :
    ∀ {spot after : Spot} {parent : Text} {st st' : State}, spot.rewrite s inside parent st = .ok (after, nodes) st' →
      after.tags = spot.tags ∧ ∃ st₁ st₂, inside st₁ = .ok nodes st₂
  | .here before behind, after, parent, st, st', ran => by
    rw [rewrite] at ran
    obtain ⟨_, st₁, _, ran⟩ := bind_eq_ok ran
    obtain ⟨outs, st₂, given, ran⟩ := bind_eq_ok ran
    obtain ⟨_, _, _, last⟩ := bind_eq_ok ran
    cases (pure_eq_ok last).1
    exact ⟨rfl, st₁, st₂, given⟩
  | .within before tag attributes inner behind, after, parent, st, st', ran => by
    rw [rewrite] at ran
    obtain ⟨_, _, _, ran⟩ := bind_eq_ok ran
    obtain ⟨_, _, _, ran⟩ := bind_eq_ok ran
    obtain ⟨_, _, _, ran⟩ := bind_eq_ok ran
    obtain ⟨⟨inner', outs⟩, _, below, ran⟩ := bind_eq_ok ran
    obtain ⟨_, _, _, last⟩ := bind_eq_ok ran
    cases (pure_eq_ok last).1
    obtain ⟨tags, given⟩ := rewrite_eq_ok below
    exact ⟨by rw [Spot.tags, Spot.tags, tags], given⟩

end Spot

/-! ## Texts with segments -/

namespace Rewriting

variable {s : Settings} {parent : Text} {kind : LeafKind} {t : Text}

/-- Segments are found in a text. -/
def HasSegments (s : Settings) (t : Text) : Prop :=
  ∃ first rest, Segment.scan s.openToken s.closeToken t = some (first :: rest)

/-- The settings keep a text as it is under a parent. -/
def KeepsText (s : Settings) (parent t : Text) : Prop := parent ∈ s.rawTextContainers ∨ ¬ HasSegments s t

/-- A node is counted, and stays as it is. -/
def keepNode (node : Node) : Work (List Node) := do
  countNode
  return [node]

theorem textNodes?_eq_none_iff (isText : Interpolation.isInterpolated kind = true) :
    Interpolation.textNodes? s (some parent) (.leaf kind t) = none ↔ KeepsText s parent t := by
  unfold Interpolation.textNodes? KeepsText HasSegments
  by_cases raw : parent ∈ s.rawTextContainers
  · simp [Interpolation.isRaw, raw]
  · simp only [isText, Interpolation.isRaw, List.contains_eq_mem, raw, decide_false, Bool.not_false, Bool.and_self,
      if_true, false_or]
    rcases Segment.scan s.openToken s.closeToken t with _ | _ | ⟨first, rest⟩ <;> simp

/-- Text nodes are no markers. -/
theorem rewriteMarker_text (isText : Interpolation.isInterpolated kind = true) :
    rewriteMarker s (.leaf kind t) = pure (.leaf kind t) := by
  cases kind <;> simp [Interpolation.isInterpolated] at isText <;> simp [rewriteMarker, preprocessLeaf]

/-- What is left of a leaf is of the same kind. Only a comment may get another
    text. -/
theorem rewriteMarker_eq_ok {node : Node} {st st' : State} (ran : rewriteMarker s (.leaf kind t) st = .ok node st') :
    ∃ t', node = .leaf kind t' ∧ (kind ≠ .comment → t' = t) := by
  by_cases comment : kind = .comment
  · subst comment
    by_cases wanted : s.preprocessDirectives = true
    · cases read : s.readMarker? t with
      | none =>
        simp only [rewriteMarker, wanted, if_true, preprocessLeaf, read] at ran
        exact ⟨t, (pure_eq_ok ran).1.symm, by simp⟩
      | some directives =>
        simp only [rewriteMarker, wanted, if_true, preprocessLeaf, read, preprocessMarker] at ran
        obtain ⟨_, _, _, ran⟩ := bind_eq_ok ran
        obtain ⟨_, _, _, ran⟩ := bind_eq_ok ran
        obtain ⟨_, _, _, ran⟩ := bind_eq_ok ran
        obtain ⟨_, _, _, last⟩ := bind_eq_ok ran
        exact ⟨_, (pure_eq_ok last).1.symm, by simp⟩
    · simp only [rewriteMarker, wanted, Bool.false_eq_true, if_false] at ran
      exact ⟨t, (pure_eq_ok ran).1.symm, by simp⟩
  · have stays : rewriteMarker s (.leaf kind t) = pure (.leaf kind t) := by
      cases kind <;> simp_all [rewriteMarker, preprocessLeaf]
    rw [stays] at ran
    exact ⟨t, (pure_eq_ok ran).1.symm, fun _ => rfl⟩

theorem mem_mapM {f : Node → Work Node} {node : Node} : ∀ {nodes outs : List Node} {st st' : State},
    nodes.mapM f st = .ok outs st' → node ∈ outs → ∃ a ∈ nodes, ∃ st₁ st₂, f a st₁ = .ok node st₂
  | [], outs, st, st', ran, inside => by
    rw [List.mapM_nil] at ran
    rw [← (pure_eq_ok ran).1] at inside
    cases inside
  | a :: rest, outs, st, st', ran, inside => by
    rw [List.mapM_cons] at ran
    obtain ⟨b, st₁, first, ran⟩ := bind_eq_ok ran
    obtain ⟨others, _, later, last⟩ := bind_eq_ok ran
    rw [← (pure_eq_ok last).1] at inside
    rcases List.mem_cons.mp inside with rfl | inside
    · exact ⟨a, List.mem_cons_self .., st, st₁, first⟩
    · obtain ⟨c, among, ends⟩ := mem_mapM later inside
      exact ⟨c, List.mem_cons_of_mem _ among, ends⟩

/-- A text with segments is not among the nodes that it gives way to, for no
    literal in it is the whole of it. -/
theorem notMem_textNodes (tokens : s.openToken ≠ [] ∨ s.closeToken ≠ [])
    (isText : Interpolation.isInterpolated kind = true) {nodes : List Node}
    (interpolated : Interpolation.textNodes? s (some parent) (.leaf kind t) = some nodes) : .leaf kind t ∉ nodes := by
  intro inside
  obtain ⟨kind', t', segments, same, -, scanned, rfl⟩ := Interpolation.textNodes?_eq_some interpolated
  cases same
  obtain ⟨segment, among, inside⟩ := List.mem_flatMap.mp inside
  cases segment with
  | literal l =>
    cases List.mem_singleton.mp inside
    rw [Segment.scan_literal tokens scanned among] at scanned
    cases scanned
  | expression e =>
    obtain ⟨marker, -, same⟩ := List.mem_map.mp inside
    cases same
    cases isText

/-- A text that is kept is counted, and stays as it is. -/
theorem rewriteText_kept (isText : Interpolation.isInterpolated kind = true) (kept : KeepsText s parent t) :
    rewriteNodes s parent [.leaf kind t] = keepNode (.leaf kind t) := by
  rw [rewriteNodes_singleton, rewriteNode, rewriteLeaf, (textNodes?_eq_none_iff isText).mpr kept]
  simp [rewriteMarker_text isText, keepNode]

/-- Any other text gives way to other nodes. -/
theorem rewriteText_replaced (tokens : s.openToken ≠ [] ∨ s.closeToken ≠ [])
    (isText : Interpolation.isInterpolated kind = true) (replaced : ¬ KeepsText s parent t) {nodes : List Node}
    {st st' : State} (ran : rewriteNodes s parent [.leaf kind t] st = .ok nodes st') : .leaf kind t ∉ nodes := by
  intro inside
  rw [rewriteNodes_singleton, rewriteNode] at ran
  obtain ⟨_, _, _, ran⟩ := bind_eq_ok ran
  unfold rewriteLeaf at ran
  cases interpolated : Interpolation.textNodes? s (some parent) (.leaf kind t) with
  | none => exact replaced ((textNodes?_eq_none_iff isText).mp interpolated)
  | some ns =>
    rw [interpolated] at ran
    obtain ⟨_, _, _, ran⟩ := bind_eq_ok ran
    obtain ⟨_, _, _, ran⟩ := bind_eq_ok ran
    obtain ⟨a, among, _, _, rewritten⟩ := mem_mapM ran inside
    obtain ⟨kind', t', rfl⟩ := Interpolation.textNodes?_leaves interpolated a among
    obtain ⟨t'', same, own⟩ := rewriteMarker_eq_ok rewritten
    cases same
    have noComment : kind ≠ .comment := by
      rintro rfl
      cases isText
    have unchanged := own noComment
    subst unchanged
    exact notMem_textNodes tokens isText interpolated among

/-! ## Texts in documents -/

/-- With the standard stages a document is compiled around the nodes in a spot,
    and they are rewritten in their turn. -/
theorem compile_fill (s : Settings) (spot : Spot) (nodes : List Node) {st : State}
    (standard : st.nodeStages = some Standard.nodeStages) :
    Document.compile s (spot.fill nodes) st = (do
      let (after, outs) ← spot.compile s (rewriteNodes s (spot.parent Document.rootTag) nodes)
      return after.fill outs : Work (List Node)) st := by
  unfold Document.compile Spot.compile
  rw [compileNodes_eq_rewriteNodes s Document.rootTag _ standard, Spot.rewriteNodes_fill]

/-- A text stays in its place as it is if its parent is a raw container or no
    segment is found in it. Any other text is gone when the document is compiled,
    even if a raw container is further out. -/
theorem compile_text (s : Settings) (spot : Spot) (kind : LeafKind) (t : Text) {st : State}
    (standard : st.nodeStages = some Standard.nodeStages) (isText : Interpolation.isInterpolated kind = true) :
    (KeepsText s (spot.parent Document.rootTag) t →
      Document.compile s (spot.fill [.leaf kind t]) st = (do
        let (after, nodes) ← spot.compile s (keepNode (.leaf kind t))
        return after.fill nodes : Work (List Node)) st) ∧
    ∀ out st', Document.compile s (spot.fill [.leaf kind t]) st = .ok out st' →
      ∃ after nodes, spot.compile s (rewriteNodes s (spot.parent Document.rootTag) [.leaf kind t]) st =
          .ok (after, nodes) st' ∧
        out = after.fill nodes ∧ after.tags = spot.tags ∧
        (KeepsText s (spot.parent Document.rootTag) t → nodes = [.leaf kind t]) ∧
        (s.openToken ≠ [] ∨ s.closeToken ≠ [] →
          .leaf kind t ∈ nodes → KeepsText s (spot.parent Document.rootTag) t) := by
  refine ⟨fun kept => ?_, fun out st' ran => ?_⟩
  · rw [compile_fill s spot _ standard, rewriteText_kept isText kept]
  · rw [compile_fill s spot _ standard] at ran
    obtain ⟨⟨after, nodes⟩, st₁, compiled, last⟩ := bind_eq_ok ran
    obtain ⟨filled, same⟩ := pure_eq_ok last
    subst same
    obtain ⟨tags, st₂, st₃, given⟩ := Spot.rewrite_eq_ok compiled
    refine ⟨after, nodes, compiled, filled.symm, tags, fun kept => ?_, fun tokens inside => ?_⟩
    · rw [rewriteText_kept isText kept] at given
      obtain ⟨_, _, _, last⟩ := bind_eq_ok given
      exact (pure_eq_ok last).1.symm
    · by_contra replaced
      exact rewriteText_replaced tokens isText replaced given inside

/-- The place of an emphasized text in preformatted text. -/
def preformatted : Spot := .within [] (lit "pre") .empty (.within [] (lit "b") .empty (.here [] []) []) []

def emphasized : Text := lit "\x7b\x7b x \x7d\x7d"

/-- Settings that keep preformatted text. -/
def keepingPre : Settings := { rawTextContainers := [lit "pre"] }

/-- The standard stages for nodes, and no handlers. -/
def standardStages : State := { registry := { divider := lit "." }, nodeStages := some Standard.nodeStages }

theorem compile_text_preformatted :
    lit "pre" ∈ preformatted.tags ∧ lit "pre" ∈ keepingPre.rawTextContainers ∧
      ∃ (after : Spot) (nodes : List Node) (st' : State), after.tags = preformatted.tags ∧ .ofText emphasized ∉ nodes ∧
        Document.compile keepingPre (preformatted.fill [.ofText emphasized]) standardStages =
          .ok (after.fill nodes) st' ∧
        Html.write (after.fill nodes) = lit "<pre><b><!--ko text:x--><!--/ko--></b></pre>" := by
  have written : (match Document.compile keepingPre (preformatted.fill [.ofText emphasized]) standardStages with
      | .ok out _ => Html.write out
      | .error _ _ => []) = lit "<pre><b><!--ko text:x--><!--/ko--></b></pre>" := by decide +kernel
  have scanned : HasSegments keepingPre emphasized := ⟨.expression (lit " x "), [], by decide +kernel⟩
  have replaced : ¬ KeepsText keepingPre (preformatted.parent Document.rootTag) emphasized := by
    rintro (raw | unmarked)
    · exact absurd raw (by decide)
    · exact unmarked scanned
  cases ran : Document.compile keepingPre (preformatted.fill [.ofText emphasized]) standardStages with
  | error e st' =>
    rw [ran] at written
    exact absurd written (by simp)
  | ok out st' =>
    rw [ran] at written
    have standard : standardStages.nodeStages = some Standard.nodeStages := rfl
    obtain ⟨after, nodes, -, filled, tags, -, kept⟩ :=
      (compile_text keepingPre preformatted .text emphasized standard rfl).2 out st' ran
    subst filled
    have gone : .ofText emphasized ∉ nodes := fun inside => replaced (kept (by decide) inside)
    exact ⟨by decide, by decide, after, nodes, st', tags, gone, rfl, written⟩

end Rewriting
end Bindmark
