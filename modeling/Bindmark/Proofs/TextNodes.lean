import Bindmark.Interpolation.Text
import Bindmark.Proofs.Scanning

/-!
# Nodes of interpolated texts

Which nodes give way to others, and to which. A text node or a template text in
which segments are found gives way to the nodes of its segments, unless its
parent is a raw container. Nothing among these is interpolated again.
-/

namespace Bindmark.Interpolation

variable {s : Settings} {parent : Option Text} {node : Node} {nodes : List Node}

theorem textNodes?_eq_some_iff :
    textNodes? s parent node = some nodes ↔
      ∃ kind t segments, node = .leaf kind t ∧ isInterpolated kind = true ∧ isRaw s parent = false ∧
        Segment.scan s.openToken s.closeToken t = some segments ∧ segments ≠ [] ∧ nodes = segmentsNodes s segments := by
  constructor
  · intro interpolated
    unfold textNodes? at interpolated
    split at interpolated
    · cases interpolated
    · rename_i kind t
      split at interpolated
      · rename_i isText
        rw [Bool.and_eq_true, Bool.not_eq_true'] at isText
        split at interpolated
        · rename_i first rest scanned
          cases interpolated
          exact ⟨kind, t, _, rfl, isText.1, isText.2, scanned, List.cons_ne_nil _ _, rfl⟩
        · cases interpolated
      · cases interpolated
  · rintro ⟨kind, t, segments, rfl, isText, notRaw, scanned, some_, rfl⟩
    obtain ⟨first, rest, rfl⟩ := List.exists_cons_of_ne_nil some_
    simp [textNodes?, isText, notRaw, scanned]

/-- A node that gives way to others is a text, and they are those of its segments. -/
theorem textNodes?_eq_some (interpolated : textNodes? s parent node = some nodes) :
    ∃ kind t segments, node = .leaf kind t ∧ isInterpolated kind = true ∧
      Segment.scan s.openToken s.closeToken t = some segments ∧ nodes = segmentsNodes s segments := by
  obtain ⟨kind, t, segments, isLeaf, isText, -, scanned, -, same⟩ := textNodes?_eq_some_iff.mp interpolated
  exact ⟨kind, t, segments, isLeaf, isText, scanned, same⟩

theorem segmentNodes_ne_nil (s : Settings) (segment : Segment) : segmentNodes s segment ≠ [] := by
  cases segment with
  | literal t => simp [segmentNodes]
  | expression t =>
    simp only [segmentNodes]
    cases Block.ofExpression t <;> simp [Block.markers]

/-- A text that is interpolated gives way to one node at least. -/
theorem textNodes?_ne_nil (interpolated : textNodes? s parent node = some nodes) : nodes ≠ [] := by
  obtain ⟨kind, t, segments, -, -, -, -, some_, rfl⟩ := textNodes?_eq_some_iff.mp interpolated
  obtain ⟨first, rest, rfl⟩ := List.exists_cons_of_ne_nil some_
  simp [segmentsNodes, segmentNodes_ne_nil]

/-- A segment is written as literal text or as comments. -/
theorem mem_segmentNodes {segment : Segment} (inside : node ∈ segmentNodes s segment) :
    (∃ l, segment = .literal l ∧ node = .ofText l) ∨ ∃ marker, node = .ofComment marker := by
  cases segment with
  | literal l => exact .inl ⟨l, rfl, List.mem_singleton.mp inside⟩
  | expression e =>
    obtain ⟨marker, -, rfl⟩ := List.mem_map.mp inside
    exact .inr ⟨marker, rfl⟩

/-- A text that is interpolated gives way to leaves. -/
theorem textNodes?_leaves (interpolated : textNodes? s parent node = some nodes) :
    ∀ node ∈ nodes, ∃ kind t, node = .leaf kind t := by
  obtain ⟨kind, t, segments, -, -, -, rfl⟩ := textNodes?_eq_some interpolated
  intro node inside
  obtain ⟨segment, -, inside⟩ := List.mem_flatMap.mp inside
  rcases mem_segmentNodes inside with ⟨l, -, rfl⟩ | ⟨marker, rfl⟩
  · exact ⟨.text, l, rfl⟩
  · exact ⟨.comment, marker, rfl⟩

/-- A text without segments is not interpolated, whatever its parent is. -/
theorem textNodes?_unscanned {t : Text} (none_ : Segment.scan s.openToken s.closeToken t = none) (kind : LeafKind)
    (parent : Option Text) : textNodes? s parent (.leaf kind t) = none := by
  simp only [textNodes?, none_, ite_self]

/-- The literals and markers of a text are not interpolated again. -/
theorem textNodes?_of_mem (tokens : s.openToken ≠ [] ∨ s.closeToken ≠ []) {leaf : Node}
    (interpolated : textNodes? s parent leaf = some nodes) (inside : node ∈ nodes) (parent' : Option Text) :
    (∃ kind t, node = .leaf kind t) ∧ textNodes? s parent' node = none := by
  obtain ⟨kind, t, segments, -, -, scanned, rfl⟩ := textNodes?_eq_some interpolated
  obtain ⟨segment, among, inside⟩ := List.mem_flatMap.mp inside
  rcases mem_segmentNodes inside with ⟨l, rfl, rfl⟩ | ⟨marker, rfl⟩
  · exact ⟨⟨.text, l, rfl⟩, textNodes?_unscanned (Segment.scan_literal tokens scanned among) .text parent'⟩
  · exact ⟨⟨.comment, marker, rfl⟩, by simp [textNodes?, isInterpolated]⟩

end Bindmark.Interpolation
