import Bindmark.Proofs.TextNodes
import Mathlib.Data.List.Basic

/-!
# Children replaced in their places

The nodes of an interpolated text are put before it one at a time, and then it
is taken out of the children of its parent. The position of the text is what
tells it from equal ones among them. What comes of this are the nodes in the
place of the text, with everything around them as it was.
-/

namespace Bindmark.Interpolation

/-! ## One node after the other -/

theorem insertIdx_length_append {α : Type} (before after : List α) (a : α) :
    (before ++ after).insertIdx before.length a = before ++ a :: after := by
  induction before with
  | nil => rfl
  | cons first before ih => simp [List.insertIdx_succ_cons, ih]

namespace Place

/-- The node of a place stays behind what is put before it. -/
theorem insertBefore_between (before after : List Node) (node new : Node) :
    (between before node after).insertBefore new = between (before ++ [new]) node after := by
  simp [between, insertBefore, insertIdx_length_append]

theorem insertBefore_all (before after : List Node) (node : Node) (nodes : List Node) :
    nodes.foldl insertBefore (between before node after) = between (before ++ nodes) node after := by
  -- What has been put before the node is part of what stands before it.
  induction nodes generalizing before with
  | nil => simp
  | cons first nodes ih => rw [List.foldl_cons, insertBefore_between, ih, List.append_assoc, List.singleton_append]

theorem extract_between (before after : List Node) (node : Node) :
    (between before node after).extract = before ++ after := by
  simp [between, extract, List.eraseIdx_append_of_length_le]

end Place

section
variable {s : Settings} {tag : Text} {node : Node} {nodes : List Node}

theorem interpolateChild_fst (s : Settings) (tag : Text) (before : List Node) (node : Node) (after : List Node) :
    (interpolateChild s tag before node after).1 = textNodes? s (some tag) node := by
  rw [interpolateChild]
  split <;> simp only [*]

theorem interpolateChild_kept (kept : textNodes? s (some tag) node = none) (before after : List Node) :
    interpolateChild s tag before node after = (none, before ++ node :: after) := by
  simp [interpolateChild, kept, Place.between]

theorem interpolateChild_changed (changed : textNodes? s (some tag) node = some nodes) (before after : List Node) :
    interpolateChild s tag before node after = (some nodes, before ++ nodes ++ after) := by
  simp [interpolateChild, changed, Place.insertBefore_all, Place.extract_between]

end

/-! ## The literals among the nodes -/

variable {s : Settings} {t : Text} {kind : LeafKind} {before after nodes : List Node} {node : Node}

/-- The texts of literal nodes, in their order. -/
def textsIn (nodes : List Node) : List Text :=
  nodes.filterMap fun
    | .leaf .text t => some t
    | _ => none

/-- The literals among segments, in their order. -/
def literalsIn (segments : List Segment) : List Text :=
  segments.filterMap fun
    | .literal t => some t
    | .expression _ => none

theorem mem_textsIn : t ∈ textsIn nodes ↔ .ofText t ∈ nodes := by
  constructor
  · intro inside
    obtain ⟨node, inside, isText⟩ := List.mem_filterMap.mp inside
    split at isText <;> cases isText
    exact inside
  · exact fun inside => List.mem_filterMap.mpr ⟨_, inside, rfl⟩

theorem textsIn_segmentNodes (s : Settings) (segment : Segment) :
    textsIn (segmentNodes s segment) = literalsIn [segment] := by
  cases segment with
  | literal t => rfl
  | expression t => simp [textsIn, literalsIn, segmentNodes, List.filterMap_map]

theorem textsIn_segmentsNodes (s : Settings) (segments : List Segment) :
    textsIn (segmentsNodes s segments) = literalsIn segments := by
  induction segments with
  | nil => rfl
  | cons segment segments ih =>
    have cons : segmentsNodes s (segment :: segments) = segmentNodes s segment ++ segmentsNodes s segments := rfl
    rw [cons, textsIn, List.filterMap_append, ← textsIn, ← textsIn, ih, textsIn_segmentNodes]
    exact List.filterMap_append.symm

/-! ## The children afterwards -/

theorem textNodes?_text_eq_none_iff {tag : Text} (isText : kind = .text ∨ kind = .template) :
    textNodes? s (some tag) (.leaf kind t) = none ↔
      tag ∈ s.rawTextContainers ∨ Segment.scan s.openToken s.closeToken t = none ∨
        Segment.scan s.openToken s.closeToken t = some [] := by
  have interpolated : isInterpolated kind = true := by rcases isText with rfl | rfl <;> rfl
  have raw : isRaw s (some tag) = true ↔ tag ∈ s.rawTextContainers := List.contains_iff_mem
  constructor
  · intro none_
    by_contra kept
    obtain ⟨notRaw, scanned⟩ := not_or.mp kept
    obtain ⟨scanned, some_⟩ := not_or.mp scanned
    obtain ⟨segments, found⟩ := Option.ne_none_iff_exists'.mp scanned
    rw [← raw, Bool.not_eq_true] at notRaw
    have changed := textNodes?_eq_some_iff.mpr
      ⟨kind, t, segments, rfl, interpolated, notRaw, found, fun empty => some_ (empty ▸ found), rfl⟩
    rw [none_] at changed
    cases changed
  · intro kept
    rw [Option.eq_none_iff_forall_ne_some]
    intro nodes changed
    obtain ⟨kind, t, segments, same, -, notRaw, found, some_, -⟩ := textNodes?_eq_some_iff.mp changed
    cases same
    rcases kept with inside | none_ | empty
    · simp [raw.mpr inside] at notRaw
    · simp [found] at none_
    · exact some_ (Option.some.inj (found.symm.trans empty))

/-- A text replaced by nodes among the children of its parent. -/
structure Spliced (s : Settings) (t : Text) (before after nodes children : List Node) : Prop where
  inPlace : children = before ++ nodes ++ after
  some_ : nodes ≠ []
  scanned : ∃ segments, Segment.scan s.openToken s.closeToken t = some segments ∧
    nodes = segmentsNodes s segments ∧ textsIn nodes = literalsIn segments
  /-- No literal among the nodes is replaced again, wherever it stands. -/
  once : ∀ l ∈ textsIn nodes, ∀ tag before after,
    interpolateChild s tag before (.ofText l) after = (none, before ++ .ofText l :: after)

theorem interpolateChild_spliced (tokens : s.openToken ≠ [] ∨ s.closeToken ≠ []) {tag : Text}
    (changed : (interpolateChild s tag before (.leaf kind t) after).1 = some nodes) :
    Spliced s t before after nodes (interpolateChild s tag before (.leaf kind t) after).2 := by
  rw [interpolateChild_fst] at changed
  refine ⟨by rw [interpolateChild_changed changed], textNodes?_ne_nil changed, ?_, ?_⟩
  · obtain ⟨kind, t, segments, same, -, found, nodesAre⟩ := textNodes?_eq_some changed
    cases same
    exact ⟨segments, found, nodesAre, nodesAre ▸ textsIn_segmentsNodes s segments⟩
  · intro l literal tag before after
    exact interpolateChild_kept (textNodes?_of_mem tokens changed (mem_textsIn.mp literal) (some tag)).2 before after

/-- A text is left where it is if its parent keeps texts as they are or nothing
    is scanned in it. Else it gives way to nodes in its place: those of its
    segments, with its literals among them, none of which is replaced again.
    No other node is replaced. -/
theorem child_spliced_exactly (tokens : s.openToken ≠ [] ∨ s.closeToken ≠ []) (tag : Text) (before after : List Node) :
    (∀ kind t, kind = .text ∨ kind = .template →
      ((interpolateChild s tag before (.leaf kind t) after).1 = none ↔
        tag ∈ s.rawTextContainers ∨ Segment.scan s.openToken s.closeToken t = none ∨
          Segment.scan s.openToken s.closeToken t = some []) ∧
      ((interpolateChild s tag before (.leaf kind t) after).1 = none →
        (interpolateChild s tag before (.leaf kind t) after).2 = before ++ .leaf kind t :: after) ∧
      ∀ nodes, (interpolateChild s tag before (.leaf kind t) after).1 = some nodes →
        Spliced s t before after nodes (interpolateChild s tag before (.leaf kind t) after).2) ∧
    ∀ node, (∀ t, node ≠ .leaf .text t ∧ node ≠ .leaf .template t) →
      interpolateChild s tag before node after = (none, before ++ node :: after) := by
  constructor
  · intro kind t isText
    refine ⟨?_, ?_, fun nodes changed => interpolateChild_spliced tokens changed⟩
    · rw [interpolateChild_fst]
      exact textNodes?_text_eq_none_iff isText
    · intro kept
      rw [interpolateChild_fst] at kept
      rw [interpolateChild_kept kept]
  · intro node other
    refine interpolateChild_kept (Option.eq_none_iff_forall_ne_some.mpr fun nodes changed => ?_) before after
    obtain ⟨kind, t, segments, rfl, isText, -⟩ := textNodes?_eq_some changed
    obtain ⟨notText, notTemplate⟩ := other t
    cases kind <;> simp_all [isInterpolated]

/-- A text with an expression between its words. -/
def greeting : Node := .ofText (lit "Hi \x7b\x7bname\x7d\x7d!")

/-- A text that stands between equal ones. -/
theorem child_spliced_exactly_among_equals :
    ({} : Settings).openToken ≠ [] ∧
      interpolateChild {} (lit "p") [greeting, .ofText (lit "Hi ")] greeting [greeting] =
        (some [.ofText (lit "Hi "), .ofComment (lit "ko text:name"), .ofComment (lit "/ko"), .ofText (lit "!")],
          [greeting, .ofText (lit "Hi "), .ofText (lit "Hi "), .ofComment (lit "ko text:name"),
            .ofComment (lit "/ko"), .ofText (lit "!"), greeting]) ∧
      ∀ tag before after, interpolateChild {} tag before (.ofText (lit "Hi ")) after =
        (none, before ++ .ofText (lit "Hi ") :: after) := by
  have token : ({} : Settings).openToken ≠ [] := by decide
  obtain ⟨texts, -⟩ := child_spliced_exactly (.inl token) (lit "p") [greeting, .ofText (lit "Hi ")] [greeting]
  obtain ⟨-, -, spliced⟩ := texts .text (lit "Hi \x7b\x7bname\x7d\x7d!") (.inl rfl)
  have changed : (interpolateChild {} (lit "p") [greeting, .ofText (lit "Hi ")] greeting [greeting]).1 =
      some [.ofText (lit "Hi "), .ofComment (lit "ko text:name"), .ofComment (lit "/ko"), .ofText (lit "!")] := by
    cbv
  have spliced := spliced _ changed
  exact ⟨token, Prod.ext changed spliced.inPlace, spliced.once _ (by decide)⟩

end Bindmark.Interpolation
