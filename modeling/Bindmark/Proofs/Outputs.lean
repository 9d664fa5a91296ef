import Bindmark.Proofs.Atoms
import Bindmark.Proofs.Spots
import Bindmark.Proofs.Trimming
import Bindmark.Proofs.Values

/-!
# Outputs in text

A text node gives way to its literals and to the two markers of every output
among its expressions. With the standard setup the first of the markers ends up
with the filters of the output as calls, and nothing else happens to it on the
way: the marker is read as one directive again, whatever stands in the output,
unless a comma in it counts.
-/

namespace Bindmark

open Work Reading Rewriting Standard

/-- The default settings, but with a filter table of their own. -/
abbrev Settings.filtering (L : Text) : Settings := { filterLookup := L }

/-! ## Outputs -/

/-- What an expression shows, and the directive that shows it. -/
structure Output where
  key : Text
  content : Text
  deriving DecidableEq

namespace Output

/-- The output of an expression, unless it begins or ends a block. -/
def ofExpression? (e : Text) : Option Output :=
  if e.strip.head? = some '#' ∨ e.strip.head? = some '/' then none
  else if e.strip.head? = some '\x7b' ∧ e.strip.getLast? = some '\x7d' ∧ 1 < e.strip.length then
    some ⟨lit "html", Text.strip (e.strip.drop 1).dropLast⟩
  else some ⟨lit "text", e.strip⟩

/-- Something is shown, and no comma in it counts. -/
def Single (o : Output) : Prop := o.content ≠ [] ∧ ¬ TopLevel ',' o.content

/-- The directive of an output. -/
def directive (o : Output) : Text := o.key ++ lit ":" ++ o.content

/-- The directive of an output with its filters as calls. -/
def filtered (o : Output) : Text := o.key ++ lit ":" ++ Filter.calls Filter.standardLookup o.content

/-- The comments that stand for an output in a compiled document. -/
def comments (o : Output) : List Node := [.ofComment (lit "ko " ++ o.filtered), .ofComment (lit "/ko")]

/-- The nodes that a segment becomes: its text if it is a literal, and the
    comments of its output. -/
def nodesOf : Segment → List Node
  | .literal t => [.ofText t]
  | .expression e => (ofExpression? e).elim [] comments

/-- The directive of an output, with a handler that has filters. -/
structure Shown (o : Output) : Prop where
  key : o.key = lit "text" ∨ o.key = lit "html"
  trimmed : Text.strip o.content = o.content

theorem shown_of_ofExpression? {e : Text} {o : Output} (isOutput : ofExpression? e = some o) :
    o.Shown ∧ Block.ofExpression e = .whole o.directive := by
  unfold ofExpression? at isOutput
  split at isOutput
  · cases isOutput
  · rename_i notBlock
    rw [not_or] at notBlock
    split at isOutput
    · rename_i braces
      cases isOutput
      refine ⟨⟨.inr rfl, Text.strip_strip _⟩, ?_⟩
      rw [Block.ofExpression, Block.ofStripped, if_neg notBlock.1, if_neg notBlock.2, if_pos braces]
      rfl
    · rename_i noBraces
      cases isOutput
      refine ⟨⟨.inl rfl, Text.strip_strip _⟩, ?_⟩
      rw [Block.ofExpression, Block.ofStripped, if_neg notBlock.1, if_neg notBlock.2, if_neg noBraces]
      rfl

/-! ## Markers -/

namespace Shown

variable {L : Text} {o : Output}

/-- The directive neither begins nor ends with a blank. -/
theorem strip_directive (shown : o.Shown) (some_ : o.content ≠ []) : Text.strip o.directive = o.directive := by
  apply Text.strip_eq_self
  · intro c first
    rcases shown.key with key | key <;> rw [directive, key] at first
    · obtain rfl : 't' = c := Option.some.inj first
      decide
    · obtain rfl : 'h' = c := Option.some.inj first
      decide
  · intro c last
    rw [directive, List.getLast?_append_of_ne_nil _ some_, ← shown.trimmed] at last
    exact Text.not_isBlank_ends_strip (.inr last)

/-- The opening marker is read back. -/
theorem readMarker?_openMarker (shown : o.Shown) (some_ : o.content ≠ []) :
    (Settings.filtering L).readMarker? ((Settings.filtering L).openMarker o.directive) = some o.directive := by
  have trimmed := shown.strip_directive some_
  have more : o.directive ≠ [] := by simp [directive, lit]
  generalize o.directive = d at trimmed more
  obtain ⟨c, rest, rfl⟩ := List.exists_cons_of_ne_nil more
  have read : Settings.afterMarkerWord? (lit "ko") ('k' :: 'o' :: ' ' :: c :: rest) =
      some (some (Text.strip (c :: rest))) := rfl
  have first : (('k' :: 'o' :: ' ' :: c :: rest).takeWhile Text.isBlank).length = 0 := rfl
  change Settings.readMarker? (.filtering L) ('k' :: 'o' :: ' ' :: c :: rest) = _
  simp [Settings.readMarker?, first, read, trimmed]

/-- The directive is one unit, however it reads. -/
theorem split_directive (shown : o.Shown) (single : ¬ TopLevel ',' o.content) :
    Pair.split o.directive = [⟨o.key, some o.content⟩] := by
  have isSealed : Sealed o.key := by
    rcases shown.key with key | key <;> rw [key] <;> exact ⟨by decide, by decide, by decide⟩
  have name : Pair.unquote (Text.strip o.key) = o.key := by
    rcases shown.key with key | key <;> rw [key] <;> decide
  rw [directive, Pair.split_keyed isSealed (hidden_top_iff.mpr single), name, shown.trimmed]

/-- The handler of an output has filters. -/
theorem exists_handler (shown : o.Shown) : ∃ h, handlerOf o.key = some h ∧ role? h = some .filters := by
  have roles : (handlerOf (lit "text")).bind role? = some .filters ∧
      (handlerOf (lit "html")).bind role? = some .filters := by
    constructor <;> decide +kernel
  rcases shown.key with key | key <;> rw [key]
  · exact Option.bind_eq_some_iff.mp roles.1
  · exact Option.bind_eq_some_iff.mp roles.2

/-- Preprocessing the directive makes calls of its filters. -/
theorem preprocessText_gives (shown : o.Shown) (single : o.Single) :
    Gives Grown (Directive.preprocessText o.directive) fun processed => processed = o.filtered := by
  obtain ⟨h, made, filters⟩ := shown.exists_handler
  refine (preprocessText_unit (shown.split_directive single.2)).weaken ?_
  rintro processed ⟨pairs, rfl, filtered⟩
  rw [filtered h o.content made filters rfl (Filter.calls_ne_nil _ single.1)]
  rfl

theorem rewriteMarker_openMarker (shown : o.Shown) (single : o.Single) :
    Gives Grown (rewriteMarker (.filtering L) (.ofComment ((Settings.filtering L).openMarker o.directive)))
      fun node => node = .ofComment (lit "ko " ++ o.filtered) := by
  have marker : rewriteMarker (.filtering L) (.ofComment ((Settings.filtering L).openMarker o.directive)) =
      preprocessMarker (.filtering L) o.directive := by
    simp only [rewriteMarker, if_true, preprocessLeaf, shown.readMarker?_openMarker single.1]
  rw [marker]
  refine (preprocessMarker_gives (.filtering L) (shown.preprocessText_gives single)).weaken ?_
  rintro node ⟨t, rfl, rfl⟩
  rfl

end Shown

/-! ## Text nodes -/

variable {L : Text}

/-- Segments of which every expression is an output that is a single directive. -/
def AllSingle (segments : List Segment) : Prop :=
  ∀ e, .expression e ∈ segments → ∃ o, ofExpression? e = some o ∧ o.Single

theorem segmentNodes_gives {segment : Segment} (single : AllSingle [segment]) :
    Gives Grown ((Interpolation.segmentNodes (.filtering L) segment).mapM (rewriteMarker (.filtering L)))
      fun nodes => nodes = nodesOf segment := by
  cases segment with
  | literal t =>
    have stays : rewriteMarker (.filtering L) (.ofText t) = pure (.ofText t) := rfl
    simp only [Interpolation.segmentNodes, List.mapM_cons, List.mapM_nil, stays, pure_bind]
    exact Gives.pure rfl
  | expression e =>
    obtain ⟨o, isOutput, isSingle⟩ := single e (List.mem_singleton_self _)
    obtain ⟨shown, block⟩ := shown_of_ofExpression? isOutput
    have closing : rewriteMarker (.filtering L) (.ofComment (Settings.filtering L).closeMarker) =
        pure (.ofComment (lit "/ko")) := by
      have notOpening : (Settings.filtering L).readMarker? (Settings.filtering L).closeMarker = none := rfl
      simp only [rewriteMarker, if_true, preprocessLeaf, notOpening]
      rfl
    simp only [Interpolation.segmentNodes, block, Block.markers, List.map_cons, List.map_nil, List.mapM_cons,
      List.mapM_nil, closing, pure_bind]
    refine (shown.rewriteMarker_openMarker isSingle).bind fun node same => Gives.pure ?_
    rw [same, nodesOf, isOutput]
    rfl

theorem segmentsNodes_gives : ∀ {segments : List Segment}, AllSingle segments →
    Gives Grown ((Interpolation.segmentsNodes (.filtering L) segments).mapM (rewriteMarker (.filtering L)))
      fun nodes => nodes = segments.flatMap nodesOf
  | [], _ => by
    simp only [Interpolation.segmentsNodes, List.flatMap_nil, List.mapM_nil]
    exact Gives.pure rfl
  | segment :: rest, single => by
    have only : AllSingle [segment] := fun e inside => single e (by simp_all)
    have here := segmentNodes_gives (L := L) only
    have later := segmentsNodes_gives fun e inside => single e (List.mem_cons_of_mem _ inside)
    unfold Interpolation.segmentsNodes at later ⊢
    rw [List.flatMap_cons, List.mapM_append]
    refine here.bind fun first same => later.bind fun others same' => Gives.pure ?_
    rw [same, same', List.flatMap_cons]

/-- A text node gives way to the nodes of its segments. -/
theorem rewriteText_gives {parent : Text} {kind : LeafKind} {t : Text} {segments : List Segment}
    (isText : Interpolation.isInterpolated kind = true)
    (notRaw : Interpolation.isRaw (.filtering L) (some parent) = false)
    (scanned : Segment.scan (lit "\x7b\x7b") (lit "\x7d\x7d") t = some segments) (some_ : segments ≠ [])
    (single : AllSingle segments) :
    Gives Grown (rewriteNodes (.filtering L) parent [.leaf kind t]) fun nodes => nodes = segments.flatMap nodesOf := by
  obtain ⟨first, rest, rfl⟩ := List.exists_cons_of_ne_nil some_
  have interpolated : Interpolation.textNodes? (.filtering L) (some parent) (.leaf kind t) =
      some (Interpolation.segmentsNodes (.filtering L) (first :: rest)) := by
    simp only [Interpolation.textNodes?, isText, notRaw, Bool.not_false, Bool.and_self, if_true, scanned]
  rw [rewriteNodes_singleton, rewriteNode]
  refine (count_gives _).bind fun _ _ => ?_
  rw [rewriteLeaf, interpolated]
  exact (log_gives _).bind fun _ _ => (count_gives _).bind fun _ _ => segmentsNodes_gives single

/-! ## Compiled documents -/

/-- A default compiler replaces a text node by its literals and the markers of
    its outputs, wherever it stands. The same happens around it whatever its text
    is, also when it is not there at all: elements stay around it, and it is only
    given up if some element has a list of words where its directives stand. -/
theorem compileTree_text {verbosity : Option Int} {c : Compiler} (made : Compiler.make {} verbosity true = .ok c)
    (spot : Spot) :
    ∃ around : Except Fault Spot,
      (∀ after, around = .ok after → after.tags = spot.tags) ∧
      ((∃ nodes source, spot.fill nodes = Html.read source) ∨ NoWordsIn {} (spot.fill []) →
        ∃ after, around = .ok after) ∧
      (c.compileTree (spot.fill [])).1 = around.map (Spot.fill []) ∧
      ∀ kind t segments, Interpolation.isInterpolated kind = true →
        Interpolation.isRaw {} (some (spot.parent Document.rootTag)) = false →
        Segment.scan (lit "\x7b\x7b") (lit "\x7d\x7d") t = some segments → segments ≠ [] → AllSingle segments →
          (c.compileTree (spot.fill [.leaf kind t])).1 = around.map (Spot.fill (segments.flatMap nodesOf)) := by
  have settings := Compiler.settings_make made
  have standard := Compiler.nodeStages_make made
  have plain := (Configured.ofMake made).plain
  have grown : Grown c.state := grown_make rfl rfl made
  have filled {nodes outs : List Node}
      (settles : Settles c.state (rewriteNodes {} (spot.parent Document.rootTag) nodes) (.ok outs)) :
      (c.compileTree (spot.fill nodes)).1 = (spot.compiled c.state {} Document.rootTag).map (Spot.fill outs) := by
    refine compileTree_of_settles standard ?_
    rw [settings]
    exact Spot.fill_settles plain standard settles
  refine ⟨spot.compiled c.state {} Document.rootTag, fun after => Spot.tags_compiled, ?_, filled ?_, ?_⟩
  · rintro (⟨nodes, source, isRead⟩ | noWords)
    · have noWords : NoWordsIn {} (spot.fill nodes) := isRead ▸ Html.noWordsIn_read {} source
      exact Spot.exists_compiled grown Document.rootTag (Spot.noWordsIn_fill noWords)
    · exact Spot.exists_compiled grown Document.rootTag noWords
  · rw [rewriteNodes]
    exact Settles.pure []
  · intro kind t segments isText notRaw scanned some_ single
    have repeats := rewriteNodes_repeats plain standard {} (spot.parent Document.rootTag) [.leaf kind t]
    obtain ⟨outs, ended, rfl⟩ := settled_eq_ok (rewriteText_gives isText notRaw scanned some_ single) grown
    refine filled ?_
    rw [← ended]
    exact settles_of_repeats repeats

/-- A paragraph with an attribute and with something else beside its text. -/
def paragraph : Spot :=
  .within [.ofText (lit "a")] (lit "p") (Table.ofList [(lit "title", .text (lit "\x7b\x7b t \x7d\x7d"))])
    (.here [.ofComment (lit "ko if: b, c")] [.element (lit "br") .empty []]) []

def greeting : Text := lit "Hi, \x7b\x7b name | fit:': \x7b' \x7d\x7d \x7b\x7b\x7b note[0 \x7d\x7d\x7d!"

def greetingSegments : List Segment :=
  [.literal (lit "Hi, "), .expression (lit " name | fit:': \x7b' "), .literal (lit " "),
    .expression (lit "\x7b note[0 \x7d"), .literal (lit "!")]

theorem compileTree_text_greeting :
    ∃ c, Compiler.make {} none true = .ok c ∧ NoWordsIn {} (paragraph.fill []) ∧
      Interpolation.isRaw {} (some (paragraph.parent Document.rootTag)) = false ∧
      Segment.scan (lit "\x7b\x7b") (lit "\x7d\x7d") greeting = some greetingSegments ∧ AllSingle greetingSegments ∧
      ∃ after : Spot, after.tags = [lit "p"] ∧
        (c.compileTree (paragraph.fill [.ofText greeting])).1 = .ok (after.fill
          [.ofText (lit "Hi, "), .ofComment (lit "ko text:filters['fit'](name,': \x7b')"), .ofComment (lit "/ko"),
            .ofText (lit " "), .ofComment (lit "ko html:note[0"), .ofComment (lit "/ko"), .ofText (lit "!")]) := by
  have isOk : (Compiler.make {} none true).toOption.isSome = true := by decide +kernel
  have noWords : NoWordsIn {} (paragraph.fill []) := by
    have missing : (Table.ofList [(lit "title", AttributeValue.text (lit "\x7b\x7b t \x7d\x7d"))]).get?
        (lit "data-bind") = none := by decide
    have bare : (Table.empty : Table AttributeValue).get? (lit "data-bind") = none := rfl
    simp [paragraph, Spot.fill, NoWordsIn, NoWords, NoWordList, missing, bare]
  have notRaw : Interpolation.isRaw {} (some (paragraph.parent Document.rootTag)) = false := by decide
  have scanned : Segment.scan (lit "\x7b\x7b") (lit "\x7d\x7d") greeting = some greetingSegments := by decide +kernel
  have name : ofExpression? (lit " name | fit:': \x7b' ") = some ⟨lit "text", lit "name | fit:': \x7b'"⟩ := by
    decide +kernel
  have note : ofExpression? (lit "\x7b note[0 \x7d") = some ⟨lit "html", lit "note[0"⟩ := by decide +kernel
  have single : AllSingle greetingSegments := by
    intro e inside
    simp only [greetingSegments, List.mem_cons, Segment.expression.injEq, reduceCtorEq, false_or, List.not_mem_nil,
      or_false] at inside
    rcases inside with rfl | rfl
    · exact ⟨_, name, by decide, hidden_top_iff.mp (by decide)⟩
    · exact ⟨_, note, by decide, hidden_top_iff.mp (by decide)⟩
  have nodes : greetingSegments.flatMap nodesOf = [.ofText (lit "Hi, "),
      .ofComment (lit "ko text:filters['fit'](name,': \x7b')"), .ofComment (lit "/ko"), .ofText (lit " "),
      .ofComment (lit "ko html:note[0"), .ofComment (lit "/ko"), .ofText (lit "!")] := by
    have filters : Filter.calls Filter.standardLookup (lit "name | fit:': \x7b'") =
        lit "filters['fit'](name,': \x7b')" := by decide +kernel
    have none_ : Filter.calls Filter.standardLookup (lit "note[0") = lit "note[0" := by decide +kernel
    simp only [greetingSegments, List.flatMap_cons, nodesOf, name, note, Option.elim, comments, filtered, filters,
      none_]
    rfl
  cases made : Compiler.make {} none true with
  | error e =>
    rw [made] at isOk
    cases isOk
  | ok c =>
    obtain ⟨around, tags, total, -, texts⟩ := compileTree_text made paragraph
    obtain ⟨after, rfl⟩ := total (.inr noWords)
    have compiled := texts .text greeting greetingSegments rfl notRaw scanned (by simp [greetingSegments]) single
    rw [nodes] at compiled
    exact ⟨c, rfl, noWords, notRaw, scanned, single, after, tags after rfl, compiled⟩

end Output
end Bindmark
