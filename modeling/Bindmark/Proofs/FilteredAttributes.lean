import Bindmark.Proofs.Interpolated
import Bindmark.Proofs.Moving
import Bindmark.Proofs.Rewriting
import Bindmark.Proofs.StandardDirectives
import Bindmark.Proofs.Values

/-!
# Filters in interpolated attributes

An attribute that mixes text and expressions becomes one directive of the
attribute namespace, and the filters of that namespace are read over the whole
value. A pipe inside one expression therefore takes everything before it for
its base, across the terms of the sum.
-/

namespace Bindmark.Interpolation

open Work Standard Reading Rewriting

/-! ## The directive of an attribute -/

/-- A name of a member of the attribute namespace that is one unit of a
    directive string. -/
structure PlainName (name : Text) : Prop where
  some_ : name ≠ []
  noBlank : ∀ c ∈ name, Text.isBlank c = false
  sealed_ : Sealed name

/-- The directive key of an attribute. -/
def memberKey (name : Text) : Text := lit "attr." ++ name

theorem sealed_memberKey {name : Text} (plain : PlainName name) : Sealed (memberKey name) :=
  Sealed.append ⟨by decide, by decide, by decide⟩ plain.sealed_

theorem unquote_memberKey {name : Text} (plain : PlainName name) :
    Pair.unquote (Text.strip (memberKey name)) = memberKey name := by
  have trimmed : Text.strip (memberKey name) = memberKey name := by
    apply Text.strip_eq_self
    · intro c first
      obtain rfl : 'a' = c := Option.some.inj first
      decide
    · intro c last
      rw [memberKey, List.getLast?_append_of_ne_nil _ plain.some_] at last
      exact plain.noBlank c (List.mem_of_getLast? last)
  rw [trimmed]
  rw [show memberKey name = 'a' :: (lit "ttr." ++ name) from rfl, Pair.unquote, if_neg]
  rintro ⟨quote, -⟩
  revert quote
  decide

/-- A directive of a sealed key and value, without blanks around them. -/
theorem split_directive {name v : Text} (plain : PlainName name) (sealed_ : Sealed v) (trimmed : Text.strip v = v) :
    Pair.split (memberKey name ++ lit ":" ++ v) = [⟨memberKey name, some v⟩] := by
  rw [Pair.split_keyed (sealed_memberKey plain) sealed_.comma, unquote_memberKey plain, trimmed]

theorem splitKey?_memberKey {name : Text} (plain : PlainName name) :
    Registry.splitKey? (lit ".") (memberKey name) = some (lit "attr", name) := by
  have ns : (memberKey name).takeWhile (fun c => !(lit ".").contains c) = lit "attr" := by
    rw [show memberKey name = lit "attr" ++ '.' :: name by simp [memberKey, lit],
      List.takeWhile_append_of_pos (by simp [lit]), List.takeWhile_cons_of_neg (by decide), List.append_nil]
  have behind : Text.dropLeading? (lit ".") ((memberKey name).drop (lit "attr").length) = some name := by
    simp [memberKey, lit, Text.dropLeading?]
  have oneLine : '\n' ∉ name := fun inside => absurd (plain.noBlank _ inside) (by decide)
  unfold Registry.splitKey?
  simp only [ns, behind]
  simp [plain.some_, oneLine]

/-- The directives of interpolated attributes have filters. -/
theorem handlerOf_memberKey {name : Text} (plain : PlainName name) :
    ∃ h, handlerOf (memberKey name) = some h ∧ role? h = some .filters := by
  obtain ⟨e, found, isRole⟩ := Option.bind_eq_some_iff.mp attr_role
  have divided : '.' ∈ memberKey name := by simp [memberKey, lit]
  refine ⟨memberHandler e.handler name, ?_, (role_memberHandler isRole name).1⟩
  rw [handlerOf, if_pos divided, splitKey?_memberKey plain]
  simp only [found, Option.map_some]

/-! ## The value of an attribute -/

variable {s : Settings} {segments : List Segment}

theorem valueOf?_several {value : Text} (found : Segment.scan s.openToken s.closeToken value = some segments)
    (several : 2 ≤ segments.length) : valueOf? s (.text value) = some (attributeValue s segments) :=
  valueOf?_eq_some_iff.mpr ⟨segments, found, rfl, attributeValue_ne_nil s several⟩

theorem getLast?_join {ts : List Text} (some_ : ts ≠ [])
    (solid : ∀ x ∈ ts, ∃ c, Text.isBlank c = false ∧ x.getLast? = some c) :
    ∃ c, Text.isBlank c = false ∧ (Text.join (lit "+") ts).getLast? = some c := by
  induction ts with
  | nil => exact absurd rfl some_
  | cons x ts ih =>
    cases ts with
    | nil => exact solid x (List.mem_singleton_self x)
    | cons y ts =>
      obtain ⟨c, isSolid, last⟩ := ih (List.cons_ne_nil _ _) fun z inside => solid z (List.mem_cons_of_mem _ inside)
      exact ⟨c, isSolid, by rw [Text.join, List.getLast?_append, last]; rfl; simp⟩

theorem strip_attributeValue (several : 2 ≤ segments.length) :
    Text.strip (attributeValue s segments) = attributeValue s segments := by
  rw [attributeValue_several s several]
  have terms : ∀ x ∈ segments.map (term s), ∃ c, Text.isBlank c = false ∧ x.getLast? = some c := by
    intro x inside
    obtain ⟨segment, _, rfl⟩ := List.mem_map.mp inside
    cases segment with
    | literal t => exact ⟨'"', by decide, List.getLast?_concat ..⟩
    | expression e => exact ⟨')', by decide, List.getLast?_concat ..⟩
  obtain ⟨c, solid, last⟩ := getLast?_join (by rintro empty; simp_all) terms
  apply Text.strip_eq_self
  · intro d first
    obtain rfl : '"' = d := Option.some.inj first
    decide
  · intro d ends
    rw [sum, List.getLast?_append, last] at ends
    obtain rfl : c = d := by simpa using ends
    exact solid

/-! ## Written directives -/

theorem join_ne_nil {separator x : Text} (some_ : x ≠ []) :
    ∀ {ts : List Text}, x ∈ ts → Text.join separator ts ≠ []
  | [y], inside => by
    rw [List.mem_singleton.mp inside] at some_
    exact some_
  | y :: z :: ts, inside => by
    change y ++ separator ++ Text.join separator (z :: ts) ≠ []
    rcases List.mem_cons.mp inside with rfl | later
    · simp [some_]
    · simp [join_ne_nil some_ later]

/-- A directive string with a directive in it is not empty. -/
theorem writeDirectives_ne_nil {pairs : List Pair} {p : Pair} (inside : p ∈ pairs) (some_ : p.key ≠ []) :
    Pair.writeDirectives pairs ≠ [] := by
  have key : p.key ∈ (Table.ofList (pairs.map fun p => (p.key, p.value))).keys :=
    Table.mem_keys_insertAll (.inr (by simpa using ⟨p, inside, rfl⟩))
  obtain ⟨⟨k, v⟩, entry, same⟩ := List.mem_map.mp key
  obtain rfl : k = p.key := same
  have merged : ⟨p.key, v⟩ ∈ Pair.merge pairs := List.mem_map.mpr ⟨(p.key, v), entry, rfl⟩
  refine join_ne_nil ?_ (List.mem_map_of_mem merged)
  cases v with
  | none => exact some_
  | some v => simp [Pair.writeDirective, lit]

/-- A directive string with an interpolated attribute is preprocessed, with the
    filters of its value as calls. -/
theorem preprocessText_gives {t name v : Text} (plain : PlainName name)
    (inside : ⟨memberKey name, some v⟩ ∈ Pair.split t) (some_ : Filter.calls Filter.standardLookup v ≠ []) :
    Gives Grown (Directive.preprocessText t) fun processed =>
      ∃ pairs, processed = Pair.writeDirectives pairs ∧
        ⟨memberKey name, some (Filter.calls Filter.standardLookup v)⟩ ∈ pairs := by
  obtain ⟨h, made, filters⟩ := handlerOf_memberKey plain
  refine preprocessText_of_expandAll fun depth => (expandAll_gives depth (Pair.split t)).weaken fun results held => ?_
  exact held _ h v inside made filters some_

/-! ## The directives of an element -/

/-- The directive of an attribute without a handler of its own belongs to the
    attribute namespace. -/
theorem keyOf_eq_memberKey (attrNamespace : s.attributeNamespace = lit "attr")
    (divider : s.namespaceDivider = lit ".") {st : State} (grown : Grown st) {key : Text}
    (oneWay : s.twoWayAttributes.contains key = false) (own : ∃ st', Registry.lookup key st = .ok none st') :
    keyOf s key = memberKey key := by
  obtain ⟨entry, _, ran, _, same⟩ := lookup_gives key st grown
  obtain ⟨_, missing⟩ := own
  rw [missing] at ran
  cases ran
  rw [keyOf, oneWay, ← same, attrNamespace, divider]
  rfl

/-- Attributes with closed names and values become closed directives. -/
theorem closed_directives (attrNamespace : s.attributeNamespace = lit "attr")
    (divider : s.namespaceDivider = lit ".") {entries : List (Text × AttributeValue)}
    (closed : ∀ entry ∈ entries, ∀ v, valueOf? s entry.2 = some v → Closed entry.1.lower ∧ Closed v) :
    ∀ d ∈ directives s entries, Closed d := by
  intro d inside
  obtain ⟨entry, stands, isDirective⟩ := List.mem_filterMap.mp inside
  unfold directiveOf? at isDirective
  split at isDirective
  · cases isDirective
  · obtain ⟨v, interpolated, rfl⟩ := Option.map_eq_some_iff.mp isDirective
    obtain ⟨closedName, closedValue⟩ := closed entry stands v interpolated
    have closedKey : Closed (keyOf s entry.1.lower) := by
      unfold keyOf
      split
      · exact closedName
      · rw [attrNamespace, divider]
        exact Closed.append (by decide) closedName
    exact Pair.closed_keyed closedKey closedValue

/-- An element whose moved attributes leave a directive with filters in its
    directive attribute is preprocessed, with those filters as calls. -/
theorem element_gives (tag : Text) (attributes : Table AttributeValue) (children : List Node) {name v : Text}
    (plain : PlainName name) (some_ : Filter.calls Filter.standardLookup v ≠ [])
    (inside : ⟨memberKey name, some v⟩ ∈ Pair.split ((directives s attributes.entries).foldl addDirective
      (directivesOf (attributes.get? s.directiveAttribute))))
    (moves : directives s attributes.entries ≠ []) :
    Gives Grown
      (do Visit.preprocessNode s true (← interpolateAttributes s (.element tag attributes children)) : Work Node)
      fun node => ∃ attributes' pairs, node = .element tag attributes' children ∧
        attributes'.get? s.directiveAttribute = some (.text (Pair.writeDirectives pairs)) ∧
        ⟨memberKey name, some (Filter.calls Filter.standardLookup v)⟩ ∈ pairs := by
  unfold interpolateAttributes
  simp only [bind_assoc, pure_bind, preprocessNode_element]
  refine (moveAttributes_gives s tag attributes.entries attributes).bind fun moved held => ?_
  rw [if_neg moves] at held
  generalize (directives s attributes.entries).foldl addDirective
    (directivesOf (attributes.get? s.directiveAttribute)) = t at inside held
  have present : t ≠ [] := by
    rintro rfl
    cases inside
  have directive : Visit.directivesOf? s moved = pure (some t) := by
    unfold Visit.directivesOf?
    simp [held, present]
  unfold preprocessAttribute
  simp only [directive, pure_bind, bind_assoc]
  refine (preprocessText_gives plain inside some_).bind fun processed written => ?_
  obtain ⟨pairs, rfl, member⟩ := written
  have nonempty : Pair.writeDirectives pairs ≠ [] := writeDirectives_ne_nil member (by simp [memberKey, lit])
  have counts : Gives Grown countDirectives fun _ => True :=
    fun _ grown => ⟨_, _, rfl, grown.of_registry rfl, trivial⟩
  refine counts.bind fun _ _ => Gives.pure ⟨_, pairs, rfl, ?_, member⟩
  rw [if_neg (by simpa using nonempty), Table.get?_insert, if_pos rfl]

/-! ## Filters of an attribute -/

/-- An attribute that mixes text and expressions becomes one directive, whose
    value has its filters read over the whole sum. Up to blanks outside strings,
    that gives every expression its own filters exactly when no expression has
    one. -/
theorem attribute_filters_iff (attrNamespace : s.attributeNamespace = lit "attr")
    (divider : s.namespaceDivider = lit ".") (unwraps : s.unwrapFunction = lit "unwrap")
    {st : State} (grown : Grown st) (tag : Text) (attributes : Table AttributeValue) (children : List Node)
    {before after : List (Text × AttributeValue)} {name value : Text}
    (stands : attributes.entries = before ++ (name, .text value) :: after)
    (apart : name ≠ s.directiveAttribute) (oneWay : s.twoWayAttributes.contains name.lower = false)
    (own : ∃ st', Registry.lookup name.lower st = .ok none st') (plain : PlainName name.lower)
    (scanned : Segment.scan s.openToken s.closeToken value = some segments) (several : 2 ≤ segments.length)
    (fine : Segments segments) (old : Closed (directivesOf (attributes.get? s.directiveAttribute)))
    (earlier : ∀ entry ∈ before, ∀ v, valueOf? s entry.2 = some v → Closed entry.1.lower ∧ Closed v) :
    ∃ attributes' pairs st',
      (do Visit.preprocessNode s true (← interpolateAttributes s (.element tag attributes children)) : Work Node) st =
        .ok (.element tag attributes' children) st' ∧
      attributes'.get? s.directiveAttribute = some (.text (Pair.writeDirectives pairs)) ∧
      ∃ written, ⟨memberKey name.lower, some written⟩ ∈ pairs ∧
        (Filter.compact written = Filter.compact (sum (segments.map (filteredTerm s))) ↔
          ∀ e, .expression e ∈ segments → .pipe ∉ Filter.tokens e) := by
  -- What is moved is one unit among the directives, so splitting finds it again as it is.
  have keyed := keyOf_eq_memberKey attrNamespace divider grown oneWay own
  have moved : directiveOf? s (name, .text value) =
      some (memberKey name.lower ++ lit ":" ++ attributeValue s segments) := by
    rw [directiveOf?, if_neg apart, valueOf?_several scanned several, Option.map_some, keyed]
  have listed : directives s attributes.entries =
      directives s before ++ (memberKey name.lower ++ lit ":" ++ attributeValue s segments) :: directives s after := by
    rw [directives, stands, List.filterMap_append, List.filterMap_cons, moved, directives, directives]
  have sealed_ := sealed_attributeValue unwraps several fine
  have single := split_directive plain sealed_ (strip_attributeValue several)
  have some_ : memberKey name.lower ++ lit ":" ++ attributeValue s segments ≠ [] := by simp [lit]
  have inside : ⟨memberKey name.lower, some (attributeValue s segments)⟩ ∈
      Pair.split ((directives s attributes.entries).foldl addDirective
        (directivesOf (attributes.get? s.directiveAttribute))) := by
    rw [listed]
    refine mem_split_foldl old (closed_directives attrNamespace divider earlier) ?_ some_
      (by rw [single]; exact List.mem_singleton_self _)
    exact ((sealed_memberKey plain).closed.append (by decide)).append sealed_.closed
  obtain ⟨node, st', ran, _, attributes', pairs, rfl, held, member⟩ :=
    element_gives tag attributes children plain (Filter.calls_ne_nil _ (attributeValue_ne_nil s several)) inside
      (by rw [listed]; simp) st grown
  exact ⟨attributes', pairs, st', ran, held, _, member, compact_calls_iff unwraps several fine⟩

/-- An expression with a filter. -/
def shout : Text := lit " x | upper "

/-- A value with a filter in its only expression. -/
def shouted : Text := lit "a \x7b\x7b" ++ shout ++ lit "\x7d\x7d b"

def shoutedSegments : List Segment := [.literal (lit "a "), .expression shout, .literal (lit " b")]

/-- The attributes of an element with that value for its title. -/
def titled : Table AttributeValue := Table.ofList [(lit "title", .text shouted)]

/-- A state with the registry of the standard setup. -/
def standardState : State := { registry := Standard.registry }

theorem wellFormed_shout : WellFormed shout := by
  refine ⟨⟨by decide, ?_⟩, ?_⟩
  · intro a c b split closer
    have inside : c ∈ shout := by simp [split]
    have none : (shout.all fun d => !closers.contains d) = true := by decide
    have unclosed := List.all_eq_true.mp none c inside
    simp [closer] at unclosed
  · have pieces : Filter.pieces shout = [.blank (lit " "), .token (.run (lit "x")), .blank (lit " "), .token .pipe,
        .blank (lit " "), .token (.run (lit "upper")), .blank (lit " ")] := by decide +kernel
    intro mark
    rw [pieces]
    simp

theorem attribute_filters_iff_title :
    ∃ attributes' pairs st',
      (do Visit.preprocessNode {} true (← interpolateAttributes {} (.element (lit "p") titled [])) : Work Node)
          standardState = .ok (.element (lit "p") attributes' []) st' ∧
      attributes'.get? (lit "data-bind") = some (.text (Pair.writeDirectives pairs)) ∧
      ∃ written, ⟨memberKey (Text.lower (lit "title")), some written⟩ ∈ pairs ∧
        Filter.compact written ≠ Filter.compact (sum (shoutedSegments.map (filteredTerm {}))) := by
  have stands : titled.entries = [] ++ (lit "title", .text shouted) :: [] := rfl
  have scanned : Segment.scan (lit "\x7b\x7b") (lit "\x7d\x7d") shouted = some shoutedSegments := by decide +kernel
  have own : ∃ st', Registry.lookup (Text.lower (lit "title")) standardState = .ok none st' := by
    obtain ⟨entry, st', ran, _, same⟩ := lookup_gives (Text.lower (lit "title")) standardState (grown_registry rfl)
    have missing : (handlerOf (Text.lower (lit "title"))).isNone := by decide +kernel
    rw [Option.isNone_iff_eq_none, ← same, Option.map_eq_none_iff] at missing
    exact ⟨st', missing ▸ ran⟩
  have lowered : Text.lower (lit "title") = lit "title" := by decide +kernel
  have plain : PlainName (Text.lower (lit "title")) := by
    rw [lowered]
    exact ⟨by decide, by simp [lit, Text.isBlank, Text.blanks], ⟨by decide, by decide, by decide⟩⟩
  have literals : ∀ t, .literal t ∈ shoutedSegments → t = lit "a " ∨ t = lit " b" := by simp [shoutedSegments]
  have expressions : ∀ e, .expression e ∈ shoutedSegments → e = shout := by simp [shoutedSegments]
  have fine : Segments shoutedSegments := by
    refine ⟨fun t inside => ?_, fun t inside => ?_, fun e inside => ?_⟩
    · rcases literals t inside with rfl | rfl <;> decide
    · rcases literals t inside with rfl | rfl <;> decide
    · rw [expressions e inside]
      exact wellFormed_shout
  obtain ⟨attributes', pairs, st', ran, held, written, member, same⟩ :=
    attribute_filters_iff (s := {}) rfl rfl rfl (grown_registry rfl) (lit "p") titled [] stands (by decide)
      (by decide +kernel) own plain scanned (by decide) fine (by decide) (by simp)
  refine ⟨attributes', pairs, st', ran, held, written, member, fun equal => ?_⟩
  exact same.mp equal shout (by simp [shoutedSegments]) (by decide +kernel)

example :
    (match (do Visit.preprocessNode {} true (← interpolateAttributes {} (.element (lit "p") titled [])) : Work Node)
        standardState with
      | .ok (.element _ attributes _) _ => attributes.get? (lit "data-bind")
      | _ => none) =
      some (.text (lit "attr.title:filters['upper )+'](\"\"+\"a \"+unwrap( x\" b\")")) := by
  decide +kernel

end Bindmark.Interpolation
