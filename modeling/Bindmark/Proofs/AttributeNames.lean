import Bindmark.Proofs.MovedDirectives
import Bindmark.Proofs.Rereading

/-!
# Names of moved attributes

A moved attribute hands its name to a directive string, which holds it as it is.
The directive is read as one pair with the key of the attribute exactly when that
key is legible. The reason is a count of colons: the text before the colon of the
pair that is read has as many of them as the key. For names without blanks all
depends on whether the name is sealed. A colon of its own that counts cuts it.
-/

namespace Bindmark

open Reading

/-! ## Counting characters -/

namespace Text

variable {c : Char}

theorem count_allBlank (solid : isBlank c = false) {t : Text} (blank : t.allBlank) : t.count c = 0 := by
  rw [List.count_eq_zero]
  intro inside
  rw [List.all_eq_true.mp blank c inside] at solid
  cases solid

/-- Trimming takes blanks only. -/
theorem count_strip (solid : isBlank c = false) (t : Text) : t.strip.count c = t.count c := by
  have start : t.count c = t.stripStart.count c := by
    have before : (t.takeWhile isBlank).count c = 0 :=
      count_allBlank solid (List.all_eq_true.mpr fun d inside => List.mem_takeWhile_imp inside)
    conv_lhs => rw [← List.takeWhile_append_dropWhile (p := isBlank) (l := t), List.count_append, before, Nat.zero_add]
    rfl
  obtain ⟨blanks, blank, whole⟩ := exists_stripEnd t.stripStart
  rw [start, strip]
  conv_rhs => rw [whole, List.count_append, count_allBlank solid blank, Nat.add_zero]

/-- A place of a character is fixed by how often the character stands before it. -/
theorem eq_of_count_before {before before' after after' : Text}
    (same : before ++ c :: after = before' ++ c :: after') (count : before.count c = before'.count c) :
    before = before' := by
  -- The longer of the two would hold the character that the shorter one stands before.
  rcases List.append_eq_append_iff.mp same with ⟨more, rfl, rest⟩ | ⟨more, rfl, rest⟩
  · cases more with
    | nil => exact (List.append_nil _).symm
    | cons d more =>
      obtain ⟨rfl, -⟩ := List.cons.inj rest
      rw [List.count_append, List.count_cons_self] at count
      omega
  · cases more with
    | nil => exact List.append_nil _
    | cons d more =>
      obtain ⟨rfl, -⟩ := List.cons.inj rest
      rw [List.count_append, List.count_cons_self] at count
      omega

end Text

namespace Pair

variable {key value : Text}

theorem count_unquote {c : Char} (noQuote : c ∉ quotes) (t : Text) : (unquote t).count c = t.count c := by
  cases t with
  | nil => rfl
  | cons mark rest =>
    rw [unquote]
    split
    · rename_i quoted
      obtain ⟨quote, ends⟩ := quoted
      have other : mark ≠ c := by
        rintro rfl
        exact noQuote quote
      rw [← List.dropLast_append_getLast? mark ends, List.count_cons_of_ne other, List.count_append]
      simp [other]
    · rfl

/-! ## Units in their text -/

theorem notMem_join {c : Char} {separator : Text} (other : c ∉ separator) {ts : List Text} (missing : ∀ u ∈ ts, c ∉ u) :
    c ∉ Text.join separator ts := by
  induction ts with
  | nil => exact List.not_mem_nil
  | cons u ts ih =>
    obtain ⟨here, later⟩ := List.forall_mem_cons.mp missing
    by_cases last : ts = []
    · rw [last]
      exact here
    · rw [Text.join_cons separator u last]
      simp [here, other, ih later]

/-- Around a unit a character does not stand that stands in no other unit. -/
theorem exists_around {c : Char} {separator : Text} (other : c ∉ separator) (unit : Text) {before after : List Text}
    (earlier : ∀ u ∈ before, c ∉ u) (later : ∀ u ∈ after, c ∉ u) :
    ∃ a b, Text.join separator (before ++ unit :: after) = a ++ unit ++ b ∧ c ∉ a ∧ c ∉ b := by
  induction before with
  | nil =>
    by_cases last : after = []
    · exact ⟨[], [], by rw [last]; simp [Text.join], List.not_mem_nil, List.not_mem_nil⟩
    · refine ⟨[], separator ++ Text.join separator after, ?_, List.not_mem_nil, ?_⟩
      · rw [List.nil_append, Text.join_cons _ _ last, List.nil_append, List.append_assoc]
      · simp [other, notMem_join other later]
  | cons u before ih =>
    obtain ⟨here, earlier⟩ := List.forall_mem_cons.mp earlier
    obtain ⟨a, b, joined, noneBefore, noneAfter⟩ := ih earlier
    refine ⟨u ++ separator ++ a, b, ?_, by simp [here, other, noneBefore], noneAfter⟩
    rw [List.cons_append, Text.join_cons _ _ (by simp), joined]
    simp only [List.append_assoc]

/-- A text that is read as one pair, and the unit that gives it. Around that unit
    there is no colon. -/
theorem exists_unit {t : Text} {p : Pair} (read : split t = [p]) :
    ∃ a unit b, t = a ++ unit ++ b ∧ ofUnit? unit = some p ∧ Hidden ',' top unit ∧ ':' ∉ a ∧ ':' ∉ b := by
  obtain ⟨before, unit, after, parts, none, isPair, others⟩ := List.filterMap_eq_cons_iff.mp read
  have blank {u : Text} (nothing : ofUnit? u = .none) : ':' ∉ u := by
    unfold ofUnit? at nothing
    split at nothing
    · cases nothing
    · split at nothing
      · rename_i empty
        have blank := Text.strip_eq_nil_iff.mp (List.isEmpty_iff.mp empty)
        exact List.count_eq_zero.mp (Text.count_allBlank (by decide) blank)
      · cases nothing
  obtain ⟨a, b, joined, noneBefore, noneAfter⟩ := exists_around (show ':' ∉ lit "," by decide) unit
    (fun u inside => blank (none u inside)) fun u inside => blank (List.filterMap_eq_nil_iff.mp others u inside)
  have whole : t = a ++ unit ++ b := by
    rw [← joined, ← parts]
    exact (join_partsAt ',' top t).symm
  refine ⟨a, unit, b, whole, isPair, hidden_of_mem_partsAt (t := t) ?_, noneBefore, noneAfter⟩
  rw [parts]
  exact List.mem_append_right _ (List.mem_cons_self ..)

/-! ## Keys of directives -/

theorem legible_keyed : Legible ⟨key, some value.strip⟩ ↔ Sealed key ∧ key.strip = key ∧ unquote key = key := by
  constructor
  · rintro ⟨comma, colon, trimmed, unquoted, -, valued⟩
    exact ⟨⟨(valued _ rfl).1, hidden_top_iff.mpr comma, hidden_top_iff.mpr colon⟩, trimmed, unquoted⟩
  · rintro ⟨isSealed, trimmed, unquoted⟩
    refine ⟨hidden_top_iff.mp isSealed.comma, hidden_top_iff.mp isSealed.colon, trimmed, unquoted, by simp, ?_⟩
    intro v same
    cases same
    exact ⟨isSealed.closed, Text.strip_strip value⟩

theorem split_of_legible_keyed (unbroken : Unbroken value) (legible : Legible ⟨key, some value.strip⟩) :
    split (key ++ lit ":" ++ value) = [⟨key, some value.strip⟩] := by
  obtain ⟨isSealed, trimmed, unquoted⟩ := legible_keyed.mp legible
  rw [split_keyed isSealed unbroken.comma, trimmed, unquoted]

/-- A directive that is read as one pair with its key is legible. -/
theorem legible_of_split_keyed {v : Option Text} (read : split (key ++ lit ":" ++ value) = [⟨key, v⟩]) :
    Legible ⟨key, some value.strip⟩ := by
  have written : key ++ lit ":" ++ value = key ++ ':' :: value := by simp [lit]
  obtain ⟨a, unit, b, whole, isPair, comma, noneBefore, noneAfter⟩ := exists_unit read
  rw [written] at whole
  have keeps (t : Text) : (unquote t.strip).count ':' = t.count ':' := by
    rw [count_unquote (by decide), Text.count_strip (by decide)]
  have count := congrArg (List.count ':') whole
  simp only [List.count_append, List.count_cons_self, List.count_eq_zero.mpr noneBefore,
    List.count_eq_zero.mpr noneAfter] at count
  rcases ofUnit?_eq_some isPair with ⟨k, v', cut, same⟩ | ⟨-, -, same⟩
  · obtain ⟨named, -⟩ := Pair.mk.inj same
    have place : key ++ ':' :: value = (a ++ k) ++ ':' :: (v' ++ b) := by rw [whole, cut.split]; simp
    have front : key = a ++ k := by
      refine Text.eq_of_count_before place ?_
      rw [List.count_append, List.count_eq_zero.mpr noneBefore, Nat.zero_add, named, keeps]
    -- The key that is read is no longer than what stands before the colon.
    have shorter := ((unquote_sublist k.strip).trans (Text.strip_sublist k)).length_le
    rw [← named, front, List.length_append] at shorter
    obtain rfl : a = [] := List.eq_nil_of_length_eq_zero (by omega)
    rw [List.nil_append] at front
    subst front
    obtain ⟨-, trimmed, unquoted⟩ := eq_of_unquote_strip named.symm (Nat.le_refl _)
    refine legible_keyed.mpr ⟨⟨cut.closed, fun x y split => ?_, hidden_top_iff.mpr cut.first⟩, trimmed, unquoted⟩
    exact comma x (y ++ ':' :: v') (by rw [cut.split, split]; simp)
  · -- A bare key would hold all colons of the text, that behind it included.
    obtain ⟨named, -⟩ := Pair.mk.inj same
    have inner := congrArg (List.count ':') named
    rw [keeps] at inner
    omega

/-- A directive with an unbroken value is read as one pair with its key exactly when
    that is legible. -/
theorem split_keyed_iff (unbroken : Unbroken value) :
    (∃ v, split (key ++ lit ":" ++ value) = [⟨key, v⟩]) ↔ Legible ⟨key, some value.strip⟩ :=
  ⟨fun ⟨_, same⟩ => legible_of_split_keyed same, fun legible => ⟨_, split_of_legible_keyed unbroken legible⟩⟩

/-- An unbroken key is cut at its own first colon that counts. -/
theorem split_keyed_of_firstCut {before after : Text} (unbroken : Unbroken value) (keyed : Unbroken key)
    (cut : FirstCut ':' key before after) :
    split (key ++ lit ":" ++ value) = [⟨unquote before.strip, some (after ++ lit ":" ++ value).strip⟩] := by
  have colon : Unbroken (lit ":") := ⟨by decide, by decide⟩
  have single := hidden_top_iff.mp ((keyed.append colon).append unbroken).comma
  refine (split_unit single).2.2 _ _ ⟨?_, cut.closed, cut.first⟩
  rw [cut.split]
  simp only [List.append_assoc, List.cons_append]

end Pair

namespace Interpolation

open Work

variable {s : Settings}

/-! ## Names without blanks -/

/-- For an attribute whose name has no blanks, its key is legible exactly when the
    name is sealed, and has no quotes around it where it is the key itself. -/
theorem legible_of_name {key name value : Text}
    (chosen : key = name ∨ key = s.attributeNamespace ++ s.namespaceDivider ++ name)
    (ns : Ordinary s.attributeNamespace) (divider : Ordinary s.namespaceDivider)
    (solid : ∀ c ∈ name, Text.isBlank c = false) :
    Pair.Legible ⟨key, some value.strip⟩ ↔ Sealed name ∧ (key = name → Pair.unquote key = key) := by
  have front := ns.append divider
  rw [Pair.legible_keyed]
  rcases chosen with rfl | rfl
  · simp [Text.strip_of_noBlank solid]
  · have solidKey : ∀ c ∈ s.attributeNamespace ++ s.namespaceDivider ++ name, Text.isBlank c = false :=
      List.forall_mem_append.mpr ⟨fun c inside => front.noBlank inside, solid⟩
    rw [front.sealed.append_iff]
    refine and_congr_right fun _ => ⟨fun legible _ => legible.2, fun unquoted => ⟨Text.strip_of_noBlank solidKey, ?_⟩⟩
    by_cases bare : s.attributeNamespace ++ s.namespaceDivider = []
    · exact unquoted (by rw [bare, List.nil_append])
    · exact front.unquote_append bare name

/-! ## Directives of moved attributes -/

/-- The values of the attributes of a name are read again as they are. -/
def ReadableValues (s : Settings) (entries : List (Text × AttributeValue)) (name : Text) : Prop :=
  ∀ value, (name, value) ∈ entries → ∀ segments,
    Segment.scan s.openToken s.closeToken value.joined = some segments → Readable segments

/-- How the directive of a moved attribute is read. -/
structure ReadByKey (s : Settings) (m : Text × Text × Text) : Prop where
  /-- It is one pair with the key of the attribute exactly when that is legible. -/
  single : (∃ v, Pair.split (movedDirective m) = [⟨m.1, v⟩]) ↔ Pair.Legible ⟨m.1, some m.2.2.strip⟩
  /-- No other handler is asked for then. -/
  expands : Pair.Legible ⟨m.1, some m.2.2.strip⟩ → ∀ depth,
    Directive.expandAll depth (Pair.split (movedDirective m)) = Directive.expand depth ⟨m.1, some m.2.2.strip⟩
  /-- The key is cut at its own first colon that counts. -/
  cut : Unbroken m.1 → ∀ before after, FirstCut ':' m.1 before after →
    Pair.split (movedDirective m) = [⟨Pair.unquote before.strip, some (after ++ lit ":" ++ m.2.2).strip⟩]
  /-- For a name without blanks it is the name that has to be sealed. -/
  name : Ordinary s.attributeNamespace → Ordinary s.namespaceDivider → (∀ c ∈ m.2.1, Text.isBlank c = false) →
    (Pair.Legible ⟨m.1, some m.2.2.strip⟩ ↔ Sealed m.2.1.lower ∧ (m.1 = m.2.1.lower → Pair.unquote m.1 = m.1))

theorem readByKey {m : Text × Text × Text} (unbroken : Unbroken m.2.2)
    (chosen : m.1 = m.2.1.lower ∨ m.1 = s.attributeNamespace ++ s.namespaceDivider ++ m.2.1.lower) : ReadByKey s m where
  single := Pair.split_keyed_iff unbroken
  expands legible depth := by
    rw [movedDirective, Pair.split_of_legible_keyed unbroken legible]
    simp [Directive.expandAll]
  cut keyed _ _ := Pair.split_keyed_of_firstCut unbroken keyed
  name ns divider solid := legible_of_name chosen ns divider (lower_noBlank solid)

/-- Attributes are moved when their keys are chosen, and are given up with that.
    Each becomes one directive behind the old directive string. Where its values are
    readable, that directive is read as one pair with the key of the attribute exactly
    when that key is legible (`ReadByKey`). Where all are, the whole string is read as
    the pairs it had before and one pair for each attribute behind them. -/
theorem moved_attribute_read_iff_legible (unwraps : Unbroken s.unwrapFunction) (tag : Text)
    (attributes : Table AttributeValue) (children : List Node) (st : State) :
    (∀ keys st', chooseKeys s tag (movedValues s attributes.entries) st = .ok keys st' →
      ∃ attributes', interpolateAttributes s (.element tag attributes children) st =
          .ok (.element tag attributes' children) st' ∧
        keys.length = (movedValues s attributes.entries).length ∧
        directivesOf (attributes'.get? s.directiveAttribute) =
          ((keys.zip (movedValues s attributes.entries)).map movedDirective).foldl addDirective
            (directivesOf (attributes.get? s.directiveAttribute)) ∧
        (∀ m ∈ keys.zip (movedValues s attributes.entries),
          (∃ st₁ st₂, attributeKey s m.2.1.lower st₁ = .ok m.1 st₂) ∧
            (ReadableValues s attributes.entries m.2.1 → ReadByKey s m)) ∧
        (Closed (directivesOf (attributes.get? s.directiveAttribute)) →
          (∀ m ∈ keys.zip (movedValues s attributes.entries),
            ReadableValues s attributes.entries m.2.1 ∧ Pair.Legible ⟨m.1, some m.2.2.strip⟩) →
          Pair.split (directivesOf (attributes'.get? s.directiveAttribute)) =
            Pair.split (directivesOf (attributes.get? s.directiveAttribute)) ++
              (keys.zip (movedValues s attributes.entries)).map fun m => ⟨m.1, some m.2.2.strip⟩)) ∧
      ∀ e st', chooseKeys s tag (movedValues s attributes.entries) st = .error e st' →
        interpolateAttributes s (.element tag attributes children) st = .error e st' := by
  rw [interpolateAttributes_element]
  refine ⟨fun keys st' chosen => ?_, fun e st' failed => bind_error failed⟩
  obtain ⟨count, keyed⟩ := List.forall₂_iff_zip.mp (chooseKeys_chooses chosen)
  have others : ∀ m ∈ keys.zip (movedValues s attributes.entries), m.2.1 ≠ s.directiveAttribute := by
    rintro ⟨key, m⟩ inside
    obtain ⟨_, -, other, -⟩ := mem_movedValues (List.of_mem_zip inside).2
    exact other
  have unbroken : ∀ m ∈ keys.zip (movedValues s attributes.entries), ReadableValues s attributes.entries m.2.1 →
      Unbroken m.2.2 := by
    rintro ⟨key, m⟩ inside readable
    obtain ⟨value, entry, -, isValue⟩ := mem_movedValues (List.of_mem_zip inside).2
    exact unbroken_valueOf? unwraps (readable value entry) isValue
  have directives := directivesOf_foldl_move others attributes
  refine ⟨_, bind_ok chosen, count, directives, ?_, fun old legible => ?_⟩
  · rintro ⟨key, name, v⟩ inside
    obtain ⟨st₁, st₂, ran⟩ := keyed inside
    exact ⟨⟨st₁, st₂, ran⟩, fun readable => readByKey (unbroken _ inside readable) (attributeKey_eq ran)⟩
  · rw [directives, split_foldl_addDirective ?_ old, List.flatMap_map, ← List.flatMap_pure_eq_map]
    · refine congrArg _ (List.flatMap_congr fun m inside => ?_)
      obtain ⟨readable, isLegible⟩ := legible m inside
      exact Pair.split_of_legible_keyed (unbroken m inside readable) isLegible
    · refine List.forall_mem_map.mpr fun m inside => ?_
      obtain ⟨readable, isLegible⟩ := legible m inside
      exact Pair.closed_keyed (Pair.legible_keyed.mp isLegible).1.closed (unbroken m inside readable).closed

/-- The attributes of a link: one with a plain name, and one with a colon in it. -/
def linked : Table AttributeValue := Table.ofList
  [(lit "title", .text (lit "\x7b\x7b t \x7d\x7d")), (lit "xlink:href", .text (lit "\x7b\x7b u \x7d\x7d"))]

theorem moved_attribute_read_iff_legible_link :
    ∃ attributes' st', interpolateAttributes {} (.element (lit "a") linked []) bareRegistryState =
        .ok (.element (lit "a") attributes' []) st' ∧
      directivesOf (attributes'.get? (lit "data-bind")) = lit "attr.title: t ,attr.xlink:href: u " ∧
      (∃ v, Pair.split (lit "attr.title: t ") = [⟨lit "attr.title", v⟩]) ∧
      (¬ ∃ v, Pair.split (lit "attr.xlink:href: u ") = [⟨lit "attr.xlink:href", v⟩]) ∧
      Pair.split (lit "attr.xlink:href: u ") = [⟨lit "attr.xlink", some (lit "href: u")⟩] := by
  have moved : movedValues {} linked.entries = [(lit "title", lit " t "), (lit "xlink:href", lit " u ")] := by
    decide +kernel
  have readable (name : Text) : ReadableValues {} linked.entries name := by
    have scanned : ∀ entry ∈ linked.entries, ∃ e ∈ [lit " t ", lit " u "],
        Segment.scan (lit "\x7b\x7b") (lit "\x7d\x7d") entry.2.joined = some [.expression e] := by
      decide +kernel
    intro value inside segments found
    obtain ⟨e, isExpression, same⟩ := scanned _ inside
    have segments_eq := Option.some.inj (found.symm.trans same)
    refine ⟨fun t literal => by simp [segments_eq] at literal, fun e' expression => ?_⟩
    obtain rfl : e' = e := by simpa [segments_eq] using expression
    have unbroken : ∀ e ∈ [lit " t ", lit " u "], Closed e ∧ Hidden ',' top e := by decide
    exact ⟨(unbroken _ isExpression).1, (unbroken _ isExpression).2⟩
  obtain ⟨st', chosen⟩ : ∃ st', chooseKeys {} (lit "a") (movedValues {} linked.entries) bareRegistryState =
      .ok [lit "attr.title", lit "attr.xlink:href"] st' := by
    rw [moved]
    exact ⟨_, rfl⟩
  obtain ⟨attributes', ran, -, directives, read, -⟩ := (moved_attribute_read_iff_legible (s := {})
    ⟨by decide, by decide⟩ (lit "a") linked [] bareRegistryState).1 _ _ chosen
  rw [moved] at directives read
  have plain := (read (lit "attr.title", lit "title", lit " t ") (by simp)).2 (readable _)
  have colon := (read (lit "attr.xlink:href", lit "xlink:href", lit " u ") (by simp)).2 (readable _)
  have cut : FirstCut ':' (lit "attr.xlink:href") (lit "attr.xlink") (lit "href") := firstCut_of_cutAt? (by decide)
  refine ⟨attributes', st', ran, directives.trans (by decide +kernel), plain.single.mpr ?_, fun single => ?_,
    colon.cut ⟨by decide, by decide⟩ _ _ cut⟩
  · have ordinary : Ordinary (lit "title") := by decide
    exact (plain.name (by decide) (by decide) fun _ inside => ordinary.noBlank inside).mpr
      ⟨ordinary.lower.sealed, fun same => absurd same (by decide)⟩
  · exact (colon.single.mp single).colon ⟨_, _, cut.split, cut.closed⟩

end Interpolation
end Bindmark
