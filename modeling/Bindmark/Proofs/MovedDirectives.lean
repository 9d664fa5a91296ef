import Bindmark.Proofs.Moving
import Bindmark.Proofs.Names
import Bindmark.Proofs.Quoting
import Bindmark.Proofs.Values
import Mathlib.Data.List.Forall2

/-!
# Directives of moved attributes

Attributes are moved by choosing their keys one after the other and adding one
directive for each to the directive string. Read again, that string has the
pairs it had before, and one pair for each moved attribute behind them, as long
as the literals hold no backslash and the expressions are closed texts in which
no comma counts.
-/

namespace Bindmark.Interpolation

open Work Reading

variable {s : Settings}

/-! ## Keys -/

/-- The key of an attribute is its name or a member of the attribute namespace. -/
theorem attributeKey_eq {name key : Text} {st st' : State} (chosen : attributeKey s name st = .ok key st') :
    key = name ∨ key = s.attributeNamespace ++ s.namespaceDivider ++ name := by
  unfold attributeKey at chosen
  split at chosen
  · exact .inl (pure_eq_ok chosen).1.symm
  · obtain ⟨entry, st₁, -, chosen⟩ := bind_eq_ok chosen
    cases entry with
    | none => exact .inr (pure_eq_ok chosen).1.symm
    | some e => exact .inl (pure_eq_ok chosen).1.symm

/-- The keys of moved attributes are chosen for their names in lower case. -/
theorem chooseKeys_chooses {tag : Text} : ∀ {moved : List (Text × Text)} {keys : List Text} {st st' : State},
    chooseKeys s tag moved st = .ok keys st' →
      List.Forall₂ (fun key m => ∃ st₁ st₂, attributeKey s m.1.lower st₁ = .ok key st₂) keys moved
  | [], keys, st, st', chosen => by
    obtain ⟨rfl, -⟩ := pure_eq_ok chosen
    exact .nil
  | (name, v) :: rest, keys, st, st', chosen => by
    obtain ⟨key, st₁, ranKey, chosen⟩ := bind_eq_ok chosen
    obtain ⟨u, st₂, -, chosen⟩ := bind_eq_ok chosen
    obtain ⟨others, st₃, ranRest, chosen⟩ := bind_eq_ok chosen
    obtain ⟨rfl, -⟩ := pure_eq_ok chosen
    exact .cons ⟨st, st₁, ranKey⟩ (chooseKeys_chooses ranRest)

theorem chooseKeys_eq {tag : Text} {moved : List (Text × Text)} {keys : List Text} {st st' : State}
    (chosen : chooseKeys s tag moved st = .ok keys st') :
    List.Forall₂ (fun key m => key = m.1.lower ∨ key = s.attributeNamespace ++ s.namespaceDivider ++ m.1.lower)
      keys moved :=
  (chooseKeys_chooses chosen).imp fun _ _ ⟨_, _, ran⟩ => attributeKey_eq ran

/-! ## Values -/

/-- A complete string is unbroken: what is in it is within quotes. -/
theorem IsString.unbroken {t body : Text} (string : IsString t body) : Unbroken t := by
  refine ⟨string.ends 0, fun a b split isTop => ?_⟩
  have opened : top.step '"' = quoted 0 '"' false := by decide
  rw [string.marks] at split
  cases a with
  | nil => cases split
  | cons c a =>
    obtain ⟨rfl, rest⟩ := List.cons.inj split
    have begins : a <+: body := by
      rcases List.append_eq_append_iff.mp rest with ⟨more, rfl, -⟩ | ⟨more, rfl, -⟩
      · -- The comma would be the last quote, or stand behind it.
        cases more with
        | nil => simp
        | cons d more =>
          simp at rest
      · exact List.prefix_append _ _
    obtain ⟨escaped, stays⟩ := string.inside 0 a begins
    rw [read_cons, opened, stays] at isTop
    cases isTop

/-- Segments that are read again as they are: literals without backslashes, and
    closed expressions in which no comma counts. -/
structure Readable (segments : List Segment) : Prop where
  literal : ∀ t, .literal t ∈ segments → '\\' ∉ t
  expression : ∀ e, .expression e ∈ segments → Unbroken e

theorem unbroken_term (unwraps : Unbroken s.unwrapFunction) {segments : List Segment}
    (readable : Readable segments) : ∀ x ∈ segments, Unbroken (term s x)
  | .literal t, inside =>
    (isString_quoteLiteral.mpr ⟨rfl, not_breaksOut (readable.literal t inside)⟩).unbroken
  | .expression e, inside => unwraps.call (readable.expression e inside)

theorem unbroken_attributeValue (unwraps : Unbroken s.unwrapFunction) {segments : List Segment}
    (readable : Readable segments) : Unbroken (attributeValue s segments) := by
  have empty : Unbroken [] := sealed_nil.unbroken
  unfold attributeValue
  split
  · exact empty
  · exact empty
  · exact readable.expression _ (List.mem_singleton_self _)
  · have opening : Unbroken (lit "\"\"+") := ⟨by decide, by decide⟩
    refine opening.append (unbroken_join fun x inside => ?_)
    obtain ⟨segment, stands, rfl⟩ := List.mem_map.mp inside
    exact unbroken_term unwraps readable segment stands

theorem unbroken_valueOf? (unwraps : Unbroken s.unwrapFunction) {value : AttributeValue} {v : Text}
    (readable : ∀ segments, Segment.scan s.openToken s.closeToken value.joined = some segments → Readable segments)
    (interpolated : valueOf? s value = some v) : Unbroken v := by
  obtain ⟨segments, scanned, rfl, -⟩ := valueOf?_eq_some_iff.mp interpolated
  exact unbroken_attributeValue unwraps (readable segments scanned)

/-! ## Reading the directives again -/

/-- Closed directives are read one after the other. -/
theorem split_foldl_addDirective : ∀ {ds : List Text}, (∀ d ∈ ds, Closed d) → ∀ {t : Text}, Closed t →
    Pair.split (ds.foldl addDirective t) = Pair.split t ++ ds.flatMap Pair.split
  | [], _, t, _ => by simp
  | d :: ds, closed, t, old => by
    have here := closed d (List.mem_cons_self ..)
    have added : Pair.split (addDirective t d) = Pair.split t ++ Pair.split d := by
      unfold addDirective
      split
      · rename_i empty
        rw [List.isEmpty_iff.mp empty]
        rfl
      · exact Pair.split_append old d
    rw [List.foldl_cons, split_foldl_addDirective (fun e inside => closed e (List.mem_cons_of_mem _ inside))
      (closed_addDirective old here), added, List.flatMap_cons, List.append_assoc]

theorem directivesOf_foldl_move {moves : List (Text × Text × Text)}
    (others : ∀ m ∈ moves, m.2.1 ≠ s.directiveAttribute) (attributes : Table AttributeValue) :
    directivesOf ((moves.foldl (move s) attributes).get? s.directiveAttribute) =
      (moves.map movedDirective).foldl addDirective (directivesOf (attributes.get? s.directiveAttribute)) := by
  rw [get?_foldl_move others]
  split
  · rename_i none
    rw [none]
    rfl
  · rfl

theorem split_movedDirective {key name value : Text} (ordinary : Ordinary key) (unbroken : Unbroken value) :
    Pair.split (movedDirective (key, name, value)) = [⟨key, some value.strip⟩] := by
  rw [movedDirective, Pair.split_keyed ordinary.sealed unbroken.comma, ordinary.strip, ordinary.unquote]

theorem flatMap_split_movedDirectives {keyed : List (Text × Text × Text)}
    (ordinary : ∀ m ∈ keyed, Ordinary m.1) (unbroken : ∀ m ∈ keyed, Unbroken m.2.2) :
    (keyed.map movedDirective).flatMap Pair.split = keyed.map fun m => ⟨m.1, some m.2.2.strip⟩ := by
  rw [List.flatMap_map, ← List.flatMap_pure_eq_map]
  exact List.flatMap_congr fun m inside => split_movedDirective (ordinary m inside) (unbroken m inside)

/-- Attributes are moved when their keys are chosen, one after the other, and are
    given up with that. Then the directive string of the element is read as the
    pairs that it had before and one pair for each moved attribute behind them,
    in their order: its key, and its value without blanks around it. The old
    directive string may be missing, and else it is closed. -/
theorem moved_attributes_read_back (unwraps : s.unwrapFunction = lit "unwrap")
    (ns : Ordinary s.attributeNamespace) (divider : Ordinary s.namespaceDivider)
    (tag : Text) (attributes : Table AttributeValue) (children : List Node)
    (old : Closed (directivesOf (attributes.get? s.directiveAttribute)))
    (names : ∀ entry ∈ attributes.entries, Ordinary entry.1)
    (values : ∀ entry ∈ attributes.entries, entry.1 ≠ s.directiveAttribute → ∀ segments,
      Segment.scan s.openToken s.closeToken entry.2.joined = some segments → Readable segments)
    (st : State) :
    (∀ keys st', chooseKeys s tag (movedValues s attributes.entries) st = .ok keys st' →
      ∃ attributes', interpolateAttributes s (.element tag attributes children) st =
          .ok (.element tag attributes' children) st' ∧
        keys.length = (movedValues s attributes.entries).length ∧
        Pair.split (directivesOf (attributes'.get? s.directiveAttribute)) =
          Pair.split (directivesOf (attributes.get? s.directiveAttribute)) ++
            (keys.zip (movedValues s attributes.entries)).map fun m => ⟨m.1, some m.2.2.strip⟩) ∧
      ∀ e st', chooseKeys s tag (movedValues s attributes.entries) st = .error e st' →
        interpolateAttributes s (.element tag attributes children) st = .error e st' := by
  rw [interpolateAttributes_element]
  refine ⟨fun keys st' chosen => ?_, fun e st' failed => bind_error failed⟩
  obtain ⟨count, keyed⟩ := List.forall₂_iff_zip.mp (chooseKeys_eq chosen)
  have wraps : Unbroken s.unwrapFunction := unwraps ▸ ⟨by decide, by decide⟩
  have moved : ∀ m ∈ keys.zip (movedValues s attributes.entries),
      Ordinary m.1 ∧ m.2.1 ≠ s.directiveAttribute ∧ Unbroken m.2.2 := by
    rintro ⟨key, name, v⟩ inside
    obtain ⟨value, entry, other, isValue⟩ := mem_movedValues (List.of_mem_zip inside).2
    have lowered : Ordinary name.lower := (names _ entry).lower
    refine ⟨?_, other, unbroken_valueOf? wraps (values _ entry other) isValue⟩
    rcases keyed inside with rfl | rfl
    · exact lowered
    · exact (ns.append divider).append lowered
  refine ⟨_, bind_ok chosen, count, ?_⟩
  rw [directivesOf_foldl_move fun m inside => (moved m inside).2.1, split_foldl_addDirective ?_ old,
    flatMap_split_movedDirectives (fun m inside => (moved m inside).1) fun m inside => (moved m inside).2.2]
  exact List.forall_mem_map.mpr fun m inside =>
    Pair.closed_keyed (moved m inside).1.sealed.closed (moved m inside).2.2.closed

/-- The attributes of an element with a directive, a mixed value with quotes in
    its literal and a comma in its call, and a two-way attribute. -/
def bound : Table AttributeValue := Table.ofList
  [(lit "data-bind", .text (lit "visible: a")), (lit "Title", .text (lit "say \"hi\", \x7b\x7b f(x, y) \x7d\x7d")),
    (lit "value", .text (lit "\x7b\x7b v \x7d\x7d"))]

/-- A state without handlers. -/
def bareRegistryState : State := { registry := { divider := lit "." } }

theorem moved_attributes_read_back_bound :
    ∃ attributes' st', interpolateAttributes {} (.element (lit "p") bound []) bareRegistryState =
        .ok (.element (lit "p") attributes' []) st' ∧
      Pair.split (directivesOf (attributes'.get? (lit "data-bind"))) =
        [⟨lit "visible", some (lit "a")⟩,
          ⟨lit "attr.title", some (lit "\"\"+\"say \\\"hi\\\", \"+unwrap( f(x, y) )")⟩,
          ⟨lit "value", some (lit "v")⟩] := by
  have moved : movedValues {} bound.entries =
      [(lit "Title", lit "\"\"+\"say \\\"hi\\\", \"+unwrap( f(x, y) )"), (lit "value", lit " v ")] := by
    decide +kernel
  have scanned : ∀ entry ∈ bound.entries, entry.1 ≠ lit "data-bind" →
      Segment.scan (lit "\x7b\x7b") (lit "\x7d\x7d") entry.2.joined = some
        [.literal (lit "say \"hi\", "), .expression (lit " f(x, y) ")] ∨
      Segment.scan (lit "\x7b\x7b") (lit "\x7d\x7d") entry.2.joined = some [.expression (lit " v ")] := by
    decide +kernel
  have readable : ∀ entry ∈ bound.entries, entry.1 ≠ lit "data-bind" → ∀ segments,
      Segment.scan (lit "\x7b\x7b") (lit "\x7d\x7d") entry.2.joined = some segments → Readable segments := by
    intro entry inside other segments found
    rcases scanned entry inside other with same | same <;> rw [found] at same <;> cases same
    · refine ⟨fun t inside => ?_, fun e inside => ?_⟩
      · obtain rfl : t = lit "say \"hi\", " := by simpa using inside
        decide
      · obtain rfl : e = lit " f(x, y) " := by simpa using inside
        exact ⟨by decide, by decide⟩
    · refine ⟨fun t inside => by simp at inside, fun e inside => ?_⟩
      obtain rfl : e = lit " v " := by simpa using inside
      exact ⟨by decide, by decide⟩
  have chosen : ∃ st', chooseKeys {} (lit "p") (movedValues {} bound.entries) bareRegistryState =
      .ok [lit "attr.title", lit "value"] st' := by
    rw [moved]
    exact ⟨_, rfl⟩
  obtain ⟨st', chosen⟩ := chosen
  obtain ⟨attributes', ran, -, read⟩ := (moved_attributes_read_back (s := {}) rfl (by decide) (by decide) (lit "p")
    bound [] (by decide) (by decide) readable bareRegistryState).1 _ _ chosen
  refine ⟨attributes', st', ran, ?_⟩
  rw [moved] at read
  exact read.trans (by decide +kernel)

end Bindmark.Interpolation
