import Bindmark.Directive.Preprocess
import Bindmark.Proofs.Properties
import Bindmark.Proofs.Splitting

/-!
# Values that begin with a brace

Which values are taken for objects. Only the first character that is no blank
counts: any value that begins with a brace is taken apart, also a larger
expression in which the brace is closed before the end. Such a value never
outlasts the preprocessing of its properties or its split into members, and
nothing is left of it at all when no separator counts in it.
-/

namespace Bindmark

open Reading Work

/-! ## Objects and larger values -/

namespace Pair

/-- Blanks aside, a value begins with a brace. -/
def BeginsWithBrace (t : Text) : Prop := ∃ blanks rest : Text, t = blanks ++ '\x7b' :: rest ∧ blanks.allBlank

/-- Blanks aside, a value is one object literal: it begins with a brace, and only
    the brace at its end closes that one. -/
def IsLiteral (t : Text) : Prop :=
  ∃ body, t.strip = '\x7b' :: (body ++ ['\x7d']) ∧ Closed t.strip ∧ ∀ p, p <+: body → ¬ Closed ('\x7b' :: p)

/-- A value begins with a brace, but is more than an object literal. -/
structure Larger (t : Text) : Prop where
  begins : BeginsWithBrace t
  notLiteral : ¬ IsLiteral t

theorem isObject_iff {t : Text} : isObject t = true ↔ BeginsWithBrace t := by
  rw [isObject, beq_iff_eq, Text.stripStart]
  constructor
  · intro first
    obtain ⟨rest, brace⟩ : ∃ rest, t.dropWhile Text.isBlank = '\x7b' :: rest := List.head?_eq_some_iff.mp first
    refine ⟨t.takeWhile Text.isBlank, rest, ?_, List.all_takeWhile⟩
    rw [← brace, List.takeWhile_append_dropWhile]
  · rintro ⟨blanks, rest, rfl, blank⟩
    rw [List.dropWhile_append_of_pos (List.all_eq_true.mp blank)]
    rfl

theorem isLiteral_empty : IsLiteral (lit "\x7b\x7d") := by
  refine ⟨[], by decide, by decide, fun p start => ?_⟩
  rw [List.prefix_nil.mp start]
  decide

theorem Larger.ne_empty {t : Text} (larger : Larger t) : t ≠ lit "\x7b\x7d" := by
  rintro rfl
  exact larger.notLiteral isLiteral_empty

/-- A value that begins with a brace, without the blanks around it. -/
theorem BeginsWithBrace.strip {t : Text} (begins : BeginsWithBrace t) : ∃ rest, t.strip = '\x7b' :: rest := by
  obtain ⟨blanks, rest, rfl, blank⟩ := begins
  have start : Text.stripStart (blanks ++ '\x7b' :: rest) = '\x7b' :: rest := by
    rw [Text.stripStart, List.dropWhile_append_of_pos (List.all_eq_true.mp blank)]
    rfl
  rw [Text.strip, start, Text.stripEnd, List.reverse_cons, List.dropWhile_append]
  split
  · exact ⟨[], rfl⟩
  · exact ⟨(rest.reverse.dropWhile Text.isBlank).reverse, by simp⟩

/-- A larger value that does not end with a brace is a bare key, if no separator
    counts in it. -/
theorem ofObject_bare {t : Text} (begins : BeginsWithBrace t) (open_ : t.strip.getLast? ≠ some '\x7d')
    (comma : ¬ TopLevel ',' t.strip) (colon : ¬ TopLevel ':' t.strip) : ofObject t = [⟨t.strip, none⟩] := by
  obtain ⟨rest, braced⟩ := begins.strip
  have solid : ¬ t.strip.allBlank := by
    rw [← Text.strip_eq_nil_iff, Text.strip_strip, braced]
    exact List.cons_ne_nil _ _
  have unquoted : unquote t.strip = t.strip := by
    rw [braced, unquote, if_neg fun quoted => absurd quoted.1 (by decide)]
  have read := (split_unit comma).2.1 solid colon
  rw [Text.strip_strip, unquoted] at read
  rw [ofObject, if_neg fun ends => open_ ends.2, read]

/-! ## Written objects -/

theorem length_le_join {separator x : Text} : ∀ {ts : List Text}, x ∈ ts → x.length ≤ (Text.join separator ts).length
  | [t], inside => by
    rw [List.mem_singleton.mp inside]
    exact Nat.le_refl _
  | t :: u :: rest, inside => by
    have joined : Text.join separator (t :: u :: rest) = t ++ separator ++ Text.join separator (u :: rest) := rfl
    rw [joined, List.length_append, List.length_append]
    rcases List.mem_cons.mp inside with rfl | later
    · omega
    · have shorter : x.length ≤ (Text.join separator (u :: rest)).length := length_le_join later
      omega

/-- A written object is longer than its values. -/
theorem length_lt_writeObject {members : List (Text × Text)} {k v : Text} (inside : (k, v) ∈ members) :
    v.length < (writeObject members).length := by
  have written : writeMember k v ∈ members.map fun m => writeMember m.1 m.2 := List.mem_map.mpr ⟨(k, v), inside, rfl⟩
  have shorter : (writeMember k v).length ≤ (Text.join (lit ",") (members.map fun m => writeMember m.1 m.2)).length :=
    length_le_join written
  rw [writeMember, List.length_append] at shorter
  change v.length < (lit "\x7b" ++ Text.join (lit ",") (members.map fun m => writeMember m.1 m.2) ++ lit "\x7d").length
  rw [List.length_append, List.length_append]
  have brace : (lit "\x7b").length = 1 := rfl
  omega

end Pair

namespace Directive

variable {add : Adder}

/-! ## Values that are kept -/

/-- A value that does not begin with a brace is left alone. -/
theorem preprocessProperties_other {t : Text} (other : ¬ Pair.BeginsWithBrace t) (h : Handler) :
    preprocessProperties add h t = pure t := by
  rw [preprocessProperties, if_neg fun isObject => other (Pair.isObject_iff.mp isObject)]

theorem splitMembers_other {t : Text} (other : ¬ Pair.BeginsWithBrace t) (key : Text) :
    splitMembers add key t = pure (.text t) := by
  rw [splitMembers, if_neg fun isObject => other (Pair.isObject_iff.mp isObject)]

/-! ## Values that are taken apart -/

/-- A bare value has no properties for any handler. -/
theorem preprocessProperties_bare {t k : Text} (isObject : Pair.isObject t = true)
    (bare : Pair.ofObject t = [⟨k, none⟩]) (h : Handler) :
    preprocessProperties add h t = pure (lit "\x7b\x7d") := by
  rw [preprocessProperties, if_pos isObject, bare]
  have missing (table : Table (Pipeline Preprocessor)) : propertyValue add table ⟨k, none⟩ = pure .null := by
    rw [propertyValue]
    cases table.get? k <;> rfl
  simp only [propertyValues, missing, pure_bind]
  rfl

/-- Some handler changes a value that begins with a brace: where it has a
    property with a value, that can be replaced by a longer one, and else nothing
    is left but the braces. -/
theorem exists_preprocessProperties_ne {t : Text} (begins : Pair.BeginsWithBrace t) (some_ : t ≠ lit "\x7b\x7d") :
    ∃ h, ∀ (add : Adder) (carried : List Pair) (st : State), ∃ result st',
      (preprocessProperties add h t).run carried st = .ok result st' ∧ result.1 ≠ t := by
  have isObject := Pair.isObject_iff.mpr begins
  by_cases valued : ∃ p ∈ Pair.ofObject t, ∃ v, p.value = some v
  · obtain ⟨p, inside, v, value⟩ := valued
    refine ⟨replacing p.key ('-' :: t), fun add carried st => ?_⟩
    obtain ⟨result, st', ran, -, written⟩ := preprocessProperties_gives_kept isObject
      (replacing_answers p.key ('-' :: t) (Pair.ofObject t)) carried st trivial
    refine ⟨result, st', ran, fun same => ?_⟩
    have longer : (p.key, '-' :: t) ∈ keptOf (replacing p.key ('-' :: t)) (fun _ _ => .text ('-' :: t)) t := by
      refine mem_keptOf.mpr ⟨p, inside, rfl, ?_⟩
      simp [answered, get?_replacing, value, Datum.truthy, Datum.display]
    have grown := Pair.length_lt_writeObject longer
    rw [← written, same, List.length_cons] at grown
    omega
  · refine ⟨{}, fun add carried st => ?_⟩
    have answers : Answers (fun _ => True) add (({} : Handler).properties.getD .empty) (fun _ _ => .null)
        (Pair.ofObject t) :=
      fun p inside _ v _ value => absurd ⟨p, inside, v, value⟩ valued
    obtain ⟨result, st', ran, -, written⟩ := preprocessProperties_gives_kept isObject answers carried st trivial
    have nothing : keptOf {} (fun _ _ => .null) t = [] := by
      rw [List.eq_nil_iff_forall_not_mem]
      rintro ⟨k, v⟩ inside
      obtain ⟨p, listed, -, truthy, -⟩ := mem_keptOf.mp inside
      cases value : p.value with
      | none =>
        rw [answered, value] at truthy
        cases truthy
      | some v => exact valued ⟨p, listed, v, value⟩
    rw [nothing] at written
    refine ⟨result, st', ran, ?_⟩
    rw [written]
    exact some_.symm

/-! ## Directives that are split into members -/

/-- The directives that a directive is split into, one for each member of its
    value. -/
def memberPairs (divider key t : Text) : List Pair :=
  (Pair.ofObject t).map fun p => ⟨key ++ divider ++ p.key, p.value⟩

/-- Directives that are added one after the other are expanded so. -/
theorem forM_give_expand (depth : Nat) (f : Pair → Pair) : ∀ (ps : List Pair) (carried : List Pair),
    (ps.forM fun p => give (expand depth) (f p)).run carried =
      expandAll depth (ps.map f) >>= fun pairs => pure (PUnit.unit, carried ++ pairs)
  | [], carried => by
    rw [List.map_nil, expandAll, pure_bind, List.append_nil]
    rfl
  | p :: rest, carried => by
    have split : ((p :: rest).forM fun p => give (expand depth) (f p)).run carried =
        expand depth (f p) >>= fun pairs => (rest.forM fun p => give (expand depth) (f p)).run (carried ++ pairs) := by
      simp [give, List.forM_cons, StateT.run_bind]
    rw [split, List.map_cons, expandAll]
    simp only [forM_give_expand depth f rest, bind_assoc, pure_bind, List.append_assoc]

section
variable {key t : Text} {st : State} {e : Entry} (stands : st.registry.entries.get? key = some e)
  (members : e.handler.preprocess = some (.stage .members)) (depth : Nat)
include stands members

theorem expand_members :
    expand (depth + 1) ⟨key, some t⟩ st = (do
      let (result, added) ← (splitMembers (expand depth) key t).run []
      if result.truthy then return added ++ [⟨key, some result.display⟩]
      else
        Work.log (.removed key)
        return added : Work (List Pair)) st := by
  have found : Registry.lookup key st = .ok (some e) st := by
    rw [Registry.lookup, bind_ok (registry_apply st)]
    simp only [stands]
    rfl
  have staged : preprocess (expand depth) e.handler key (.stage .members) (.text t) =
      (splitMembers (expand depth) key t).run [] := by
    simp [preprocess, Pipeline.through, runStage, textOf]
  rw [expand, bind_ok found]
  simp only [Option.bind_some, members, Option.map_some, staged]

/-- A directive whose value does not begin with a brace is not split. -/
theorem expand_members_other (other : ¬ Pair.BeginsWithBrace t) (some_ : t ≠ []) :
    expand (depth + 1) ⟨key, some t⟩ st = .ok [⟨key, some t⟩] st := by
  have truthy : (Datum.text t).truthy = true := by simpa [Datum.truthy] using some_
  rw [expand_members stands members, splitMembers_other other, StateT.run_pure, pure_bind]
  simp only [truthy, if_true]
  rfl

/-- A directive whose value begins with a brace goes, and its members come. -/
theorem expand_members_braced (begins : Pair.BeginsWithBrace t) :
    expand (depth + 1) ⟨key, some t⟩ st = (do
      let pairs ← expandAll depth (memberPairs st.registry.divider key t)
      Work.log (.removed key)
      return pairs : Work (List Pair)) st := by
  have split : (splitMembers (expand depth) key t).run [] st =
      (expandAll depth (memberPairs st.registry.divider key t) >>= fun pairs => pure (Datum.null, pairs)) st := by
    have given := forM_give_expand depth (fun p => ⟨key ++ st.registry.divider ++ p.key, p.value⟩) (Pair.ofObject t) []
    rw [splitMembers, if_pos (Pair.isObject_iff.mpr begins)]
    calc _ = (((Pair.ofObject t).forM fun p =>
            give (expand depth) ⟨key ++ st.registry.divider ++ p.key, p.value⟩).run [] >>=
          fun result => pure (Datum.null, result.2)) st := rfl
      _ = _ := by
        rw [given]
        simp [memberPairs]
  rw [expand_members stands members, bind_congr_at split fun _ _ _ => rfl]
  simp [Datum.truthy]
end

/-- Only the first character that is no blank makes a value an object. A value
    that begins with anything else is left alone by the preprocessing of its
    properties and by its split into members. One that begins with a brace is
    changed by some handler with properties, unless it is a pair of braces, and a
    directive that splits objects never keeps it. So it goes with every value that
    is larger than an object literal. When no separator counts in such a value,
    and it does not end with a brace, nothing is left of it. -/
theorem values_by_first_brace (t : Text) :
    (¬ Pair.BeginsWithBrace t →
      (∀ add h, preprocessProperties add h t = pure t) ∧ ∀ add key, splitMembers add key t = pure (.text t)) ∧
    (Pair.Larger t → Pair.BeginsWithBrace t ∧ t ≠ lit "\x7b\x7d") ∧
    (Pair.BeginsWithBrace t → t ≠ lit "\x7b\x7d" → ∃ h, ∀ (add : Adder) (carried : List Pair) (st : State),
      ∃ result st', (preprocessProperties add h t).run carried st = .ok result st' ∧ result.1 ≠ t) ∧
    (Pair.BeginsWithBrace t → t.strip.getLast? ≠ some '\x7d' → ¬ TopLevel ',' t.strip → ¬ TopLevel ':' t.strip →
      (∀ add h, preprocessProperties add h t = pure (lit "\x7b\x7d")) ∧
        ∀ divider key, memberPairs divider key t = [⟨key ++ divider ++ t.strip, none⟩]) ∧
    ∀ (depth : Nat) (key : Text) (st : State) (e : Entry), st.registry.entries.get? key = some e →
      e.handler.preprocess = some (.stage .members) →
        (¬ Pair.BeginsWithBrace t → t ≠ [] → expand (depth + 1) ⟨key, some t⟩ st = .ok [⟨key, some t⟩] st) ∧
        (Pair.BeginsWithBrace t → expand (depth + 1) ⟨key, some t⟩ st = (do
          let pairs ← expandAll depth (memberPairs st.registry.divider key t)
          Work.log (.removed key)
          return pairs : Work (List Pair)) st) := by
  refine ⟨fun other => ⟨fun add h => preprocessProperties_other other h, fun add key => splitMembers_other other key⟩,
    fun larger => ⟨larger.begins, larger.ne_empty⟩, exists_preprocessProperties_ne, ?_, ?_⟩
  · intro begins open_ comma colon
    have bare := Pair.ofObject_bare begins open_ comma colon
    refine ⟨fun add h => preprocessProperties_bare (Pair.isObject_iff.mpr begins) bare h, fun divider key => ?_⟩
    rw [memberPairs, bare]
    rfl
  · intro depth key st e stands members
    exact ⟨expand_members_other stands members depth, expand_members_braced stands members depth⟩

/-- A choice from an object literal. -/
def chosenClass : Text := lit "\x7ba: x, b: y\x7d[k]"

theorem larger_chosenClass : Pair.Larger chosenClass where
  begins := ⟨[], lit "a: x, b: y\x7d[k]", rfl, rfl⟩
  notLiteral := by
    rintro ⟨body, braces, -, -⟩
    have last : (Text.strip chosenClass).getLast? = some ']' := by decide
    rw [braces, ← List.cons_append, List.getLast?_concat] at last
    cases last

/-- A registry with one directive, which splits objects. -/
def classes : State :=
  { registry := Registry.store { divider := lit "." } (lit "css") { preprocess := some (.stage .members) } }

theorem values_by_first_brace_choice :
    Pair.Larger chosenClass ∧
      (∀ add h, preprocessProperties add h chosenClass = pure (lit "\x7b\x7d")) ∧
      ∃ st', expand 2 ⟨lit "css", some chosenClass⟩ classes =
        .ok [⟨lit "css.\x7ba: x, b: y\x7d[k]", none⟩] st' := by
  obtain ⟨-, larger, -, bare, split⟩ := values_by_first_brace chosenClass
  obtain ⟨begins, -⟩ := larger larger_chosenClass
  have comma : ¬ TopLevel ',' (Text.strip chosenClass) := cutAt?_top_eq_none_iff.mp (by decide)
  have colon : ¬ TopLevel ':' (Text.strip chosenClass) := cutAt?_top_eq_none_iff.mp (by decide)
  obtain ⟨properties, members⟩ := bare begins (by decide) comma colon
  refine ⟨larger_chosenClass, properties, ?_⟩
  rw [(split 1 (lit "css") classes _ rfl rfl).2 begins, members]
  exact ⟨_, rfl⟩

end Directive
end Bindmark
