import Bindmark.Proofs.MovedDirectives
import Bindmark.Proofs.MovingOnce

/-!
# Attributes that stay

Moving the attributes of an element divides them. Those with expressions go, one
after the other, and each of them changes the directive attribute. The others
stay as they are, in their order, and the directive attribute keeps its place
among them; if there is none, one comes last.
-/

namespace Bindmark.Interpolation

open Work

variable {s : Settings} {entries kept : List (Text × AttributeValue)} {moved : List (Text × Text)}
  {moves : List (Text × Text × Text)} {attributes : Table AttributeValue}

/-! ## The division -/

/-- The attributes of an element divided into those that stay and those that go,
    with the values of their directives. Both are in the order of the attributes. -/
inductive Divided (s : Settings) :
    List (Text × AttributeValue) → List (Text × AttributeValue) → List (Text × Text) → Prop where
  | nil : Divided s [] [] []
  | stays {name value entries kept moved} : (name = s.directiveAttribute ∨ ∀ v, ¬ Moves s value v) →
      Divided s entries kept moved → Divided s ((name, value) :: entries) ((name, value) :: kept) moved
  | goes {name value v entries kept moved} : name ≠ s.directiveAttribute → Moves s value v →
      Divided s entries kept moved → Divided s ((name, value) :: entries) kept ((name, v) :: moved)

theorem divided_movedValues (s : Settings) : ∀ entries : List (Text × AttributeValue),
    ∃ kept, Divided s entries kept (movedValues s entries)
  | [] => ⟨[], .nil⟩
  | (name, value) :: entries => by
    obtain ⟨kept, divided⟩ := divided_movedValues s entries
    by_cases own : name = s.directiveAttribute
    · rw [movedValues_cons_kept (.inl own)]
      exact ⟨_, .stays (.inl own) divided⟩
    · cases interpolated : valueOf? s value with
      | none =>
        rw [movedValues_cons_kept (.inr interpolated)]
        refine ⟨_, .stays (.inr fun v moves => ?_) divided⟩
        cases interpolated.symm.trans (valueOf?_eq_some_iff.mpr moves)
      | some v =>
        rw [movedValues_cons_moved own interpolated]
        exact ⟨kept, .goes own (valueOf?_eq_some_iff.mp interpolated) divided⟩

namespace Divided

/-- Attributes are divided in one way only. -/
theorem moved_eq (divided : Divided s entries kept moved) : movedValues s entries = moved := by
  induction divided with
  | nil => rfl
  | @stays name value entries kept moved stays _ ih =>
    rw [movedValues_cons_kept (stays.imp id fun still => ?_), ih]
    exact Option.eq_none_iff_forall_ne_some.mpr fun v interpolated => still v (valueOf?_eq_some_iff.mp interpolated)
  | goes other moves _ ih => rw [movedValues_cons_moved other (valueOf?_eq_some_iff.mpr moves), ih]

theorem moved_sublist (divided : Divided s entries kept moved) :
    (moved.map Prod.fst).Sublist (entries.map Prod.fst) := by
  induction divided with
  | nil => exact .slnil
  | stays _ _ ih => exact ih.cons _
  | goes _ _ _ ih => exact ih.cons_cons _

theorem kept_sublist (divided : Divided s entries kept moved) : kept.Sublist entries := by
  induction divided with
  | nil => exact .slnil
  | stays _ _ ih => exact ih.cons_cons _
  | goes _ _ _ ih => exact ih.cons _

theorem moved_other (divided : Divided s entries kept moved) : ∀ m ∈ moved, m.1 ≠ s.directiveAttribute := by
  induction divided with
  | nil => exact List.forall_mem_nil _
  | stays _ _ ih => exact ih
  | goes other _ _ ih => exact List.forall_mem_cons.mpr ⟨other, ih⟩

end Divided

/-! ## Entries that are left -/

/-- Entries without those of some names. -/
def without : List Text → List (Text × AttributeValue) → List (Text × AttributeValue)
  | [], entries => entries
  | name :: names, entries => without names (Table.eraseEntry name entries)

theorem without_nil : ∀ names : List Text, without names [] = []
  | [] => rfl
  | _ :: names => without_nil names

theorem without_cons_entry {name : Text} (value : AttributeValue) : ∀ {names : List Text}, name ∉ names →
    ∀ entries, without names ((name, value) :: entries) = (name, value) :: without names entries
  | [], _, entries => rfl
  | name' :: names, others, entries => by
    obtain ⟨other, others⟩ := not_or.mp (List.mem_cons.not.mp others)
    rw [without, Table.eraseEntry_cons_of_ne other, without_cons_entry value others, without]

/-- What stays are the attributes with other names than those that go. -/
theorem Divided.kept_eq (divided : Divided s entries kept moved) (distinct : (entries.map Prod.fst).Nodup) :
    without (moved.map Prod.fst) entries = kept := by
  induction divided with
  | nil => exact without_nil _
  | @stays name value entries kept moved _ divided ih =>
    obtain ⟨new, distinct⟩ := List.nodup_cons.mp distinct
    have stands : name ∉ moved.map Prod.fst := fun inside => new (divided.moved_sublist.subset inside)
    rw [without_cons_entry value stands, ih distinct]
  | @goes name value v entries kept moved _ _ divided ih =>
    obtain ⟨new, distinct⟩ := List.nodup_cons.mp distinct
    rw [List.map_cons, without, Table.eraseEntry_cons_self, Table.eraseEntry_missing new, ih distinct]

/-! ## One move after the other -/

/-- A move sets the directive attribute among the attributes without the moved one. -/
theorem entries_move {m : Text × Text × Text} (other : m.2.1 ≠ s.directiveAttribute)
    (attributes : Table AttributeValue) :
    (move s attributes m).entries = Table.insertEntry s.directiveAttribute
      (.text (addDirective (directivesOf (attributes.get? s.directiveAttribute)) (movedDirective m)))
      (Table.eraseEntry m.2.1 attributes.entries) :=
  Table.eraseEntry_insertEntry (Ne.symm other) _ _

/-- Further moves set the directive attribute again, in the same place. -/
theorem entries_foldl_move {a : AttributeValue} :
    ∀ {moves : List (Text × Text × Text)} {attributes : Table AttributeValue}
      {entries : List (Text × AttributeValue)}, (∀ m ∈ moves, m.2.1 ≠ s.directiveAttribute) →
      attributes.entries = Table.insertEntry s.directiveAttribute a entries →
      ∃ b, (moves.foldl (move s) attributes).entries =
        Table.insertEntry s.directiveAttribute b (without (moves.map fun m => m.2.1) entries)
  | [], attributes, entries, _, same => ⟨a, same⟩
  | m :: moves, attributes, entries, others, same => by
    obtain ⟨other, others⟩ := List.forall_mem_cons.mp others
    -- The attribute is taken out from under the directive attribute, whose value is replaced.
    have step : (move s attributes m).entries = Table.insertEntry s.directiveAttribute
        (.text (addDirective (directivesOf (attributes.get? s.directiveAttribute)) (movedDirective m)))
        (Table.eraseEntry m.2.1 entries) := by
      rw [entries_move other, same, Table.eraseEntry_insertEntry (Ne.symm other), Table.insertEntry_insertEntry]
    rw [List.foldl_cons, List.map_cons, without]
    exact entries_foldl_move others step

/-- The attributes of an element after some have been moved. -/
theorem entries_foldl_move_eq (some_ : moves ≠ []) (others : ∀ m ∈ moves, m.2.1 ≠ s.directiveAttribute)
    (attributes : Table AttributeValue) :
    (moves.foldl (move s) attributes).entries = Table.insertEntry s.directiveAttribute
      (.text ((moves.map movedDirective).foldl addDirective (directivesOf (attributes.get? s.directiveAttribute))))
      (without (moves.map fun m => m.2.1) attributes.entries) := by
  -- The place comes from the run, the value from what is looked up after it.
  have value := get?_foldl_move others attributes
  rw [if_neg some_] at value
  obtain ⟨m, moves, rfl⟩ := List.exists_cons_of_ne_nil some_
  obtain ⟨other, later⟩ := List.forall_mem_cons.mp others
  obtain ⟨b, entries⟩ := entries_foldl_move later (entries_move other attributes)
  rw [← List.foldl_cons] at entries
  rw [Table.get?, entries, Table.lookup_insertEntry, if_pos rfl] at value
  rw [entries, Option.some.inj value, List.map_cons, List.map_cons, without]

/-! ## Directive strings -/

/-- An old directive string, if it is not empty, and directives behind it, with
    commas between them. -/
def withDirectives (old : Text) (ds : List Text) : Text :=
  Text.join (lit ",") ((if old.isEmpty then [] else [old]) ++ ds)

theorem join_append_first (separator first second : Text) (rest : List Text) :
    Text.join separator ((first ++ separator ++ second) :: rest) = Text.join separator (first :: second :: rest) := by
  cases rest with
  | nil => rfl
  | cons third rest => simp [Text.join]

theorem foldl_addDirective_eq : ∀ {ds : List Text}, (∀ d ∈ ds, d ≠ []) → ∀ old : Text,
    ds.foldl addDirective old = withDirectives old ds
  | [], _, old => by cases old <;> rfl
  | d :: ds, some_, old => by
    obtain ⟨someD, some_⟩ := List.forall_mem_cons.mp some_
    rw [List.foldl_cons, foldl_addDirective_eq some_]
    cases old with
    | nil => simp [addDirective, withDirectives, someD]
    | cons c old =>
      have first : addDirective (c :: old) d = (c :: old) ++ lit "," ++ d := rfl
      have more : ((c :: old) ++ lit "," ++ d).isEmpty = false := rfl
      simp only [first, withDirectives, more, List.isEmpty_cons, Bool.false_eq_true, if_false, List.singleton_append,
        join_append_first]

theorem movedDirective_ne_nil (m : Text × Text × Text) : movedDirective m ≠ [] := by
  obtain ⟨key, name, value⟩ := m
  simp [movedDirective, lit]

/-! ## What becomes of the attributes -/

/-- The attributes of an element of which some have been moved, under their keys.
    The others are `kept`. -/
structure Remaining (s : Settings) (kept : List (Text × AttributeValue)) (moves : List (Text × Text × Text))
    (attributes attributes' : Table AttributeValue) : Prop where
  untouched : moves = [] → attributes' = attributes
  inPlace : moves ≠ [] → ∀ before old after, kept = before ++ (s.directiveAttribute, old) :: after →
    attributes'.entries = before ++
      (s.directiveAttribute, .text (withDirectives (directivesOf (some old)) (moves.map movedDirective))) :: after
  last : moves ≠ [] → s.directiveAttribute ∉ attributes.keys →
    attributes'.entries = kept ++ [(s.directiveAttribute, .text (Text.join (lit ",") (moves.map movedDirective)))]

theorem remaining_foldl_move (divided : Divided s attributes.entries kept moved) (all : moves.map Prod.snd = moved) :
    Remaining s kept moves attributes (moves.foldl (move s) attributes) := by
  have names : moves.map (fun m => m.2.1) = moved.map Prod.fst := by rw [← all, List.map_map]; rfl
  have others : ∀ m ∈ moves, m.2.1 ≠ s.directiveAttribute := fun m inside =>
    divided.moved_other m.2 (all ▸ List.mem_map_of_mem inside)
  have directives : ∀ d ∈ moves.map movedDirective, d ≠ [] :=
    List.forall_mem_map.mpr fun m _ => movedDirective_ne_nil m
  have set (some_ : moves ≠ []) : (moves.foldl (move s) attributes).entries = Table.insertEntry s.directiveAttribute
      (.text (withDirectives (directivesOf (attributes.get? s.directiveAttribute)) (moves.map movedDirective)))
      kept := by
    rw [entries_foldl_move_eq some_ others, names, divided.kept_eq attributes.nodup_keys,
      foldl_addDirective_eq directives]
  refine ⟨fun none_ => by rw [none_, List.foldl_nil], fun some_ before old after split => ?_, fun some_ missing => ?_⟩
  · have stood : (s.directiveAttribute, old) ∈ attributes.entries := divided.kept_sublist.subset (by simp [split])
    have distinct := attributes.nodup_keys.sublist (divided.kept_sublist.map Prod.fst)
    rw [split] at distinct
    rw [set some_, split, Table.get?_of_mem stood, Table.insertEntry_between (Table.notMem_keys_before distinct)]
  · have new : s.directiveAttribute ∉ kept.map Prod.fst := fun inside =>
      missing ((divided.kept_sublist.map Prod.fst).subset inside)
    rw [set some_, Table.get?_eq_none_iff.mpr missing, Table.insertEntry_missing new]
    rfl

/-- The attributes of an element are divided. Those that go are moved under the
    keys that are chosen for them, those that stay remain as they are, and so do
    the tag and the children of the element. After that there is nothing left to
    move. Moving fails only where choosing the keys does, which it does not if
    looking them up always gives an answer. -/
theorem attributes_moved_exactly (s : Settings) (tag : Text) (attributes : Table AttributeValue)
    (children : List Node) :
    ∃ kept moved, Divided s attributes.entries kept moved ∧
      (∀ st keys st', chooseKeys s tag moved st = .ok keys st' →
        ∃ attributes', interpolateAttributes s (.element tag attributes children) st =
            .ok (.element tag attributes' children) st' ∧
          keys.length = moved.length ∧ Remaining s kept (keys.zip moved) attributes attributes' ∧
          ∀ st₂, interpolateAttributes s (.element tag attributes' children) st₂ =
            .ok (.element tag attributes' children) st₂) ∧
      (∀ st e st', chooseKeys s tag moved st = .error e st' →
        interpolateAttributes s (.element tag attributes children) st = .error e st') ∧
      ∀ Q : Registry → Prop,
        (∀ m ∈ moved, Gives (fun st => Q st.registry) (Registry.lookup m.1.lower) fun _ => True) →
        ∀ st, Q st.registry → ∃ keys st', chooseKeys s tag moved st = .ok keys st' := by
  obtain ⟨kept, divided⟩ := divided_movedValues s attributes.entries
  refine ⟨kept, _, divided, fun st keys st' chosen => ?_, fun st e st' failed => ?_, fun Q looked st holds => ?_⟩
  · have count : keys.length = (movedValues s attributes.entries).length := (chooseKeys_chooses chosen).length_eq
    have all : (keys.zip (movedValues s attributes.entries)).map Prod.snd = movedValues s attributes.entries :=
      List.map_snd_zip count.ge
    refine ⟨_, ?_, count, remaining_foldl_move divided all, fun st₂ => ?_⟩
    · rw [interpolateAttributes_element]
      exact bind_ok chosen
    · rw [interpolateAttributes_element, movedValues_foldl_move all]
      rfl
  · rw [interpolateAttributes_element]
    exact bind_error failed
  · have logs (e : Event) : Gives (fun st => Q st.registry) (Work.log e) fun _ => True :=
      fun _ holds => ⟨(), _, rfl, holds, trivial⟩
    have keyed : ∀ m ∈ movedValues s attributes.entries,
        Gives (fun st => Q st.registry) (attributeKey s m.1.lower) fun _ => True := fun m inside =>
      attributeKey_gives_of (fun _ => trivial) fun _ => (looked m inside).weaken fun _ _ => trivial
    obtain ⟨keys, st', chosen, -⟩ := chooseKeys_gives_of logs tag keyed st holds
    exact ⟨keys, st', chosen⟩

/-- The attributes of an element whose directive attribute stands between others:
    attributes that are moved, one that is a list of words among them, an
    attribute without expressions and one without a value. -/
def mixed : Table AttributeValue := Table.ofList
  [(lit "Title", .text (lit "\x7b\x7bt\x7d\x7d")), (lit "id", .text (lit "x")),
    (lit "data-bind", .text (lit "visible: on")), (lit "class", .words [lit "a", lit "\x7b\x7bc\x7d\x7d"]),
    (lit "hidden", .bare), (lit "value", .text (lit "\x7b\x7bv\x7d\x7d"))]

theorem attributes_moved_exactly_mixed :
    ∃ attributes' st', interpolateAttributes {} (.element (lit "input") mixed []) bareRegistryState =
        .ok (.element (lit "input") attributes' []) st' ∧
      attributes'.entries = [(lit "id", .text (lit "x")),
        (lit "data-bind", .text (lit "visible: on,attr.title:t,attr.class:\"\"+\"a \"+unwrap(c),value:v")),
        (lit "hidden", .bare)] ∧
      ∀ st₂, interpolateAttributes {} (.element (lit "input") attributes' []) st₂ =
        .ok (.element (lit "input") attributes' []) st₂ := by
  obtain ⟨kept, moved, divided, run, -, -⟩ := attributes_moved_exactly {} (lit "input") mixed []
  have moved_eq :
      moved = [(lit "Title", lit "t"), (lit "class", lit "\"\"+\"a \"+unwrap(c)"), (lit "value", lit "v")] :=
    divided.moved_eq.symm.trans (by decide +kernel)
  have kept_eq : kept = [(lit "id", .text (lit "x")), (lit "data-bind", .text (lit "visible: on")),
      (lit "hidden", .bare)] := by
    rw [← divided.kept_eq mixed.nodup_keys, moved_eq]
    decide
  have chosen : ∃ st', chooseKeys {} (lit "input") moved bareRegistryState =
      .ok [lit "attr.title", lit "attr.class", lit "value"] st' := by
    rw [moved_eq]
    exact ⟨_, rfl⟩
  obtain ⟨st', chosen⟩ := chosen
  obtain ⟨attributes', ran, -, remaining, again⟩ := run _ _ _ chosen
  rw [moved_eq] at remaining
  refine ⟨attributes', st', ran, ?_, again⟩
  exact remaining.inPlace (by decide) [(lit "id", .text (lit "x"))] _ [(lit "hidden", .bare)] kept_eq

end Bindmark.Interpolation
