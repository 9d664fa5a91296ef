import Bindmark.Proofs.Balance
import Bindmark.Proofs.Scanning
import Bindmark.Proofs.StandardRegistry
import Mathlib.Data.List.Forall2

/-!
# Moved attributes

Moving interpolated attributes is choosing their keys, one after the other, and
adding their directives, in the order of the attributes, to the directive string
of the element. With the handlers of the standard setup the key of every
attribute is known beforehand.
-/

namespace Bindmark.Interpolation

open Work Standard Reading

variable {s : Settings}

/-! ## Values -/

/-- The segments of an attribute value give a directive value, and it is not
    empty. -/
def Moves (s : Settings) (value : AttributeValue) (v : Text) : Prop :=
  ∃ segments, Segment.scan s.openToken s.closeToken value.joined = some segments ∧
    attributeValue s segments = v ∧ v ≠ []

theorem valueOf?_eq_some_iff {value : AttributeValue} {v : Text} : valueOf? s value = some v ↔ Moves s value v := by
  unfold valueOf?
  dsimp only
  constructor
  · intro interpolated
    split at interpolated
    · cases interpolated
    · split at interpolated
      · cases interpolated
      · rename_i segments scanned
        split at interpolated
        · cases interpolated
        · rename_i some_
          cases interpolated
          exact ⟨segments, scanned, rfl, fun empty => some_ (List.isEmpty_iff.mpr empty)⟩
  · rintro ⟨segments, scanned, rfl, some_⟩
    have whole : value.joined ≠ [] := by
      intro empty
      rw [empty] at scanned
      exact some_ (Segment.scan_nil scanned ▸ rfl)
    simp [whole, scanned, some_]

/-! ## Moving -/

/-- The attributes that are moved, with the values of their directives. -/
def movedValues (s : Settings) (entries : List (Text × AttributeValue)) : List (Text × Text) :=
  entries.filterMap fun (name, value) =>
    if name = s.directiveAttribute then none else (valueOf? s value).map (name, ·)

/-- The directive keys of attributes of an element, chosen one after the other. -/
def chooseKeys (s : Settings) (tag : Text) : List (Text × Text) → Work (List Text)
  | [] => return []
  | (name, _) :: rest => do
    let key ← attributeKey s name.lower
    Work.log (.attributeMoved name tag key)
    let keys ← chooseKeys s tag rest
    return key :: keys

/-- The directive of a moved attribute under its key. -/
def movedDirective : Text × Text × Text → Text
  | (key, _, value) => key ++ lit ":" ++ value

/-- The attributes of an element once one of them is moved. -/
def move (s : Settings) (attributes : Table AttributeValue) (m : Text × Text × Text) : Table AttributeValue :=
  (attributes.insert s.directiveAttribute
    (.text (addDirective (directivesOf (attributes.get? s.directiveAttribute)) (movedDirective m)))).erase m.2.1

theorem movedValues_cons_moved {name v : Text} {value : AttributeValue} {rest : List (Text × AttributeValue)}
    (other : name ≠ s.directiveAttribute) (interpolated : valueOf? s value = some v) :
    movedValues s ((name, value) :: rest) = (name, v) :: movedValues s rest := by
  simp [movedValues, other, interpolated]

theorem movedValues_cons_kept {name : Text} {value : AttributeValue} {rest : List (Text × AttributeValue)}
    (kept : name = s.directiveAttribute ∨ valueOf? s value = none) :
    movedValues s ((name, value) :: rest) = movedValues s rest := by
  rcases kept with own | plain
  · simp [movedValues, own]
  · simp [movedValues, plain]

theorem mem_movedValues {entries : List (Text × AttributeValue)} {m : Text × Text}
    (inside : m ∈ movedValues s entries) :
    ∃ value, (m.1, value) ∈ entries ∧ m.1 ≠ s.directiveAttribute ∧ valueOf? s value = some m.2 := by
  obtain ⟨⟨name, value⟩, stands, isMoved⟩ := List.mem_filterMap.mp inside
  dsimp only at isMoved
  split at isMoved
  · cases isMoved
  · rename_i other
    obtain ⟨v, interpolated, rfl⟩ := Option.map_eq_some_iff.mp isMoved
    exact ⟨value, stands, other, interpolated⟩

/-- Moving attributes is choosing their keys and moving them under these. -/
theorem moveAttributes_eq (s : Settings) (tag : Text) :
    ∀ (entries : List (Text × AttributeValue)) (attributes : Table AttributeValue),
      moveAttributes s tag entries attributes = (do
        let keys ← chooseKeys s tag (movedValues s entries)
        return (keys.zip (movedValues s entries)).foldl (move s) attributes)
  | [], attributes => rfl
  | (name, value) :: rest, attributes => by
    by_cases own : name = s.directiveAttribute
    · rw [movedValues_cons_kept (.inl own), moveAttributes, if_pos own]
      exact moveAttributes_eq s tag rest attributes
    · cases interpolated : valueOf? s value with
      | none =>
        rw [movedValues_cons_kept (.inr interpolated), moveAttributes, if_neg own, interpolated]
        exact moveAttributes_eq s tag rest attributes
      | some v =>
        rw [movedValues_cons_moved own interpolated, moveAttributes, if_neg own, interpolated]
        simp only [chooseKeys, bind_assoc, pure_bind, List.zip_cons_cons, List.foldl_cons, moveAttributes_eq s tag rest]
        rfl

theorem interpolateAttributes_element (s : Settings) (tag : Text) (attributes : Table AttributeValue)
    (children : List Node) :
    interpolateAttributes s (.element tag attributes children) = (do
      let keys ← chooseKeys s tag (movedValues s attributes.entries)
      return .element tag ((keys.zip (movedValues s attributes.entries)).foldl (move s) attributes) children) := by
  rw [interpolateAttributes, moveAttributes_eq, bind_assoc]
  simp only [pure_bind]

/-- The directive attribute of an element after some of its others have been
    moved: what it was before, and their directives behind it. -/
theorem get?_foldl_move {moves : List (Text × Text × Text)} (others : ∀ m ∈ moves, m.2.1 ≠ s.directiveAttribute)
    (attributes : Table AttributeValue) :
    (moves.foldl (move s) attributes).get? s.directiveAttribute =
      if moves = [] then attributes.get? s.directiveAttribute
      else some (.text ((moves.map movedDirective).foldl addDirective
        (directivesOf (attributes.get? s.directiveAttribute)))) := by
  induction moves generalizing attributes with
  | nil => rfl
  | cons m moves ih =>
    have other := others m (List.mem_cons_self ..)
    have here : (move s attributes m).get? s.directiveAttribute =
        some (.text (addDirective (directivesOf (attributes.get? s.directiveAttribute)) (movedDirective m))) := by
      rw [move, Table.get?_erase_of_ne _ (Ne.symm other), Table.get?_insert, if_pos rfl]
    rw [List.foldl_cons, ih fun m inside => others m (List.mem_cons_of_mem _ inside), here,
      if_neg (List.cons_ne_nil _ _), List.map_cons, List.foldl_cons]
    split
    · rename_i last
      rw [last]
      rfl
    · rfl

/-! ## Choosing keys -/

section
variable {P : State → Prop}

/-- What looking keys up keeps, choosing the key of an attribute keeps. -/
theorem attributeKey_gives_of {name : Text} {chosen : Text → Prop}
    (twoWay : s.twoWayAttributes.contains name = true → chosen name)
    (looked : s.twoWayAttributes.contains name = false → Gives P (Registry.lookup name) fun entry =>
      chosen (if entry.isSome then name else s.attributeNamespace ++ s.namespaceDivider ++ name)) :
    Gives P (attributeKey s name) chosen := by
  unfold attributeKey
  cases isTwoWay : s.twoWayAttributes.contains name with
  | true => exact Gives.pure (twoWay isTwoWay)
  | false =>
    refine (looked isTwoWay).bind fun entry holds => ?_
    cases entry with
    | none => exact Gives.pure holds
    | some e => exact Gives.pure holds

theorem chooseKeys_gives_of (logs : ∀ e, Gives P (Work.log e) fun _ => True) {chosen : Text × Text → Text → Prop}
    (tag : Text) : ∀ {moved : List (Text × Text)},
      (∀ m ∈ moved, Gives P (attributeKey s m.1.lower) (chosen m)) →
      Gives P (chooseKeys s tag moved) fun keys => List.Forall₂ (fun key m => chosen m key) keys moved
  | [], _ => Gives.pure .nil
  | m :: _, each =>
    (each m (List.mem_cons_self ..)).bind fun _ first => (logs _).bind fun _ _ =>
      (chooseKeys_gives_of logs tag fun m' later => each m' (List.mem_cons_of_mem _ later)).bind fun _ others =>
        Gives.pure (.cons first others)

/-- Keys that each depend on their attribute alone. -/
theorem eq_map_of_forall₂ {key : Text × Text → Text} {moved : List (Text × Text)} {keys : List Text}
    (each : List.Forall₂ (fun k m => k = key m) keys moved) : keys = moved.map key := by
  rwa [← List.forall₂_eq_eq_eq, List.forall₂_map_right_iff]

end

/-! ## With the standard setup -/

/-- The directive key of an attribute when no client makes handlers. -/
def keyOf (s : Settings) (name : Text) : Text :=
  if s.twoWayAttributes.contains name || (handlerOf name).isSome then name
  else s.attributeNamespace ++ s.namespaceDivider ++ name

/-- The directive that an attribute becomes, if it is moved. -/
def directiveOf? (s : Settings) (entry : Text × AttributeValue) : Option Text :=
  if entry.1 = s.directiveAttribute then none
  else (valueOf? s entry.2).map fun v => keyOf s entry.1.lower ++ lit ":" ++ v

/-- The directives that attributes become, in order. -/
def directives (s : Settings) (entries : List (Text × AttributeValue)) : List Text :=
  entries.filterMap (directiveOf? s)

/-- The keys of moved attributes. -/
def keysOf (s : Settings) (moved : List (Text × Text)) : List Text := moved.map fun m => keyOf s m.1.lower

theorem attributeKey_gives (s : Settings) (name : Text) :
    Gives Grown (attributeKey s name) fun key => key = keyOf s name :=
  attributeKey_gives_of (fun twoWay => by rw [keyOf, twoWay, Bool.true_or, if_pos rfl]) fun other =>
    (lookup_gives name).weaken fun entry same => by rw [keyOf, other, Bool.false_or, ← same, Option.isSome_map]

theorem chooseKeys_gives (s : Settings) (tag : Text) (moved : List (Text × Text)) :
    Gives Grown (chooseKeys s tag moved) fun keys => keys = keysOf s moved :=
  (chooseKeys_gives_of log_gives tag fun m _ => attributeKey_gives s m.1.lower).weaken fun _ each =>
    eq_map_of_forall₂ each

theorem directives_eq (s : Settings) (entries : List (Text × AttributeValue)) :
    directives s entries = ((keysOf s (movedValues s entries)).zip (movedValues s entries)).map movedDirective := by
  have zipped (moved : List (Text × Text)) :
      ((keysOf s moved).zip moved).map movedDirective = moved.map fun m => keyOf s m.1.lower ++ lit ":" ++ m.2 := by
    induction moved with
    | nil => rfl
    | cons m moved ih =>
      rw [List.map_cons, ← ih]
      rfl
  rw [zipped, movedValues, List.map_filterMap, directives]
  congr 1
  funext ⟨name, value⟩
  dsimp only [directiveOf?]
  split
  · rfl
  · cases valueOf? s value <;> rfl

/-- The directive string after attributes have been moved: what it was before,
    and the directives of the attributes behind it. -/
theorem moveAttributes_gives (s : Settings) (tag : Text) (entries : List (Text × AttributeValue))
    (attributes : Table AttributeValue) :
    Gives Grown (moveAttributes s tag entries attributes) fun moved =>
      moved.get? s.directiveAttribute =
        if directives s entries = [] then attributes.get? s.directiveAttribute
        else some (.text ((directives s entries).foldl addDirective
          (directivesOf (attributes.get? s.directiveAttribute)))) := by
  rw [moveAttributes_eq]
  refine (chooseKeys_gives s tag _).bind fun keys same => Gives.pure ?_
  have others : ∀ m ∈ keys.zip (movedValues s entries), m.2.1 ≠ s.directiveAttribute := by
    rintro ⟨key, m⟩ inside
    obtain ⟨_, -, other, -⟩ := mem_movedValues (List.of_mem_zip inside).2
    exact other
  rw [get?_foldl_move others, directives_eq, same]
  simp only [List.map_eq_nil_iff]

/-! ## Directive strings -/

theorem foldl_addDirective (ds : List Text) : ∀ {t : Text}, t ≠ [] →
    ds.foldl addDirective t = t ∨ ∃ rest, ds.foldl addDirective t = t ++ lit "," ++ rest := by
  induction ds with
  | nil => exact fun _ => .inl rfl
  | cons d ds ih =>
    intro t some_
    have first : addDirective t d = t ++ lit "," ++ d := by simp [addDirective, some_]
    have more : t ++ lit "," ++ d ≠ [] := by simp [some_]
    rw [List.foldl_cons, first]
    rcases ih more with same | ⟨rest, same⟩
    · exact .inr ⟨d, same⟩
    · exact .inr ⟨d ++ lit "," ++ rest, by rw [same]; simp only [List.append_assoc]⟩

theorem closed_addDirective {t d : Text} (old : Closed t) (new : Closed d) : Closed (addDirective t d) := by
  unfold addDirective
  split
  · exact new
  · have comma : Closed (lit ",") := by decide
    exact (old.append comma).append new

theorem closed_foldl_addDirective {ds : List Text} (closed : ∀ d ∈ ds, Closed d) : ∀ {t : Text}, Closed t →
    Closed (ds.foldl addDirective t) := by
  induction ds with
  | nil => exact fun old => old
  | cons d ds ih =>
    intro t old
    exact ih (fun e inside => closed e (List.mem_cons_of_mem _ inside))
      (closed_addDirective old (closed d (List.mem_cons_self ..)))

/-- Behind closed directives, and before any others, a closed directive gives
    the pairs that it gives on its own. -/
theorem mem_split_foldl {before after : List Text} {old d : Text} (closedOld : Closed old)
    (closed : ∀ e ∈ before, Closed e) (closedD : Closed d) (some_ : d ≠ []) {p : Pair} (inside : p ∈ Pair.split d) :
    p ∈ Pair.split ((before ++ d :: after).foldl addDirective old) := by
  have front := closed_foldl_addDirective closed closedOld
  rw [List.foldl_append, List.foldl_cons]
  generalize before.foldl addDirective old = t at front ⊢
  have added : p ∈ Pair.split (addDirective t d) := by
    unfold addDirective
    split
    · exact inside
    · rw [Pair.split_append front]
      exact List.mem_append_right _ inside
  have more : addDirective t d ≠ [] := by
    unfold addDirective
    split <;> simp [some_]
  rcases foldl_addDirective after more with same | ⟨rest, same⟩
  · rw [same]
    exact added
  · rw [same, Pair.split_append (closed_addDirective front closedD)]
    exact List.mem_append_left _ added

end Bindmark.Interpolation
