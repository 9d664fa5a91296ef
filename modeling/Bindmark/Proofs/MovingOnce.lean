import Bindmark.Proofs.Growing
import Bindmark.Proofs.Moving

/-!
# Attributes are moved once

A registry settles which keys attributes are moved under, however far it has
grown. What becomes of the attributes of an element is known beforehand
(`movedIn`), and nothing is left among them that could be moved: moving them
again does nothing.
-/

namespace Bindmark

open Work

/-- The registry of a state has grown from an earlier one. -/
def GrownFrom (r : Registry) (st : State) : Prop := Registry.Grown r st.registry

namespace GrownFrom

variable {r : Registry}

theorem log_gives (e : Event) : Gives (GrownFrom r) (Work.log e) fun _ => True :=
  fun _ grown => ⟨(), _, rfl, grown, trivial⟩

theorem count_gives (f : Stats → Stats) : Gives (GrownFrom r) (Work.count f) fun _ => True :=
  fun _ grown => ⟨(), _, rfl, grown, trivial⟩

/-- Looking a key up gives the handler that the registry led it to at first. -/
theorem lookup_gives (plain : r.Plain) (key : Text) :
    Gives (GrownFrom r) (Registry.lookup key) fun entry => entry.map Entry.handler = r.handlerOf key := by
  intro st grown
  obtain ⟨entry, r', events, ran, -, grown', handler, -⟩ := Registry.lookup_grown plain key st grown
  exact ⟨entry, _, ran, grown', handler⟩

end GrownFrom

namespace Interpolation

variable {r : Registry} {s : Settings}

/-! ## Keys -/

/-- The directive key of an attribute, with the handlers of a registry. -/
def keyIn (r : Registry) (s : Settings) (name : Text) : Text :=
  if s.twoWayAttributes.contains name || (r.handlerOf name).isSome then name
  else s.attributeNamespace ++ s.namespaceDivider ++ name

theorem attributeKey_gives_keyIn (plain : r.Plain) (s : Settings) (name : Text) :
    Gives (GrownFrom r) (attributeKey s name) fun key => key = keyIn r s name :=
  attributeKey_gives_of (fun twoWay => by rw [keyIn, twoWay, Bool.true_or, if_pos rfl]) fun other =>
    (GrownFrom.lookup_gives plain name).weaken fun entry same => by
      rw [keyIn, other, Bool.false_or, ← same, Option.isSome_map]

theorem chooseKeys_gives_keyIn (plain : r.Plain) (s : Settings) (tag : Text) (moved : List (Text × Text)) :
    Gives (GrownFrom r) (chooseKeys s tag moved) fun keys => keys = moved.map fun m => keyIn r s m.1.lower :=
  (chooseKeys_gives_of GrownFrom.log_gives tag fun m _ => attributeKey_gives_keyIn plain s m.1.lower).weaken
    fun _ each => eq_map_of_forall₂ each

/-! ## What becomes of attributes -/

/-- The attributes of an element once they are moved, with the handlers of a
    registry. -/
def movedIn (r : Registry) (s : Settings) (attributes : Table AttributeValue) : Table AttributeValue :=
  ((movedValues s attributes.entries).map fun m => (keyIn r s m.1.lower, m)).foldl (move s) attributes

theorem moveAttributes_gives_movedIn (plain : r.Plain) (s : Settings) (tag : Text) (attributes : Table AttributeValue) :
    Gives (GrownFrom r) (moveAttributes s tag attributes.entries attributes) fun moved =>
      moved = movedIn r s attributes := by
  rw [moveAttributes_eq]
  refine (chooseKeys_gives_keyIn plain s tag _).bind fun keys same => Gives.pure ?_
  have zipped (moved : List (Text × Text)) : (moved.map fun m => keyIn r s m.1.lower).zip moved =
      moved.map fun m => (keyIn r s m.1.lower, m) := by
    induction moved with
    | nil => rfl
    | cons m moved ih => rw [List.map_cons, List.zip_cons_cons, ih, List.map_cons]
  rw [same, zipped, movedIn]

/-- An attribute that stands after moves is the directive attribute or one that
    stood before and was not moved. -/
theorem mem_foldl_move {moves : List (Text × Text × Text)} {attributes : Table AttributeValue} {name : Text}
    {value : AttributeValue} (inside : (name, value) ∈ (moves.foldl (move s) attributes).entries) :
    name = s.directiveAttribute ∨ (name, value) ∈ attributes.entries ∧ ∀ m ∈ moves, m.2.1 ≠ name := by
  induction moves generalizing attributes with
  | nil => exact .inr ⟨inside, by simp⟩
  | cons m moves ih =>
    rcases ih inside with own | ⟨stood, others⟩
    · exact .inl own
    · obtain ⟨stood, kept⟩ := List.mem_filter.mp stood
      rcases Table.mem_insertEntry stood with same | old
      · exact .inl (congrArg Prod.fst same)
      · refine .inr ⟨old, fun m' among => ?_⟩
        rcases List.mem_cons.mp among with rfl | later
        · exact fun same => (of_decide_eq_true kept) same.symm
        · exact others m' later

/-- Nothing that could be moved is left. -/
theorem movedValues_foldl_move {moves : List (Text × Text × Text)} {attributes : Table AttributeValue}
    (all : moves.map Prod.snd = movedValues s attributes.entries) :
    movedValues s (moves.foldl (move s) attributes).entries = [] := by
  rw [List.eq_nil_iff_forall_not_mem]
  intro m again
  obtain ⟨value, stands, other, interpolated⟩ := mem_movedValues again
  rcases mem_foldl_move stands with own | ⟨stood, unmoved⟩
  · exact other own
  · have moved : m ∈ movedValues s attributes.entries := by
      refine List.mem_filterMap.mpr ⟨(m.1, value), stood, ?_⟩
      dsimp only
      rw [if_neg other, interpolated, Option.map_some]
    rw [← all] at moved
    obtain ⟨m', among, rfl⟩ := List.mem_map.mp moved
    exact unmoved m' among rfl

theorem movedValues_movedIn (r : Registry) (s : Settings) (attributes : Table AttributeValue) :
    movedValues s (movedIn r s attributes).entries = [] :=
  movedValues_foldl_move (by simp [Function.comp_def])

theorem movedIn_movedIn (r r' : Registry) (s : Settings) (attributes : Table AttributeValue) :
    movedIn r s (movedIn r' s attributes) = movedIn r' s attributes := by
  rw [movedIn, movedValues_movedIn, List.map_nil, List.foldl_nil]

end Interpolation
end Bindmark
