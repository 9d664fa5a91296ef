import Bindmark.Proofs.Keeping
import Bindmark.Proofs.Occurrence
import Bindmark.Proofs.Tables
import Mathlib.Data.List.TakeWhile

/-!
# Looking keys up

What looking a key up gives, and what it does with the registry, when only the
creator is there that every registry has and namespaces derive their members in
the standard way: the registry stays as it is, or gains the handler of a member.
-/

namespace Bindmark

open Work

/-! ## Keys of members -/

namespace Registry

/-- A key that is split is its namespace, the divider and its member. -/
theorem splitKey?_eq_some {divider key ns member : Text} (split : splitKey? divider key = some (ns, member)) :
    key = ns ++ divider ++ member ∧ member ≠ [] ∧ ∀ c ∈ ns, c ∉ divider := by
  unfold splitKey? at split
  dsimp only at split
  split at split
  · cases split
  · rename_i member' found
    split at split
    · cases split
    · rename_i solid
      cases split
      have behind := Text.dropLeading?_eq_some found
      refine ⟨?_, ?_, fun c inside => ?_⟩
      · rw [List.append_assoc, ← behind, List.prefix_iff_eq_append.mp (List.takeWhile_prefix _)]
      · simp only [Bool.or_eq_true, List.isEmpty_iff, not_or] at solid
        exact solid.1.2
      · simpa using List.mem_takeWhile_imp inside

/-- A text without characters of the divider is not split. -/
theorem splitKey?_eq_none {divider key : Text} (apart : ∀ c ∈ key, c ∉ divider) : splitKey? divider key = none := by
  cases split : splitKey? divider key with
  | none => rfl
  | some parts =>
    obtain ⟨ns, member⟩ := parts
    have whole : key.takeWhile (fun c => !divider.contains c) = key :=
      List.takeWhile_eq_self_iff.mpr fun c inside => by simpa using apart c inside
    unfold splitKey? at split
    simp only [whole, List.drop_length] at split
    cases divider with
    | nil => simp [Text.dropLeading?] at split
    | cons c divider => simp [Text.dropLeading?] at split

end Registry

/-! ## Handlers of members -/

/-- Handlers of members are derived from that of their namespace. -/
def Handler.DerivesMembers (h : Handler) : Prop :=
  ∀ synthesis, h.synthesis = some synthesis → synthesis.source = .standard

/-- How a namespace makes the handlers of its members: as it was told, or in the
    standard way. -/
def Handler.synthesisOf (h : Handler) : Synthesis := h.synthesis.getD { source := .standard }

theorem Handler.derivesMembers_iff {h : Handler} : h.DerivesMembers ↔ h.synthesisOf.source = .standard := by
  unfold Handler.DerivesMembers Handler.synthesisOf
  cases h.synthesis <;> simp

/-- The handler that a namespace makes for a member in the standard way. -/
def Standard.memberHandler (h : Handler) (member : Text) : Handler :=
  (h.synthesis.getD { source := .standard }).added.foldl Handler.addPreprocessor (h.derive member)

namespace Registry

open Standard

theorem synthesize_eq {h : Handler} (derives : h.DerivesMembers) (member ns key : Text) :
    synthesize h member ns key = pure (some (memberHandler h member)) := by
  unfold synthesize memberHandler
  cases given : h.synthesis with
  | none => rfl
  | some synthesis =>
    simp only [Option.getD_some, derives synthesis given]
    rfl

/-! ## Entries -/

theorem get?_store (r : Registry) (key : Text) (h : Handler) (k : Text) :
    (r.store key h).entries.get? k = if k = key then some (r.nextEntry h) else r.entries.get? k :=
  Table.get?_insert _ _ _ _

theorem get?_store_self (r : Registry) (key : Text) (h : Handler) :
    (r.store key h).entries.get? key = some (r.nextEntry h) := by
  rw [get?_store, if_pos rfl]

/-- A missing key that is stored leaves all entries as they are. -/
theorem get?_store_of_missing {r : Registry} {key k : Text} {e : Entry} (missing : r.entries.get? key = none)
    (stands : r.entries.get? k = some e) (h : Handler) : (r.store key h).entries.get? k = some e := by
  have other : k ≠ key := by
    rintro rfl
    rw [missing] at stands
    cases stands
  rw [get?_store, if_neg other, stands]

theorem get?_change (r : Registry) (serial : Nat) (f : Handler → Handler) (k : Text) :
    (r.change serial f).entries.get? k = (r.entries.get? k).map (changeEntry serial f) :=
  Table.get?_map _ _ _

/-! ## Serial numbers -/

/-- No two keys have the same serial number, and the next one is new. -/
structure Serials (r : Registry) : Prop where
  fresh : ∀ key e, r.entries.get? key = some e → e.serial < r.nextSerial
  distinct : ∀ key key' e e', r.entries.get? key = some e → r.entries.get? key' = some e' → e.serial = e'.serial →
    key = key'

namespace Serials

variable {r : Registry}

theorem store (serials : r.Serials) (key : Text) (h : Handler) : (r.store key h).Serials where
  fresh k e stands := by
    rw [get?_store] at stands
    split at stands
    · cases stands
      exact Nat.lt_succ_self _
    · exact Nat.lt_succ_of_lt (serials.fresh k e stands)
  distinct k k' e e' stands stands' same := by
    rw [get?_store] at stands stands'
    split at stands
    · rename_i isKey
      split at stands'
      · rename_i isKey'
        rw [isKey, isKey']
      · cases stands
        exact absurd same.symm (Nat.ne_of_lt (serials.fresh k' e' stands'))
    · split at stands'
      · cases stands'
        exact absurd same (Nat.ne_of_lt (serials.fresh k e stands))
      · exact serials.distinct k k' e e' stands stands' same

theorem change (serials : r.Serials) (serial : Nat) (f : Handler → Handler) : (r.change serial f).Serials := by
  have kept {k : Text} {e : Entry} (stands : (r.change serial f).entries.get? k = some e) :
      ∃ old, r.entries.get? k = some old ∧ old.serial = e.serial := by
    rw [get?_change, Option.map_eq_some_iff] at stands
    obtain ⟨old, stood, rfl⟩ := stands
    refine ⟨old, stood, ?_⟩
    unfold changeEntry
    split <;> rfl
  constructor
  · intro k e stands
    obtain ⟨old, stood, same⟩ := kept stands
    exact same ▸ serials.fresh k old stood
  · intro k k' e e' stands stands' same
    obtain ⟨old, stood, serial⟩ := kept stands
    obtain ⟨old', stood', serial'⟩ := kept stands'
    exact serials.distinct k k' old old' stood stood' (serial.trans (same.trans serial'.symm))

/-- Changing a handler by its serial number changes that of one key only. -/
theorem get?_change (serials : r.Serials) {key : Text} {e : Entry} (stands : r.entries.get? key = some e)
    (f : Handler → Handler) (k : Text) : (r.change e.serial f).entries.get? k =
      if k = key then some ⟨e.serial, f e.handler⟩ else r.entries.get? k := by
  rw [Registry.get?_change]
  split
  · rename_i same
    rw [same, stands, Option.map_some, changeEntry, if_pos rfl]
  · rename_i other
    cases stood : r.entries.get? k with
    | none => rfl
    | some old =>
      have apart : old.serial ≠ e.serial := fun same => other (serials.distinct k key old e stood stands same)
      rw [Option.map_some, changeEntry, if_neg apart]

end Serials

/-! ## Looking up -/

/-- A registry with the handler of a member. Comment markers may hold the key if
    they may hold the namespace. -/
def withMember (r : Registry) (key ns : Text) (h : Handler) : Registry :=
  (if r.isVirtual ns then r.allowVirtual key else r).store key h

@[simp] theorem withMember_divider (r : Registry) (key ns : Text) (h : Handler) :
    (r.withMember key ns h).divider = r.divider := by
  unfold withMember
  split <;> rfl

@[simp] theorem withMember_creators (r : Registry) (key ns : Text) (h : Handler) :
    (r.withMember key ns h).creators = r.creators := by
  unfold withMember
  split <;> rfl

theorem get?_withMember (r : Registry) (key ns : Text) (h : Handler) (k : Text) :
    (r.withMember key ns h).entries.get? k = if k = key then some (r.nextEntry h) else r.entries.get? k := by
  unfold withMember
  split
  · exact get?_store _ key h k
  · exact get?_store _ key h k

/-- What looking a key up gives, and what becomes of the registry. -/
inductive LooksUp (key : Text) (r : Registry) : Option Entry → Registry → Prop
  | registered {e : Entry} (stands : r.entries.get? key = some e) : LooksUp key r (some e) r
  | unknown (missing : r.entries.get? key = none)
      (nowhere : ∀ ns member, splitKey? r.divider key = some (ns, member) → r.entries.get? ns = none) :
      LooksUp key r none r
  | derived {ns member : Text} {e : Entry} (missing : r.entries.get? key = none)
      (split : splitKey? r.divider key = some (ns, member)) (stands : r.entries.get? ns = some e) :
      LooksUp key r (some (r.nextEntry (memberHandler e.handler member)))
        (r.withMember key ns (memberHandler e.handler member))

/-- The namespace of a key, if it is registered, derives its members. -/
def DerivesKey (r : Registry) (key : Text) : Prop :=
  ∀ ns member e, splitKey? r.divider key = some (ns, member) → r.entries.get? ns = some e → e.handler.DerivesMembers

theorem createMember_looksUp {key : Text} {st : State} (missing : st.registry.entries.get? key = none)
    (derives : st.registry.DerivesKey key) :
    ∃ entry r events, createMember key st = .ok entry { st with registry := r, journal := st.journal ++ events } ∧
      LooksUp key st.registry entry r ∧ ∀ event ∈ events, ∃ ns, event = .synthesized key ns := by
  rw [createMember, bind_ok (registry_apply st)]
  cases split : splitKey? st.registry.divider key with
  | none =>
    refine ⟨none, st.registry, [], ?_, .unknown missing ?_, by simp⟩
    · rw [List.append_nil]
      rfl
    · intro ns member known
      rw [split] at known
      cases known
  | some parts =>
    obtain ⟨ns, member⟩ := parts
    cases stands : st.registry.entries.get? ns with
    | none =>
      refine ⟨none, st.registry, [], ?_, .unknown missing ?_, by simp⟩
      · rw [List.append_nil]
        simp only [stands]
        rfl
      · intro ns' member' known
        rw [split] at known
        cases known
        exact stands
    | some e =>
      refine ⟨_, _, [.synthesized key ns], ?_, .derived missing split stands, by simp⟩
      simp only [stands, synthesize_eq (derives ns member e split stands), pure_bind, withMember]
      cases st.registry.isVirtual ns
      · rfl
      · rfl

theorem lookup_looksUp {key : Text} {st : State} (only : st.registry.creators = [.namespaces])
    (derives : st.registry.DerivesKey key) :
    ∃ entry r events, lookup key st = .ok entry { st with registry := r, journal := st.journal ++ events } ∧
      LooksUp key st.registry entry r ∧ ∀ event ∈ events, ∃ ns, event = .synthesized key ns := by
  rw [lookup, bind_ok (registry_apply st)]
  cases stands : st.registry.entries.get? key with
  | some e =>
    refine ⟨some e, st.registry, [], ?_, .registered stands, by simp⟩
    rw [List.append_nil]
    rfl
  | none =>
    obtain ⟨entry, r, events, ran, looked, told⟩ := createMember_looksUp stands derives
    refine ⟨entry, r, events, ?_, looked, told⟩
    simp only [only, createFirst, create]
    rw [bind_ok ran]
    cases entry <;> rfl

end Registry
end Bindmark
