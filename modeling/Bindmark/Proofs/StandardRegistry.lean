import Bindmark.Proofs.Configuring

/-!
# The registry of the standard setup

What is registered once the standard setup is done, and what looking keys up
makes of that: handlers of members are added, each derived from its namespace,
so that the handler of every key is known beforehand.
-/

namespace Bindmark

open Work

namespace Standard

/-! ## The registry -/

/-- The state of a compiler before the standard setup. -/
def bareState : State := { registry := Registry.builtins.foldl Registry.addBuiltin { divider := lit "." } }

theorem make_bareState : Registry.make true (lit ".") = .ok bareState.registry := by
  rw [Registry.make, if_neg (by decide)]
  rfl

/-- The registry after the standard setup. -/
@[irreducible] def registry : Registry := (stateAfter (install {}) bareState).registry

/-- What the preprocessing of a handler does. -/
inductive Role where
  | nothing
  | filters
  | references
  | members
  | properties
  deriving DecidableEq

/-- Whether references are all that a pipeline for properties wraps. -/
def wrapsReferences : Pipeline Preprocessor → Bool
  | .stage .references => true
  | _ => false

/-- The role of a handler whose preprocessing is a single stage of the library. -/
def role? (h : Handler) : Option Role :=
  match h.preprocess with
  | none => some .nothing
  | some (.stage (.apply .filters)) => some .filters
  | some (.stage (.apply .references)) => some .references
  | some (.stage .members) => some .members
  | some (.stage .properties) =>
    if (h.properties.getD .empty).entries.all fun entry => wrapsReferences entry.2 then some .properties else none
  | _ => none

/-- The role of the members of a handler that derives them in the standard way. -/
def memberRole? (h : Handler) : Option Role :=
  match h.synthesis with
  | none => some .nothing
  | some ⟨.standard, []⟩ => some .nothing
  | some ⟨.standard, [.filters]⟩ => some .filters
  | some ⟨.standard, [.references]⟩ => some .references
  | _ => none

/-- Every handler of the standard registry has a role, and so have the handlers
    of its members. No key holds a divider. -/
theorem registry_roles : (registry.entries.entries.all fun entry =>
    (role? entry.2.handler).isSome && (memberRole? entry.2.handler).isSome && !entry.1.contains '.') = true := by
  decide +kernel

theorem attr_role : (registry.entries.get? (lit "attr")).bind (fun e => memberRole? e.handler) = some .filters := by
  decide +kernel

theorem registry_divider : registry.divider = lit "." := by
  decide +kernel

/-- Whether only the creator that every registry has is there. -/
def onlyNamespaces : List Creator → Bool
  | [.namespaces] => true
  | _ => false

theorem registry_creators : registry.creators = [.namespaces] := by
  have only : onlyNamespaces registry.creators = true := by decide +kernel
  unfold onlyNamespaces at only
  split at only
  · assumption
  · cases only

/-! ## The handler of a key -/

/-- The handler that looking a key up leads to. -/
def handlerOf (key : Text) : Option Handler :=
  if '.' ∈ key then
    match Registry.splitKey? (lit ".") key with
    | none => none
    | some (ns, member) => (registry.entries.get? ns).map fun e => memberHandler e.handler member
  else (registry.entries.get? key).map Entry.handler

/-- A registry that looking keys up has made of the standard one. -/
structure Grown (st : State) : Prop where
  divider : st.registry.divider = lit "."
  creators : st.registry.creators = [.namespaces]
  known : ∀ key e, st.registry.entries.get? key = some e → handlerOf key = some e.handler
  missing : ∀ key, '.' ∉ key → st.registry.entries.get? key = none → handlerOf key = none

theorem roles_of_get? {key : Text} {e : Entry} (found : registry.entries.get? key = some e) :
    (role? e.handler).isSome ∧ (memberRole? e.handler).isSome ∧ '.' ∉ key := by
  have roles := List.all_eq_true.mp registry_roles _ (Table.mem_of_get? found)
  simpa [and_assoc] using roles

theorem grown_registry {st : State} (same : st.registry = registry) : Grown st where
  divider := by rw [same, registry_divider]
  creators := by rw [same, registry_creators]
  known key e found := by
    rw [same] at found
    rw [handlerOf, if_neg (roles_of_get? found).2.2, found]
    rfl
  missing key plain missing := by
    rw [same] at missing
    rw [handlerOf, if_neg plain, missing]
    rfl

theorem Grown.of_registry {st st' : State} (grown : Grown st) (same : st'.registry = st.registry) : Grown st' where
  divider := same ▸ grown.divider
  creators := same ▸ grown.creators
  known := same ▸ grown.known
  missing := same ▸ grown.missing

theorem install_eq {s : Settings} (attrNamespace : s.attributeNamespace = lit "attr") : install s = install {} := by
  unfold install interpolateAttributes
  rw [attrNamespace]

theorem state_ofRegistry {s : Settings} {verbosity : Option Int} {r : Registry} {c : Compiler}
    (made : Compiler.ofRegistry s verbosity true r = .ok c) :
    c.state = stateAfter (install s) { registry := r } := by
  obtain ⟨u, installed⟩ := install_ofRegistry made
  rw [stateAfter_ok installed]

/-- A compiler that is made with the standard setup has the standard registry. -/
theorem grown_make {s : Settings} {verbosity : Option Int} {c : Compiler}
    (attrNamespace : s.attributeNamespace = lit "attr") (divider : s.namespaceDivider = lit ".")
    (made : Compiler.make s verbosity true = .ok c) : Grown c.state := by
  have registered : Registry.make true (lit ".") =
      .ok (Registry.builtins.foldl Registry.addBuiltin { divider := lit "." }) := by
    rw [Registry.make, if_neg (by decide)]
    simp only [if_true]
  unfold Compiler.make at made
  rw [divider, registered] at made
  have state := state_ofRegistry made
  rw [install_eq attrNamespace] at state
  apply grown_registry
  rw [state, registry, bareState]

/-! ## Looking up -/

theorem derivesMembers_of_role {h : Handler} (role : (memberRole? h).isSome) : h.DerivesMembers := by
  intro synthesis given
  unfold memberRole? at role
  rw [given] at role
  split at role <;> simp_all

/-- A key that is split holds a divider, and its namespace does not. -/
theorem plain_of_splitKey? {key ns member : Text} (split : Registry.splitKey? (lit ".") key = some (ns, member)) :
    '.' ∈ key ∧ '.' ∉ ns := by
  obtain ⟨whole, -, apart⟩ := Registry.splitKey?_eq_some split
  exact ⟨by simp [whole, lit], fun inside => apart '.' inside (by simp [lit])⟩

theorem Grown.derivesKey {st : State} (grown : Grown st) (key : Text) : st.registry.DerivesKey key := by
  intro ns member e split stands
  rw [grown.divider] at split
  have known := grown.known ns e stands
  rw [handlerOf, if_neg (plain_of_splitKey? split).2] at known
  obtain ⟨e', stands', same⟩ := Option.map_eq_some_iff.mp known
  exact same ▸ derivesMembers_of_role (roles_of_get? stands').2.1

theorem log_gives (e : Event) : Gives Grown (Work.log e) fun _ => True :=
  fun _ grown => ⟨_, _, rfl, grown.of_registry rfl, trivial⟩

/-- A registry that gains a handler under the key that leads to it. -/
theorem Grown.withMember {st st' : State} (grown : Grown st) {key ns : Text} {h : Handler}
    (made : handlerOf key = some h) (gained : st'.registry = st.registry.withMember key ns h) : Grown st' where
  divider := by rw [gained, Registry.withMember_divider, grown.divider]
  creators := by rw [gained, Registry.withMember_creators, grown.creators]
  known k e found := by
    rw [gained, Registry.get?_withMember] at found
    split at found
    · rename_i same
      cases found
      rw [same]
      exact made
    · exact grown.known k e found
  missing k plain found := by
    rw [gained, Registry.get?_withMember] at found
    split at found
    · cases found
    · exact grown.missing k plain found

/-- Looking a key up leads to its handler. -/
theorem lookup_gives (key : Text) :
    Gives Grown (Registry.lookup key) fun entry => entry.map Entry.handler = handlerOf key := by
  intro st grown
  obtain ⟨entry, r, events, ran, looked, -⟩ := Registry.lookup_looksUp grown.creators (grown.derivesKey key)
  refine ⟨entry, _, ran, ?_⟩
  cases looked with
  | registered stands => exact ⟨grown.of_registry rfl, (grown.known key _ stands).symm⟩
  | unknown missing nowhere =>
    refine ⟨grown.of_registry rfl, Eq.symm ?_⟩
    by_cases divided : '.' ∈ key
    · rw [handlerOf, if_pos divided]
      split
      · rfl
      · rename_i ns member split
        have gone := nowhere ns member (by rw [grown.divider, split])
        have unmade := grown.missing ns (plain_of_splitKey? split).2 gone
        rw [handlerOf, if_neg (plain_of_splitKey? split).2] at unmade
        rw [Option.map_eq_none_iff] at unmade
        rw [unmade]
        rfl
    · exact grown.missing key divided missing
  | derived missing split stands =>
    rename_i ns member e
    rw [grown.divider] at split
    obtain ⟨divided, plain⟩ := plain_of_splitKey? split
    have known := grown.known ns e stands
    rw [handlerOf, if_neg plain] at known
    obtain ⟨e', stands', same⟩ := Option.map_eq_some_iff.mp known
    have made : handlerOf key = some (memberHandler e.handler member) := by
      rw [handlerOf, if_pos divided, split]
      simp only [stands', Option.map_some, same]
    exact ⟨grown.withMember made rfl, made.symm⟩

end Standard
end Bindmark
