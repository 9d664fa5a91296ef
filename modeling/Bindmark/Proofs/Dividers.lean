import Bindmark.Proofs.Dispatching

/-!
# Dividers of several characters

A key is cut at its first character that belongs to the divider, where the whole
divider has to stand. With a divider of one character that is where the divider
stands first. With a longer one it is not, when the namespace holds a character
of the divider: such a key is not cut at all, so that its namespace is never
asked for it, and the lookup goes on with the creators of clients.
-/

namespace Bindmark

open Work

namespace Registry

variable {D ns member key : Text} {st : State} {e : Entry} {others : List Creator}

/-! ## Cutting keys -/

/-- No character of a text belongs to a divider. -/
def Undivided (D t : Text) : Prop := ∀ c ∈ t, c ∉ D

instance (D t : Text) : Decidable (Undivided D t) := List.decidableBAll (· ∉ D) t

/-- A key whose first divider stands behind a namespace is cut there, unless the
    namespace holds a character of the divider. -/
theorem splitKey?_first (first : Text.indexOf? D (ns ++ D ++ member) = some ns.length) (some_ : D ≠ [])
    (named : ns ≠ []) (solid : member ≠ []) (line : '\n' ∉ member) :
    splitKey? D (ns ++ D ++ member) = if Undivided D ns then some (ns, member) else none := by
  split
  · rename_i apart
    obtain ⟨d, rest, rfl⟩ := List.exists_cons_of_ne_nil some_
    have start : (ns ++ (d :: rest) ++ member).takeWhile (fun c => !(d :: rest).contains c) = ns := by
      rw [List.append_assoc, List.takeWhile_append_of_pos]
      · simp
      · intro c inside
        simpa using apart c inside
    unfold splitKey?
    dsimp only
    rw [start, List.append_assoc, List.drop_left, Text.dropLeading?_append]
    simp [named, solid, line]
  · rename_i mixed
    rw [← Option.not_isSome_iff_eq_none, Option.isSome_iff_exists]
    rintro ⟨⟨ns', member'⟩, cut⟩
    obtain ⟨parts, -, apart⟩ := splitKey?_eq_some cut
    -- The divider stands where the key was cut, hence not before the end of the namespace.
    have later : ns.length ≤ ns'.length := (Text.indexOf?_eq_some first).2 _ (Text.standsAt_of_eq parts)
    have front : ns <+: ns ++ D ++ member := ⟨D ++ member, by simp⟩
    have front' : ns' <+: ns ++ D ++ member := ⟨D ++ member', by simp [parts]⟩
    have whole : ns <+: ns' := List.prefix_of_prefix_length_le front front' later
    exact mixed fun c inside => apart c (whole.subset inside)

/-! ## Lookups that namespaces begin -/

/-- The namespace that a lookup asks for the handler of a missing key: the key is
    cut behind it, and it is stored. -/
structure Asks (r : Registry) (key ns member : Text) (e : Entry) : Prop where
  split : splitKey? r.divider key = some (ns, member)
  stands : r.entries.get? ns = some e

/-- What a lookup does with a namespace that is asked for the handler of a member:
    what it makes is stored. When it declines, the other creators are asked. -/
def fromNamespace (e : Entry) (member ns key : Text) (others : List Creator) : Work (Option Entry) := fun st =>
  match e.handler.memberFor member ns key with
  | .ok (some h) => .ok (some (st.registry.nextEntry h))
      { asked e member ns key st with
        registry := st.registry.withMember key ns h
        journal := st.journal ++ [.synthesized key ns] }
  | .ok none => createFirst key others (asked e member ns key st)
  | .error f => .error (.raised f) (asked e member ns key st)

theorem lookup_createFirst (begun : st.registry.creators = .namespaces :: others)
    (missing : st.registry.entries.get? key = none) :
    lookup key st = (do
      match ← createMember key with
      | some entry => return some entry
      | none => createFirst key others : Work (Option Entry)) st := by
  rw [lookup, bind_ok (registry_apply st)]
  simp only [missing, begun]
  rfl

theorem lookup_fromNamespace (begun : st.registry.creators = .namespaces :: others)
    (missing : st.registry.entries.get? key = none) (asks : st.registry.Asks key ns member e) :
    lookup key st = fromNamespace e member ns key others st := by
  rw [lookup_createFirst begun missing, fromNamespace]
  have made := createMember_apply asks.split asks.stands
  cases answer : e.handler.memberFor member ns key with
  | error f =>
    rw [answer] at made
    rw [bind_error made]
  | ok made? =>
    rw [answer] at made
    cases made? with
    | none => rw [bind_ok made]
    | some h => rw [bind_ok made]; rfl

theorem lookup_unasked (begun : st.registry.creators = .namespaces :: others)
    (missing : st.registry.entries.get? key = none) (unasked : ∀ ns member e, ¬ st.registry.Asks key ns member e) :
    lookup key st = createFirst key others st := by
  rw [lookup_createFirst begun missing]
  rcases exists_namespace_or_createMember_none key st with ⟨ns, member, e, split, stands⟩ | nothing
  · exact absurd ⟨split, stands⟩ (unasked ns member e)
  · rw [bind_ok nothing]

/-! ## Registries with creators -/

/-- A registry begins with the creator that every registry has, and no handler is
    stored under the empty key. -/
structure Begun (r : Registry) : Prop where
  creators : ∃ others, r.creators = .namespaces :: others
  named : r.entries.get? [] = none

namespace Begun

variable {r : Registry}

theorem empty (divider : Text) : Begun { divider } := ⟨⟨[], rfl⟩, rfl⟩

theorem store (begun : r.Begun) (some_ : key ≠ []) (h : Handler) : (r.store key h).Begun where
  creators := begun.creators
  named := by rw [get?_store, if_neg some_.symm, begun.named]

theorem change (begun : r.Begun) (serial : Nat) (f : Handler → Handler) : (r.change serial f).Begun where
  creators := begun.creators
  named := by rw [get?_change, begun.named, Option.map_none]

theorem addBuiltin (begun : r.Begun) {builtin : Text × Bool × Text} (some_ : builtin.1 ≠ []) :
    (r.addBuiltin builtin).Begun := by
  obtain ⟨key, isVirtual, description⟩ := builtin
  have stored := begun.store some_ { description }
  cases isVirtual with
  | false => exact stored
  | true => exact ⟨stored.creators, stored.named⟩

theorem make {withBuiltins : Bool} {divider : Text} (made : Registry.make withBuiltins divider = .ok r) :
    r.Begun := by
  have added (builtins : List (Text × Bool × Text)) (some_ : ∀ builtin ∈ builtins, builtin.1 ≠ []) (r : Registry)
      (begun : r.Begun) : (builtins.foldl Registry.addBuiltin r).Begun := by
    induction builtins generalizing r with
    | nil => exact begun
    | cons builtin builtins ih =>
      rw [List.forall_mem_cons] at some_
      exact ih some_.2 _ (begun.addBuiltin some_.1)
  unfold Registry.make at made
  split at made
  · cases made
  · cases made
    split
    · exact added builtins (by decide) _ (empty divider)
    · exact empty divider

/-- A registry that had begun has begun afterwards. -/
def Stays (st st' : State) : Prop := st.registry.Begun → st'.registry.Begun

theorem stays_chains : Chains Stays := ⟨fun _ begun => begun, fun first second begun => second (first begun)⟩

theorem stays_store (some_ : key ≠ []) (h : Handler) :
    Within Stays (Work.changeRegistry fun r => r.store key h) := fun _ begun => begun.store some_ h

theorem stays_looks (some_ : key ≠ []) : Looks key Stays where
  toChains := stays_chains
  log _ _ begun := begun
  trace _ _ begun := begun
  store := stays_store some_
  storeLoose _ _ begun := ⟨begun.creators, begun.named⟩
  allowVirtual _ begun := ⟨begun.creators, begun.named⟩

end Begun

/-- Nothing is made for the empty key. -/
theorem create_nil (c : Creator) (st : State) : create [] c st = .ok none st := by
  cases c with
  | namespaces =>
    have undivided : splitKey? st.registry.divider [] = none := splitKey?_eq_none nofun
    rw [create, createMember, bind_ok (registry_apply st)]
    simp only [undivided]
    rfl
  | client c =>
    rw [create, CreatorClient.create]
    cases start : c.start with
    | nil => rfl
    | cons => rfl

theorem createFirst_nil (creators : List Creator) (st : State) : createFirst [] creators st = .ok none st := by
  induction creators with
  | nil => rfl
  | cons c creators ih => exact (bind_ok (create_nil c st)).trans ih

namespace Begun

theorem stays_lookup (key : Text) : Within Stays (lookup key) := by
  by_cases some_ : key = []
  · subst some_
    intro st begun
    have nothing : lookup [] st = .ok none st := by
      rw [lookup, bind_ok (registry_apply st)]
      simp only [begun.named, createFirst_nil]
    rw [stateAfter_ok nothing]
    exact begun
  · exact (stays_looks some_).lookup

theorem stays_register (key : Text) (h : Handler) (isVirtual : Bool) : Within Stays (register key h isVirtual) :=
  stays_chains.register (fun some_ => (stays_looks some_).storeNew h) (fun some_ => (stays_looks some_).allowVirtual)
    isVirtual

theorem stays_change (serial : Nat) (f : Handler → Handler) :
    Within Stays (Work.changeRegistry fun r => r.change serial f) :=
  fun _ begun => begun.change serial f

theorem stays_operates : Operates Stays where
  toChains := stays_chains
  lookup := stays_lookup
  getOrCreate key := stays_chains.getOrCreate (stays_lookup key) (stays_register key {} false)
  change serial f _ := stays_change serial f

theorem stays_admits : Admits Stays where
  toChains := stays_chains
  log _ _ begun := begun
  trace _ _ begun := begun
  lookup := stays_lookup

end Begun

/-- A registry that operations, new creators and the jobs of compilers have made
    of a new one, also when some of them were given up. -/
inductive Arises : Registry → Prop
  | made {withBuiltins : Bool} {divider : Text} {r : Registry} (made : Registry.make withBuiltins divider = .ok r) :
      Arises r
  | operation {st : State} (operation : Operation) (before : Arises st.registry) :
      Arises (stateAfter operation.work st).registry
  | creator {st : State} (c : Creator) (before : Arises st.registry) : Arises (stateAfter (addCreator c) st).registry
  | job {st : State} (s : Settings) (job : Job) (before : Arises st.registry) :
      Arises (stateAfter (job.work s) st).registry

theorem Arises.begun {r : Registry} (arises : Arises r) : r.Begun := by
  induction arises with
  | made made => exact .make made
  | operation operation _ begun =>
    exact operation.within Begun.stays_operates (fun _ _ begun => begun) Begun.stays_register Begun.stays_change _ begun
  | creator c _ begun =>
    obtain ⟨others, same⟩ := begun.creators
    exact ⟨⟨others ++ [c], congrArg (· ++ [c]) same⟩, begun.named⟩
  | job s job _ begun => exact job.within Begun.stays_admits (fun _ _ begun => begun) s _ begun

/-- A key that is not stored, and whose first divider stands behind a stored
    namespace, is made from that namespace for the member behind the divider, if no
    character of the divider is in the namespace. Otherwise the namespace is not
    asked, and no other one is: what is left are the other creators. -/
theorem lookup_first_divider (arises : Arises st.registry) (divider : st.registry.divider = D) (some_ : D ≠ [])
    (stands : st.registry.entries.get? ns = some e) (solid : member ≠ []) (line : '\n' ∉ member)
    (first : Text.indexOf? D (ns ++ D ++ member) = some ns.length)
    (missing : st.registry.entries.get? (ns ++ D ++ member) = none) :
    ∃ others, st.registry.creators = .namespaces :: others ∧
      lookup (ns ++ D ++ member) st =
        if Undivided D ns then fromNamespace e member ns (ns ++ D ++ member) others st
        else createFirst (ns ++ D ++ member) others st := by
  have begun := arises.begun
  obtain ⟨others, creators⟩ := begun.creators
  have named : ns ≠ [] := by
    rintro rfl
    rw [begun.named] at stands
    cases stands
  have cut : splitKey? st.registry.divider (ns ++ D ++ member) =
      if Undivided D ns then some (ns, member) else none := by
    rw [divider]
    exact splitKey?_first first some_ named solid line
  refine ⟨others, creators, ?_⟩
  split
  · rename_i apart
    rw [if_pos apart] at cut
    exact lookup_fromNamespace creators missing ⟨cut, stands⟩
  · rename_i mixed
    rw [if_neg mixed] at cut
    refine lookup_unasked creators missing fun ns' member' e' asks => ?_
    rw [asks.split] at cut
    cases cut

/-- A registry whose divider is two dashes, and a namespace with a dash in its name
    beside one without. -/
def dashed : State :=
  stateAfter (Operation.setup (.register (lit "my-ui") fading false)).work
    (stateAfter (Operation.setup (.register (lit "fx") fading false)).work { registry := { divider := lit "--" } })

theorem lookup_first_divider_dashed :
    Arises dashed.registry ∧ dashed.registry.divider = lit "--" ∧
      (∃ e st', lookup (lit "fx--open") dashed = .ok (some e) st' ∧ e.handler.description = lit "open" ∧
        st'.journal = [.synthesized (lit "fx--open") (lit "fx")]) ∧
      Text.indexOf? (lit "--") (lit "my-ui--open") = some (lit "my-ui").length ∧
      (dashed.registry.entries.get? (lit "my-ui")).isSome ∧
      lookup (lit "my-ui--open") dashed = .ok none dashed := by
  have made : Registry.make false (lit "--") = .ok { divider := lit "--" } := rfl
  have start : Arises ({ registry := { divider := lit "--" } } : State).registry := .made made
  have arises : Arises dashed.registry := .operation _ (.operation _ start)
  refine ⟨arises, rfl, ?_, by decide, rfl, ?_⟩
  · obtain ⟨others, creators, looked⟩ := @lookup_first_divider (lit "--") (lit "fx") (lit "open") dashed _ arises rfl
      (by decide) rfl (by decide) (by decide) (by decide) rfl
    rw [if_pos (by decide)] at looked
    exact ⟨_, _, looked, rfl, rfl⟩
  · obtain ⟨others, creators, looked⟩ := @lookup_first_divider (lit "--") (lit "my-ui") (lit "open") dashed _ arises rfl
      (by decide) rfl (by decide) (by decide) (by decide) rfl
    rw [if_neg (by decide)] at looked
    cases creators
    exact looked

end Registry
end Bindmark
