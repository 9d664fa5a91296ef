import Bindmark.Proofs.History

/-!
# Dispatching keys

What looking a key up does in a registry that no creator was added to, whatever
was registered, changed and looked up before, and however namespaces make the
handlers of their members. A stored key has its entry. A key that names a member
of a stored namespace gets what the namespace makes for it, which is stored, so
that the key has it from then on. Every other lookup leaves the registry alone.
-/

namespace Bindmark

open Work

namespace Registry

/-! ## Keys of members -/

/-- A key names a member of a namespace, which its first divider ends. -/
structure IsMember (d : Char) (key ns member : Text) : Prop where
  split : key = ns ++ d :: member
  named : ns ≠ []
  first : d ∉ ns
  some_ : member ≠ []
  line : '\n' ∉ member

variable {d : Char} {key ns member : Text}

theorem splitKey?_cut (first : d ∉ ns) (member : Text) : splitKey? [d] (ns ++ d :: member) =
    if ns.isEmpty || member.isEmpty || member.contains '\n' then none else some (ns, member) := by
  have start : (ns ++ d :: member).takeWhile (fun c => !([d] : Text).contains c) = ns := by
    rw [List.takeWhile_append_of_pos]
    · simp
    · intro c inside
      have other : c ≠ d := fun same => first (same ▸ inside)
      simpa using other
  have behind : Text.dropLeading? [d] (d :: member) = some member := by simp [Text.dropLeading?]
  unfold splitKey?
  dsimp only
  rw [start, List.drop_left, behind]

theorem splitKey?_eq_some_iff : splitKey? [d] key = some (ns, member) ↔ IsMember d key ns member := by
  constructor
  · intro split
    obtain ⟨parts, -, apart⟩ := splitKey?_eq_some split
    have first : d ∉ ns := fun inside => apart d inside (List.mem_singleton_self d)
    rw [List.append_assoc, List.singleton_append] at parts
    rw [parts, splitKey?_cut first] at split
    split at split
    · cases split
    · rename_i solid
      simp only [Bool.or_eq_true, List.isEmpty_iff, List.contains_iff_mem, not_or] at solid
      exact ⟨parts, solid.1.1, first, solid.1.2, solid.2⟩
  · rintro ⟨rfl, named, first, some_, line⟩
    rw [splitKey?_cut first, if_neg]
    simp [named, some_, line]

end Registry

/-! ## Synthesis -/

namespace Handler

variable (h : Handler) (member ns key : Text)

/-- The handler that a namespace makes for a member, unless it declines or its
    function gives up. -/
def memberFor : Except Failure (Option Handler) := do
  let made ← match h.synthesisOf.source with
    | .standard => .ok (some (h.derive member))
    | .client respond => respond member ns key
  return made.map fun made => h.synthesisOf.added.foldl addPreprocessor made

theorem memberFor_of_derivesMembers {h : Handler} (derives : h.DerivesMembers) (member ns key : Text) :
    h.memberFor member ns key = .ok (some (Standard.memberHandler h member)) := by
  rw [memberFor, derivesMembers_iff.mp derives]
  rfl

/-- The calls of clients' functions in making the handler of a member. -/
def synthesisCalls : List Call :=
  match h.synthesisOf.source with
  | .standard => []
  | .client _ => [.synthesize member ns key]

end Handler

namespace Registry

variable {d : Char} {key ns member : Text} {st : State} {e : Entry}

/-- The state with the calls in making the handler of a member. -/
def asked (e : Entry) (member ns key : Text) (st : State) : State :=
  { st with calls := st.calls ++ e.handler.synthesisCalls member ns key }

theorem synthesize_apply (e : Entry) (member ns key : Text) (st : State) :
    synthesize e.handler member ns key st =
      match e.handler.memberFor member ns key with
      | .ok made => .ok made (asked e member ns key st)
      | .error f => .error (.raised f) (asked e member ns key st) := by
  have source : synthesize e.handler member ns key = (do
      let made ← match e.handler.synthesisOf.source with
        | .standard => pure (some (e.handler.derive member))
        | .client respond => do
          Work.trace (.synthesize member ns key)
          match respond member ns key with
          | .ok made => pure made
          | .error f => throw (.raised f)
      return made.map fun made => e.handler.synthesisOf.added.foldl Handler.addPreprocessor made) := rfl
  rw [source, Handler.memberFor, asked, Handler.synthesisCalls]
  cases e.handler.synthesisOf.source with
  | standard =>
    rw [List.append_nil]
    rfl
  | client respond =>
    dsimp only
    cases respond member ns key with
    | ok made => rfl
    | error f => rfl

/-! ## Looking up -/

theorem lookup_stored (stands : st.registry.entries.get? key = some e) : lookup key st = .ok (some e) st := by
  rw [lookup, bind_ok (registry_apply st)]
  simp only [stands]
  rfl

/-- A key that is not stored is made from its namespace, if at all. -/
theorem lookup_missing (only : st.registry.creators = [.namespaces]) (missing : st.registry.entries.get? key = none) :
    lookup key st = createMember key st := by
  rw [lookup, bind_ok (registry_apply st)]
  simp only [missing, only, createFirst, create]
  cases made : createMember key st with
  | error f st' => rw [bind_error made]
  | ok entry st' =>
    rw [bind_ok made]
    cases entry <;> rfl

/-- A key names a member of a stored namespace, or nothing is made for it. -/
theorem exists_namespace_or_createMember_none (key : Text) (st : State) :
    (∃ ns member e, splitKey? st.registry.divider key = some (ns, member) ∧ st.registry.entries.get? ns = some e) ∨
      createMember key st = .ok none st := by
  rw [createMember, bind_ok (registry_apply st)]
  cases split : splitKey? st.registry.divider key with
  | none => exact .inr rfl
  | some parts =>
    obtain ⟨ns, member⟩ := parts
    cases stands : st.registry.entries.get? ns with
    | none => exact .inr (by simp only [stands]; rfl)
    | some e => exact .inl ⟨ns, member, e, rfl, stands⟩

/-- What a stored namespace makes for its member is stored. -/
theorem createMember_apply (split : splitKey? st.registry.divider key = some (ns, member))
    (stands : st.registry.entries.get? ns = some e) :
    createMember key st =
      match e.handler.memberFor member ns key with
      | .ok (some h) => .ok (some (st.registry.nextEntry h))
          { asked e member ns key st with
            registry := st.registry.withMember key ns h
            journal := st.journal ++ [.synthesized key ns] }
      | .ok none => .ok none (asked e member ns key st)
      | .error f => .error (.raised f) (asked e member ns key st) := by
  rw [createMember, bind_ok (registry_apply st)]
  simp only [split, stands]
  have asking := synthesize_apply e member ns key st
  cases made : e.handler.memberFor member ns key with
  | error f =>
    rw [made] at asking
    rw [bind_error asking]
  | ok made? =>
    rw [made] at asking
    rw [bind_ok asking]
    cases made? with
    | none => rfl
    | some h =>
      unfold withMember
      cases st.registry.isVirtual ns
      · rfl
      · rfl

/-! ## Registries without other creators -/

/-- A registry with the creator that every registry has and no other, in which
    comment markers hold stored keys only. -/
structure Sound (r : Registry) : Prop where
  creators : r.creators = [.namespaces]
  stored : ∀ k ∈ r.virtual, ∃ e, r.entries.get? k = some e

namespace Sound

variable {r : Registry}

theorem empty (divider : Text) : Sound { divider } := ⟨rfl, nofun⟩

theorem store (sound : r.Sound) (key : Text) (h : Handler) : (r.store key h).Sound where
  creators := sound.creators
  stored k allowed := by
    rw [get?_store]
    split
    · exact ⟨_, rfl⟩
    · exact sound.stored k allowed

theorem allowVirtual (sound : r.Sound) {key : Text} (stands : ∃ e, r.entries.get? key = some e) :
    (r.allowVirtual key).Sound where
  creators := sound.creators
  stored k allowed := by
    have old : k ∈ r.virtual ∨ k = key := by
      unfold Registry.allowVirtual at allowed
      dsimp only at allowed
      split at allowed
      · exact .inl allowed
      · simpa using allowed
    rcases old with old | rfl
    · exact sound.stored k old
    · exact stands

theorem change (sound : r.Sound) (serial : Nat) (f : Handler → Handler) : (r.change serial f).Sound where
  creators := sound.creators
  stored k allowed := by
    obtain ⟨e, stood⟩ := sound.stored k allowed
    exact ⟨_, by rw [get?_change, stood]; rfl⟩

theorem withMember (sound : r.Sound) (key ns : Text) (h : Handler) : (r.withMember key ns h).Sound where
  creators := (withMember_creators r key ns h).trans sound.creators
  stored k allowed := by
    rw [get?_withMember]
    split
    · exact ⟨_, rfl⟩
    · rename_i other
      refine sound.stored k ?_
      unfold Registry.withMember at allowed
      split at allowed
      · unfold Registry.store Registry.allowVirtual at allowed
        dsimp only at allowed
        split at allowed
        · exact allowed
        · simpa [other] using allowed
      · exact allowed

theorem addBuiltin (sound : r.Sound) (builtin : Text × Bool × Text) : (r.addBuiltin builtin).Sound := by
  obtain ⟨key, isVirtual, description⟩ := builtin
  have stored := sound.store key { description }
  cases isVirtual with
  | false => exact stored
  | true => exact stored.allowVirtual ⟨_, get?_store_self r key _⟩

theorem make {withBuiltins : Bool} {divider : Text} (made : Registry.make withBuiltins divider = .ok r) : r.Sound := by
  have added (builtins : List (Text × Bool × Text)) (r : Registry) (sound : r.Sound) :
      (builtins.foldl Registry.addBuiltin r).Sound := by
    induction builtins generalizing r with
    | nil => exact sound
    | cons builtin builtins ih => exact ih _ (sound.addBuiltin builtin)
  unfold Registry.make at made
  split at made
  · cases made
  · cases made
    split
    · exact added _ _ (empty divider)
    · exact empty divider

/-- A registry that was sound is sound afterwards. -/
def Stays (st st' : State) : Prop := st.registry.Sound → st'.registry.Sound

theorem stays_chains : Chains Stays := ⟨fun _ sound => sound, fun first second sound => second (first sound)⟩

theorem stays_lookup (key : Text) : Within Stays (lookup key) := by
  intro st sound
  cases stands : st.registry.entries.get? key with
  | some e =>
    rw [stateAfter_ok (lookup_stored stands)]
    exact sound
  | none =>
    have made := lookup_missing sound.creators stands
    rcases exists_namespace_or_createMember_none key st with ⟨ns, member, e, split, stood⟩ | nothing
    · rw [createMember_apply split stood] at made
      cases answer : e.handler.memberFor member ns key with
      | error f =>
        rw [answer] at made
        rw [stateAfter_error made]
        exact sound
      | ok made? =>
        rw [answer] at made
        cases made? with
        | none =>
          rw [stateAfter_ok made]
          exact sound
        | some h =>
          rw [stateAfter_ok made]
          exact sound.withMember key ns h
    · rw [stateAfter_ok (made.trans nothing)]
      exact sound

theorem stays_register (key : Text) (h : Handler) (isVirtual : Bool) : Within Stays (register key h isVirtual) := by
  intro st sound
  unfold register
  by_cases empty : key.isEmpty = true
  · rw [if_pos empty]
    exact sound
  · have stored := sound.store key h
    rw [if_neg empty]
    cases isVirtual with
    | false => exact stored
    | true => exact stored.allowVirtual ⟨_, get?_store_self st.registry key h⟩

theorem stays_change (serial : Nat) (f : Handler → Handler) :
    Within Stays (Work.changeRegistry fun r => r.change serial f) :=
  fun _ sound => sound.change serial f

theorem stays_operates : Operates Stays where
  toChains := stays_chains
  lookup := stays_lookup
  getOrCreate key := stays_chains.getOrCreate (stays_lookup key) (stays_register key {} false)
  change serial f _ := stays_change serial f

end Sound

/-! ## Operations -/

/-- An operation on a registry, apart from adding creators. Handlers are
    registered and changed in any way, also in how they make those of members. -/
inductive Operation where
  | setup (step : Setup)
  | lookup (key : Text)
  | getOrCreate (key : Text)
  | changeHandler (entry : Entry) (f : Handler → Handler)
  | addAfter (key earlier : Text)

def Operation.work : Operation → Work Unit
  | .setup step => step.work
  | .lookup key => discard (Registry.lookup key)
  | .getOrCreate key => discard (Registry.getOrCreate key)
  | .changeHandler entry f => discard (Registry.changeHandler entry f)
  | .addAfter key earlier => Registry.addAfter key earlier

/-- A registry that operations have made of a new one, also when some of them
    were given up. -/
inductive Reachable : Registry → Prop
  | made {withBuiltins : Bool} {divider : Text} {r : Registry} (made : Registry.make withBuiltins divider = .ok r) :
      Reachable r
  | step {st : State} (operation : Operation) (before : Reachable st.registry) :
      Reachable (stateAfter operation.work st).registry

/-- Every operation stays within a relation that operations stay within, and any
    registering and changing of handlers. -/
theorem Operation.within {R : State → State → Prop} (operates : Operates R)
    (staged : ∀ stage, Within R (Standard.addNodeStage stage))
    (registered : ∀ key h isVirtual, Within R (register key h isVirtual))
    (changed : ∀ serial f, Within R (Work.changeRegistry fun r => r.change serial f)) (operation : Operation) :
    Within R operation.work := by
  cases operation with
  | setup step => exact Setup.within operates staged step fun key h isVirtual _ => registered key h isVirtual
  | lookup key => exact Within.discard (operates.lookup key)
  | getOrCreate key => exact Within.discard (operates.getOrCreate key)
  | changeHandler entry f =>
    exact Within.discard (operates.bind (changed _ f) fun _ => operates.bind operates.registry fun _ =>
      operates.pure _)
  | addAfter key earlier => exact operates.addAfter key earlier

theorem Operation.stays (operation : Operation) : Within Sound.Stays operation.work :=
  operation.within Sound.stays_operates (fun _ _ sound => sound) Sound.stays_register Sound.stays_change

theorem Reachable.sound {r : Registry} (reachable : Reachable r) : r.Sound := by
  induction reachable with
  | made made => exact .make made
  | step operation _ sound => exact operation.stays _ sound

/-! ## What a lookup does -/

/-- A lookup has made the entry of a key of a namespace: it is stored, all other
    keys have the entries that they had, and looking the key up again gives it
    with no change at all. Comment markers may hold the key, which they could not
    before, exactly if they may hold the namespace. -/
structure Memoized (key ns : Text) (e : Entry) (st st' : State) : Prop where
  stored : st'.registry.entries.get? key = some e
  others : ∀ k, k ≠ key → st'.registry.entries.get? k = st.registry.entries.get? k
  missing : key ∉ st.registry.virtual
  virtual : st'.registry.virtual =
    if ns ∈ st.registry.virtual then st.registry.virtual ++ [key] else st.registry.virtual
  loose : st'.registry.loose = st.registry.loose
  creators : st'.registry.creators = st.registry.creators
  divider : st'.registry.divider = st.registry.divider
  again : lookup key st' = .ok (some e) st'

theorem virtual_withMember {r : Registry} (missing : key ∉ r.virtual) (ns : Text) (h : Handler) :
    (r.withMember key ns h).virtual = if ns ∈ r.virtual then r.virtual ++ [key] else r.virtual := by
  by_cases allowed : ns ∈ r.virtual
  · simp [withMember, isVirtual, allowed, store, allowVirtual, missing]
  · simp [withMember, isVirtual, allowed, store]

theorem loose_withMember {r : Registry} (missing : r.entries.get? key = none) (ns : Text) (h : Handler) :
    (r.withMember key ns h).loose = r.loose := by
  unfold withMember
  split <;> simp [store, allowVirtual, missing]

theorem Sound.memoized (sound : st.registry.Sound) (missing : st.registry.entries.get? key = none) (ns : Text)
    (h : Handler) {st' : State} (registry : st'.registry = st.registry.withMember key ns h) :
    Memoized key ns (st.registry.nextEntry h) st st' := by
  have stored : st'.registry.entries.get? key = some (st.registry.nextEntry h) := by
    rw [registry, get?_withMember, if_pos rfl]
  have notAllowed : key ∉ st.registry.virtual := by
    intro allowed
    obtain ⟨e, stands⟩ := sound.stored key allowed
    rw [missing] at stands
    cases stands
  refine ⟨stored, fun k other => ?_, notAllowed, ?_, ?_, ?_, ?_, lookup_stored stored⟩
  · rw [registry, get?_withMember, if_neg other]
  · rw [registry, virtual_withMember notAllowed]
  · rw [registry, loose_withMember missing]
  · rw [registry, withMember_creators]
  · rw [registry, withMember_divider]

/-- In every registry that operations reach without other creators, and with a
    divider of one character, a stored key has its entry. A key that is not stored
    gets an entry if it names a member of a stored namespace that makes a handler
    for it, and that entry is stored. Otherwise the registry stays as it is: there
    is no entry, or the lookup is given up with the function of the namespace. -/
theorem lookup_dispatches (reachable : Reachable st.registry) (divider : st.registry.divider = [d]) (key : Text) :
    (∀ e, st.registry.entries.get? key = some e → lookup key st = .ok (some e) st) ∧
    (st.registry.entries.get? key = none →
      (∀ ns member e h, IsMember d key ns member → st.registry.entries.get? ns = some e →
        e.handler.memberFor member ns key = .ok (some h) →
          ∃ st', lookup key st = .ok (some (st.registry.nextEntry h)) st' ∧
            Memoized key ns (st.registry.nextEntry h) st st') ∧
      ((∀ ns member e, IsMember d key ns member → st.registry.entries.get? ns = some e →
        e.handler.memberFor member ns key = .ok none) →
          ∃ calls, lookup key st = .ok none { st with calls }) ∧
      ∀ ns member e f, IsMember d key ns member → st.registry.entries.get? ns = some e →
        e.handler.memberFor member ns key = .error f →
          ∃ calls, lookup key st = .error (.raised f) { st with calls }) := by
  have sound := reachable.sound
  refine ⟨fun e stands => lookup_stored stands, fun missing => ?_⟩
  rw [lookup_missing sound.creators missing]
  have cut {ns member : Text} : splitKey? st.registry.divider key = some (ns, member) ↔ IsMember d key ns member := by
    rw [divider]
    exact splitKey?_eq_some_iff
  refine ⟨?_, ?_, ?_⟩
  · intro ns member e h isMember stands made
    rw [createMember_apply (cut.mpr isMember) stands, made]
    exact ⟨_, rfl, sound.memoized missing ns h rfl⟩
  · intro declined
    rcases exists_namespace_or_createMember_none key st with ⟨ns, member, e, split, stands⟩ | nothing
    · rw [createMember_apply split stands, declined ns member e (cut.mp split) stands]
      exact ⟨_, rfl⟩
    · exact ⟨st.calls, nothing⟩
  · intro ns member e f isMember stands raised
    rw [createMember_apply (cut.mpr isMember) stands, raised]
    exact ⟨_, rfl⟩

/-- A handler that makes those of its members, unless they begin with a dash. -/
def fading : Handler :=
  { synthesis := some
      { source := .client fun member _ _ =>
          .ok (if member.head? = some '-' then none else some { description := member }) } }

/-- A registry with such a namespace, which comment markers may hold. -/
def effects : State :=
  stateAfter (Operation.setup (.register (lit "fx") fading true)).work { registry := { divider := lit "." } }

theorem lookup_dispatches_effects :
    Reachable effects.registry ∧ effects.registry.divider = ['.'] ∧
      IsMember '.' (lit "fx.fade.in") (lit "fx") (lit "fade.in") ∧
      (∃ e st', lookup (lit "fx.fade.in") effects = .ok (some e) st' ∧ e.handler.description = lit "fade.in" ∧
        st'.registry.virtual = [lit "fx", lit "fx.fade.in"] ∧ lookup (lit "fx.fade.in") st' = .ok (some e) st') ∧
      ∃ calls, lookup (lit "fx.-") effects = .ok none { effects with calls } := by
  have made : Registry.make false (lit ".") = .ok { divider := lit "." } := rfl
  have start : Reachable ({ registry := { divider := lit "." } } : State).registry := .made made
  have reachable : Reachable effects.registry := .step _ start
  have divider : effects.registry.divider = ['.'] := rfl
  have isMember : IsMember '.' (lit "fx.fade.in") (lit "fx") (lit "fade.in") :=
    ⟨rfl, by decide, by decide, by decide, by decide⟩
  have stands : effects.registry.entries.get? (lit "fx") = some ⟨0, fading⟩ := rfl
  obtain ⟨made, -⟩ := (lookup_dispatches reachable divider (lit "fx.fade.in")).2 rfl
  obtain ⟨st', found, memoized⟩ := made _ _ _ _ isMember stands rfl
  obtain ⟨-, declined, -⟩ := (lookup_dispatches reachable divider (lit "fx.-")).2 rfl
  refine ⟨reachable, divider, isMember, ⟨_, st', found, rfl, ?_, memoized.again⟩, declined ?_⟩
  · rw [memoized.virtual]
    rfl
  · intro ns member e isMember' stood
    have cut : splitKey? ['.'] (lit "fx.-") = some (lit "fx", lit "-") := by decide
    rw [splitKey?_eq_some_iff.mpr isMember'] at cut
    cases cut
    cases stood
    rfl

end Registry
end Bindmark
