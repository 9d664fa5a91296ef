import Bindmark.Interpolation.Attributes
import Bindmark.Proofs.Dividers

/-!
# The attribute namespace

The standard setup sees to it that the attribute namespace is registered and that
the handlers of its members get filters. The directive key of an attribute is put
together with the divider of the settings, but cut with that of the registry.
With the same divider in both, the key leads to the handler that the namespace
makes for the attribute, whatever the compiler has done before. With different
ones, the namespace is never asked for it.
-/

namespace Bindmark

open Work

/-! ## Handlers with a stage -/

/-- A stage that the values of a directive go through. -/
def Handler.Runs (h : Handler) (stage : Stage) : Prop :=
  ∃ pipeline, h.preprocess = some pipeline ∧ stage ∈ pipeline.toList

namespace Handler

variable {h : Handler} {stage : Stage}

theorem Runs.addPreprocessor (runs : h.Runs stage) (p : Preprocessor) : (h.addPreprocessor p).Runs stage := by
  obtain ⟨pipeline, staged, inside⟩ := runs
  refine ⟨.andThen pipeline (.stage (.apply p)), ?_, List.mem_append_left _ inside⟩
  rw [Handler.addPreprocessor, staged]
  rfl

theorem runs_filters (h : Handler) : (h.addPreprocessor .filters).Runs (.apply .filters) := by
  refine ⟨Pipeline.chain h.preprocess (.stage (.apply .filters)), ?_, ?_⟩
  · rw [Handler.addPreprocessor, Preprocessor.addTo]
    intro given same
    cases same
  · cases h.preprocess with
    | none => exact List.mem_singleton_self _
    | some pipeline => exact List.mem_append_right _ (List.mem_singleton_self _)

theorem Runs.foldl (runs : h.Runs stage) (ps : List Preprocessor) :
    (ps.foldl Handler.addPreprocessor h).Runs stage := by
  induction ps generalizing h with
  | nil => exact runs
  | cons p ps ih => exact ih (runs.addPreprocessor p)

theorem runs_foldl {ps : List Preprocessor} (inside : .filters ∈ ps) (h : Handler) :
    (ps.foldl addPreprocessor h).Runs (.apply .filters) := by
  obtain ⟨before, after, rfl⟩ := List.append_of_mem inside
  rw [List.foldl_append, List.foldl_cons]
  exact (runs_filters _).foldl after

/-- A namespace with filters for its members makes handlers with filters. -/
theorem runs_memberFor {made : Handler} {member ns key : Text} (inside : .filters ∈ h.synthesisOf.added)
    (makes : h.memberFor member ns key = .ok (some made)) : made.Runs (.apply .filters) := by
  unfold memberFor at makes
  cases source : h.synthesisOf.source with
  | standard =>
    rw [source] at makes
    cases makes
    exact runs_foldl inside _
  | client respond =>
    simp only [source] at makes
    cases answer : respond member ns key with
    | error f =>
      rw [answer] at makes
      cases makes
    | ok made? =>
      rw [answer] at makes
      cases made? with
      | none => cases makes
      | some first =>
        cases makes
        exact runs_foldl inside first

end Handler

/-- The handler that a client's function makes for a key, if any. -/
def CreatorClient.answer? (c : CreatorClient) (key : Text) : Option Handler :=
  match Text.dropLeading? c.start key with
  | none => none
  | some member => if member.isEmpty || member.contains '\n' then none else c.respond member key

namespace Registry

variable {key ns : Text} {st st' : State} {e : Entry}

/-! ## What lookups keep -/

/-- Only one key may lead to another handler than before. -/
structure Apart (key : Text) (r r' : Registry) : Prop where
  creators : r'.creators = r.creators
  divider : r'.divider = r.divider
  others : ∀ k, k ≠ key → r'.entries.get? k = r.entries.get? k

theorem apart_looks (key : Text) : Looks key fun st st' => Apart key st.registry st'.registry where
  refl _ := ⟨rfl, rfl, fun _ _ => rfl⟩
  trans first second := ⟨second.creators.trans first.creators, second.divider.trans first.divider,
    fun k other => (second.others k other).trans (first.others k other)⟩
  log _ _ := ⟨rfl, rfl, fun _ _ => rfl⟩
  trace _ _ := ⟨rfl, rfl, fun _ _ => rfl⟩
  store h st := by
    refine ⟨rfl, rfl, fun k other => ?_⟩
    exact (get?_store st.registry key h k).trans (if_neg other)
  storeLoose _ _ := ⟨rfl, rfl, fun _ _ => rfl⟩
  allowVirtual _ := ⟨rfl, rfl, fun _ _ => rfl⟩

/-- A registry that has kept the entries of another one, with its creators and its
    divider. -/
structure Persists (r r' : Registry) : Prop where
  creators : r'.creators = r.creators
  divider : r'.divider = r.divider
  entries : ∀ k e, r.entries.get? k = some e → r'.entries.get? k = some e

theorem Persists.refl (r : Registry) : Persists r r := ⟨rfl, rfl, fun _ _ stands => stands⟩

theorem Persists.trans {r r' r'' : Registry} (first : Persists r r') (second : Persists r' r'') : Persists r r'' :=
  ⟨second.creators.trans first.creators, second.divider.trans first.divider,
    fun k e stands => second.entries k e (first.entries k e stands)⟩

theorem persists_admits : Admits fun st st' => Persists st.registry st'.registry where
  refl _ := .refl _
  trans first second := first.trans second
  log _ _ := ⟨rfl, rfl, fun _ _ stands => stands⟩
  trace _ _ := ⟨rfl, rfl, fun _ _ stands => stands⟩
  lookup key st := by
    cases stood : st.registry.entries.get? key with
    | some e =>
      rw [stateAfter_ok (lookup_stored stood)]
      exact ⟨rfl, rfl, fun _ _ stands => stands⟩
    | none =>
      have apart := (apart_looks key).lookup st
      refine ⟨apart.creators, apart.divider, fun k e stands => ?_⟩
      have other : k ≠ key := by
        rintro rfl
        rw [stood] at stands
        cases stands
      rw [apart.others k other, stands]

/-! ## Lookups that find nothing -/

theorem create_client (c : CreatorClient) (key : Text) (st : State) : ∃ calls, create key (.client c) st =
    match c.answer? key with
    | none => .ok none { st with calls }
    | some h => .ok (some (st.registry.nextEntry h))
        { st with calls, registry := if c.stores then st.registry.store key h else st.registry.storeLoose h } := by
  unfold create CreatorClient.create CreatorClient.answer?
  dsimp only
  cases Text.dropLeading? c.start key with
  | none => exact ⟨st.calls, rfl⟩
  | some member =>
    dsimp only
    split
    · exact ⟨st.calls, rfl⟩
    · refine ⟨st.calls ++ [.create member key], ?_⟩
      cases c.respond member key with
      | none => rfl
      | some h =>
        cases c.stores
        · rfl
        · rfl

theorem registry_of_create_none {c : Creator} (declined : create key c st = .ok none st') :
    st'.registry = st.registry := by
  cases c with
  | namespaces =>
    rcases exists_namespace_or_createMember_none key st with ⟨ns, member, e, split, stands⟩ | nothing
    · have made := createMember_apply split stands
      rw [show createMember key st = .ok none st' from declined] at made
      cases answer : e.handler.memberFor member ns key with
      | error f => simp [answer] at made
      | ok made? =>
        cases made? with
        | none =>
          simp only [answer, EStateM.Result.ok.injEq, true_and] at made
          rw [made]
          rfl
        | some h => simp [answer] at made
    · rw [show createMember key st = .ok none st' from declined] at nothing
      cases nothing
      rfl
  | client c =>
    obtain ⟨calls, made⟩ := create_client c key st
    rw [declined] at made
    cases answer : c.answer? key with
    | none =>
      simp only [answer, EStateM.Result.ok.injEq, true_and] at made
      rw [made]
    | some h => simp [answer] at made

theorem registry_of_createFirst_none {creators : List Creator} (declined : createFirst key creators st = .ok none st') :
    st'.registry = st.registry := by
  induction creators generalizing st with
  | nil =>
    cases declined
    rfl
  | cons c creators ih =>
    obtain ⟨entry, st₁, first, rest⟩ := bind_eq_ok declined
    cases entry with
    | some e => cases rest
    | none => rw [ih rest, registry_of_create_none first]

/-- A lookup that finds nothing leaves the registry as it is. -/
theorem registry_of_lookup_none (nothing : lookup key st = .ok none st') :
    st'.registry = st.registry ∧ st.registry.entries.get? key = none := by
  cases stood : st.registry.entries.get? key with
  | some e =>
    rw [lookup_stored stood] at nothing
    cases nothing
  | none =>
    rw [lookup, bind_ok (registry_apply st)] at nothing
    simp only [stood] at nothing
    exact ⟨registry_of_createFirst_none nothing, rfl⟩

/-! ## Lookups that make a handler -/

/-- What a creator makes for a key gets the next serial number, and is stored under the
    key, unless a client made it that does not store. -/
theorem create_some {c : Creator} (made : create key c st = .ok (some e) st') :
    ∃ h, e = st.registry.nextEntry h ∧ (st'.registry.entries.get? key = some e ∨
      ∃ loose, c = .client loose ∧ loose.stores = false ∧ loose.answer? key = some h) := by
  cases c with
  | namespaces =>
    change createMember key st = _ at made
    rcases exists_namespace_or_createMember_none key st with ⟨ns, member, entry, split, stands⟩ | nothing
    · rw [createMember_apply split stands] at made
      split at made
      · rename_i h _
        cases made
        exact ⟨h, rfl, .inl ((get?_withMember st.registry key ns h key).trans (if_pos rfl))⟩
      · cases made
      · cases made
    · rw [nothing] at made
      cases made
  | client c =>
    obtain ⟨calls, ran⟩ := create_client c key st
    rw [ran] at made
    cases answer : c.answer? key with
    | none =>
      rw [answer] at made
      cases made
    | some h =>
      rw [answer] at made
      cases made
      refine ⟨h, rfl, ?_⟩
      cases stores : c.stores with
      | true => exact .inl (get?_store_self st.registry key h)
      | false => exact .inr ⟨c, rfl, stores, answer⟩

theorem createFirst_some {creators : List Creator} (made : createFirst key creators st = .ok (some e) st') :
    ∃ h, e = st.registry.nextEntry h ∧ (st'.registry.entries.get? key = some e ∨
      ∃ loose, .client loose ∈ creators ∧ loose.stores = false ∧ loose.answer? key = some h) := by
  induction creators generalizing st with
  | nil => cases made
  | cons c creators ih =>
    obtain ⟨entry, st₁, first, rest⟩ := bind_eq_ok made
    cases entry with
    | none =>
      obtain ⟨h, next, stored | ⟨loose, inside, others⟩⟩ := ih rest
      · exact ⟨h, registry_of_create_none first ▸ next, .inl stored⟩
      · exact ⟨h, registry_of_create_none first ▸ next, .inr ⟨loose, List.mem_cons_of_mem _ inside, others⟩⟩
    | some e' =>
      cases rest
      obtain ⟨h, next, stored | ⟨loose, rfl, others⟩⟩ := create_some first
      · exact ⟨h, next, .inl stored⟩
      · exact ⟨h, next, .inr ⟨loose, List.mem_cons_self .., others⟩⟩

/-! ## What configuring keeps -/

/-- A registry that has kept the handlers of another one, with nothing but additions
    to how they make those of their members. -/
structure Extended (r r' : Registry) : Prop where
  creators : r'.creators = r.creators
  divider : r'.divider = r.divider
  entries : ∀ k e, r.entries.get? k = some e → ∃ e', r'.entries.get? k = some e' ∧ e.handler.Extends e'.handler

namespace Extended

theorem ofPersists {r r' : Registry} (persists : Persists r r') : Extended r r' :=
  ⟨persists.creators, persists.divider, fun k e stands => ⟨e, persists.entries k e stands, .refl _⟩⟩

theorem store {r : Registry} (missing : r.entries.get? key = none) (h : Handler) : Extended r (r.store key h) :=
  ofPersists ⟨rfl, rfl, fun _ _ stands => get?_store_of_missing missing stands h⟩

theorem change (r : Registry) (serial : Nat) {f : Handler → Handler} (extends_ : ∀ h : Handler, h.Extends (f h)) :
    Extended r (r.change serial f) := by
  refine ⟨rfl, rfl, fun k e stands => ⟨changeEntry serial f e, ?_, ?_⟩⟩
  · rw [get?_change, stands]
    rfl
  · unfold changeEntry
    split
    · exact extends_ e.handler
    · exact .refl e.handler

theorem chains : Chains fun st st' => Extended st.registry st'.registry where
  refl st := ofPersists (persists_admits.refl st)
  trans first second := by
    refine ⟨second.creators.trans first.creators, second.divider.trans first.divider, fun k e stands => ?_⟩
    obtain ⟨e', stands', added⟩ := first.entries k e stands
    obtain ⟨e'', stands'', added'⟩ := second.entries k e' stands'
    exact ⟨e'', stands'', added.trans added'⟩

theorem lookup (key : Text) : Within (fun st st' => Extended st.registry st'.registry) (Registry.lookup key) :=
  fun st => ofPersists (persists_admits.lookup key st)

theorem getOrCreate (key : Text) :
    Within (fun st st' => Extended st.registry st'.registry) (Registry.getOrCreate key) := by
  intro st
  have looked := lookup key st
  rw [stateAfter, Registry.getOrCreate, bind_apply]
  cases ran : Registry.lookup key st with
  | error f st₁ =>
    rw [stateAfter_error ran] at looked
    exact looked
  | ok entry st₁ =>
    rw [stateAfter_ok ran] at looked
    cases entry with
    | some e => exact looked
    | none =>
      obtain ⟨same, missing⟩ := registry_of_lookup_none ran
      cases key with
      | nil => exact looked
      | cons c rest => exact chains.trans looked (store (same ▸ missing) {})

theorem operates : Operates fun st st' => Extended st.registry st'.registry where
  toChains := chains
  lookup := lookup
  getOrCreate := getOrCreate
  change serial _ extends_ st := change st.registry serial extends_

end Extended

/-! ## Registering a namespace -/

/-- No client's function makes a handler for a key without storing it. -/
def Keeps (r : Registry) (key : Text) : Prop :=
  ∀ c, .client c ∈ r.creators → c.stores = false → c.answer? key = none

theorem createFirst_stores {creators : List Creator} (whole : splitKey? st.registry.divider key = none)
    (kept : ∀ c, .client c ∈ creators → c.stores = false → c.answer? key = none) :
    ∃ entry st', createFirst key creators st = .ok entry st' ∧
      match entry with
      | none => st'.registry = st.registry
      | some e => st'.registry.entries.get? key = some e := by
  induction creators generalizing st with
  | nil => exact ⟨none, st, rfl, rfl⟩
  | cons c creators ih =>
    have later := fun c inside => kept c (List.mem_cons_of_mem _ inside)
    cases c with
    | namespaces =>
      have nothing : create key .namespaces st = .ok none st := by
        rw [create, createMember, bind_ok (registry_apply st)]
        simp only [whole]
        rfl
      rw [createFirst, bind_ok nothing]
      exact ih whole later
    | client c =>
      obtain ⟨calls, made⟩ := create_client c key st
      cases answer : c.answer? key with
      | none =>
        simp only [answer] at made
        rw [createFirst, bind_ok made]
        exact @ih { st with calls } whole later
      | some h =>
        have stores : c.stores = true := by
          by_contra loose
          have none := kept c (List.mem_cons_self ..) (by simpa using loose)
          rw [answer] at none
          cases none
        simp only [answer, stores, if_true] at made
        rw [createFirst, bind_ok made]
        exact ⟨_, _, rfl, get?_store_self st.registry key h⟩

/-- A key that is not cut has an entry afterwards. -/
theorem getOrCreate_stores (whole : splitKey? st.registry.divider key = none) (some_ : key ≠ [])
    (kept : st.registry.Keeps key) :
    ∃ e st', getOrCreate key st = .ok e st' ∧ st'.registry.entries.get? key = some e := by
  have registered (st : State) : ∃ e st', register key {} false st = .ok e st' ∧
      st'.registry.entries.get? key = some e := by
    obtain ⟨c, rest, rfl⟩ := List.exists_cons_of_ne_nil some_
    exact ⟨st.registry.nextEntry {}, { st with registry := st.registry.store (c :: rest) {} }, rfl,
      get?_store_self st.registry (c :: rest) {}⟩
  cases stood : st.registry.entries.get? key with
  | some e => exact ⟨e, st, by rw [getOrCreate, bind_ok (lookup_stored stood)]; rfl, stood⟩
  | none =>
    obtain ⟨entry, st', ran, after⟩ := createFirst_stores whole kept
    have looked : lookup key st = .ok entry st' := by
      rw [lookup, bind_ok (registry_apply st)]
      simp only [stood, ran]
    rw [getOrCreate, bind_ok looked]
    cases entry with
    | some e => exact ⟨e, st', rfl, after⟩
    | none => exact registered st'

end Registry

/-! ## The standard setup -/

namespace Standard

open Registry

variable {s : Settings} {st st' : State} {u : Unit}

theorem splitMembers_registers {key : Text} (whole : splitKey? st.registry.divider key = none) (some_ : key ≠ [])
    (kept : st.registry.Keeps key) (ran : splitMembers key st = .ok u st') :
    ∃ e, st'.registry.entries.get? key = some e := by
  obtain ⟨e, st₁, stored, stands⟩ := getOrCreate_stores whole some_ kept
  rw [splitMembers, bind_ok stored] at ran
  have changed := (Extended.operates.changeHandler e fun h => .addStage h .members).discard st₁
  rw [stateAfter_ok ran] at changed
  obtain ⟨e', stands', -⟩ := changed.entries key e stands
  exact ⟨e', stands'⟩

/-- A preprocessor for members is among those that a stored namespace adds. -/
theorem addMemberPreprocessor_adds {ns : Text} {e : Entry} {p : Preprocessor}
    (stands : st.registry.entries.get? ns = some e) (ran : addMemberPreprocessor ns p st = .ok u st') :
    ∃ e', st'.registry.entries.get? ns = some e' ∧ p ∈ e'.handler.synthesisOf.added := by
  rw [addMemberPreprocessor, bind_ok (lookup_stored stands)] at ran
  cases ran
  refine ⟨_, (get?_change st.registry e.serial _ ns).trans (by rw [stands, Option.map_some]), ?_⟩
  rw [changeEntry, if_pos rfl]
  exact List.mem_append_right _ (List.mem_singleton_self p)

/-- The standard setup keeps all handlers, and registers the attribute namespace
    with filters for its members. -/
theorem install_registers (whole : splitKey? st.registry.divider s.attributeNamespace = none)
    (some_ : s.attributeNamespace ≠ []) (kept : st.registry.Keeps s.attributeNamespace)
    (ran : install s st = .ok u st') :
    ∃ e, st'.registry.entries.get? s.attributeNamespace = some e ∧ .filters ∈ e.handler.synthesisOf.added := by
  have extends_ {w : Work Unit} {st st' : State} {u : Unit} {e : Entry}
      (within : Within (fun st st' => Extended st.registry st'.registry) w) (ran : w st = .ok u st')
      (stands : st.registry.entries.get? s.attributeNamespace = some e) :
      ∃ e', st'.registry.entries.get? s.attributeNamespace = some e' ∧ e.handler.Extends e'.handler := by
    have extended := within st
    rw [stateAfter_ok ran] at extended
    exact extended.entries _ e stands
  have operates := Extended.operates
  rw [install_eq_installDirectives] at ran
  obtain ⟨_, st₁, texts, ran⟩ := bind_eq_ok ran
  obtain ⟨_, st₃, attributes, ran⟩ := bind_eq_ok ran
  obtain ⟨_, st₂, members, staged⟩ := bind_eq_ok attributes
  obtain ⟨e, stands⟩ : ∃ e, st₂.registry.entries.get? s.attributeNamespace = some e := by
    refine splitMembers_registers ?_ some_ ?_ members
    · cases texts
      exact whole
    · cases texts
      exact kept
  obtain ⟨_, st₄, others, ran⟩ := bind_eq_ok ran
  obtain ⟨r, _, ran₅, ran⟩ := bind_eq_ok ran
  cases staged
  cases ran₅
  obtain ⟨_, st₅, checked, ran⟩ := bind_eq_ok ran
  obtain ⟨_, st₆, filtered, ran⟩ := bind_eq_ok ran
  obtain ⟨_, st₇, added, ran⟩ := bind_eq_ok ran
  obtain ⟨_, stands, -⟩ := extends_ (operates.forM operates.splitMembers _) others stands
  obtain ⟨_, stands, -⟩ := extends_ (operates.addAfter _ _) checked stands
  have filters := operates.forM (fun key => .discard (operates.addPreprocessor key .filters)) filterDirectives
  obtain ⟨_, stands, -⟩ := extends_ filters filtered stands
  obtain ⟨e, stands, inside⟩ := addMemberPreprocessor_adds stands added
  have callbacks : Within (fun st st' => Extended st.registry st'.registry) (do
      callbackDirectives.forM addReferences
      addMemberPreprocessor (lit "event") .references
      templateCallbacks.forM addTemplateCallback) :=
    operates.bind (operates.forM (fun key => .discard (operates.addPreprocessor key _)) _) fun _ =>
      operates.bind (operates.addMemberPreprocessor _ _) fun _ =>
        operates.forM (fun property => .discard (operates.addPropertyPreprocessor _ property _)) _
  obtain ⟨e', stands', later⟩ := extends_ callbacks ran stands
  exact ⟨e', stands', later.added.subset inside⟩

end Standard

/-! ## Compilers at work -/

namespace Compiler

open Registry Interpolation

variable {c : Compiler} {key ns member : Text} {e : Entry} {h : Handler} {d : Char}

/-- A relation that preprocessing stays within relates the registry of a compiler to
    that after any jobs. -/
theorem registry_after {R : Registry → Registry → Prop} (admits : Admits fun st st' => R st.registry st'.registry) :
    ∀ (jobs : List Job) (c : Compiler), R c.state.registry (c.after jobs).state.registry
  | [], c => admits.refl c.state
  | job :: jobs, c => by
    have first : R c.state.registry (c.run (job.work c.settings)).2.state.registry := by
      rw [state_run]
      exact job.within admits (fun _ st => admits.refl st) c.settings { c.state with calls := [], journal := [] }
    have later := registry_after admits jobs (c.run (job.work c.settings)).2
    exact admits.trans first later

theorem run_ok {α : Type} {w : Work α} {a : α} : (c.run w).1 = .ok a ↔
    ∃ st', w { c.state with calls := [], journal := [] } = .ok a st' := by
  rw [run]
  cases w { c.state with calls := [], journal := [] } with
  | ok b st => simp [outcome]
  | error f st => simp [outcome]

/-- A key leads to the handler that a stored namespace makes for it, or is not yet
    stored. -/
structure Awaits (d : Char) (key ns : Text) (e : Entry) (h : Handler) (r : Registry) : Prop where
  begun : Begun r
  divider : r.divider = [d]
  stands : r.entries.get? ns = some e
  made : ∀ e', r.entries.get? key = some e' → e'.handler = h

theorem Awaits.lookup {st : State} (awaits : Awaits d key ns e h st.registry)
    (split : splitKey? [d] key = some (ns, member)) (makes : e.handler.memberFor member ns key = .ok (some h)) :
    ∃ e', e'.handler = h ∧ ∃ st', Registry.lookup key st = .ok (some e') st' ∧
      st'.registry.entries.get? key = some e' := by
  cases stood : st.registry.entries.get? key with
  | some e' => exact ⟨e', awaits.made e' stood, st, lookup_stored stood, stood⟩
  | none =>
    obtain ⟨others, creators⟩ := awaits.begun.creators
    have looked := lookup_fromNamespace creators stood ⟨awaits.divider ▸ split, awaits.stands⟩
    simp only [fromNamespace, makes] at looked
    exact ⟨_, rfl, _, looked, by rw [get?_withMember, if_pos rfl]⟩

theorem awaits_admits (split : splitKey? [d] key = some (ns, member))
    (makes : e.handler.memberFor member ns key = .ok (some h)) :
    Admits fun st st' => Awaits d key ns e h st.registry → Awaits d key ns e h st'.registry where
  refl _ awaits := awaits
  trans first second awaits := second (first awaits)
  log _ _ awaits := awaits
  trace _ _ awaits := awaits
  lookup k st awaits := by
    have persists := persists_admits.lookup k st
    refine ⟨Begun.stays_lookup k st awaits.begun, persists.divider.trans awaits.divider,
      persists.entries _ _ awaits.stands, fun e' stands => ?_⟩
    by_cases same : k = key
    · subst same
      obtain ⟨e₁, made, st', looked, stored⟩ := awaits.lookup split makes
      rw [stateAfter_ok looked, stored] at stands
      cases stands
      exact made
    · have apart := (apart_looks k).lookup st
      rw [apart.others key (Ne.symm same)] at stands
      exact awaits.made e' stands

/-- A key that a stored namespace makes a handler for leads to that handler after any
    jobs. -/
theorem resolves_after (begun : Begun c.state.registry) (divider : c.state.registry.divider = [d])
    (split : splitKey? [d] key = some (ns, member)) (stands : c.state.registry.entries.get? ns = some e)
    (missing : c.state.registry.entries.get? key = none)
    (makes : e.handler.memberFor member ns key = .ok (some h)) (jobs : List Job) :
    ∃ e', ((c.after jobs).run (Registry.lookup key)).1 = .ok (some e') ∧ e'.handler = h := by
  have awaits : Awaits d key ns e h c.state.registry :=
    ⟨begun, divider, stands, fun e' stood => by rw [missing] at stood; cases stood⟩
  have later : Awaits d key ns e h (c.after jobs).state.registry :=
    registry_after (R := fun r r' => Awaits d key ns e h r → Awaits d key ns e h r') (awaits_admits split makes) jobs c
      awaits
  have cleared : Awaits d key ns e h ({ (c.after jobs).state with calls := [], journal := [] } : State).registry :=
    later
  obtain ⟨e', made, st', looked, -⟩ := cleared.lookup split makes
  exact ⟨e', run_ok.mpr ⟨st', looked⟩, made⟩

/-- In a compiler with the standard setup, the key that is chosen for an attribute
    leads to its own handler, if it has one. Otherwise the attribute namespace, which
    is registered with filters for its members, is asked for the handler exactly if
    the settings and the registry have the same divider. What it makes then has
    filters, and is what the key leads to from then on, whatever the compiler does. -/
theorem attributeKey_resolves {s : Settings} {r : Registry} {verbosity : Option Int} {d' : Char} {name : Text}
    (arises : Arises r) (made : Compiler.ofRegistry s verbosity true r = .ok c)
    (settings : s.namespaceDivider = [d]) (registry : r.divider = [d']) (named : s.attributeNamespace ≠ [])
    (free : d ∉ s.attributeNamespace) (free' : d' ∉ s.attributeNamespace) (some_ : name ≠ []) (line : '\n' ∉ name)
    (oneWay : name ∉ s.twoWayAttributes) (jobs : List Job) (own : ((c.after jobs).run (lookup name)).1 = .ok none) :
    ∃ key, key = s.attributeNamespace ++ d :: name ∧
      ((c.after jobs).run (attributeKey s name)).1 = .ok key ∧
      (∀ e, c.state.registry.entries.get? key = some e → ((c.after jobs).run (lookup key)).1 = .ok (some e)) ∧
      (r.Keeps s.attributeNamespace → ∃ e, c.state.registry.entries.get? s.attributeNamespace = some e ∧
        .filters ∈ e.handler.synthesisOf.added ∧
        ((∃ member e', (c.after jobs).state.registry.Asks key s.attributeNamespace member e') ↔ d = d') ∧
        (d = d' → c.state.registry.entries.get? key = none → ∀ h,
          e.handler.memberFor name s.attributeNamespace key = .ok (some h) →
            h.Runs (.apply .filters) ∧
            ∃ e', ((c.after jobs).run (lookup key)).1 = .ok (some e') ∧ e'.handler = h)) := by
  obtain ⟨u, ran⟩ := Standard.install_ofRegistry made
  have extended : Extended r c.state.registry := by
    have within := Extended.operates.install (fun _ st => Extended.chains.refl st) s { registry := r }
    rwa [stateAfter_ok ran] at within
  have begun : Begun c.state.registry := by
    have within := Begun.stays_operates.install (fun _ st => Begun.stays_chains.refl st) s { registry := r }
    rw [stateAfter_ok ran] at within
    exact within arises.begun
  have divider : c.state.registry.divider = [d'] := extended.divider.trans registry
  have persists := registry_after persists_admits jobs c
  refine ⟨_, rfl, ?_, fun e stands => run_ok.mpr ⟨_, lookup_stored (persists.entries _ _ stands)⟩, fun kept => ?_⟩
  · obtain ⟨st', nothing⟩ := run_ok.mp own
    refine run_ok.mpr ⟨st', ?_⟩
    rw [attributeKey, if_neg (by simpa using oneWay), bind_ok nothing, settings]
    simp [pure_apply]
  · have whole : splitKey? r.divider s.attributeNamespace = none := by
      rw [registry]
      exact splitKey?_eq_none fun c inside same => free' (List.mem_singleton.mp same ▸ inside)
    obtain ⟨e, stands, inside⟩ := Standard.install_registers whole named kept ran
    refine ⟨e, stands, inside, ⟨?_, ?_⟩, ?_⟩
    · rintro ⟨member, e', asks⟩
      have split := asks.split
      rw [persists.divider, divider, splitKey?_eq_some_iff] at split
      exact (List.cons.inj (List.append_cancel_left split.split)).1
    · rintro rfl
      refine ⟨name, e, ?_, persists.entries _ _ stands⟩
      rw [persists.divider, divider]
      exact splitKey?_eq_some_iff.mpr ⟨rfl, named, free, some_, line⟩
    · rintro rfl missing h makes
      have split := splitKey?_eq_some_iff.mpr ⟨rfl, named, free, some_, line⟩
      exact ⟨Handler.runs_memberFor inside makes, resolves_after begun divider split stands missing makes jobs⟩

/-- A compiler with the standard setup, whose registry has a divider of its own. -/
def divided (divider : Text) : Compiler where
  settings := {}
  verbosity := 1
  state := stateAfter (Standard.install {}) { registry := { divider } }

theorem ofRegistry_divided {divider : Text} (ended : (match Standard.install {} { registry := { divider } } with
    | .ok _ _ => true
    | .error _ _ => false) = true) : ofRegistry {} none true { divider } = .ok (divided divider) := by
  cases installed : Standard.install {} { registry := { divider } } with
  | ok u st =>
    unfold ofRegistry divided
    simp only [if_true]
    rw [stateAfter_ok installed, installed]
    rfl
  | error f st =>
    rw [installed] at ended
    cases ended

theorem attributeKey_resolves_title :
    (∃ e, (((divided (lit ".")).after [.lookup (lit "attr.title")]).run (lookup (lit "attr.title"))).1 = .ok (some e) ∧
      e.handler.Runs (.apply .filters)) ∧
    ((divided (lit "-")).run (attributeKey {} (lit "title"))).1 = .ok (lit "attr.title") ∧
      ∀ member e, ¬ (divided (lit "-")).state.registry.Asks (lit "attr.title") (lit "attr") member e := by
  have fresh {divider : Text} (some_ : divider.isEmpty = false) : Registry.make false divider = .ok { divider } := by
    rw [Registry.make, some_]
    rfl
  have own (c : Compiler) (nothing : (c.run (lookup (lit "title"))).1.toOption.map Option.isNone = some true) :
      (c.run (lookup (lit "title"))).1 = .ok none := by
    cases ran : (c.run (lookup (lit "title"))).1 with
    | error f =>
      rw [ran] at nothing
      cases nothing
    | ok entry =>
      rw [ran] at nothing
      cases entry with
      | none => rfl
      | some e => cases nothing
  constructor
  · have new : Registry.make false (lit ".") = .ok { divider := lit "." } := fresh rfl
    have standard : ofRegistry {} none true { divider := lit "." } = .ok (divided (lit ".")) :=
      ofRegistry_divided (by decide +kernel)
    obtain ⟨key, rfl, -, -, resolves⟩ := attributeKey_resolves (.made new) standard rfl rfl (by decide) (by decide)
      (by decide) (by decide) (by decide) (by decide) [.lookup (lit "attr.title")] (own _ (by decide +kernel))
    obtain ⟨e, stands, -, -, makes⟩ := resolves fun c inside => by simp at inside
    have configured : Configured (divided (lit ".")).state.registry :=
      @Configured.step { registry := { divider := lit "." } } (.install {}) trivial (.made new)
    have derives := configured.plain.derives _ e stands
    obtain ⟨runs, e', found, made⟩ :=
      makes rfl (by decide +kernel) _ (Handler.memberFor_of_derivesMembers derives _ _ _)
    exact ⟨e', found, made ▸ runs⟩
  · have new : Registry.make false (lit "-") = .ok { divider := lit "-" } := fresh rfl
    have standard : ofRegistry {} none true { divider := lit "-" } = .ok (divided (lit "-")) :=
      ofRegistry_divided (by decide +kernel)
    obtain ⟨key, rfl, chosen, -, resolves⟩ := attributeKey_resolves (.made new) standard rfl rfl (by decide)
      (by decide) (by decide) (by decide) (by decide) (by decide) [] (own _ (by decide +kernel))
    obtain ⟨-, -, -, asked, -⟩ := resolves fun c inside => by simp at inside
    refine ⟨chosen, fun member e asks => ?_⟩
    exact absurd (asked.mp ⟨member, e, asks⟩) (by decide)

end Compiler
end Bindmark
