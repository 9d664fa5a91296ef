import Bindmark.Proofs.Configuring
import Bindmark.Proofs.History

/-!
# Amended handlers

The standard setup amends handlers, one after the other, and registers an empty
handler where there is none to amend. Its amendments are a list, known from the
settings alone. Where the keys of a registry hold no dividers and its handlers
have serial numbers of their own (`Tidy`), the setup does to the handlers just
what the list says, and leaves the registry as tidy as it was.
-/

namespace Bindmark

open Work

/-! ## Amendments -/

/-- Something that is added to a handler. -/
inductive Amendment where
  | stage (s : Stage)
  /-- A preprocessor for members. -/
  | member (p : Preprocessor)
  | property (name : Text) (p : Preprocessor)
  /-- A directive that is to come before. -/
  | after (earlier : Text)

namespace Amendment

def apply : Amendment → Handler → Handler
  | .stage s, h => h.addStage s
  | .member p, h => h.addMemberPreprocessor p
  | .property name p, h => h.addPropertyPreprocessor name p
  | .after earlier, h => if h.after.contains earlier then h else { h with after := h.after ++ [earlier] }

/-- The handlers of keys once that of one key is amended. -/
def amend (find : Text → Option Handler) (amendment : Text × Amendment) (key : Text) : Option Handler :=
  if key = amendment.1 then some (amendment.2.apply ((find key).getD {})) else find key

theorem amend_self (find : Text → Option Handler) (key : Text) (a : Amendment) :
    amend find (key, a) key = some (a.apply ((find key).getD {})) := if_pos rfl

theorem amend_other (find : Text → Option Handler) {amendment : Text × Amendment} {key : Text}
    (other : key ≠ amendment.1) : amend find amendment key = find key := if_neg other

end Amendment

/-- The amendments of the standard setup under an attribute namespace. -/
def Standard.amendments (ns : Text) : List (Text × Amendment) :=
  [(ns, .stage .members)] ++ ((memberDirectives.filter (· != ns)).map (fun key => (key, .stage .members)) ++
    ([(lit "checked", .after (ns ++ lit "." ++ lit "value"))] ++
    (filterDirectives.map (fun key => (key, .stage (.apply .filters))) ++
    ([(ns, .member .filters)] ++
    (callbackDirectives.map (fun key => (key, .stage (.apply .references))) ++
    ([(lit "event", .member .references)] ++
    templateCallbacks.map fun property => (lit "template", .property property .references)))))))

/-- Adding a preprocessor of the library adds a stage. -/
theorem Handler.addPreprocessor_eq_addStage {p : Preprocessor} (callable : ∀ given, p ≠ .notCallable given)
    {h : Handler} : h.addPreprocessor p = h.addStage (.apply p) := by
  obtain ⟨_, _, slot, _, _, _, _⟩ := h
  cases p with
  | notCallable given => exact absurd rfl (callable given)
  | _ => cases slot <;> rfl

/-- Nothing has been added to a handler. -/
structure Handler.Blank (h : Handler) : Prop where
  preprocess : h.preprocess = none
  synthesis : h.synthesis = none
  after : h.after = []
  properties : h.properties = none

namespace Registry

/-! ## Tidy registries -/

/-- The handler that is registered under a key. -/
def registered (r : Registry) (key : Text) : Option Handler := (r.entries.get? key).map Entry.handler

/-- Keys hold no divider, and no two of them have the same serial number. -/
structure Tidy (r : Registry) : Prop where
  divider : r.divider = lit "."
  creators : r.creators = [.namespaces]
  whole : ∀ key e, r.entries.get? key = some e → '.' ∉ key
  fresh : ∀ key e, r.entries.get? key = some e → e.serial < r.nextSerial
  distinct : ∀ key key' e e', r.entries.get? key = some e → r.entries.get? key' = some e' → e.serial = e'.serial →
    key = key'

/-- A key that is not empty and holds no divider. -/
structure Whole (key : Text) : Prop where
  some_ : key ≠ []
  undivided : '.' ∉ key

instance (key : Text) : Decidable (Whole key) :=
  decidable_of_iff (key ≠ [] ∧ '.' ∉ key) ⟨fun ⟨some_, undivided⟩ => ⟨some_, undivided⟩, fun whole =>
    ⟨whole.some_, whole.undivided⟩⟩

namespace Tidy

variable {r : Registry} {key : Text}

theorem splitKey? (undivided : '.' ∉ key) : Registry.splitKey? (lit ".") key = none :=
  splitKey?_eq_none fun c inside isDivider => by
    obtain rfl := List.mem_singleton.mp isDivider
    exact undivided inside

/-- Only a registered key leads to an entry, if it holds no divider. -/
theorem lookup {st : State} (tidy : st.registry.Tidy) (undivided : '.' ∉ key) :
    Registry.lookup key st = .ok (st.registry.entries.get? key) st := by
  have divided : Registry.splitKey? st.registry.divider key = none := by rw [tidy.divider, splitKey? undivided]
  rw [Registry.lookup, bind_ok (registry_apply st)]
  cases stands : st.registry.entries.get? key with
  | some e => rfl
  | none =>
    have missing : createMember key st = .ok none st := by
      rw [createMember, bind_ok (registry_apply st), divided]
      rfl
    simp only [tidy.creators, createFirst, create]
    rw [bind_ok missing]
    rfl

theorem serials (tidy : r.Tidy) : r.Serials := ⟨tidy.fresh, tidy.distinct⟩

theorem store (tidy : r.Tidy) (undivided : '.' ∉ key) (h : Handler) : (r.store key h).Tidy where
  divider := tidy.divider
  creators := tidy.creators
  whole k e stands := by
    rw [get?_store] at stands
    split at stands
    · rename_i same
      rwa [same]
    · exact tidy.whole k e stands
  fresh := (tidy.serials.store key h).fresh
  distinct := (tidy.serials.store key h).distinct

theorem change (tidy : r.Tidy) (serial : Nat) (f : Handler → Handler) : (r.change serial f).Tidy := by
  have serials := tidy.serials.change serial f
  refine ⟨tidy.divider, tidy.creators, fun k e stands => ?_, serials.fresh, serials.distinct⟩
  rw [get?_change, Option.map_eq_some_iff] at stands
  obtain ⟨old, stood, -⟩ := stands
  exact tidy.whole k old stood

theorem registered_change (tidy : r.Tidy) {e : Entry} (stands : r.entries.get? key = some e) (f : Handler → Handler)
    (k : Text) : (r.change e.serial f).registered k = if k = key then some (f e.handler) else r.registered k := by
  rw [registered, tidy.serials.get?_change stands]
  split <;> rfl

end Tidy

theorem registered_store (r : Registry) (key : Text) (h : Handler) (k : Text) :
    (r.store key h).registered k = if k = key then some h else r.registered k := by
  rw [registered, get?_store]
  split <;> rfl

/-! ## New registries -/

theorem Tidy.allowVirtual {r : Registry} (tidy : r.Tidy) (key : Text) : (r.allowVirtual key).Tidy :=
  ⟨tidy.divider, tidy.creators, tidy.whole, tidy.fresh, tidy.distinct⟩

/-- A tidy registry to whose handlers nothing has been added. -/
structure New (r : Registry) : Prop extends Tidy r where
  blank : ∀ key h, r.registered key = some h → h.Blank

theorem New.addBuiltin {r : Registry} (new : r.New) {builtin : Text × Bool × Text} (undivided : '.' ∉ builtin.1) :
    (r.addBuiltin builtin).New := by
  obtain ⟨key, isVirtual, description⟩ := builtin
  have stored : (r.store key { description }).New := by
    refine ⟨new.toTidy.store undivided _, fun k h stands => ?_⟩
    rw [registered_store] at stands
    split at stands
    · cases stands
      exact ⟨rfl, rfl, rfl, rfl⟩
    · exact new.blank k h stands
  cases isVirtual with
  | false => exact stored
  | true => exact ⟨stored.toTidy.allowVirtual key, stored.blank⟩

theorem make_standard : ∃ r, make true (lit ".") = .ok r ∧ r.New := by
  have undivided : ∀ builtin ∈ builtins, '.' ∉ builtin.1 := by decide
  have empty : New { divider := lit "." } := ⟨⟨rfl, rfl, nofun, nofun, nofun⟩, nofun⟩
  refine ⟨builtins.foldl addBuiltin { divider := lit "." }, ?_, ?_⟩
  · rw [make, if_neg (by decide)]
    simp only [if_true]
  · exact List.foldlRecOn builtins addBuiltin empty fun r new builtin inside =>
      new.addBuiltin (undivided builtin inside)

/-! ## Registering -/

/-- An entry under a key, and an empty one if there was none. -/
theorem getOrCreate_tidy {st : State} (tidy : st.registry.Tidy) {key : Text} (whole : Whole key) :
    ∃ e st', getOrCreate key st = .ok e st' ∧ st'.registry.Tidy ∧ st'.registry.entries.get? key = some e ∧
      e.handler = (st.registry.registered key).getD {} ∧
      ∀ k, k ≠ key → st'.registry.registered k = st.registry.registered k := by
  have looked := tidy.lookup whole.undivided
  cases stands : st.registry.entries.get? key with
  | some e =>
    rw [stands] at looked
    refine ⟨e, st, ?_, tidy, stands, ?_, fun _ _ => rfl⟩
    · rw [getOrCreate, bind_ok looked]
      rfl
    · rw [registered, stands]
      rfl
  | none =>
    rw [stands] at looked
    refine ⟨st.registry.nextEntry {}, { st with registry := st.registry.store key {} }, ?_,
      tidy.store whole.undivided {}, get?_store_self st.registry key {}, ?_, fun k other => ?_⟩
    · obtain ⟨c, rest, rfl⟩ := List.exists_cons_of_ne_nil whole.some_
      rw [getOrCreate, bind_ok looked]
      rfl
    · rw [registered, stands]
      rfl
    · rw [registered_store, if_neg other]

end Registry

namespace Work

open Registry Standard

/-! ## Work that amends handlers -/

/-- Work that amends handlers of a tidy registry, if certain keys are registered. -/
def Amends {α : Type} (keys : List Text) (amendments : List (Text × Amendment)) (w : Work α) : Prop :=
  ∀ st : State, st.registry.Tidy → (∀ key ∈ keys, (st.registry.registered key).isSome) →
    ∃ a st', w st = .ok a st' ∧ st'.registry.Tidy ∧
      st'.registry.registered = amendments.foldl Amendment.amend st.registry.registered

/-- Amending registers the keys of the amendments, and no others. -/
theorem isSome_foldl_amend {key : Text} : ∀ {amendments : List (Text × Amendment)} {find : Text → Option Handler},
    (amendments.foldl Amendment.amend find key).isSome ↔ (find key).isSome ∨ key ∈ amendments.map Prod.fst
  | [], find => by simp
  | (key', a) :: amendments, find => by
    rw [List.foldl_cons, isSome_foldl_amend]
    by_cases same : key = key'
    · rw [same, Amendment.amend_self]
      simp
    · rw [Amendment.amend_other find same]
      simp [same]

namespace Amends

variable {α β : Type} {keys : List Text} {as bs : List (Text × Amendment)}

theorem pure (a : α) : Amends keys [] (pure a : Work α) := fun st tidy _ => ⟨a, st, rfl, tidy, rfl⟩

/-- Work goes on from what is registered then. -/
theorem bind_registered {w : Work α} {next : α → Work β} (first : Amends keys as w) (keys' : List Text)
    (rest : ∀ a, Amends keys' bs (next a)) (made : ∀ key ∈ keys', key ∈ keys ∨ key ∈ as.map Prod.fst) :
    Amends keys (as ++ bs) (w >>= next) := by
  intro st tidy has
  obtain ⟨a, st₁, ran, tidy₁, amended⟩ := first st tidy has
  obtain ⟨b, st₂, ran', tidy₂, amended'⟩ := rest a st₁ tidy₁ fun key inside => by
    rw [amended]
    exact isSome_foldl_amend.mpr ((made key inside).imp_left (has key))
  refine ⟨b, st₂, by rw [bind_ok ran, ran'], tidy₂, ?_⟩
  rw [amended', amended, List.foldl_append]

theorem bind {w : Work α} {next : α → Work β} (first : Amends keys as w) (rest : ∀ a, Amends keys bs (next a)) :
    Amends keys (as ++ bs) (w >>= next) :=
  first.bind_registered keys rest fun _ inside => .inl inside

theorem discard {w : Work α} (amends : Amends keys as w) : Amends keys as (Functor.discard w) := by
  intro st tidy has
  obtain ⟨a, st', ran, tidy', amended⟩ := amends st tidy has
  exact ⟨(), st', discard_ok ran, tidy', amended⟩

theorem registry {next : Registry → Work α} (amends : ∀ r, r.divider = lit "." → Amends keys as (next r)) :
    Amends keys as (Work.registry >>= next) :=
  fun st tidy has => amends st.registry tidy.divider st tidy has

theorem forM {f : Text → Work PUnit} {a : Text → Text × Amendment} : ∀ {names : List Text},
    (∀ name ∈ names, Amends keys [a name] (f name)) → Amends keys (names.map a) (names.forM f)
  | [], _ => pure PUnit.unit
  | name :: _, each =>
    (each name List.mem_cons_self).bind fun _ => forM fun other inside => each other (List.mem_cons_of_mem _ inside)

/-- Work that does not touch the registry. -/
theorem aside {f : State → State} (kept : ∀ st, (f st).registry = st.registry) :
    Amends keys [] (modify f : Work PUnit) :=
  fun st tidy _ => ⟨PUnit.unit, f st, rfl, by rw [kept]; exact tidy, by rw [kept]; rfl⟩

/-- The handler of an entry is changed. -/
theorem changed {st : State} (tidy : st.registry.Tidy) {key : Text} {e : Entry} {find : Text → Option Handler}
    (stands : st.registry.entries.get? key = some e) (own : e.handler = (find key).getD {})
    (others : ∀ k, k ≠ key → st.registry.registered k = find k) (a : Amendment) :
    ∃ e' st', changeHandler e a.apply st = .ok e' st' ∧ st'.registry.Tidy ∧
      st'.registry.registered = Amendment.amend find (key, a) := by
  refine ⟨_, { st with registry := st.registry.change e.serial a.apply }, rfl, tidy.change e.serial a.apply, ?_⟩
  funext k
  have changed := tidy.registered_change stands a.apply k
  refine changed.trans ?_
  rw [Amendment.amend]
  split
  · rename_i same
    rw [own, same]
  · rename_i other
    exact others k other

/-- The handler of a key is amended, or an empty one if there was none. -/
theorem getOrCreate {key : Text} (whole : Whole key) (a : Amendment) {next : Entry → Work α}
    (amended : ∀ e st e' st', changeHandler e a.apply st = .ok e' st' → ∃ u, next e st = .ok u st') :
    Amends keys [(key, a)] (Registry.getOrCreate key >>= next) := by
  intro st tidy _
  obtain ⟨e, st₁, ran, tidy₁, stands, own, others⟩ := getOrCreate_tidy tidy whole
  obtain ⟨e', st₂, ran', tidy₂, found⟩ := changed tidy₁ stands own others a
  obtain ⟨u, ran'⟩ := amended e st₁ e' st₂ ran'
  exact ⟨u, st₂, by rw [bind_ok ran, ran'], tidy₂, found⟩

/-! ## The standard setup -/

variable {key : Text}

theorem splitMembers (whole : Whole key) : Amends keys [(key, .stage .members)] (Registry.splitMembers key) :=
  getOrCreate whole _ fun _ _ _ _ ran => ⟨(), discard_ok ran⟩

theorem addAfter (whole : Whole key) (earlier : Text) :
    Amends keys [(key, .after earlier)] (Registry.addAfter key earlier) :=
  getOrCreate whole _ fun _ _ _ _ ran => ⟨(), discard_ok ran⟩

theorem checkCallable_eq_pure {p : Preprocessor} (callable : ∀ given, p ≠ .notCallable given) :
    checkCallable p = Pure.pure () := by
  cases p with
  | notCallable given => exact absurd rfl (callable given)
  | _ => rfl

theorem addPreprocessor (whole : Whole key) {p : Preprocessor} (callable : ∀ given, p ≠ .notCallable given) :
    Amends keys [(key, .stage (.apply p))] (Registry.addPreprocessor key p) := by
  have added : (fun h : Handler => h.addPreprocessor p) = (Amendment.stage (.apply p)).apply :=
    funext fun _ => Handler.addPreprocessor_eq_addStage callable
  rw [Registry.addPreprocessor, checkCallable_eq_pure callable, pure_bind, added]
  exact getOrCreate whole _ fun _ _ e' _ ran => ⟨e', ran⟩

theorem addPropertyPreprocessor (whole : Whole key) (property : Text) {p : Preprocessor}
    (callable : ∀ given, p ≠ .notCallable given) :
    Amends keys [(key, .property property p)] (Registry.addPropertyPreprocessor key property p) := by
  rw [Registry.addPropertyPreprocessor, checkCallable_eq_pure callable, pure_bind]
  exact getOrCreate whole _ fun _ _ e' _ ran => ⟨e', ran⟩

theorem addMemberPreprocessor (whole : Whole key) (inside : key ∈ keys) (p : Preprocessor) :
    Amends keys [(key, .member p)] (Registry.addMemberPreprocessor key p) := by
  intro st tidy has
  obtain ⟨e, stands⟩ := Option.isSome_iff_exists.mp (has key inside)
  obtain ⟨entry, found, rfl⟩ := Option.map_eq_some_iff.mp stands
  have looked := tidy.lookup whole.undivided
  rw [found] at looked
  obtain ⟨e', st', ran, tidy', amended⟩ := changed tidy found (by rw [stands]; rfl) (fun _ _ => rfl) (.member p)
  exact ⟨(), st', by rw [Registry.addMemberPreprocessor, bind_ok looked]; exact discard_ok ran, tidy', amended⟩

/-- The standard setup makes its amendments, and no others. -/
theorem install {s : Settings} (whole : Whole s.attributeNamespace) (other : s.attributeNamespace ≠ lit "event") :
    Amends [] (amendments s.attributeNamespace) (Standard.install s) := by
  have directives : ∀ key ∈ memberDirectives ++ filterDirectives ++ callbackDirectives, Whole key := by decide
  have texts : Amends [] [] interpolateTexts := aside fun _ => rfl
  have attributes : Amends [] [(s.attributeNamespace, .stage .members)] (interpolateAttributes s) :=
    (splitMembers whole).bind fun _ => aside fun _ => rfl
  have others : Amends [s.attributeNamespace] ((memberDirectives.filter (· != s.attributeNamespace)).map
      fun key => (key, .stage .members))
      ((memberDirectives.filter (· != s.attributeNamespace)).forM Registry.splitMembers) :=
    forM fun key inside => splitMembers (directives key (by simp [(List.mem_filter.mp inside).1]))
  -- Members are only added to keys that are registered already.
  have event : lit "event" ∈ memberDirectives.filter (· != s.attributeNamespace) :=
    List.mem_filter.mpr ⟨by decide, bne_iff_ne.mpr other.symm⟩
  have filters : Amends [s.attributeNamespace, lit "event"]
      (filterDirectives.map fun key => (key, .stage (.apply .filters))) (filterDirectives.forM addFilters) :=
    forM fun key inside => (addPreprocessor (p := .filters) (directives key (by simp [inside])) nofun).discard
  have callbacks : Amends [s.attributeNamespace, lit "event"]
      (callbackDirectives.map fun key => (key, .stage (.apply .references))) (callbackDirectives.forM addReferences) :=
    forM fun key inside => (addPreprocessor (p := .references) (directives key (by simp [inside])) nofun).discard
  have templates : Amends [s.attributeNamespace, lit "event"]
      (templateCallbacks.map fun property => (lit "template", .property property .references))
      (templateCallbacks.forM addTemplateCallback) :=
    forM fun property _ => (addPropertyPreprocessor (p := .references) (by decide) property nofun).discard
  refine texts.bind fun _ => attributes.bind_registered [s.attributeNamespace] (fun _ =>
    others.bind_registered [s.attributeNamespace, lit "event"] (fun _ => registry fun r divider => ?_) ?_) ?_
  · rw [divider]
    exact (addAfter (by decide) _).bind fun _ => filters.bind fun _ =>
      (addMemberPreprocessor whole (by simp) .filters).bind fun _ => callbacks.bind fun _ =>
      (addMemberPreprocessor (by decide) (by simp) .references).bind fun _ => templates
  · intro key inside
    rcases List.mem_cons.mp inside with rfl | inside
    · exact .inl List.mem_cons_self
    · obtain rfl := List.mem_singleton.mp inside
      exact .inr (List.mem_map.mpr ⟨_, List.mem_map.mpr ⟨_, event, rfl⟩, rfl⟩)
  · exact fun key inside => .inr inside

end Amends
end Work
end Bindmark
