import Bindmark.Proofs.Amending
import Bindmark.Proofs.Pipelines
import Bindmark.Proofs.Serials

/-!
# Preprocessors for members

Preprocessors are added for the members of a namespace, and keys are looked up in
between. The handler of a member is made when its key is looked up first: with the
preprocessors that were added until then, in order, and with what comes before the
directive of the namespace at that time. From then on it goes its own way, and the
handler of the namespace goes its own: nothing of what is added to one is found in
the other.
-/

namespace Bindmark

open Work

/-! ## What happens to a namespace and its members -/

/-- A handler with one more directive that comes before its own. -/
def Handler.append (h : Handler) (earlier : Text) : Handler := { h with after := h.after ++ [earlier] }

/-- What may happen to a namespace and its members. -/
inductive MemberAct where
  /-- A preprocessor is added for the members. -/
  | add (p : Preprocessor)
  /-- A key is looked up. -/
  | find (key : Text)
  /-- A key is looked up, and its handler comes after one more directive. -/
  | append (key earlier : Text)

namespace MemberAct

def work (ns : Text) : MemberAct → Work Unit
  | .add p => Registry.addMemberPreprocessor ns p
  | .find key => discard (Registry.lookup key)
  | .append key earlier => do
    match ← Registry.lookup key with
    | none => return ()
    | some entry => discard (Registry.changeHandler entry fun h => h.append earlier)

/-- The state after several acts, also when some of them were given up. -/
def run (ns : Text) (acts : List MemberAct) (st : State) : State :=
  acts.foldl (fun st act => stateAfter (act.work ns) st) st

/-- Whether a key is looked up. -/
def seeks (key : Text) : MemberAct → Bool
  | .add _ => false
  | .find k => k == key
  | .append k _ => k == key

/-- What happens before a key is looked up first. -/
def before (key : Text) (acts : List MemberAct) : List MemberAct := acts.takeWhile fun act => !act.seeks key

def added? : MemberAct → Option Preprocessor
  | .add p => some p
  | _ => none

/-- The preprocessors that are added, in order. -/
def added (acts : List MemberAct) : List Preprocessor := acts.filterMap added?

def appended? (key : Text) : MemberAct → Option Text
  | .append k earlier => if k = key then some earlier else none
  | _ => none

/-- The directives that the handler of a key comes after in addition, in order. -/
def appended (key : Text) (acts : List MemberAct) : List Text := acts.filterMap (appended? key)

theorem appended_cons (key k earlier : Text) (acts : List MemberAct) :
    appended key (.append k earlier :: acts) = if k = key then earlier :: appended key acts else appended key acts := by
  by_cases same : k = key <;> simp [appended, appended?, same]

theorem added_append (acts more : List MemberAct) : added (acts ++ more) = added acts ++ added more :=
  List.filterMap_append

theorem appended_append (key : Text) (acts more : List MemberAct) :
    appended key (acts ++ more) = appended key acts ++ appended key more :=
  List.filterMap_append

end MemberAct

theorem Registry.IsMember.ns_ne_key {d : Char} {key ns member : Text} (isMember : Registry.IsMember d key ns member) :
    ns ≠ key := by
  intro same
  have length := congrArg List.length (same.trans isMember.split)
  rw [List.length_append, List.length_cons] at length
  omega

/-! ## The two handlers -/

/-- The handler of a namespace, and that of one of its members once there is one. -/
structure Kin where
  ns : Handler
  member? : Option Handler

namespace Kin

/-- The handler of the member, which is made if there is none yet. -/
def made (member : Text) (kin : Kin) : Handler := kin.member?.getD (Standard.memberHandler kin.ns member)

/-- What becomes of the two handlers. -/
def act (ns key member : Text) (kin : Kin) : MemberAct → Kin
  | .add p => { kin with ns := kin.ns.addMemberPreprocessor p }
  | .find k => if k = key then { kin with member? := some (kin.made member) } else kin
  | .append k earlier =>
    if k = ns then { kin with ns := kin.ns.append earlier }
    else if k = key then { kin with member? := some ((kin.made member).append earlier) }
    else kin

/-- The two handlers are those in a registry, whose divider is a single character. -/
structure Held (d : Char) (ns key : Text) (kin : Kin) (serial : Nat) (r : Registry) : Prop where
  divider : r.divider = [d]
  begun : ∃ others, r.creators = .namespaces :: others
  serials : r.Serials
  derives : kin.ns.DerivesMembers
  ns : r.entries.get? ns = some ⟨serial, kin.ns⟩
  member : (r.entries.get? key).map Entry.handler = kin.member?

namespace Held

variable {d : Char} {ns key member k : Text} {kin : Kin} {serial : Nat} {st : State}

/-- A registry that differs in other keys only holds the same two handlers. -/
theorem ofApart (held : Held d ns key kin serial st.registry) {r : Registry} (apart : st.registry.Apart k r)
    (serials : r.Serials) (notNs : k ≠ ns) (notKey : k ≠ key) : Held d ns key kin serial r where
  divider := apart.divider.trans held.divider
  begun := by rw [apart.creators]; exact held.begun
  serials := serials
  derives := held.derives
  ns := (apart.others ns notNs.symm).trans held.ns
  member := by rw [apart.others key notKey.symm, held.member]

/-- Looking up another key leaves the two handlers as they are. -/
theorem lookup_other (held : Held d ns key kin serial st.registry) (other : k ≠ key) :
    Held d ns key kin serial (stateAfter (Registry.lookup k) st).registry := by
  by_cases isNs : k = ns
  · rw [isNs, stateAfter_ok (Registry.lookup_stored held.ns)]
    exact held
  · exact held.ofApart ((Registry.apart_looks k).lookup st) ((Registry.Serials.stays_looks k).lookup st held.serials)
      isNs other

/-- Looking up the key of the member leads to its handler. -/
theorem lookup_member (held : Held d ns key kin serial st.registry) (isMember : Registry.IsMember d key ns member) :
    ∃ s st', Registry.lookup key st = .ok (some ⟨s, kin.made member⟩) st' ∧
      st'.registry.entries.get? key = some ⟨s, kin.made member⟩ ∧
      Held d ns key { kin with member? := some (kin.made member) } serial st'.registry := by
  have own := isMember.ns_ne_key
  cases stood : st.registry.entries.get? key with
  | some e =>
    have isMade : kin.made member = e.handler := by rw [made, ← held.member, stood]; rfl
    rw [isMade]
    exact ⟨e.serial, st, Registry.lookup_stored stood, stood, { held with member := by rw [stood]; rfl }⟩
  | none =>
    have isMade : kin.made member = Standard.memberHandler kin.ns member := by rw [made, ← held.member, stood]; rfl
    obtain ⟨others, creators⟩ := held.begun
    have split : Registry.splitKey? st.registry.divider key = some (ns, member) := by
      rw [held.divider, Registry.splitKey?_eq_some_iff]
      exact isMember
    have looked := Registry.lookup_fromNamespace creators stood ⟨split, held.ns⟩
    have serials := (Registry.Serials.stays_looks key).lookup st held.serials
    rw [Registry.fromNamespace, Handler.memberFor_of_derivesMembers held.derives] at looked
    rw [stateAfter_ok looked] at serials
    rw [isMade]
    have entries := Registry.get?_withMember st.registry key ns (Standard.memberHandler kin.ns member)
    refine ⟨_, _, looked, (entries key).trans (if_pos rfl), ?_⟩
    exact {
      divider := (Registry.withMember_divider ..).trans held.divider
      begun := ⟨others, (Registry.withMember_creators ..).trans creators⟩
      serials
      derives := held.derives
      ns := (entries ns).trans ((if_neg own).trans held.ns)
      member := congrArg (Option.map Entry.handler) ((entries key).trans (if_pos rfl)) }

/-- Changing the handler of the namespace. -/
theorem change_ns (held : Held d ns key kin serial st.registry) (own : ns ≠ key) {f : Handler → Handler}
    (derives : (f kin.ns).DerivesMembers) :
    Held d ns key { kin with ns := f kin.ns } serial (st.registry.change serial f) where
  divider := held.divider
  begun := held.begun
  serials := held.serials.change serial f
  derives := derives
  ns := (held.serials.get?_change held.ns f ns).trans (if_pos rfl)
  member := by rw [held.serials.get?_change held.ns f key, if_neg own.symm, held.member]

/-- Changing the handler of the member. -/
theorem change_member (held : Held d ns key kin serial st.registry) (own : ns ≠ key) {e : Entry}
    (stands : st.registry.entries.get? key = some e) (f : Handler → Handler) :
    Held d ns key { kin with member? := some (f e.handler) } serial (st.registry.change e.serial f) where
  divider := held.divider
  begun := held.begun
  serials := held.serials.change e.serial f
  derives := held.derives
  ns := by rw [held.serials.get?_change stands f ns, if_neg own, held.ns]
  member := by rw [held.serials.get?_change stands f key, if_pos rfl]; rfl

/-- Changing another handler. -/
theorem change_other (held : Held d ns key kin serial st.registry) {s : Nat} (f : Handler → Handler)
    (apart : ∀ k e, k = ns ∨ k = key → st.registry.entries.get? k = some e → e.serial ≠ s) :
    Held d ns key kin serial (st.registry.change s f) := by
  have kept (k : Text) (own : k = ns ∨ k = key) :
      (st.registry.change s f).entries.get? k = st.registry.entries.get? k := by
    rw [Registry.get?_change]
    cases stands : st.registry.entries.get? k with
    | none => rfl
    | some e => rw [Option.map_some, Registry.changeEntry, if_neg (apart k e own stands)]
  exact {
    divider := held.divider
    begun := held.begun
    serials := held.serials.change s f
    derives := held.derives
    ns := (kept ns (.inl rfl)).trans held.ns
    member := by rw [kept key (.inr rfl), held.member] }

/-- Appending to the handler of another key, also to one that is made on the way. -/
theorem append_other (held : Held d ns key kin serial st.registry) (earlier : Text) (notNs : k ≠ ns)
    (notKey : k ≠ key) : Held d ns key kin serial (stateAfter ((MemberAct.append k earlier).work ns) st).registry := by
  have looked := held.lookup_other notKey
  rw [MemberAct.work]
  cases ran : Registry.lookup k st with
  | error f st' =>
    rw [stateAfter_error ran] at looked
    rw [stateAfter_error (bind_error ran)]
    exact looked
  | ok entry st' =>
    rw [stateAfter_ok ran] at looked
    rw [stateAfter_bind_ok ran]
    cases entry with
    | none => exact looked
    | some e =>
      refine looked.change_other (fun h => h.append earlier) fun k' e' own stands => ?_
      have apart : k' ≠ k := by
        rcases own with rfl | rfl
        · exact notNs.symm
        · exact notKey.symm
      exact held.serials.apart_of_lookup ran apart stands

/-- An act does to the two handlers in a registry what it does to handlers. -/
theorem act (held : Held d ns key kin serial st.registry) (isMember : Registry.IsMember d key ns member)
    (a : MemberAct) : Held d ns key (kin.act ns key member a) serial (stateAfter (a.work ns) st).registry := by
  have own := isMember.ns_ne_key
  cases a with
  | add p =>
    rw [MemberAct.work, Registry.addMemberPreprocessor, stateAfter_bind_ok (Registry.lookup_stored held.ns)]
    exact held.change_ns (f := fun h => h.addMemberPreprocessor p) own
      (held.derives.extend (.addMemberPreprocessor _ p))
  | find k =>
    rw [MemberAct.work, stateAfter_discard, Kin.act]
    split
    · rename_i same
      obtain ⟨s, st', looked, -, after⟩ := held.lookup_member isMember
      rw [same, stateAfter_ok looked]
      exact after
    · rename_i other
      exact held.lookup_other other
  | append k earlier =>
    rw [Kin.act]
    by_cases isNs : k = ns
    · rw [if_pos isNs, isNs, MemberAct.work, stateAfter_bind_ok (Registry.lookup_stored held.ns)]
      exact held.change_ns (f := fun h => h.append earlier) own (held.derives.extend (.of_synthesis rfl))
    rw [if_neg isNs]
    by_cases isKey : k = key
    · obtain ⟨s, st', looked, stands, after⟩ := held.lookup_member isMember
      rw [if_pos isKey, isKey, MemberAct.work, stateAfter_bind_ok looked]
      exact after.change_member own stands fun h => h.append earlier
    · rw [if_neg isKey]
      exact held.append_other earlier isNs isKey

/-- Acts do to the two handlers in a registry what they do to handlers. -/
theorem run (held : Held d ns key kin serial st.registry) (isMember : Registry.IsMember d key ns member)
    (acts : List MemberAct) :
    Held d ns key (acts.foldl (Kin.act ns key member) kin) serial (MemberAct.run ns acts st).registry := by
  induction acts generalizing kin st with
  | nil => exact held
  | cons a acts ih => exact ih (held.act isMember a)

end Held
end Kin

/-! ## How a namespace fares -/

namespace Handler

/-- What becomes of the handler of a namespace: preprocessors for members are added,
    and directives that come before its own. The rest stays. -/
structure NamespaceAfter (ns : Text) (h : Handler) (acts : List MemberAct) (h' : Handler) : Prop where
  init : h'.init = h.init
  update : h'.update = h.update
  preprocess : h'.preprocess = h.preprocess
  source : h'.synthesisOf.source = h.synthesisOf.source
  added : h'.synthesisOf.added = h.synthesisOf.added ++ MemberAct.added acts
  after : h'.after = h.after ++ MemberAct.appended ns acts

namespace NamespaceAfter

variable {ns key member : Text} {h h' h'' : Handler} {acts more : List MemberAct}

/-- Acts that add nothing leave a handler as it is. -/
theorem still (h : Handler) (added : MemberAct.added acts = []) (appended : MemberAct.appended ns acts = []) :
    NamespaceAfter ns h acts h := by
  refine ⟨rfl, rfl, rfl, rfl, ?_, ?_⟩
  · rw [added, List.append_nil]
  · rw [appended, List.append_nil]

theorem trans (first : NamespaceAfter ns h acts h') (second : NamespaceAfter ns h' more h'') :
    NamespaceAfter ns h (acts ++ more) h'' where
  init := second.init.trans first.init
  update := second.update.trans first.update
  preprocess := second.preprocess.trans first.preprocess
  source := second.source.trans first.source
  added := by rw [second.added, first.added, List.append_assoc, MemberAct.added_append]
  after := by rw [second.after, first.after, List.append_assoc, MemberAct.appended_append]

theorem act (kin : Kin) (a : MemberAct) : NamespaceAfter ns kin.ns [a] (kin.act ns key member a).ns := by
  cases a with
  | add p => exact ⟨rfl, rfl, rfl, rfl, rfl, (List.append_nil _).symm⟩
  | find k =>
    have same : (kin.act ns key member (.find k)).ns = kin.ns := by
      rw [Kin.act]
      split <;> rfl
    rw [same]
    exact still kin.ns rfl rfl
  | append k earlier =>
    by_cases isNs : k = ns
    · rw [Kin.act, if_pos isNs, isNs]
      refine ⟨rfl, rfl, rfl, rfl, (List.append_nil _).symm, ?_⟩
      rw [MemberAct.appended_cons, if_pos rfl]
      rfl
    · have same : (kin.act ns key member (.append k earlier)).ns = kin.ns := by
        rw [Kin.act, if_neg isNs]
        split <;> rfl
      rw [same]
      exact still kin.ns rfl ((MemberAct.appended_cons ns k earlier []).trans (if_neg isNs))

/-- What becomes of the handler of a namespace in several acts. -/
theorem foldl (acts : List MemberAct) (kin : Kin) :
    NamespaceAfter ns kin.ns acts (acts.foldl (Kin.act ns key member) kin).ns := by
  induction acts generalizing kin with
  | nil => exact still kin.ns rfl rfl
  | cons a acts ih => exact (act kin a).trans (ih _)

end NamespaceAfter
end Handler

/-! ## How a member fares -/

/-- A hook of a member does what the hook of its namespace does with the value under
    the name of the member, and is there when that one is. -/
def Hook.IsFor (member : Text) : Option Hook → Option Hook → Prop
  | none, none => True
  | some hook, some hook' => ∀ element value arguments,
      hook'.run element value arguments = hook.run element (.object [(member, value)]) arguments
  | _, _ => False

theorem Hook.isFor_member (member : Text) (hook? : Option Hook) :
    Hook.IsFor member hook? (hook?.map (.member member)) := by
  cases hook? with
  | none => trivial
  | some hook => exact fun _ _ _ => rfl

namespace Handler

/-- The handler of a member: its hooks are for those of the namespace, its values go
    through certain preprocessors only, and it comes after certain directives. -/
structure MemberOf (h : Handler) (member : Text) (ps : List Preprocessor) (after : List Text) (made : Handler) :
    Prop where
  init : Hook.IsFor member h.init made.init
  update : Hook.IsFor member h.update made.update
  preprocess : Pipeline.Folded (ps.map Stage.apply) made.preprocess
  properties : made.properties = none
  after : made.after = after

theorem foldl_addPreprocessor {ps : List Preprocessor} (functions : ∀ given, .notCallable given ∉ ps) (h : Handler) :
    ∃ slot, ps.foldl addPreprocessor h = { h with preprocess := slot } ∧
      Pipeline.stagesOf slot = Pipeline.stagesOf h.preprocess ++ ps.map Stage.apply := by
  induction ps generalizing h with
  | nil =>
    refine ⟨h.preprocess, ?_, (List.append_nil _).symm⟩
    cases h
    rfl
  | cons p ps ih =>
    have callable : ∀ given, p ≠ .notCallable given := fun given same =>
      functions given (same ▸ List.mem_cons_self ..)
    obtain ⟨slot, same, stages⟩ := ih (fun given inside => functions given (List.mem_cons_of_mem _ inside))
      (h.addPreprocessor p)
    refine ⟨slot, ?_, ?_⟩
    · rw [List.foldl_cons, same]
      rfl
    · rw [stages, addPreprocessor_eq_addStage callable, addStage]
      simp [Pipeline.stagesOf, Pipeline.toList_chain, Pipeline.toList]

variable {ns member : Text} {h h' made : Handler} {acts : List MemberAct} {ps : List Preprocessor} {after : List Text}

/-- A namespace without a synthesis of its own makes the handlers of its members with
    the preprocessors that were added. -/
theorem NamespaceAfter.memberOf (fares : NamespaceAfter ns h acts h') (standard : h.synthesis = none)
    (functions : ∀ given, .notCallable given ∉ MemberAct.added acts) (member : Text) :
    MemberOf h member (MemberAct.added acts) (h.after ++ MemberAct.appended ns acts)
      (Standard.memberHandler h' member) := by
  have added : h'.synthesisOf.added = MemberAct.added acts := by
    rw [fares.added, synthesisOf, standard]
    rfl
  obtain ⟨slot, same, stages⟩ := foldl_addPreprocessor functions (h'.derive member)
  have made : Standard.memberHandler h' member = { h'.derive member with preprocess := slot } := by
    rw [Standard.memberHandler, ← synthesisOf, added, same]
  rw [made]
  exact {
    init := fares.init ▸ Hook.isFor_member member h'.init
    update := fares.update ▸ Hook.isFor_member member h'.update
    preprocess := Pipeline.folded_iff.mpr stages
    properties := rfl
    after := fares.after }

theorem MemberOf.append (fares : MemberOf h member ps after made) (earlier : Text) :
    MemberOf h member ps (after ++ [earlier]) (made.append earlier) :=
  { fares with after := congrArg (· ++ [earlier]) fares.after }

/-- The values of a member go through the preprocessors in order. -/
theorem MemberOf.preprocess_eq (fares : MemberOf h member ps after made) {pipeline : Pipeline Stage}
    (staged : made.preprocess = some pipeline) (add : Directive.Adder) (key : Text) (d : Datum) :
    Directive.preprocess add made key pipeline d =
      (Pipeline.linear Datum.truthy (Directive.apply add key) ps d).run [] := by
  have stages : pipeline.toList = ps.map Stage.apply := by
    have folded := fares.preprocess
    rw [staged] at folded
    exact Pipeline.folded_iff.mp folded
  rw [Directive.preprocess, Pipeline.through_eq_linear, stages, Pipeline.linear_map]
  rfl

end Handler

namespace Kin

variable {ns key member : Text} {h : Handler} {kin : Kin} {ps : List Preprocessor} {after : List Text}

theorem act_unsought {a : MemberAct} (unsought : a.seeks key = false) (acts : List MemberAct) :
    (kin.act ns key member a).member? = kin.member? ∧
      MemberAct.appended key (a :: acts) = MemberAct.appended key acts := by
  cases a with
  | add p => exact ⟨rfl, rfl⟩
  | find k =>
    have other : k ≠ key := beq_eq_false_iff_ne.mp unsought
    rw [act, if_neg other]
    exact ⟨rfl, rfl⟩
  | append k earlier =>
    have other : k ≠ key := beq_eq_false_iff_ne.mp unsought
    rw [act, if_neg other, MemberAct.appended_cons, if_neg other]
    exact ⟨by split <;> rfl, rfl⟩

theorem act_sought {a : MemberAct} (sought : a.seeks key = true) (own : ns ≠ key)
    (fares : h.MemberOf member ps after (kin.made member)) :
    ∃ made, (kin.act ns key member a).member? = some made ∧
      h.MemberOf member ps (after ++ MemberAct.appended key [a]) made := by
  cases a with
  | add p => cases sought
  | find k =>
    obtain rfl : k = key := beq_iff_eq.mp sought
    refine ⟨kin.made member, by rw [act, if_pos rfl], ?_⟩
    rw [show MemberAct.appended k [.find k] = [] from rfl, List.append_nil]
    exact fares
  | append k earlier =>
    obtain rfl : k = key := beq_iff_eq.mp sought
    refine ⟨(kin.made member).append earlier, by rw [act, if_neg own.symm, if_pos rfl], ?_⟩
    rw [MemberAct.appended_cons, if_pos rfl]
    exact fares.append earlier

/-- A member that is made only comes after more directives. -/
theorem memberOf_foldl (own : ns ≠ key) (acts : List MemberAct) {made : Handler} (there : kin.member? = some made)
    (fares : h.MemberOf member ps after made) :
    h.MemberOf member ps (after ++ MemberAct.appended key acts) ((acts.foldl (act ns key member) kin).made member) := by
  have isMade {kin : Kin} {made : Handler} (there : kin.member? = some made) : kin.made member = made := by
    rw [Kin.made, there]
    rfl
  induction acts generalizing kin made after with
  | nil =>
    rw [List.foldl_nil, isMade there, show MemberAct.appended key [] = [] from rfl, List.append_nil]
    exact fares
  | cons a acts ih =>
    rw [List.foldl_cons]
    cases sought : a.seeks key with
    | false =>
      obtain ⟨same, nothing⟩ : (kin.act ns key member a).member? = kin.member? ∧ _ := act_unsought sought acts
      rw [nothing]
      exact ih (same.trans there) fares
    | true =>
      obtain ⟨made', there', fares'⟩ := act_sought sought own (isMade there ▸ fares)
      rw [← List.singleton_append, MemberAct.appended_append, ← List.append_assoc]
      exact ih there' fares'

/-- A member that is not made yet gets what is added before its key is looked up. -/
theorem memberOf_before (member : Text) (own : ns ≠ key) (standard : h.synthesis = none) (past acts : List MemberAct)
    (functions : ∀ given, .notCallable given ∉ MemberAct.added (past ++ acts)) (fares : h.NamespaceAfter ns past kin.ns)
    (missing : kin.member? = none) :
    h.MemberOf member (MemberAct.added (past ++ MemberAct.before key acts))
      (h.after ++ MemberAct.appended ns (past ++ MemberAct.before key acts) ++ MemberAct.appended key acts)
      ((acts.foldl (act ns key member) kin).made member) := by
  -- What is over before the key is looked up goes from `acts` to `past`, act by act.
  induction acts generalizing past kin with
  | nil =>
    rw [List.append_nil] at functions
    rw [List.foldl_nil, made, missing, show MemberAct.before key [] = [] from rfl,
      show MemberAct.appended key [] = [] from rfl, List.append_nil, List.append_nil]
    exact fares.memberOf standard functions member
  | cons a acts ih =>
    rw [List.foldl_cons]
    cases sought : a.seeks key with
    | false =>
      obtain ⟨same, nothing⟩ : (kin.act ns key member a).member? = kin.member? ∧ _ := act_unsought sought acts
      have first : MemberAct.before key (a :: acts) = a :: MemberAct.before key acts :=
        List.takeWhile_cons_of_pos (by rw [sought]; rfl)
      have later := ih (past ++ [a]) (by rwa [List.append_assoc]) (fares.trans (.act kin a)) (same.trans missing)
      rw [nothing, first]
      simpa using later
    | true =>
      have first : MemberAct.before key (a :: acts) = [] := List.takeWhile_cons_of_neg (by simp [sought])
      have functions' : ∀ given, .notCallable given ∉ MemberAct.added past := by
        intro given inside
        rw [MemberAct.added_append] at functions
        exact functions given (List.mem_append_left _ inside)
      have isMade : kin.made member = Standard.memberHandler kin.ns member := by rw [made, missing]; rfl
      obtain ⟨made', there, fares'⟩ := act_sought sought own (isMade ▸ fares.memberOf standard functions' member)
      rw [first, List.append_nil, ← List.singleton_append, MemberAct.appended_append, ← List.append_assoc]
      exact memberOf_foldl own acts there fares'

end Kin

namespace MemberAct

/-- What is added is what was given to be added. -/
theorem mem_added_iff {p : Preprocessor} {acts : List MemberAct} : p ∈ added acts ↔ .add p ∈ acts := by
  rw [added, List.mem_filterMap]
  constructor
  · rintro ⟨act, inside, same⟩
    cases act with
    | add q =>
      cases same
      exact inside
    | _ => cases same
  · exact fun inside => ⟨_, inside, rfl⟩

/-- Whatever is added for the members of a namespace and looked up, in any order: the
    handler of a member has the preprocessors that were added before its key was
    looked up first, in order, and no others. Its hooks are for those of the
    namespace. It comes after what the namespace came after when it was made, and
    after what was appended to itself. The handler of the namespace stays, but for
    what was added for its members or appended to itself. -/
theorem lookup_run {st : State} {d : Char} {ns member : Text} {e : Entry} (arises : Registry.Arises st.registry)
    (divider : st.registry.divider = [d]) (stands : st.registry.entries.get? ns = some e) (undivided : d ∉ ns)
    (standard : e.handler.synthesis = none) (solid : member ≠ []) (line : '\n' ∉ member)
    (missing : st.registry.entries.get? (ns ++ d :: member) = none) (acts : List MemberAct)
    (functions : ∀ given, .add (.notCallable given) ∉ acts) :
    let key := ns ++ d :: member
    let early := before key acts
    ∃ made h st', Registry.lookup key (run ns acts st) = .ok (some made) st' ∧
      e.handler.MemberOf member (added early) (e.handler.after ++ appended ns early ++ appended key acts) made.handler ∧
      (∀ pipeline, made.handler.preprocess = some pipeline → ∀ add k value,
        Directive.preprocess add made.handler k pipeline value =
          (Pipeline.linear Datum.truthy (Directive.apply add k) (added early) value).run []) ∧
      st'.registry.entries.get? ns = some ⟨e.serial, h⟩ ∧ e.handler.NamespaceAfter ns acts h := by
  intro key early
  have named : ns ≠ [] := by
    rintro rfl
    rw [arises.begun.named] at stands
    cases stands
  have isMember : Registry.IsMember d key ns member := ⟨rfl, named, undivided, solid, line⟩
  let kin : Kin := { ns := e.handler, member? := none }
  have start : Kin.Held d ns key kin e.serial st.registry := {
    divider
    begun := arises.begun.creators
    serials := arises.serials
    derives := fun synthesis given => by rw [standard] at given; cases given
    ns := stands
    member := by rw [missing]; rfl }
  have callable : ∀ given, .notCallable given ∉ added ([] ++ acts) :=
    fun given inside => functions given (mem_added_iff.mp inside)
  have still : e.handler.NamespaceAfter ns [] kin.ns := .still e.handler rfl rfl
  have fares := Kin.memberOf_before member isMember.ns_ne_key standard [] acts callable still rfl
  obtain ⟨s, st', looked, -, held⟩ := (start.run isMember acts).lookup_member isMember
  exact ⟨_, _, st', looked, fares, fun pipeline staged add k value => fares.preprocess_eq staged add k value, held.ns,
    .foldl acts kin⟩

/-- A namespace with a hook, with preprocessing of its own, and with a directive that
    comes before it. -/
def hooked : Handler where
  init := some (.client (lit "fade") fun _ value _ => value)
  preprocess := some (.stage (.apply .references))
  after := [lit "text"]

/-- A member is looked up between two preprocessors, and more is appended on both sides. -/
theorem lookup_run_hooked :
    let st := stateAfter (Registry.Operation.setup (.register (lit "fx") hooked false)).work
      { registry := { divider := lit "." } }
    let acts : List MemberAct :=
      [.add .filters, .find (lit "fx.in"), .add .references, .append (lit "fx") (lit "html"),
        .append (lit "fx.in") (lit "css")]
    Registry.Arises st.registry ∧
      ∃ made h st', Registry.lookup (lit "fx.in") (run (lit "fx") acts st) = .ok (some made) st' ∧
        hooked.MemberOf (lit "in") [.filters] [lit "text", lit "css"] made.handler ∧
        st'.registry.entries.get? (lit "fx") = some ⟨0, h⟩ ∧
        h.preprocess = hooked.preprocess ∧ h.after = [lit "text", lit "html"] := by
  intro st acts
  have made : Registry.make false (lit ".") = .ok { divider := lit "." } := rfl
  have start : Registry.Arises ({ registry := { divider := lit "." } } : State).registry := .made made
  have arises : Registry.Arises st.registry := .operation _ start
  have functions : ∀ given, .add (.notCallable given) ∉ acts := by
    intro given
    simp [acts]
  obtain ⟨made, h, st', looked, fares, -, stands, kept⟩ := @lookup_run st '.' (lit "fx") (lit "in") ⟨0, hooked⟩ arises
    rfl rfl (by decide) rfl (by decide) (by decide) rfl acts functions
  exact ⟨arises, made, h, st', looked, fares, stands, kept.preprocess, kept.after⟩

end MemberAct
end Bindmark
