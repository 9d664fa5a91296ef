import Bindmark.Proofs.Amending
import Bindmark.Proofs.AttributeNamespace

/-!
# Requests that are refused

Configuring a registry or a compiler is refused for two reasons only: what is
given for a function is none, or the key is empty. Both are found out before
anything is done, so that a refused request leaves everything as it was. Every
other request is met, as long as the functions of namespaces return.
-/

namespace Bindmark

open Work

namespace Registry

variable {key : Text} {st : State}

/-! ## Looking up returns -/

/-- The functions of registered namespaces return, with handlers or with none. -/
def Returns (r : Registry) : Prop :=
  ∀ ns e, r.entries.get? ns = some e → ∀ member key, ∃ made, e.handler.memberFor member ns key = .ok made

theorem create_returns (returns : st.registry.Returns) (c : Creator) :
    ∃ entry st', create key c st = .ok entry st' := by
  cases c with
  | namespaces =>
    rcases exists_namespace_or_createMember_none key st with ⟨ns, member, e, split, stands⟩ | nothing
    · obtain ⟨made, answer⟩ := returns ns e stands member key
      have ran := createMember_apply split stands
      rw [answer] at ran
      cases made with
      | none => exact ⟨_, _, ran⟩
      | some h => exact ⟨_, _, ran⟩
    · exact ⟨_, _, nothing⟩
  | client c =>
    obtain ⟨calls, made⟩ := create_client c key st
    cases answer : c.answer? key with
    | none =>
      rw [answer] at made
      exact ⟨_, _, made⟩
    | some h =>
      rw [answer] at made
      exact ⟨_, _, made⟩

theorem createFirst_returns (creators : List Creator) (returns : st.registry.Returns) :
    ∃ entry st', createFirst key creators st = .ok entry st' := by
  induction creators generalizing st with
  | nil => exact ⟨none, st, rfl⟩
  | cons c creators ih =>
    obtain ⟨entry, st', ran⟩ : ∃ entry st', create key c st = .ok entry st' := create_returns returns c
    rw [createFirst, bind_ok ran]
    cases entry with
    | some e => exact ⟨some e, st', rfl⟩
    | none => exact ih (registry_of_create_none ran ▸ returns)

theorem lookup_returns (returns : st.registry.Returns) (key : Text) :
    ∃ entry st', lookup key st = .ok entry st' := by
  cases stood : st.registry.entries.get? key with
  | some e => exact ⟨_, _, lookup_stored stood⟩
  | none =>
    obtain ⟨entry, st', ran⟩ : ∃ entry st', createFirst key st.registry.creators st = .ok entry st' :=
      createFirst_returns st.registry.creators returns
    refine ⟨entry, st', ?_⟩
    rw [lookup, bind_ok (registry_apply st)]
    simp only [stood, ran]

/-- The empty key leads nowhere, and looking it up does nothing. -/
theorem Begun.lookup_nil (begun : st.registry.Begun) : lookup [] st = .ok none st := by
  rw [lookup, bind_ok (registry_apply st)]
  simp only [begun.named, createFirst_nil]

end Registry

/-! ## Work that is refused -/

/-- Work that is refused with a fault and leaves the state alone, or that returns
    when there is nothing to refuse it for. -/
def Work.Refused {α : Type} (w : Work α) (fault? : Option Fault) (st : State) : Prop :=
  match fault? with
  | some e => w st = .error e st
  | none => ∃ a st', w st = .ok a st'

namespace Work.Refused

variable {α β : Type} {w : Work α} {fault? : Option Fault} {st : State}

/-- Work is given up exactly with its fault, from the state that it started in. -/
theorem eq_error_iff (refused : w.Refused fault? st) {e : Fault} {st' : State} :
    w st = .error e st' ↔ fault? = some e ∧ st' = st := by
  cases fault? with
  | some e' =>
    rw [show w st = .error e' st from refused]
    simp [eq_comm]
  | none =>
    obtain ⟨a, t, ran⟩ := refused
    simp [ran]

theorem bind (refused : w.Refused fault? st) {next : α → Work β}
    (returns : ∀ a st', ∃ b st'', next a st' = .ok b st'') : (w >>= next).Refused fault? st := by
  cases fault? with
  | some e => exact bind_error refused
  | none =>
    obtain ⟨a, st', ran⟩ := refused
    obtain ⟨b, st'', later⟩ := returns a st'
    exact ⟨b, st'', (bind_ok ran).trans later⟩

theorem discard (refused : w.Refused fault? st) : (Functor.discard w).Refused fault? st :=
  refused.bind fun _ st' => ⟨(), st', rfl⟩

end Work.Refused

/-- The fault of what is given for a preprocessor and is no function. -/
def Preprocessor.fault? : Preprocessor → Option Fault
  | .notCallable given => some (.preprocessorNotCallable given)
  | _ => none

/-- The fault of an empty key. -/
def keyFault? (key : Text) : Option Fault := if key = [] then some .emptyKey else none

namespace Registry

variable {α : Type} {key : Text} {st : State} {fault? : Option Fault} {w : Work α}

/-- What is given for a function is checked first. -/
theorem refused_checkCallable (p : Preprocessor) (refused : w.Refused fault? st) :
    (checkCallable p >>= fun _ => w).Refused (p.fault?.or fault?) st := by
  cases p with
  | notCallable given => exact bind_error (w := checkCallable (.notCallable given)) rfl
  | _ => exact refused

theorem refused_register (key : Text) (h : Handler) (isVirtual : Bool) (st : State) :
    (register key h isVirtual).Refused (keyFault? key) st := by
  cases key with
  | nil => exact (rfl : register [] h isVirtual st = .error .emptyKey st)
  | cons c rest =>
    cases isVirtual with
    | false => exact ⟨_, _, rfl⟩
    | true => exact ⟨_, _, rfl⟩

theorem refused_getOrCreate (begun : st.registry.Begun) (returns : st.registry.Returns) (key : Text) :
    (getOrCreate key).Refused (keyFault? key) st := by
  by_cases empty : key = []
  · subst empty
    exact (bind_ok begun.lookup_nil).trans (refused_register [] {} false st)
  · obtain ⟨entry, st', ran⟩ := lookup_returns returns key
    have fault : keyFault? key = none := if_neg empty
    rw [fault]
    cases entry with
    | some e => exact ⟨e, st', bind_ok ran⟩
    | none =>
      have registered := refused_register key {} false st'
      rw [fault] at registered
      obtain ⟨e, st'', stored⟩ := registered
      exact ⟨e, st'', (bind_ok ran).trans stored⟩

theorem changeHandler_returns (entry : Entry) (f : Handler → Handler) (st : State) :
    ∃ e st', changeHandler entry f st = .ok e st' := ⟨_, _, rfl⟩

/-- Changing the handler of a key is refused for an empty key. -/
theorem refused_change (begun : st.registry.Begun) (returns : st.registry.Returns) (key : Text)
    (f : Handler → Handler) : (getOrCreate key >>= fun entry => changeHandler entry f).Refused (keyFault? key) st :=
  (refused_getOrCreate begun returns key).bind fun entry st' => changeHandler_returns entry f st'

end Registry

/-! ## Requests -/

/-- A request to configure a registry or a compiler. -/
inductive Request where
  | register (key : Text) (h : Handler) (isVirtual : Bool)
  | getOrCreate (key : Text)
  | addPreprocessor (key : Text) (p : Preprocessor)
  /-- To add a preprocessor to a handler that is at hand. -/
  | addPreprocessorTo (entry : Entry) (p : Preprocessor)
  | addPropertyPreprocessor (key property : Text) (p : Preprocessor)
  | addFilters (key : Text)
  | addReferences (key : Text)
  | splitMembers (key : Text)
  | addNodePreprocessor (given : Except Datum NodeClient)

namespace Request

def work : Request → Work Unit
  | .register key h isVirtual => discard (Registry.register key h isVirtual)
  | .getOrCreate key => discard (Registry.getOrCreate key)
  | .addPreprocessor key p => discard (Registry.addPreprocessor key p)
  | .addPreprocessorTo entry p => discard (Registry.addPreprocessorTo entry p)
  | .addPropertyPreprocessor key property p => discard (Registry.addPropertyPreprocessor key property p)
  | .addFilters key => Standard.addFilters key
  | .addReferences key => Standard.addReferences key
  | .splitMembers key => Registry.splitMembers key
  | .addNodePreprocessor given => Standard.addNodePreprocessor given

/-- The fault of what a request gives for a function, if that is none. -/
def notFunction? : Request → Option Fault
  | .addPreprocessor _ p | .addPreprocessorTo _ p | .addPropertyPreprocessor _ _ p => p.fault?
  | .addNodePreprocessor (.error given) => some (.nodePreprocessorNotCallable given)
  | _ => none

/-- The key that a request names. -/
def key? : Request → Option Text
  | .register key _ _ | .getOrCreate key | .addPreprocessor key _ | .addPropertyPreprocessor key _ _ => some key
  | .addFilters key | .addReferences key | .splitMembers key => some key
  | .addPreprocessorTo _ _ | .addNodePreprocessor _ => none

/-- What a request is refused for. -/
def fault? (request : Request) : Option Fault := request.notFunction?.or (request.key?.bind keyFault?)

variable {st : State}

theorem refused (begun : st.registry.Begun) (returns : st.registry.Returns) (request : Request) :
    request.work.Refused request.fault? st := by
  have changed := Registry.refused_change begun returns
  cases request with
  | register key h isVirtual => exact (Registry.refused_register key h isVirtual st).discard
  | getOrCreate key => exact (Registry.refused_getOrCreate begun returns key).discard
  | addPreprocessor key p => exact (Registry.refused_checkCallable p (changed key _)).discard
  | addPreprocessorTo entry p =>
    have changed : (Registry.changeHandler entry fun h => h.addPreprocessor p).Refused none st :=
      Registry.changeHandler_returns entry _ st
    exact (Registry.refused_checkCallable p changed).discard
  | addPropertyPreprocessor key property p => exact (Registry.refused_checkCallable p (changed key _)).discard
  | addFilters key => exact (Registry.refused_checkCallable .filters (changed key _)).discard
  | addReferences key => exact (Registry.refused_checkCallable .references (changed key _)).discard
  | splitMembers key =>
    exact (Registry.refused_getOrCreate begun returns key).bind fun entry st' =>
      ⟨_, _, discard_ok (Registry.changeHandler_returns entry _ st').choose_spec.choose_spec⟩
  | addNodePreprocessor given =>
    cases given with
    | error given => exact (rfl : Standard.addNodePreprocessor (.error given) st = _)
    | ok c => exact ⟨_, _, rfl⟩

/-- In every registry that operations, creators and compilers lead to, where the
    functions of namespaces return, a request is given up exactly when it gives
    something for a function that is none, or else when it names an empty key.
    Nothing whatever has changed then. -/
theorem refused_without_trace (arises : Registry.Arises st.registry) (returns : st.registry.Returns)
    (request : Request) (e : Fault) (st' : State) :
    request.work st = .error e st' ↔
      (request.notFunction? = some e ∨ request.notFunction? = none ∧ request.key? = some [] ∧ e = .emptyKey) ∧
        st' = st := by
  rw [(request.refused arises.begun returns).eq_error_iff]
  refine and_congr_left fun _ => ?_
  rw [fault?, Option.or_eq_some_iff, Option.bind_eq_some_iff]
  refine or_congr_right (and_congr_right fun _ => ?_)
  constructor
  · rintro ⟨key, named, fault⟩
    rw [keyFault?, Option.ite_none_right_eq_some] at fault
    obtain ⟨rfl, same⟩ := fault
    exact ⟨named, (Option.some.inj same).symm⟩
  · rintro ⟨named, rfl⟩
    exact ⟨[], named, if_pos rfl⟩

/-- A registry with a namespace that has a function, and with a creator beside it. -/
def guarded : State :=
  stateAfter (Registry.addCreator (.client ⟨lit "x-", true, fun member _ => some { description := member }⟩))
    Registry.effects

theorem refused_without_trace_guarded :
    Registry.Arises guarded.registry ∧ guarded.registry.Returns ∧
      (addPropertyPreprocessor (lit "fx.fade") (lit "easing") (.notCallable (.int 5))).work guarded =
        .error (.preprocessorNotCallable (.int 5)) guarded ∧
      (addPreprocessor [] (.notCallable .null)).work guarded = .error (.preprocessorNotCallable .null) guarded ∧
      (splitMembers []).work guarded = .error .emptyKey guarded ∧
      ∀ e st', (addPreprocessor (lit "x-fade") .filters).work guarded ≠ .error e st' := by
  have made : Registry.make false (lit ".") = .ok { divider := lit "." } := rfl
  have start : Registry.Arises ({ registry := { divider := lit "." } } : State).registry := .made made
  have arises : Registry.Arises guarded.registry := .creator _ (.operation _ start)
  have returns : guarded.registry.Returns := by
    intro ns e stands member key
    have entries : guarded.registry.entries.entries = [(lit "fx", ⟨0, Registry.fading⟩)] := rfl
    have inside := Table.mem_of_get? stands
    rw [entries, List.mem_singleton] at inside
    cases inside
    exact ⟨_, rfl⟩
  have refused := refused_without_trace arises returns
  refine ⟨arises, returns, (refused _ _ _).mpr ⟨.inl rfl, rfl⟩, (refused _ _ _).mpr ⟨.inl rfl, rfl⟩,
    (refused _ _ _).mpr ⟨.inr ⟨rfl, rfl, rfl⟩, rfl⟩, fun e st' failed => ?_⟩
  rcases ((refused _ _ _).mp failed).1 with notFunction | ⟨-, empty, -⟩
  · cases notFunction
  · cases empty

end Request
end Bindmark
