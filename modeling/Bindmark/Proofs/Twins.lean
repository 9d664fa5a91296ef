import Bindmark.Proofs.AttributeNamespace

/-!
# Two runs on one registry

Preprocessing goes by the registry alone: what was called, logged and counted
before makes no difference to it. Two runs that start from the same registry end
in the same way, with the same registry, in which everything is still stored that
was at the start.
-/

namespace Bindmark

/-- Two states with the same registry. -/
def OneRegistry (st st' : State) : Prop := st.registry = st'.registry

/-- Two states with the same registry, which has kept what an earlier one had. -/
structure Twins (start : Registry) (st st' : State) : Prop where
  same : OneRegistry st st'
  persists : Registry.Persists start st.registry

namespace Registry

open Work

/-! ## Looking up -/

theorem createMember_repeats (key : Text) : Repeats OneRegistry (createMember key) := by
  intro st st' same
  have made {ns member : Text} {e : Entry} (split : splitKey? st.registry.divider key = some (ns, member))
      (stands : st.registry.entries.get? ns = some e) :
      Agree OneRegistry Eq (createMember key st) (createMember key st') := by
    rw [createMember_apply split stands, createMember_apply (same ▸ split) (same ▸ stands)]
    cases e.handler.memberFor member ns key with
    | error f => exact ⟨rfl, same⟩
    | ok made =>
      cases made with
      | none => exact ⟨rfl, same⟩
      | some h => exact ⟨congrArg (fun r => some (nextEntry r h)) same, congrArg (fun r => withMember r key ns h) same⟩
  rcases exists_namespace_or_createMember_none key st with ⟨ns, member, e, split, stands⟩ | nothing
  · exact made split stands
  · rcases exists_namespace_or_createMember_none key st' with ⟨ns, member, e, split, stands⟩ | nothing'
    · exact made (same.symm ▸ split) (same.symm ▸ stands)
    · rw [nothing, nothing']
      exact ⟨rfl, same⟩

theorem create_repeats (key : Text) (c : Creator) : Repeats OneRegistry (create key c) := by
  cases c with
  | namespaces => exact createMember_repeats key
  | client c =>
    intro st st' same
    obtain ⟨calls, made⟩ := create_client c key st
    obtain ⟨calls', made'⟩ := create_client c key st'
    rw [made, made']
    cases c.answer? key with
    | none => exact ⟨rfl, same⟩
    | some h =>
      refine ⟨congrArg (fun r => some (nextEntry r h)) same, ?_⟩
      cases c.stores with
      | true => exact congrArg (fun r => store r key h) same
      | false => exact congrArg (fun r => storeLoose r h) same

theorem createFirst_repeats (key : Text) : ∀ creators : List Creator, Repeats OneRegistry (createFirst key creators)
  | [] => Repeats.pure _
  | c :: rest => by
    refine (create_repeats key c).bind fun made => ?_
    cases made with
    | some e => exact Repeats.pure _
    | none => exact createFirst_repeats key rest

theorem lookup_repeats (key : Text) : Repeats OneRegistry (lookup key) := by
  refine Repeats.registry (fun st st' same => by rw [show st.registry = st'.registry from same]) fun r => ?_
  cases r.entries.get? key with
  | some e => exact Repeats.pure _
  | none => exact createFirst_repeats key r.creators

end Registry

namespace Twins

open Work

variable {start : Registry}

theorem refl (st : State) : Twins st.registry st st := ⟨rfl, .refl _⟩

/-- Work that repeats itself on one registry, and keeps what is stored there. -/
theorem repeats {α : Type} {w : Work α} (repeats : Repeats OneRegistry w)
    (within : Within (fun st st' => Registry.Persists st.registry st'.registry) w) : Repeats (Twins start) w := by
  intro st st' ⟨same, persists⟩
  have ran := repeats st st' same
  have kept := within st
  cases one : w st with
  | ok a t =>
    rw [stateAfter_ok one] at kept
    obtain ⟨b, t', two, equal, same'⟩ := ran.of_ok one
    rw [two]
    exact ⟨equal, same', persists.trans kept⟩
  | error e t =>
    rw [stateAfter_error one] at kept
    obtain ⟨t', two, same'⟩ := ran.of_error one
    rw [two]
    exact ⟨rfl, same', persists.trans kept⟩

theorem log (e : Event) : Repeats (Twins start) (Work.log e) := fun _ _ ⟨same, persists⟩ => ⟨rfl, same, persists⟩

theorem lookup (key : Text) : Repeats (Twins start) (Registry.lookup key) :=
  repeats (Registry.lookup_repeats key) (Registry.persists_admits.lookup key)

/-- Preprocessing repeats itself on one registry. -/
theorem mirrors : Mirrors (Twins start) where
  log := log
  trace _ := fun _ _ ⟨same, persists⟩ => ⟨rfl, same, persists⟩
  lookup key := by
    have looked : Alike (Twins start) Eq (Registry.lookup key) (Registry.lookup key) := lookup key
    exact looked.weaken fun _ _ same => congrArg (Option.map Entry.handler) same
  barred key := by
    refine (lookup key).bind fun entry => ?_
    exact Repeats.registry (fun st st' twins => by rw [show st.registry = st'.registry from twins.same]) fun _ =>
      Repeats.pure _
  divider _ _ twins := congrArg Registry.divider twins.same
  depthLimit _ _ twins := congrArg Directive.depthLimit twins.same

end Twins
end Bindmark
