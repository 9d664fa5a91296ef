import Bindmark.Proofs.AttributeNamespace

/-!
# Serial numbers

In every registry that operations, creators and compilers lead to, handlers that are
stored under different keys have different serial numbers. Changing a handler that
a key leads to, found or made, hence leaves those of all other keys alone.
-/

namespace Bindmark

open Work

namespace Registry

variable {key : Text} {st st' : State} {e : Entry}

/-! ## What keeps them distinct -/

namespace Serials

/-- Serial numbers that were distinct before are distinct afterwards. -/
def Stays (st st' : State) : Prop := st.registry.Serials → st'.registry.Serials

theorem stays_chains : Chains Stays := ⟨fun _ serials => serials, fun first second serials => second (first serials)⟩

theorem stays_looks (key : Text) : Looks key Stays where
  toChains := stays_chains
  log _ _ serials := serials
  trace _ _ serials := serials
  store h _ serials := serials.store key h
  storeLoose _ _ serials := ⟨fun k e stands => Nat.lt_succ_of_lt (serials.fresh k e stands), serials.distinct⟩
  allowVirtual _ serials := ⟨serials.fresh, serials.distinct⟩

theorem stays_register (key : Text) (h : Handler) (isVirtual : Bool) : Within Stays (register key h isVirtual) :=
  stays_chains.register (fun _ => (stays_looks key).storeNew h) (fun _ => (stays_looks key).allowVirtual) isVirtual

theorem stays_change (serial : Nat) (f : Handler → Handler) :
    Within Stays (Work.changeRegistry fun r => r.change serial f) :=
  fun _ serials => serials.change serial f

theorem stays_operates : Operates Stays where
  toChains := stays_chains
  lookup key := (stays_looks key).lookup
  getOrCreate key := stays_chains.getOrCreate (stays_looks key).lookup (stays_register key {} false)
  change serial f _ := stays_change serial f

theorem stays_admits : Admits Stays where
  toChains := stays_chains
  log _ _ serials := serials
  trace _ _ serials := serials
  lookup key := (stays_looks key).lookup

theorem addBuiltin {r : Registry} (serials : r.Serials) (builtin : Text × Bool × Text) :
    (r.addBuiltin builtin).Serials := by
  obtain ⟨key, isVirtual, description⟩ := builtin
  have stored := serials.store key { description }
  cases isVirtual with
  | false => exact stored
  | true => exact ⟨stored.fresh, stored.distinct⟩

theorem make {withBuiltins : Bool} {divider : Text} {r : Registry}
    (made : Registry.make withBuiltins divider = .ok r) : r.Serials := by
  have empty : ({ divider } : Registry).Serials := ⟨nofun, nofun⟩
  have added (builtins : List (Text × Bool × Text)) (r : Registry) (serials : r.Serials) :
      (builtins.foldl Registry.addBuiltin r).Serials := by
    induction builtins generalizing r with
    | nil => exact serials
    | cons builtin builtins ih => exact ih _ (serials.addBuiltin builtin)
  unfold Registry.make at made
  split at made
  · cases made
  · cases made
    split
    · exact added builtins _ empty
    · exact empty

end Serials

theorem Arises.serials {r : Registry} (arises : Arises r) : r.Serials := by
  induction arises with
  | made made => exact .make made
  | operation operation _ serials =>
    exact operation.within Serials.stays_operates (fun _ _ serials => serials) Serials.stays_register
      Serials.stays_change _ serials
  | creator c _ serials => exact ⟨serials.fresh, serials.distinct⟩
  | job s job _ serials => exact job.within Serials.stays_admits (fun _ _ serials => serials) s _ serials

/-! ## Lookups -/

/-- A handler that a key leads to is not the one of another key. -/
theorem Serials.apart_of_lookup (serials : st.registry.Serials) (found : lookup key st = .ok (some e) st') {k : Text}
    {other : Entry} (apart : k ≠ key) (stands : st'.registry.entries.get? k = some other) :
    other.serial ≠ e.serial := by
  cases stood : st.registry.entries.get? key with
  | some e' =>
    rw [lookup_stored stood] at found
    cases found
    exact fun same => apart (serials.distinct k key other e stands stood same)
  | none =>
    have kept := ((apart_looks key).lookup st).others k apart
    rw [stateAfter_ok found, stands] at kept
    rw [lookup, bind_ok (registry_apply st)] at found
    simp only [stood] at found
    obtain ⟨h, rfl, -⟩ := createFirst_some found
    exact Nat.ne_of_lt (serials.fresh k other kept.symm)

end Registry
end Bindmark
