import Bindmark.Registry.Lookup

/-!
# What work keeps

Work goes from state to state, and much of it leaves a part of the state as it
was. That is said by a relation between the state before the work and the one
after it, whether the work ends or is given up.
-/

namespace Bindmark
namespace Work

variable {α β : Type}

/-! ## Work from a state -/

theorem pure_apply (a : α) (st : State) : (pure a : Work α) st = .ok a st := rfl

theorem registry_apply (st : State) : Work.registry st = .ok st.registry st := rfl

theorem bind_apply (w : Work α) (next : α → Work β) (st : State) :
    (w >>= next) st =
      match w st with
      | .ok a st' => next a st'
      | .error e st' => .error e st' := by
  change EStateM.bind w next st = _
  rw [EStateM.bind]
  cases w st <;> rfl

theorem bind_ok {w : Work α} {next : α → Work β} {st st' : State} {a : α} (ran : w st = .ok a st') :
    (w >>= next) st = next a st' := by
  rw [bind_apply, ran]

theorem bind_error {w : Work α} {next : α → Work β} {st st' : State} {e : Fault}
    (ran : w st = .error e st') : (w >>= next) st = .error e st' := by
  rw [bind_apply, ran]

theorem bind_congr_at {w w' : Work α} {next next' : α → Work β} {st : State} (same : w st = w' st)
    (after : ∀ a st', w st = .ok a st' → next a st' = next' a st') :
    (w >>= next) st = (w' >>= next') st := by
  rw [bind_apply, bind_apply, ← same]
  cases ran : w st with
  | ok a st' => exact after a st' ran
  | error e st' => rfl

theorem bind_eq_ok {w : Work α} {next : α → Work β} {st st'' : State} {b : β}
    (ran : (w >>= next) st = .ok b st'') : ∃ a st', w st = .ok a st' ∧ next a st' = .ok b st'' := by
  rw [bind_apply] at ran
  cases first : w st with
  | ok a st' => exact ⟨a, st', rfl, by simpa only [first] using ran⟩
  | error e st' => simp only [first, reduceCtorEq] at ran

theorem discard_apply (w : Work α) (st : State) :
    Functor.discard w st =
      match w st with
      | .ok _ st' => .ok ⟨⟩ st'
      | .error e st' => .error e st' := by
  change EStateM.map (Function.const α PUnit.unit) w st = _
  rw [EStateM.map]
  cases w st <;> rfl

theorem discard_ok {w : Work α} {st st' : State} {a : α} (ran : w st = .ok a st') :
    Functor.discard w st = .ok ⟨⟩ st' := by
  rw [discard_apply, ran]

theorem discard_error {w : Work α} {st st' : State} {e : Fault} (ran : w st = .error e st') :
    Functor.discard w st = .error e st' := by
  rw [discard_apply, ran]

theorem discard_bind_ok {w : Work α} {next : α → Work β} {st st' : State} {a : α} (ran : w st = .ok a st') :
    Functor.discard (w >>= next) st = Functor.discard (next a) st' := by
  rw [discard_apply, discard_apply, bind_ok ran]

theorem discard_bind_pure (w : Work α) (f : α → β) :
    Functor.discard (w >>= fun a => pure (f a)) = Functor.discard w := by
  funext st
  rw [discard_apply, discard_apply, bind_apply]
  cases w st <;> rfl

theorem discard_discard (w : Work α) : Functor.discard (Functor.discard w) = Functor.discard w := by
  funext st
  rw [discard_apply, discard_apply]
  cases w st <;> rfl

theorem pure_eq_ok {a b : α} {st st' : State} (ran : (pure a : Work α) st = .ok b st') :
    a = b ∧ st = st' := by
  cases ran
  exact ⟨rfl, rfl⟩

/-- The state that work leaves, also when it is given up. -/
def stateAfter (w : Work α) (st : State) : State :=
  match w st with
  | .ok _ st' => st'
  | .error _ st' => st'

theorem stateAfter_ok {w : Work α} {st st' : State} {a : α} (ran : w st = .ok a st') :
    stateAfter w st = st' := by
  simp only [stateAfter, ran]

theorem stateAfter_error {w : Work α} {st st' : State} {e : Fault} (ran : w st = .error e st') :
    stateAfter w st = st' := by
  simp only [stateAfter, ran]

theorem stateAfter_discard (w : Work α) (st : State) : stateAfter (Functor.discard w) st = stateAfter w st := by
  simp only [stateAfter, discard_apply]
  cases w st <;> rfl

theorem stateAfter_bind_ok {w : Work α} {next : α → Work β} {st st' : State} {a : α} (ran : w st = .ok a st') :
    stateAfter (w >>= next) st = stateAfter (next a) st' := by
  simp only [stateAfter, bind_ok ran]

/-! ## Work that returns -/

/-- From every state with a property, work returns, to a state that has it too,
    and with a value of a kind. -/
def Gives (P : State → Prop) (w : Work α) (Q : α → Prop) : Prop :=
  ∀ st, P st → ∃ a st', w st = .ok a st' ∧ P st' ∧ Q a

section
variable {P : State → Prop} {Q : α → Prop} {Q' : β → Prop}

theorem Gives.pure {a : α} (holds : Q a) : Gives P (pure a) Q :=
  fun st has => ⟨a, st, rfl, has, holds⟩

theorem Gives.bind {w : Work α} {next : α → Work β} (first : Gives P w Q)
    (rest : ∀ a, Q a → Gives P (next a) Q') : Gives P (w >>= next) Q' := by
  intro st has
  obtain ⟨a, st', ran, has', holds⟩ := first st has
  rw [bind_ok ran]
  exact rest a holds st' has'

theorem Gives.weaken {Q'' : α → Prop} {w : Work α} (gives : Gives P w Q) (weaker : ∀ a, Q a → Q'' a) :
    Gives P w Q'' := by
  intro st has
  obtain ⟨a, st', ran, has', holds⟩ := gives st has
  exact ⟨a, st', ran, has', weaker a holds⟩

end

/-! ## Staying within a relation -/

/-- Wherever work starts, the state that it leaves is related to that one. -/
def Within (R : State → State → Prop) (w : Work α) : Prop := ∀ st, R st (stateAfter w st)

theorem Within.discard {R : State → State → Prop} {w : Work α} (within : Within R w) :
    Within R (Functor.discard w) := by
  intro st
  exact stateAfter_discard w st ▸ within st

/-- A relation that chains of work stay within when their parts do. -/
structure Chains (R : State → State → Prop) : Prop where
  refl : ∀ st, R st st
  trans : ∀ {st st' st'' : State}, R st st' → R st' st'' → R st st''

variable {R : State → State → Prop}

namespace Chains

theorem pure (chains : Chains R) (a : α) : Within R (pure a : Work α) := chains.refl

theorem throw (chains : Chains R) (e : Fault) : Within R (throw e : Work α) := chains.refl

theorem registry (chains : Chains R) : Within R Work.registry := chains.refl

theorem bind (chains : Chains R) {w : Work α} {next : α → Work β} (first : Within R w)
    (rest : ∀ a, Within R (next a)) : Within R (w >>= next) := by
  intro st
  cases ran : w st with
  | ok a st' =>
    have before : R st st' := stateAfter_ok ran ▸ first st
    exact stateAfter_bind_ok ran ▸ chains.trans before (rest a st')
  | error e st' =>
    rw [stateAfter_error (bind_error ran)]
    exact stateAfter_error ran ▸ first st

theorem forM (chains : Chains R) {f : α → Work PUnit} (each : ∀ a, Within R (f a)) :
    ∀ as : List α, Within R (as.forM f)
  | [] => chains.pure _
  | a :: as => chains.bind (each a) fun _ => chains.forM each as

end Chains

/-! ## Preprocessing -/

/-- A relation that the preprocessing of directives stays within. -/
structure Admits (R : State → State → Prop) : Prop extends Chains R where
  log : ∀ e, Within R (Work.log e)
  trace : ∀ c, Within R (Work.trace c)
  lookup : ∀ key, Within R (Registry.lookup key)

/-! ## Looking a key up -/

/-- A relation that the steps of looking a key up stay within: of all handlers
    that are registered, only those of that key are new. -/
structure Looks (key : Text) (R : State → State → Prop) : Prop extends Chains R where
  log : ∀ e, Within R (Work.log e)
  trace : ∀ c, Within R (Work.trace c)
  store : ∀ h, Within R (Work.changeRegistry fun r => r.store key h)
  storeLoose : ∀ h, Within R (Work.changeRegistry fun r => r.storeLoose h)
  allowVirtual : Within R (Work.changeRegistry fun r => r.allowVirtual key)

namespace Looks

variable {key : Text}

theorem storeNew (looks : Looks key R) (h : Handler) : Within R (Registry.storeNew key h) :=
  looks.bind looks.registry fun _ => looks.bind (looks.store h) fun _ => looks.pure _

theorem synthesize (looks : Looks key R) (h : Handler) (member ns key' : Text) :
    Within R (Registry.synthesize h member ns key') := by
  unfold Registry.synthesize
  dsimp only
  split
  · exact looks.bind (looks.pure _) fun _ => looks.pure _
  · refine looks.bind (looks.trace _) fun _ => ?_
    split
    · exact looks.bind (looks.pure _) fun _ => looks.pure _
    · exact looks.bind (looks.throw _) fun _ => looks.pure _

theorem createMember (looks : Looks key R) : Within R (Registry.createMember key) := by
  refine looks.bind looks.registry fun r => ?_
  split
  · exact looks.pure _
  · split
    · exact looks.pure _
    · refine looks.bind (looks.synthesize _ _ _ _) fun made => ?_
      split
      · exact looks.pure _
      · have stored (h : Handler) (event : Event) : Within R (do
            let made ← Registry.storeNew key h
            Work.log event
            return some made) :=
          looks.bind (looks.storeNew h) fun _ => looks.bind (looks.log event) fun _ => looks.pure _
        dsimp only
        split
        · exact looks.bind looks.allowVirtual fun _ => stored _ _
        · exact stored _ _

theorem create (looks : Looks key R) (c : Creator) : Within R (Registry.create key c) := by
  cases c with
  | namespaces => exact looks.createMember
  | client c =>
    unfold Registry.create Registry.CreatorClient.create
    dsimp only
    split
    · exact looks.pure _
    · split
      · exact looks.pure _
      · refine looks.bind (looks.trace _) fun _ => ?_
        split
        · exact looks.pure _
        · split
          · exact looks.bind (looks.storeNew _) fun _ => looks.pure _
          · exact looks.bind looks.registry fun _ => looks.bind (looks.storeLoose _) fun _ => looks.pure _

theorem createFirst (looks : Looks key R) : ∀ creators : List Creator, Within R (Registry.createFirst key creators)
  | [] => looks.pure _
  | c :: rest => by
    refine looks.bind (looks.create c) fun made => ?_
    split
    · exact looks.pure _
    · exact looks.createFirst rest

theorem lookup (looks : Looks key R) : Within R (Registry.lookup key) := by
  refine looks.bind looks.registry fun r => ?_
  split
  · exact looks.pure _
  · exact looks.createFirst r.creators

end Looks

/-! ## Parts of the state that are kept -/

/-- A part of the state is the same before and after. -/
def Keeps {π : Type} (part : State → π) (st st' : State) : Prop := part st' = part st

/-- A part of the state that has nothing to do with the registry, with what is
    traced or with what is logged. -/
structure Aside {π : Type} (part : State → π) : Prop where
  registry : ∀ st r, part { st with registry := r } = part st
  calls : ∀ st calls, part { st with calls := calls } = part st
  journal : ∀ st journal, part { st with journal := journal } = part st

section
variable {π : Type} {part : State → π}

theorem Keeps.chains : Chains (Keeps part) :=
  ⟨fun _ => rfl, fun first second => Eq.trans second first⟩

namespace Aside

theorem changeRegistry (aside : Aside part) (f : Registry → Registry) :
    Within (Keeps part) (Work.changeRegistry f) :=
  fun st => aside.registry st _

theorem looks (aside : Aside part) (key : Text) : Looks key (Keeps part) where
  toChains := Keeps.chains
  log _ st := aside.journal st _
  trace _ st := aside.calls st _
  store _ := aside.changeRegistry _
  storeLoose _ := aside.changeRegistry _
  allowVirtual := aside.changeRegistry _

/-- Preprocessing keeps what has nothing to do with it. -/
theorem admits (aside : Aside part) : Admits (Keeps part) where
  toChains := Keeps.chains
  log := (aside.looks []).log
  trace := (aside.looks []).trace
  lookup key := (aside.looks key).lookup

end Aside
end
end Work
end Bindmark
