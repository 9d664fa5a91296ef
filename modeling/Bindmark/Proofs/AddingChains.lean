import Bindmark.Proofs.Depths
import Bindmark.Proofs.MovingOnce
import Bindmark.Proofs.OwnStages
import Mathlib.Data.List.Perm.Subperm

/-!
# Chains of directives that are added one within the other

Stages of the library add directives in one way only: an object is split, and every
directive that is added has a key that goes on behind that of the object. No handler
that is made on demand splits objects. So, however values change on the way, there is
never one directive within the other more often than there are keys under which
objects are split, and once more: preprocessing ends, without a fault.
-/

namespace Bindmark

open Work

/-! ## Keys -/

namespace Registry

/-- The keys under which objects are split. -/
def splitKeys (r : Registry) : List Text :=
  (r.entries.entries.filter fun entry => entry.2.handler.splitsMembers).map Prod.fst

/-- A key that leads to a handler that splits objects is one of them. -/
theorem mem_splitKeys {r : Registry} {key : Text} {h : Handler} (leads : r.handlerOf key = some h)
    (splits : h.splitsMembers) : key ∈ r.splitKeys := by
  unfold handlerOf at leads
  split at leads
  · rename_i e stands
    cases leads
    exact List.mem_map.mpr ⟨(key, e), List.mem_filter.mpr ⟨Table.mem_of_get? stands, splits⟩, rfl⟩
  · split at leads
    · obtain ⟨e, -, rfl⟩ := Option.map_eq_some_iff.mp leads
      rw [Handler.splitsMembers_memberHandler] at splits
      cases splits
    · cases leads

theorem depthLimit_eq_splitKeys (r : Registry) : Directive.depthLimit r = r.splitKeys.length + 1000 := by
  rw [Directive.depthLimit, splitKeys, List.length_map, List.countP_eq_length_filter]

end Registry

/-- A key goes on behind another one. -/
def Text.GoesOn (key key' : Text) : Prop := key <+: key' ∧ key.length < key'.length

instance : DecidableRel Text.GoesOn := fun key key' =>
  inferInstanceAs (Decidable (key <+: key' ∧ key.length < key'.length))

namespace Registry

/-- The keys of directives that may stand one within the other, the outermost first:
    each goes on behind those before it, and objects are split under all but the last. -/
structure Nested (r : Registry) (keys : List Text) : Prop where
  goesOn : keys.Pairwise Text.GoesOn
  splits : ∀ key ∈ keys.dropLast, key ∈ r.splitKeys

instance (r : Registry) : DecidablePred r.Nested := fun keys =>
  decidable_of_iff (keys.Pairwise Text.GoesOn ∧ keys.dropLast.all r.splitKeys.contains) <| by
    rw [List.all_eq_true]
    simp only [List.contains_iff_mem]
    exact ⟨fun nested => ⟨nested.1, nested.2⟩, fun nested => ⟨nested.goesOn, nested.splits⟩⟩

namespace Nested

variable {r : Registry} {above keys : List Text} {key key' : Text}

theorem single (r : Registry) (key : Text) : r.Nested [key] := ⟨List.pairwise_singleton _ _, by simp⟩

/-- One more directive goes below one that splits objects. -/
theorem concat (nested : r.Nested (above ++ [key])) (splits : key ∈ r.splitKeys) (goesOn : Text.GoesOn key key') :
    r.Nested (above ++ [key] ++ [key']) where
  goesOn := by
    refine List.pairwise_append.mpr ⟨nested.goesOn, List.pairwise_singleton _ _, fun k inside k' last => ?_⟩
    rw [List.mem_singleton.mp last]
    rcases List.mem_append.mp inside with before | own
    · have first := (List.pairwise_append.mp nested.goesOn).2.2 k before key List.mem_cons_self
      exact ⟨first.1.trans goesOn.1, first.2.trans goesOn.2⟩
    · rw [List.mem_singleton.mp own]
      exact goesOn
  splits k inside := by
    rw [List.dropLast_concat] at inside
    rcases List.mem_append.mp inside with before | own
    · exact nested.splits k (by rwa [List.dropLast_concat])
    · rw [List.mem_singleton.mp own]
      exact splits

/-- Since no key stands twice among them, there is at most one that splits no objects. -/
theorem length_le (nested : r.Nested keys) : keys.length ≤ r.splitKeys.length + 1 := by
  have distinct : keys.dropLast.Nodup := by
    have apart : keys.Nodup := nested.goesOn.imp fun goesOn same => by
      rw [same] at goesOn
      exact absurd goesOn.2 (Nat.lt_irrefl _)
    exact apart.sublist (List.dropLast_sublist keys)
  have fewer := (distinct.subperm nested.splits).length_le
  rw [List.length_dropLast] at fewer
  omega

end Nested
end Registry

namespace Directive

/-! ## Watched preprocessing -/

/-- What comes of a directive when `add` deals with those that it adds. -/
def expandWith (add : Adder) (p : Pair) : Work (List Pair) := do
  let entry ← Registry.lookup p.key
  match p.value, entry.bind fun e => e.handler.preprocess.map (e.handler, ·) with
  | some value, some (h, pipeline) =>
    let (result, added) ← preprocess add h p.key pipeline (.text value)
    if result.truthy then return added ++ [⟨p.key, some result.display⟩]
    else
      Work.log (.removed p.key)
      return added
  | _, _ => return [p]

theorem expand_succ (depth : Nat) (p : Pair) : expand (depth + 1) p = expandWith (expand depth) p := rfl

def expandEach (add : Adder) : List Pair → Work (List Pair)
  | [] => return []
  | p :: rest => do
    let first ← add p
    let others ← expandEach add rest
    return first ++ others

theorem expandAll_eq_expandEach (depth : Nat) : ∀ ps : List Pair, expandAll depth ps = expandEach (expand depth) ps
  | [] => rfl
  | p :: rest => by rw [expandAll, expandEach, expandAll_eq_expandEach depth rest]

/-- What comes of a directive within others, whose keys are given from the outermost
    on. It is given up when no level is left, and also where the keys, with its own
    behind them, may not stand one within the other. -/
def expandWithin (allowed : List Text → Prop) [DecidablePred allowed] : Nat → List Text → Adder
  | 0, _, _ => throw .tooDeep
  | levels + 1, above, p =>
    if allowed (above ++ [p.key]) then expandWith (expandWithin allowed levels (above ++ [p.key])) p
    else throw .tooDeep

section
variable {add add' : Adder}

theorem expandWith_deepens (deepens : ∀ p, Deepens (add p) (add' p)) (p : Pair) :
    Deepens (expandWith add p) (expandWith add' p) := by
  refine (Deepens.refl _).bind fun entry => ?_
  split
  · exact (preprocess_deepens deepens _ _ _ _).bind fun _ => .refl _
  · exact .refl _

theorem expandEach_deepens (deepens : ∀ p, Deepens (add p) (add' p)) :
    ∀ ps : List Pair, Deepens (expandEach add ps) (expandEach add' ps)
  | [] => .refl _
  | p :: rest => (deepens p).bind fun _ => (expandEach_deepens deepens rest).bind fun _ => .refl _

/-- Watching only ever gives preprocessing up. -/
theorem expandWithin_deepens (allowed : List Text → Prop) [DecidablePred allowed] :
    ∀ (levels : Nat) (above : List Text) (p : Pair), Deepens (expandWithin allowed levels above p) (expand levels p)
  | 0, _, _ => fun st => .inl ⟨st, rfl⟩
  | levels + 1, above, p => by
    rw [expandWithin, expand_succ]
    split
    · exact expandWith_deepens (expandWithin_deepens allowed levels _) p
    · exact fun st => .inl ⟨st, rfl⟩

end

/-! ## Collecting work that returns -/

/-- Collecting work returns with a value of a kind, and keeps what holds of the state. -/
def Brings {α : Type} (P : State → Prop) (w : Collecting α) (Q : α → Prop) : Prop :=
  ∀ carried, Gives P (w.run carried) fun result => Q result.1

namespace Brings

variable {α β : Type} {P : State → Prop} {Q : α → Prop} {Q' : β → Prop}

theorem pure {a : α} (holds : Q a) : Brings P (pure a) Q := fun _ => Gives.pure holds

theorem bind {w : Collecting α} {next : α → Collecting β} (first : Brings P w Q)
    (rest : ∀ a, Q a → Brings P (next a) Q') : Brings P (w >>= next) Q' :=
  fun carried => (first carried).bind fun result holds => rest result.1 holds result.2

theorem lift {w : Work α} (gives : Gives P w Q) : Brings P (w : Collecting α) Q :=
  fun _ => gives.bind fun _ holds => Gives.pure holds

theorem forM {f : α → Collecting PUnit} (each : ∀ a, Brings P (f a) fun _ => True) :
    ∀ as : List α, Brings P (as.forM f) fun _ => True
  | [] => pure trivial
  | a :: as => (each a).bind fun _ _ => forM each as

/-- A value of a kind goes through stages that answer with that kind, or with what is
    falsy. -/
theorem through {τ : Type} {truthy : α → Bool} {call : τ → α → Collecting α} {pipeline : Pipeline τ}
    (each : ∀ stage ∈ pipeline.toList, ∀ a, Q a → Brings P (call stage a) fun b => truthy b = true → Q b) :
    ∀ a, Q a → Brings P (pipeline.through truthy call a) fun b => truthy b = true → Q b := by
  induction pipeline with
  | stage stage => exact each stage (List.mem_singleton_self stage)
  | andThen first second ihFirst ihSecond =>
    intro a holds
    have before := ihFirst (fun stage inside => each stage (List.mem_append_left _ inside)) a holds
    refine before.bind fun b kind => ?_
    by_cases truthful : truthy b = true
    · rw [if_pos truthful]
      exact ihSecond (fun stage inside => each stage (List.mem_append_right _ inside)) b (kind truthful)
    · rw [if_neg truthful]
      exact pure kind

end Brings

/-! ## Stages of the library -/

def IsText (d : Datum) : Prop := ∃ t, d = .text t

section
variable {r : Registry} {add : Adder} {h : Handler} {key : Text}

/-- Dealing with directives whose keys go on behind a key returns. -/
def AddsBehind (r : Registry) (key : Text) (add : Adder) : Prop :=
  ∀ p : Pair, Text.GoesOn key p.key → Gives (GrownFrom r) (add p) fun _ => True

theorem apply_brings {P : State → Prop} {p : Preprocessor} (own : p.isOwn) (d : Datum) (isText : IsText d) :
    Brings P (apply add key p d) fun result => result.truthy = true → IsText result := by
  obtain ⟨t, rfl⟩ := isText
  cases p with
  | filters => exact fun _ st has => ⟨_, st, rfl, has, fun _ => ⟨_, rfl⟩⟩
  | references => exact fun _ st has => ⟨_, st, rfl, has, fun _ => ⟨_, rfl⟩⟩
  | client c => cases own
  | notCallable given => cases own

/-- The divider, which is never empty, comes between the key of an object and those of
    the directives that it is split into. -/
theorem splitMembers_brings (divided : r.divider ≠ []) (adds : AddsBehind r key add) (t : Text) :
    Brings (GrownFrom r) (splitMembers add key t) fun result => result.truthy = true → IsText result := by
  unfold splitMembers
  split
  · intro carried st grown
    have behind (p : Pair) : Text.GoesOn key (key ++ st.registry.divider ++ p.key) := by
      have solid := List.length_pos_iff.mpr divided
      refine ⟨List.append_assoc key _ _ ▸ List.prefix_append _ _, ?_⟩
      rw [grown.divider, List.length_append, List.length_append]
      omega
    have gives (p : Pair) : Brings (GrownFrom r) (give add ⟨key ++ st.registry.divider ++ p.key, p.value⟩)
        fun _ => True :=
      (Brings.lift (adds _ (behind p))).bind fun _ _ _ => Gives.pure trivial
    have given := Brings.forM gives (Pair.ofObject t) carried
    exact (given.bind fun _ _ => Gives.pure fun truthy => absurd truthy Bool.false_ne_true) st grown
  · exact Brings.pure fun _ => ⟨t, rfl⟩

theorem propertyValue_brings {P : State → Prop} {table : Table (Pipeline Preprocessor)} {p : Pair}
    (own : ∀ pipeline, table.get? p.key = some pipeline → ∀ q ∈ pipeline.toList, q.isOwn) :
    Brings P (propertyValue add table p) fun _ => True := by
  unfold propertyValue
  split
  · rename_i pipeline value found _
    have through : Brings P (pipeline.through Datum.truthy (apply add p.key) (.text value)) _ :=
      Brings.through (fun q inside => apply_brings (own pipeline found q inside)) (.text value) ⟨value, rfl⟩
    exact fun carried => (through carried).weaken fun _ _ => trivial
  · exact Brings.pure trivial

theorem propertyValues_brings {P : State → Prop} {table : Table (Pipeline Preprocessor)}
    (own : ∀ name pipeline, table.get? name = some pipeline → ∀ p ∈ pipeline.toList, p.isOwn) :
    ∀ ps : List Pair, Brings P (propertyValues add table ps) fun _ => True
  | [] => Brings.pure trivial
  | p :: rest => (propertyValue_brings (own p.key)).bind fun _ _ =>
      (propertyValues_brings own rest).bind fun _ _ => Brings.pure trivial

theorem preprocessProperties_brings {P : State → Prop} (own : h.Own) (t : Text) :
    Brings P (preprocessProperties add h t) fun _ => True := by
  have properties (name : Text) (pipeline : Pipeline Preprocessor)
      (found : (h.properties.getD .empty).get? name = some pipeline) : ∀ p ∈ pipeline.toList, p.isOwn := by
    intro p inside
    refine own.properties name p ?_
    unfold Handler.propertyStages
    cases given : h.properties with
    | none =>
      rw [given] at found
      cases found
    | some table =>
      rw [given, Option.getD_some] at found
      simpa [found] using inside
  unfold preprocessProperties
  split
  · exact (propertyValues_brings properties _).bind fun _ _ => Brings.pure trivial
  · exact Brings.pure trivial

/-- A stage of the library returns, with a text again if its result is truthy. Only the
    stage that splits objects adds directives. -/
theorem runStage_brings (divided : r.divider ≠ []) (own : h.Own) {stage : Stage} (ofLibrary : stage.isOwn)
    (adds : stage = .members → AddsBehind r key add) (d : Datum) (isText : IsText d) :
    Brings (GrownFrom r) (runStage add h key stage d) fun result => result.truthy = true → IsText result := by
  cases stage with
  | apply p => exact apply_brings ofLibrary d isText
  | members =>
    obtain ⟨t, rfl⟩ := isText
    exact splitMembers_brings divided (adds rfl) t
  | properties =>
    obtain ⟨t, rfl⟩ := isText
    exact (preprocessProperties_brings own t).bind fun t' _ => Brings.pure fun _ => ⟨t', rfl⟩

theorem preprocess_gives_own (divided : r.divider ≠ []) (own : h.Own) {pipeline : Pipeline Stage}
    (staged : h.preprocess = some pipeline) (adds : h.splitsMembers → AddsBehind r key add) (t : Text) :
    Gives (GrownFrom r) (preprocess add h key pipeline (.text t)) fun _ => True := by
  have each : ∀ stage ∈ pipeline.toList, ∀ d, IsText d →
      Brings (GrownFrom r) (runStage add h key stage d) fun result => result.truthy = true → IsText result := by
    intro stage inside
    have listed : stage ∈ h.stages := by simpa [Handler.stages, staged] using inside
    refine runStage_brings divided own (own.stages stage listed) fun isMembers => adds ?_
    subst isMembers
    rw [Handler.splitsMembers, staged, Option.any_some]
    exact List.any_eq_true.mpr ⟨.members, inside, rfl⟩
  exact ((Brings.through each (.text t) ⟨t, rfl⟩) []).weaken fun _ _ => trivial

/-! ## Directives -/

/-- A directive is preprocessed if those are that objects under its key are split into. -/
theorem expandWith_gives (own : r.Own) {p : Pair} (adds : p.key ∈ r.splitKeys → AddsBehind r p.key add) :
    Gives (GrownFrom r) (expandWith add p) fun _ => True := by
  refine (GrownFrom.lookup_gives own.plain p.key).bind fun entry leads => ?_
  split
  · rename_i value h pipeline _ found
    obtain ⟨e, rfl, staged⟩ := Option.bind_eq_some_iff.mp found
    obtain ⟨_, staged, same⟩ := Option.map_eq_some_iff.mp staged
    cases same
    have leads' : r.handlerOf p.key = some e.handler := leads.symm
    have ran := preprocess_gives_own own.divided (own.handlerOf leads') staged
      (fun splits => adds (Registry.mem_splitKeys leads' splits)) value
    refine ran.bind fun (result, added) _ => ?_
    dsimp only
    split
    · exact Gives.pure trivial
    · exact (GrownFrom.log_gives _).bind fun _ _ => Gives.pure trivial
  · exact Gives.pure trivial

end

/-- Directives are preprocessed within others as long as their keys may stand so: with
    every level there is one key less under which objects could still be split. -/
theorem expandWithin_gives {r : Registry} (own : r.Own) : ∀ (levels : Nat) (above : List Text) (p : Pair),
    r.Nested (above ++ [p.key]) → r.splitKeys.length < levels + above.length →
      Gives (GrownFrom r) (expandWithin r.Nested levels above p) fun _ => True
  | 0, above, p, nested, many => by
    have short := nested.length_le
    rw [List.length_append, List.length_singleton] at short
    omega
  | levels + 1, above, p, nested, many => by
    rw [expandWithin, if_pos nested]
    refine expandWith_gives own fun splits q behind => ?_
    refine expandWithin_gives own levels (above ++ [p.key]) q (nested.concat splits behind) ?_
    rw [List.length_append, List.length_singleton]
    omega

theorem expandEach_gives {P : State → Prop} {add : Adder} (gives : ∀ p, Gives P (add p) fun _ => True) :
    ∀ ps : List Pair, Gives P (expandEach add ps) fun _ => True
  | [] => Gives.pure trivial
  | p :: rest => (gives p).bind fun _ _ => (expandEach_gives gives rest).bind fun _ _ => Gives.pure trivial

/-- What returns within some levels returns in the same way within more. -/
theorem expandAll_of_le {ps results : List Pair} {st st' : State} {levels depth : Nat} (fits : levels ≤ depth)
    (ran : expandAll levels ps st = .ok results st') : expandAll depth ps st = .ok results st' := by
  induction depth, fits using Nat.le_induction with
  | base => exact ran
  | succ depth _ ih =>
    rcases expandAll_deepens depth ps st with ⟨t, deep⟩ | same
    · rw [ih] at deep
      cases deep
    · rw [same, ih]

/-- In a registry that is furnished with stages of the library, whatever was looked up
    since, every directive string is preprocessed without a fault. It makes no
    difference to watch the chains of directives that are added one within the other:
    in all of them every key goes on behind those before it, and objects are split
    under all keys but the last. So they are never longer than there are such keys, and
    one more, and any bound on the depth that leaves that many levels gives the same. -/
theorem preprocessText_ends {r : Registry} (furnished : Furnished r) {st : State} (grown : r.Grown st.registry)
    (t : Text) : ∃ results st',
      preprocessText t st = .ok (Pair.writeDirectives results) st' ∧ r.Grown st'.registry ∧
      expandEach (expandWithin r.Nested (r.splitKeys.length + 1) []) (Pair.split t) st = .ok results st' ∧
      (∀ depth, r.splitKeys.length < depth → expandAll depth (Pair.split t) st = .ok results st') ∧
      ∀ keys, r.Nested keys → keys.length ≤ r.splitKeys.length + 1 := by
  have levels (p : Pair) : Gives (GrownFrom r) (expandWithin r.Nested (r.splitKeys.length + 1) [] p) fun _ => True :=
    expandWithin_gives furnished.own _ _ p (.single r p.key) (Nat.lt_succ_self _)
  obtain ⟨results, st', watched, grown', -⟩ := expandEach_gives levels (Pair.split t) st grown
  have plain : expandAll (r.splitKeys.length + 1) (Pair.split t) st = .ok results st' := by
    rw [expandAll_eq_expandEach]
    rcases expandEach_deepens (expandWithin_deepens r.Nested _ []) (Pair.split t) st with ⟨_, deep⟩ | same
    · rw [watched] at deep
      cases deep
    · rw [same, watched]
  refine ⟨results, st', ?_, grown', watched, fun depth fits => expandAll_of_le fits plain,
    fun _ nested => nested.length_le⟩
  have enough : r.splitKeys.length + 1 ≤ depthLimit st.registry := by
    rw [grown.depthLimit, Registry.depthLimit_eq_splitKeys]
    omega
  rw [preprocessText, bind_ok (registry_apply st), bind_ok (expandAll_of_le enough plain)]
  rfl

/-- A registry in which objects are split within objects, with filters in the members. -/
def styling : State :=
  [Setup.splitMembers (lit "attr"), .splitMembers (lit "attr.style"),
    .addMemberPreprocessor (lit "attr") .filters].foldl (fun st step => stateAfter step.work st) Standard.bareState

theorem furnished_styling : Furnished styling.registry := by
  have bare : Furnished Standard.bareState.registry := .made Standard.make_bareState
  exact .step (.addMemberPreprocessor (lit "attr") .filters) rfl
    (.step (.splitMembers (lit "attr.style")) trivial (.step (.splitMembers (lit "attr")) trivial bare))

/-- An object within an object, and filters in both. -/
def styled : Text := lit "\x7bstyle: \x7bcolor: a | b\x7d, title: c | d\x7d"

theorem preprocessText_ends_styling :
    Furnished styling.registry ∧ styling.registry.Grown styling.registry ∧
      styling.registry.splitKeys = [lit "attr", lit "attr.style"] ∧
      styling.registry.Nested [lit "attr", lit "attr.style", lit "attr.style.color"] ∧
      ∃ results st', preprocessText (lit "attr: " ++ styled) styling = .ok (Pair.writeDirectives results) st' ∧
        expandEach (expandWithin styling.registry.Nested 3 []) [⟨lit "attr", some styled⟩] styling =
          .ok results st' := by
  have splitting : styling.registry.splitKeys = [lit "attr", lit "attr.style"] := by decide +kernel
  have single : Pair.split (lit "attr: " ++ styled) = [⟨lit "attr", some styled⟩] := by decide +kernel
  obtain ⟨results, st', ran, -, watched, -⟩ := preprocessText_ends furnished_styling (.refl styling.registry)
    (lit "attr: " ++ styled)
  rw [splitting, single] at watched
  exact ⟨furnished_styling, .refl _, splitting, by decide +kernel, results, st', ran, watched⟩

example :
    (match preprocessText (lit "attr: " ++ styled) styling with
      | .ok t _ => t
      | .error _ _ => []) =
      lit "attr.style.color:filters['b'](a),attr.title:filters['d'](c)" := by
  decide +kernel

end Directive
end Bindmark
