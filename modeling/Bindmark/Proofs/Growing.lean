import Bindmark.Directive.Preprocess
import Bindmark.Proofs.LookingUp
import Bindmark.Proofs.Repeating

/-!
# Growing registries

Looking keys up lets a registry grow: handlers of members are added, and keys
that comment markers may hold. All of that is settled beforehand by the registry
that the lookups start from, since a key with a divider is never a namespace.
So work on two registries that have grown from the same one ends in the same
way, whatever was looked up before.
-/

namespace Bindmark

/-! ## Splitting of objects -/

namespace Handler

theorem splitsMembers_addPreprocessor (h : Handler) (p : Preprocessor) :
    (h.addPreprocessor p).splitsMembers = h.splitsMembers := by
  obtain ⟨_, _, slot, _, _, _, _⟩ := h
  cases slot with
  | none =>
    cases p with
    | notCallable given => cases given <;> rfl
    | _ => rfl
  | some pipeline =>
    simp [addPreprocessor, splitsMembers, Preprocessor.addTo, Pipeline.chain, Pipeline.toList, Stage.isMembers]

/-- A handler that is made for a member does not split objects. -/
theorem splitsMembers_memberHandler (h : Handler) (member : Text) :
    (Standard.memberHandler h member).splitsMembers = false := by
  have added (ps : List Preprocessor) (h : Handler) : (ps.foldl addPreprocessor h).splitsMembers = h.splitsMembers := by
    induction ps generalizing h with
    | nil => rfl
    | cons p ps ih => rw [List.foldl_cons, ih, splitsMembers_addPreprocessor]
  rw [Standard.memberHandler, added]
  rfl

end Handler

namespace Registry

open Standard Work

/-! ## What a registry settles -/

/-- The handler that a key leads to. -/
def handlerOf (r : Registry) (key : Text) : Option Handler :=
  match r.entries.get? key with
  | some e => some e.handler
  | none =>
    match splitKey? r.divider key with
    | some (ns, member) => (r.entries.get? ns).map fun e => memberHandler e.handler member
    | none => none

/-- Whether comment markers may hold a key that has a handler. -/
def permits (r : Registry) (key : Text) : Bool :=
  match r.entries.get? key with
  | some _ => r.isVirtual key
  | none =>
    match splitKey? r.divider key with
    | some (ns, _) => r.isVirtual key || r.isVirtual ns
    | none => r.isVirtual key

/-- A registry with the creator that every registry has, whose namespaces derive
    their members in the standard way. -/
structure Plain (r : Registry) : Prop where
  creators : r.creators = [.namespaces]
  derives : ∀ key e, r.entries.get? key = some e → e.handler.DerivesMembers

/-- A registry that lookups have made of another one. -/
structure Grown (start r : Registry) : Prop where
  divider : r.divider = start.divider
  creators : r.creators = start.creators
  known : ∀ key e, r.entries.get? key = some e →
    start.handlerOf key = some e.handler ∧ r.isVirtual key = start.permits key
  missing : ∀ key, r.entries.get? key = none →
    start.entries.get? key = none ∧ r.isVirtual key = start.isVirtual key
  depthLimit : Directive.depthLimit r = Directive.depthLimit start

variable {start r r' : Registry} {key ns member : Text}

theorem Grown.refl (r : Registry) : Grown r r where
  divider := rfl
  creators := rfl
  known key e stands := by
    rw [handlerOf, permits, stands]
    exact ⟨rfl, rfl⟩
  missing key missing := ⟨missing, rfl⟩
  depthLimit := rfl

/-- A namespace is registered and permitted as it was at the start. -/
theorem Grown.namespace (grown : Grown start r) (whole : splitKey? start.divider ns = none) :
    (r.entries.get? ns).map Entry.handler = (start.entries.get? ns).map Entry.handler ∧
      r.isVirtual ns = start.isVirtual ns := by
  cases stands : r.entries.get? ns with
  | none =>
    obtain ⟨gone, permitted⟩ := grown.missing ns stands
    rw [gone]
    exact ⟨rfl, permitted⟩
  | some e =>
    obtain ⟨made, permitted⟩ := grown.known ns e stands
    rw [handlerOf] at made
    rw [permits] at permitted
    cases stood : start.entries.get? ns with
    | none => simp only [stood, whole, reduceCtorEq] at made
    | some e' =>
      simp only [stood, Option.some.injEq] at made permitted
      exact ⟨by rw [Option.map_some, Option.map_some, made], permitted⟩

theorem splitKey?_namespace (split : splitKey? start.divider key = some (ns, member)) :
    splitKey? start.divider ns = none :=
  splitKey?_eq_none (splitKey?_eq_some split).2.2

theorem Grown.derivesKey (grown : Grown start r) (plain : Plain start) (key : Text) : r.DerivesKey key := by
  intro ns member e split stands
  rw [grown.divider] at split
  have same := (grown.namespace (splitKey?_namespace split)).1
  rw [stands, Option.map_some] at same
  obtain ⟨e', stood, equal⟩ := Option.map_eq_some_iff.mp same.symm
  exact equal ▸ plain.derives ns e' stood

/-! ## Registries with a new member -/

theorem isVirtual_allowVirtual (r : Registry) (key k : Text) :
    (r.allowVirtual key).isVirtual k = (r.isVirtual k || k == key) := by
  unfold allowVirtual isVirtual
  dsimp only
  split
  · rename_i listed
    by_cases same : k = key
    · rw [same, listed, Bool.true_or]
    · rw [beq_eq_false_iff_ne.mpr same, Bool.or_false]
  · rw [List.contains_append, List.contains_cons, List.contains_nil, Bool.or_false]

theorem isVirtual_withMember (r : Registry) (key ns : Text) (h : Handler) (k : Text) :
    (r.withMember key ns h).isVirtual k = (r.isVirtual k || (k == key && r.isVirtual ns)) := by
  have stored (r' : Registry) : (r'.store key h).isVirtual k = r'.isVirtual k := rfl
  rw [withMember, stored]
  cases r.isVirtual ns with
  | true => rw [if_pos rfl, isVirtual_allowVirtual, Bool.and_true]
  | false => rw [if_neg Bool.false_ne_true, Bool.and_false, Bool.or_false]

theorem depthLimit_withMember {h : Handler} (missing : r.entries.get? key = none) (whole : h.splitsMembers = false) :
    Directive.depthLimit (r.withMember key ns h) = Directive.depthLimit r := by
  have entries (e : Entry) : (r.entries.insert key e).entries = r.entries.entries ++ [(key, e)] :=
    Table.entries_insert_of_missing missing e
  have stored (r' : Registry) (same : r'.entries = r.entries) :
      Directive.depthLimit (r'.store key h) = Directive.depthLimit r := by
    simp [Directive.depthLimit, store, same, entries, nextEntry, whole]
  unfold withMember
  split
  · exact stored _ rfl
  · exact stored _ rfl

/-- A member that the start leads its key to, permitted as the start permits it, can
    be registered in a grown registry. -/
theorem Grown.storeMember (grown : Grown start r) {h : Handler} (missing : r.entries.get? key = none)
    (whole : h.splitsMembers = false) (made : start.handlerOf key = some h)
    (permitted : (r.withMember key ns h).isVirtual key = start.permits key) :
    Grown start (r.withMember key ns h) where
  divider := by rw [withMember_divider, grown.divider]
  creators := by rw [withMember_creators, grown.creators]
  known k e found := by
    rw [get?_withMember] at found
    split at found
    · rename_i same
      cases found
      rw [same]
      exact ⟨made, permitted⟩
    · rename_i other
      obtain ⟨known, same⟩ := grown.known k e found
      refine ⟨known, ?_⟩
      rw [isVirtual_withMember, same]
      simp [other]
  missing k absent := by
    rw [get?_withMember] at absent
    split at absent
    · cases absent
    · rename_i other
      obtain ⟨gone, same⟩ := grown.missing k absent
      refine ⟨gone, ?_⟩
      rw [isVirtual_withMember, same]
      simp [other]
  depthLimit := by rw [depthLimit_withMember missing whole, grown.depthLimit]

/-- A lookup in a grown registry gives the handler that the key leads to, and lets
    the registry grow. -/
theorem Grown.looksUp (grown : Grown start r) {entry : Option Entry} (looked : LooksUp key r entry r') :
    Grown start r' ∧ entry.map Entry.handler = start.handlerOf key ∧
      (entry.isSome → r'.isVirtual key = start.permits key) := by
  cases looked with
  | registered stands =>
    obtain ⟨made, permitted⟩ := grown.known key _ stands
    exact ⟨grown, made.symm, fun _ => permitted⟩
  | unknown missing nowhere =>
    refine ⟨grown, Eq.symm ?_, by simp⟩
    rw [handlerOf, (grown.missing key missing).1]
    dsimp only
    split
    · rename_i ns member split
      have same := (grown.namespace (splitKey?_namespace split)).1
      rw [nowhere ns member (by rw [grown.divider, split]), Option.map_none, eq_comm, Option.map_eq_none_iff] at same
      rw [same]
      rfl
    · rfl
  | derived missing split stands =>
    rename_i ns member e
    rw [grown.divider] at split
    obtain ⟨handler, permitted⟩ := grown.namespace (splitKey?_namespace split)
    obtain ⟨gone, listed⟩ := grown.missing key missing
    rw [stands, Option.map_some] at handler
    obtain ⟨e', stood, equal⟩ := Option.map_eq_some_iff.mp handler.symm
    have made : start.handlerOf key = some (memberHandler e.handler member) := by
      rw [handlerOf, gone]
      simp only [split, stood, Option.map_some, equal]
    have allowed : (r.withMember key ns (memberHandler e.handler member)).isVirtual key = start.permits key := by
      rw [isVirtual_withMember, permits, gone, listed, permitted]
      simp only [split, beq_self_eq_true, Bool.true_and]
    exact ⟨grown.storeMember missing (Handler.splitsMembers_memberHandler _ _) made allowed, made.symm,
      fun _ => allowed⟩

end Registry

/-! ## Two runs on grown registries -/

/-- Whether an event tells of a handler that was made for a key. -/
def Event.isSynthesized : Event → Bool
  | .synthesized _ _ => true
  | _ => false

/-- What is logged, apart from the handlers that were made. -/
def told (journal : List Event) : List Event := journal.filter fun e => !e.isSynthesized

theorem told_append (before after : List Event) : told (before ++ after) = told before ++ told after :=
  List.filter_append ..

theorem told_eq_nil {events : List Event} (made : ∀ e ∈ events, e.isSynthesized) : told events = [] :=
  List.filter_eq_nil_iff.mpr fun e inside => by simp [made e inside]

/-- Looking a key up in a grown registry leads to the handler that was settled at
    the start, and tells of nothing but a handler that is made. -/
theorem Registry.lookup_grown {start : Registry} (plain : start.Plain) (key : Text) (st : State)
    (grown : Grown start st.registry) :
    ∃ entry r events, lookup key st = .ok entry { st with registry := r, journal := st.journal ++ events } ∧
      told events = [] ∧ Grown start r ∧ entry.map Entry.handler = start.handlerOf key ∧
      (entry.isSome → r.isVirtual key = start.permits key) := by
  obtain ⟨entry, r, events, ran, looked, made⟩ :=
    lookup_looksUp (grown.creators.trans plain.creators) (grown.derivesKey plain key)
  refine ⟨entry, r, events, ran, told_eq_nil fun e inside => ?_, grown.looksUp looked⟩
  obtain ⟨ns, rfl⟩ := made e inside
  rfl

/-- In two registries that have grown from one, a key leads to the same handler, and
    is then permitted in both or in none. -/
theorem Registry.lookup_both {start : Registry} (plain : start.Plain) (key : Text) {st st' : State}
    (left : Grown start st.registry) (right : Grown start st'.registry) :
    ∃ entry entry' r r' events events',
      lookup key st = .ok entry { st with registry := r, journal := st.journal ++ events } ∧
      lookup key st' = .ok entry' { st' with registry := r', journal := st'.journal ++ events' } ∧
      told events = [] ∧ told events' = [] ∧ Grown start r ∧ Grown start r' ∧
      entry.map Entry.handler = entry'.map Entry.handler ∧
      (entry.isSome → r.isVirtual key = r'.isVirtual key) := by
  obtain ⟨entry, r, events, ran, silent, grown, handler, permitted⟩ := lookup_grown plain key st left
  obtain ⟨entry', r', events', ran', silent', grown', handler', permitted'⟩ := lookup_grown plain key st' right
  have same : entry.map Entry.handler = entry'.map Entry.handler := handler.trans handler'.symm
  refine ⟨entry, entry', r, r', events, events', ran, ran', silent, silent', grown, grown', same, fun some_ => ?_⟩
  have some' : entry'.isSome := by
    rw [← Option.isSome_map, ← same, Option.isSome_map]
    exact some_
  exact (permitted some_).trans (permitted' some').symm

/-- A state that work without configuring may lead to. -/
structure Reached (start st : State) : Prop where
  grown : Registry.Grown start.registry st.registry
  nodeStages : st.nodeStages = start.nodeStages

/-- States reached from one start that differ at most in how far their registries
    have grown. -/
structure Mirrored (start st st' : State) : Prop where
  left : Reached start st
  right : Reached start st'
  calls : st.calls = st'.calls
  journal : told st.journal = told st'.journal
  stats : st.stats = st'.stats

namespace Mirrored

open Work

variable {start : State}

theorem log (e : Event) : Repeats (Mirrored start) (Work.log e) := by
  intro st st' ⟨left, right, calls, journal, stats⟩
  have journal' : told (st.journal ++ [e]) = told (st'.journal ++ [e]) := by
    rw [told_append, told_append, journal]
  exact ⟨rfl, ⟨left.grown, left.nodeStages⟩, ⟨right.grown, right.nodeStages⟩, calls, journal', stats⟩

theorem trace (c : Call) : Repeats (Mirrored start) (Work.trace c) := by
  intro st st' ⟨left, right, calls, journal, stats⟩
  have calls' := congrArg (· ++ [c]) calls
  exact ⟨rfl, ⟨left.grown, left.nodeStages⟩, ⟨right.grown, right.nodeStages⟩, calls', journal, stats⟩

theorem count (f : Stats → Stats) : Repeats (Mirrored start) (Work.count f) := by
  intro st st' ⟨left, right, calls, journal, stats⟩
  have stats' := congrArg f stats
  exact ⟨rfl, ⟨left.grown, left.nodeStages⟩, ⟨right.grown, right.nodeStages⟩, calls, journal, stats'⟩

/-- A key is looked up on both sides with the same handler, and is then permitted
    on both sides or on none. -/
theorem lookup (plain : start.registry.Plain) (key : Text) {st st' : State} (mirrored : Mirrored start st st') :
    ∃ entry entry' t t', Registry.lookup key st = .ok entry t ∧ Registry.lookup key st' = .ok entry' t' ∧
      Mirrored start t t' ∧ entry.map Entry.handler = entry'.map Entry.handler ∧
      (entry.isSome → t.registry.isVirtual key = t'.registry.isVirtual key) := by
  obtain ⟨entry, entry', r, r', events, events', ran, ran', silent, silent', grown, grown', same, permitted⟩ :=
    Registry.lookup_both plain key mirrored.left.grown mirrored.right.grown
  refine ⟨entry, entry', _, _, ran, ran', ⟨⟨grown, mirrored.left.nodeStages⟩, ⟨grown', mirrored.right.nodeStages⟩,
    mirrored.calls, ?_, mirrored.stats⟩, same, permitted⟩
  simp only [told_append, silent, silent', List.append_nil, mirrored.journal]

/-- Compiling documents repeats itself on grown registries. -/
theorem mirrorsDocuments (plain : start.registry.Plain) : MirrorsDocuments (Mirrored start) where
  log := log
  trace := trace
  count := count
  lookup key := by
    intro st st' mirrored
    obtain ⟨entry, entry', t, t', ran, ran', after, same, -⟩ := mirrored.lookup plain key
    rw [ran, ran']
    exact ⟨same, after⟩
  barred key := by
    intro st st' mirrored
    obtain ⟨entry, entry', t, t', ran, ran', after, same, permitted⟩ := mirrored.lookup plain key
    exact isBarred_agree ran ran' same permitted after
  divider st st' mirrored := mirrored.left.grown.divider.trans mirrored.right.grown.divider.symm
  depthLimit st st' mirrored := mirrored.left.grown.depthLimit.trans mirrored.right.grown.depthLimit.symm
  nodeStages st st' mirrored := mirrored.left.nodeStages.trans mirrored.right.nodeStages.symm

end Mirrored
end Bindmark
