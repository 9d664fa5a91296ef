import Bindmark.Proofs.StandardRegistry
import Bindmark.Proofs.Values
import Mathlib.Algebra.Ring.Nat

/-!
# Reading written directive strings

A directive string writes its keys bare, whatever they hold. It is read as the
pairs it was written from exactly when each of its directives is read so on its
own and all but the last are closed. When the values are unbroken, that depends
on the keys alone, and on blanks around the values (`Legible`). The reason is a
count: what is read is never longer than what it is read from, so that nothing
may be dropped anywhere.
-/

namespace Bindmark

open Reading

/-! ## What is read is not longer -/

theorem Text.strip_sublist (t : Text) : t.strip.Sublist t := by
  have stripped : (t.stripStart.reverse.dropWhile Text.isBlank).reverse.Sublist t.stripStart := by
    rw [← List.reverse_sublist, List.reverse_reverse]
    exact List.dropWhile_sublist _
  exact stripped.trans (List.dropWhile_sublist _)

namespace Pair

theorem unquote_sublist (t : Text) : (unquote t).Sublist t := by
  unfold unquote
  split
  · exact List.Sublist.refl _
  · split
    · exact (List.dropLast_sublist _).trans (List.sublist_cons_self ..)
    · exact List.Sublist.refl _

/-- The pair of a unit, by whether a colon counts in it. -/
theorem ofUnit?_eq_some {unit : Text} {p : Pair} (read : ofUnit? unit = some p) :
    (∃ key value, FirstCut ':' unit key value ∧ p = ⟨unquote key.strip, some value.strip⟩) ∨
      (¬ TopLevel ':' unit ∧ unit.strip ≠ [] ∧ p = ⟨unquote unit.strip, none⟩) := by
  unfold ofUnit? at read
  split at read
  · rename_i key value found
    cases read
    exact .inl ⟨key, value, firstCut_of_cutAt? found, rfl⟩
  · rename_i bare
    split at read
    · cases read
    · rename_i solid
      cases read
      exact .inr ⟨cutAt?_top_eq_none_iff.mp bare, by simpa using solid, rfl⟩

/-- A unit holds its pair, written as a directive. -/
theorem writeDirective_sublist {unit : Text} {p : Pair} (read : ofUnit? unit = some p) :
    (writeDirective p).Sublist unit := by
  rcases ofUnit?_eq_some read with ⟨key, value, cut, rfl⟩ | ⟨-, -, rfl⟩
  · rw [cut.split]
    have before := (unquote_sublist key.strip).trans (Text.strip_sublist key)
    exact (before.append (List.Sublist.refl [':'])).append (Text.strip_sublist value) |>.trans (by simp)
  · exact (unquote_sublist unit.strip).trans (Text.strip_sublist unit)

/-- The length of texts with a separator behind each of them. -/
def span (ts : List Text) : Nat := (ts.map fun t => t.length + 1).sum

theorem span_join {ts : List Text} (some_ : ts ≠ []) : (Text.join (lit ",") ts).length + 1 = span ts := by
  induction ts with
  | nil => exact absurd rfl some_
  | cons x ts ih =>
    by_cases last : ts = []
    · rw [last]
      rfl
    · have rest := ih last
      have comma : (lit ",").length = 1 := rfl
      rw [span] at rest ⊢
      rw [List.map_cons, List.sum_cons, ← rest, Text.join_cons _ _ last, List.length_append, List.length_append, comma]
      omega

theorem span_partsAt (r : Reading) (t : Text) : span (partsAt ',' r t) = t.length + 1 := by
  have joined : Text.join (lit ",") (partsAt ',' r t) = t := join_partsAt ',' r t
  rw [← span_join (partsAt_ne_nil _ _ _), joined]

/-- The pairs of units, written, are no longer than the units. Where they are as
    long, every unit is its pair, written. -/
theorem span_le (units : List Text) :
    span ((units.filterMap ofUnit?).map writeDirective) ≤ span units ∧
      (span ((units.filterMap ofUnit?).map writeDirective) = span units →
        units = (units.filterMap ofUnit?).map writeDirective ∧
          ∀ p ∈ units.filterMap ofUnit?, ofUnit? (writeDirective p) = some p) := by
  induction units with
  | nil => exact ⟨Nat.le_refl _, fun _ => ⟨rfl, by simp⟩⟩
  | cons unit units ih =>
    obtain ⟨least, same⟩ := ih
    have whole : span (unit :: units) = unit.length + 1 + span units := by simp [span]
    cases read : ofUnit? unit with
    | none =>
      rw [List.filterMap_cons_none read, whole]
      refine ⟨by omega, fun equal => ?_⟩
      omega
    | some p =>
      have here := writeDirective_sublist read
      have shorter := here.length_le
      have written : span (((unit :: units).filterMap ofUnit?).map writeDirective) =
          (writeDirective p).length + 1 + span ((units.filterMap ofUnit?).map writeDirective) := by
        rw [List.filterMap_cons_some read, List.map_cons]
        simp [span]
      rw [written, whole]
      refine ⟨by omega, fun equal => ?_⟩
      obtain ⟨parts, others⟩ := same (by omega)
      have itself : writeDirective p = unit := here.eq_of_length (by omega)
      rw [List.filterMap_cons_some read, List.map_cons, itself]
      refine ⟨by rw [← parts], fun q inside => ?_⟩
      rcases List.mem_cons.mp inside with rfl | later
      · rw [itself, read]
      · exact others q later

/-! ## Parts of a directive string -/

/-- No separator counts in a part, and all parts but the last are closed. -/
theorem partsAt_spec {separator : Char} (r : Reading) (t : Text) {first : Text} {others : List Text}
    (parts : partsAt separator r t = first :: others) :
    Hidden separator r first ∧ (others ≠ [] → r.read first = top) ∧ (∀ u ∈ others, Hidden separator top u) ∧
      ∀ u ∈ others.dropLast, Closed u := by
  induction t generalizing r first others with
  | nil =>
    cases parts
    exact ⟨hidden_nil _ _, by simp, by simp, by simp⟩
  | cons c t ih =>
    rw [partsAt] at parts
    split at parts
    · rename_i here
      cases parts
      cases rest : partsAt separator top t with
      | nil => exact absurd rest (partsAt_ne_nil _ _ _)
      | cons second more =>
        obtain ⟨hidden, closed, hiddenMore, closedMore⟩ := ih top rest
        refine ⟨hidden_nil _ _, fun _ => here.1, ?_, ?_⟩
        · exact List.forall_mem_cons.mpr ⟨hidden, hiddenMore⟩
        · cases more with
          | nil => simp
          | cons third more =>
            rw [List.dropLast_cons_of_ne_nil (List.cons_ne_nil _ _)]
            exact List.forall_mem_cons.mpr ⟨closed (List.cons_ne_nil _ _), closedMore⟩
    · rename_i elsewhere
      cases rest : partsAt separator (r.step c) t with
      | nil => exact absurd rest (partsAt_ne_nil _ _ _)
      | cons second more =>
        rw [rest] at parts
        cases parts
        obtain ⟨hidden, closed, hiddenMore, closedMore⟩ := ih (r.step c) rest
        exact ⟨hidden_cons.mpr ⟨elsewhere, hidden⟩, fun more => closed more, hiddenMore, closedMore⟩

theorem hidden_of_mem_partsAt {separator : Char} {t u : Text} (inside : u ∈ partsAt separator top t) :
    Hidden separator top u := by
  cases parts : partsAt separator top t with
  | nil => exact absurd parts (partsAt_ne_nil _ _ _)
  | cons first others =>
    obtain ⟨hidden, -, hiddenMore, -⟩ := partsAt_spec top t parts
    rw [parts] at inside
    exact List.forall_mem_cons.mpr ⟨hidden, hiddenMore⟩ u inside

theorem closed_of_mem_partsAt {separator : Char} {t u : Text} (inside : u ∈ (partsAt separator top t).dropLast) :
    Closed u := by
  cases parts : partsAt separator top t with
  | nil => exact absurd parts (partsAt_ne_nil _ _ _)
  | cons first others =>
    obtain ⟨-, closed, -, closedMore⟩ := partsAt_spec top t parts
    rw [parts] at inside
    cases others with
    | nil => cases inside
    | cons second more =>
      rw [List.dropLast_cons_of_ne_nil (List.cons_ne_nil _ _)] at inside
      have all : ∀ u ∈ first :: (second :: more).dropLast, Closed u :=
        List.forall_mem_cons.mpr ⟨closed (List.cons_ne_nil _ _), closedMore⟩
      exact all u inside

/-! ## Reading again -/

/-- A directive string that is read as its pairs has exactly their directives
    for its parts. -/
theorem parts_of_split {ps : List Pair} (some_ : ps ≠ [])
    (same : split (Text.join (lit ",") (ps.map writeDirective)) = ps) :
    partsAt ',' top (Text.join (lit ",") (ps.map writeDirective)) = ps.map writeDirective ∧
      ∀ p ∈ ps, ofUnit? (writeDirective p) = some p := by
  have joined : (Text.join (lit ",") (ps.map writeDirective)).length + 1 = span (ps.map writeDirective) :=
    span_join (by simpa using some_)
  have counted := span_partsAt top (Text.join (lit ",") (ps.map writeDirective))
  obtain ⟨-, equal⟩ := span_le (partsAt ',' top (Text.join (lit ",") (ps.map writeDirective)))
  rw [split] at same
  rw [same, counted, joined] at equal
  exact equal rfl

theorem split_join : ∀ {ps : List Pair}, (∀ p ∈ ps, split (writeDirective p) = [p]) →
    (∀ p ∈ ps.dropLast, Closed (writeDirective p)) → split (Text.join (lit ",") (ps.map writeDirective)) = ps
  | [], _, _ => rfl
  | [p], single, _ => single p (List.mem_singleton_self _)
  | p :: q :: rest, single, closed => by
    rw [List.dropLast_cons_of_ne_nil (List.cons_ne_nil _ _)] at closed
    have others : split (Text.join (lit ",") ((q :: rest).map writeDirective)) = q :: rest :=
      split_join (fun r inside => single r (List.mem_cons_of_mem _ inside))
        fun r inside => closed r (List.mem_cons_of_mem _ inside)
    have joined : Text.join (lit ",") ((p :: q :: rest).map writeDirective) =
        writeDirective p ++ lit "," ++ Text.join (lit ",") ((q :: rest).map writeDirective) := rfl
    rw [joined, split_append (closed p (List.mem_cons_self ..)), others, single p (List.mem_cons_self ..)]
    rfl

/-- A directive string is read as the pairs it was written from exactly when each
    of its directives is, and all but the last are closed. -/
theorem split_join_iff {ps : List Pair} :
    split (Text.join (lit ",") (ps.map writeDirective)) = ps ↔
      (∀ p ∈ ps, split (writeDirective p) = [p]) ∧ ∀ p ∈ ps.dropLast, Closed (writeDirective p) := by
  constructor
  · intro same
    by_cases some_ : ps = []
    · simp [some_]
    obtain ⟨parts, units⟩ := parts_of_split some_ same
    refine ⟨fun p inside => ?_, fun p inside => ?_⟩
    · have single : Hidden ',' top (writeDirective p) :=
        hidden_of_mem_partsAt (parts ▸ List.mem_map_of_mem inside)
      rw [split_eq_toList (hidden_top_iff.mp single), units p inside]
      rfl
    · have unit : writeDirective p ∈ (partsAt ',' top (Text.join (lit ",") (ps.map writeDirective))).dropLast := by
        rw [parts, ← List.map_dropLast]
        exact List.mem_map_of_mem inside
      exact closed_of_mem_partsAt unit
  · rintro ⟨single, closed⟩
    exact split_join single closed

/-! ## Legible directives -/

/-- A directive that is read as it was written: no separator counts in its key,
    which has neither blanks nor matching quotes around it. A bare key is not
    empty. A key with a value is closed, and the value has no blanks around it. -/
structure Legible (p : Pair) : Prop where
  comma : ¬ TopLevel ',' p.key
  colon : ¬ TopLevel ':' p.key
  trimmed : p.key.strip = p.key
  unquoted : unquote p.key = p.key
  bare : p.value = none → p.key ≠ []
  valued : ∀ v, p.value = some v → Closed p.key ∧ v.strip = v

/-- Trimming a key and taking its quotes away leaves as many characters only when
    it leaves the key alone. -/
theorem eq_of_unquote_strip {key k : Text} (read : unquote key.strip = k) (long : key.length ≤ k.length) :
    key = k ∧ k.strip = k ∧ unquote k = k := by
  have inner := unquote_sublist key.strip
  have outer := Text.strip_sublist key
  rw [read] at inner
  have trimmed : key.strip = key := outer.eq_of_length_le (long.trans inner.length_le)
  rw [trimmed] at read inner
  obtain rfl : k = key := inner.eq_of_length_le long
  exact ⟨rfl, trimmed, read⟩

theorem legible_of_split {p : Pair} (unbroken : ∀ v, p.value = some v → Unbroken v)
    (same : split (writeDirective p) = [p]) : Legible p := by
  obtain ⟨parts, units⟩ := parts_of_split (List.cons_ne_nil p []) same
  have unit := units p (List.mem_singleton_self _)
  have comma : Hidden ',' top (writeDirective p) := by
    apply hidden_of_mem_partsAt (t := writeDirective p)
    exact parts ▸ List.mem_singleton_self _
  rcases ofUnit?_eq_some unit with ⟨key, value, cut, read⟩ | ⟨bare, solid, read⟩
  · obtain ⟨k, _ | v⟩ := p
    · cases (Pair.mk.inj read).2
    obtain ⟨readKey, readValue⟩ := Pair.mk.inj read
    have readValue : value.strip = v := (Option.some.inj readValue).symm
    have written : writeDirective ⟨k, some v⟩ = k ++ ':' :: v := by simp [writeDirective, lit]
    -- Nothing is lost on either side of the colon, for what is read is as long as what is written.
    have lengths := congrArg List.length (written.symm.trans cut.split)
    have shortKey := ((unquote_sublist key.strip).trans (Text.strip_sublist key)).length_le
    have shortValue := (Text.strip_sublist value).length_le
    rw [← readKey] at shortKey
    rw [readValue] at shortValue
    simp only [List.length_append, List.length_cons] at lengths
    obtain ⟨rfl, trimmed, unquoted⟩ := eq_of_unquote_strip readKey.symm (by omega)
    have solid : value.strip = value := (Text.strip_sublist value).eq_of_length_le (by rw [readValue]; omega)
    rw [solid] at readValue
    subst readValue
    have before : Hidden ',' top key := fun a b split => comma a (b ++ ':' :: value) (by rw [written, split]; simp)
    exact ⟨hidden_top_iff.mp before, cut.first, trimmed, unquoted, by simp,
      fun v same => by cases same; exact ⟨cut.closed, solid⟩⟩
  · obtain ⟨k, _ | v⟩ := p
    · obtain ⟨readKey, -⟩ := Pair.mk.inj read
      obtain ⟨-, trimmed, unquoted⟩ := eq_of_unquote_strip readKey.symm (Nat.le_refl _)
      refine ⟨hidden_top_iff.mp comma, bare, trimmed, unquoted, fun _ empty => solid ?_, by simp⟩
      dsimp only at empty
      rw [empty]
      rfl
    · cases (Pair.mk.inj read).2

theorem split_of_legible {p : Pair} (unbroken : ∀ v, p.value = some v → Unbroken v) (legible : Legible p) :
    split (writeDirective p) = [p] := by
  obtain ⟨k, _ | v⟩ := p
  · have solid : ¬ Text.allBlank k := by
      rw [← Text.strip_eq_nil_iff, legible.trimmed]
      simpa using legible.bare rfl
    have read := (split_unit legible.comma).2.1 (by simpa using solid) legible.colon
    rw [legible.trimmed, legible.unquoted] at read
    exact read
  · obtain ⟨closed, trimmed⟩ := legible.valued v rfl
    have key : Sealed k := ⟨closed, hidden_top_iff.mpr legible.comma, hidden_top_iff.mpr legible.colon⟩
    have read := split_keyed key (unbroken v rfl).comma
    rw [legible.trimmed, legible.unquoted, trimmed] at read
    exact read

/-! ## Merged pairs -/

theorem mem_of_mem_merge {ps : List Pair} {p : Pair} (inside : p ∈ merge ps) : p ∈ ps := by
  obtain ⟨⟨k, v⟩, entry, rfl⟩ := List.mem_map.mp inside
  rcases Table.mem_insertAll _ _ entry with none | listed
  · cases none
  · obtain ⟨q, stands, same⟩ := List.mem_map.mp listed
    cases same
    exact stands

/-- Written pairs whose values are unbroken are read as the merged pairs exactly
    when those are legible and all keys but the last are closed. -/
theorem split_writeDirectives_iff {ps : List Pair} (unbroken : ∀ p ∈ ps, ∀ v, p.value = some v → Unbroken v) :
    split (writeDirectives ps) = merge ps ↔
      (∀ p ∈ merge ps, Legible p) ∧ ∀ p ∈ (merge ps).dropLast, Closed p.key := by
  have values : ∀ p ∈ merge ps, ∀ v, p.value = some v → Unbroken v := fun p inside =>
    unbroken p (mem_of_mem_merge inside)
  rw [writeDirectives, split_join_iff]
  constructor
  · rintro ⟨single, closed⟩
    have legible : ∀ p ∈ merge ps, Legible p := fun p inside => legible_of_split (values p inside) (single p inside)
    refine ⟨legible, fun p inside => ?_⟩
    obtain ⟨k, _ | v⟩ := p
    · exact closed _ inside
    · exact ((legible _ (List.dropLast_subset _ inside)).valued v rfl).1
  · rintro ⟨legible, closed⟩
    refine ⟨fun p inside => split_of_legible (values p inside) (legible p inside), fun p inside => ?_⟩
    obtain ⟨k, _ | v⟩ := p
    · exact closed _ inside
    · exact closed_keyed (closed _ inside) (values _ (List.dropLast_subset _ inside) v rfl).closed

end Pair

namespace Directive
open Pair Work

/-! ## Preprocessed directive strings -/

/-- A directive string is preprocessed when its directives are, and given up with
    them. Where the values that come of them are closed and hold no comma that
    counts, the result is read as the pairs that came of them, merged, exactly
    when each of these is legible and all their keys but the last are closed. A
    key with a separator that counts, as only a quoted key or member can hold, is
    never read again. -/
theorem preprocessed_reads_back_iff (t : Text) (st : State) :
    (∀ results st', expandAll (depthLimit st.registry) (split t) st = .ok results st' →
      preprocessText t st = .ok (writeDirectives results) st' ∧
        ((∀ p ∈ results, ∀ v, p.value = some v → Unbroken v) →
          (split (writeDirectives results) = merge results ↔
            (∀ p ∈ merge results, Legible p) ∧ ∀ p ∈ (merge results).dropLast, Closed p.key))) ∧
      ∀ e st', expandAll (depthLimit st.registry) (split t) st = .error e st' →
        preprocessText t st = .error e st' := by
  have steps : preprocessText t st =
      (expandAll (depthLimit st.registry) (split t) >>= fun results => pure (writeDirectives results)) st :=
    bind_ok (registry_apply st)
  rw [steps]
  refine ⟨fun results st' expanded => ⟨?_, split_writeDirectives_iff⟩, fun e st' failed => bind_error failed⟩
  rw [bind_ok expanded]
  rfl

/-- An object with a quoted member, and a directive with a quoted key. -/
def quotedKeys : Text := lit "css: \x7b'hover:bg': on\x7d, 'a:b': x"

/-- What comes of them: a member of a namespace, and the directive itself. -/
def quotedResults : List Pair := [⟨lit "css.hover:bg", some (lit "on")⟩, ⟨lit "a:b", some (lit "x")⟩]

/-- A state with the registry of the standard setup. -/
def quotedState : State := { registry := Standard.registry }

theorem preprocessed_reads_back_iff_quoted :
    ∃ st', preprocessText quotedKeys quotedState = .ok (writeDirectives quotedResults) st' ∧
      (∀ p ∈ quotedResults, ∀ v, p.value = some v → Unbroken v) ∧
      merge quotedResults = quotedResults ∧
      split (writeDirectives quotedResults) ≠ quotedResults := by
  have run : (match expandAll (depthLimit quotedState.registry) (split quotedKeys) quotedState with
      | .ok results _ => some results
      | .error _ _ => none) = some quotedResults := by decide +kernel
  have unbroken : ∀ p ∈ quotedResults, ∀ v, p.value = some v → Unbroken v := by
    have values : ∀ p ∈ quotedResults, ∀ v, p.value = some v → v = lit "on" ∨ v = lit "x" := by simp [quotedResults]
    intro p inside v valued
    rcases values p inside v valued with rfl | rfl
    · exact ⟨by decide, by decide⟩
    · exact ⟨by decide, by decide⟩
  have merged : merge quotedResults = quotedResults := by decide
  split at run
  · rename_i results st' expanded
    obtain rfl : results = quotedResults := Option.some.inj run
    obtain ⟨written, reads⟩ := (preprocessed_reads_back_iff quotedKeys quotedState).1 quotedResults st' expanded
    refine ⟨st', written, unbroken, merged, fun same => ?_⟩
    have legible := ((reads unbroken).mp (same.trans merged.symm)).1
    have bare := cutAt?_top_eq_none_iff.mpr (legible ⟨lit "css.hover:bg", some (lit "on")⟩ (by decide)).colon
    exact absurd bare (by decide)
  · cases run

end Directive
end Bindmark
