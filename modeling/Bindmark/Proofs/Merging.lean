import Bindmark.Proofs.Names
import Bindmark.Proofs.Rereading

/-!
# Merged directives

A directive string holds every key once: in the place in which it stood first,
and with the value that it had last (`Merged`). There is one such list for any
pairs. Plain pairs are read back as it, and then written as they were.
-/

namespace Bindmark.Pair

open Reading

/-! ## Merging -/

/-- Pairs with every key of others once: in its first place, and with its last
    value, where a bare key has no value. -/
structure Merged (ps rs : List Pair) : Prop where
  keys : rs.map Pair.key = (ps.map Pair.key).eraseDups
  last : ∀ p ∈ rs, ∃ before after, ps = before ++ p :: after ∧ p.key ∉ after.map Pair.key

theorem keys_merge (ps : List Pair) : (merge ps).map Pair.key = (ps.map Pair.key).eraseDups := by
  have keys := Table.keys_insertAll (ps.map fun p => (p.key, p.value)) .empty
  have none : (Table.empty : Table (Option Text)).keys = [] := rfl
  rw [none, List.nil_append, List.map_map] at keys
  rw [merge, List.map_map]
  exact keys

theorem merged_merge (ps : List Pair) : Merged ps (merge ps) := by
  refine ⟨keys_merge ps, fun p inside => ?_⟩
  obtain ⟨⟨k, v⟩, entry, rfl⟩ := List.mem_map.mp inside
  have set := Table.get?_of_mem entry
  rw [Table.ofList, Table.get?_insertAll] at set
  have empty : (Table.empty : Table (Option Text)).get? k = none := rfl
  rw [empty, Option.or_none] at set
  obtain ⟨behind, ahead, split, others⟩ := List.lookup_eq_some_iff.mp set
  rw [List.reverse_eq_iff, List.reverse_append, List.reverse_cons, List.append_assoc, List.singleton_append] at split
  obtain ⟨before, rest, rfl, -, split⟩ := List.map_eq_append_iff.mp split
  obtain ⟨q, after, rfl, same, laters⟩ := List.map_eq_cons_iff.mp split
  obtain ⟨rfl, rfl⟩ := Prod.mk.inj same
  refine ⟨before, after, rfl, fun again => ?_⟩
  obtain ⟨r, later, same⟩ := List.mem_map.mp again
  have stands : (r.key, r.value) ∈ behind := by
    rw [← List.mem_reverse, ← laters]
    exact List.mem_map_of_mem later
  have other := others _ stands
  simp [same] at other

/-- The last pair of a key. -/
theorem eq_of_last {ps before after before' after' : List Pair} {p q : Pair} (split : ps = before ++ p :: after)
    (last : p.key ∉ after.map Pair.key) (split' : ps = before' ++ q :: after') (last' : q.key ∉ after'.map Pair.key)
    (same : p.key = q.key) : p = q := by
  rcases List.append_eq_append_iff.mp (split.symm.trans split') with ⟨more, -, rest⟩ | ⟨more, -, rest⟩
  · cases more with
    | nil => exact (List.cons.inj rest).1
    | cons r more =>
      obtain ⟨-, rfl⟩ := List.cons.inj rest
      exact absurd (by simp [same]) last
  · cases more with
    | nil => exact (List.cons.inj rest).1.symm
    | cons r more =>
      obtain ⟨-, rfl⟩ := List.cons.inj rest
      exact absurd (by simp [same]) last'

theorem eq_of_keys : ∀ {rs rs' : List Pair}, rs.map Pair.key = rs'.map Pair.key →
    (∀ p ∈ rs, ∀ q ∈ rs', p.key = q.key → p = q) → rs = rs'
  | [], [], _, _ => rfl
  | p :: rs, q :: rs', keys, same => by
    obtain ⟨first, others⟩ := List.cons.inj keys
    rw [same p (List.mem_cons_self ..) q (List.mem_cons_self ..) first, eq_of_keys others fun p inside q inside' =>
      same p (List.mem_cons_of_mem _ inside) q (List.mem_cons_of_mem _ inside')]

/-- Pairs are merged in one way. -/
theorem Merged.unique {ps rs rs' : List Pair} (one : Merged ps rs) (other : Merged ps rs') : rs = rs' := by
  refine eq_of_keys (one.keys.trans other.keys.symm) fun p inside q inside' same => ?_
  obtain ⟨before, after, split, last⟩ := one.last p inside
  obtain ⟨before', after', split', last'⟩ := other.last q inside'
  exact eq_of_last split last split' last' same

theorem merge_eq_iff {ps rs : List Pair} : merge ps = rs ↔ Merged ps rs :=
  ⟨fun same => same ▸ merged_merge ps, fun merged => (merged_merge ps).unique merged⟩

/-- Pairs with different keys are merged. -/
theorem merged_self {rs : List Pair} (distinct : (rs.map Pair.key).Nodup) : Merged rs rs := by
  refine ⟨(Table.eraseDups_of_nodup distinct).symm, fun p inside => ?_⟩
  obtain ⟨before, after, split⟩ := List.append_of_mem inside
  rw [split, List.map_append, List.map_cons, List.nodup_append] at distinct
  exact ⟨before, after, split, (List.nodup_cons.mp distinct.2.1).1⟩

theorem merge_merge (ps : List Pair) : merge (merge ps) = merge ps := by
  refine merge_eq_iff.mpr (merged_self ?_)
  have distinct := (Table.ofList (ps.map fun p => (p.key, p.value))).nodup_keys
  rw [merge, List.map_map]
  exact distinct

/-- Merging changes nothing of what is written. -/
theorem writeDirectives_merge (ps : List Pair) : writeDirectives (merge ps) = writeDirectives ps := by
  rw [writeDirectives, merge_merge, writeDirectives]

/-! ## Plain pairs -/

/-- A pair whose key is not empty, holds no quotes, brackets, commas and colons
    and has no blanks around it, and whose value, if it has one, is unbroken and
    has no blanks around it. -/
structure Plain (p : Pair) : Prop where
  named : p.key ≠ []
  plain : ∀ c ∈ p.key, c ∉ quotes ++ openers ++ closers ++ [',', ':']
  trimmed : p.key.strip = p.key
  value : ∀ v, p.value = some v → Unbroken v ∧ v.strip = v

theorem Plain.sealed {p : Pair} (plain : p.Plain) : Sealed p.key := sealed_of_plain plain.plain

theorem Plain.legible {p : Pair} (plain : p.Plain) : Legible p where
  comma := hidden_top_iff.mp plain.sealed.comma
  colon := hidden_top_iff.mp plain.sealed.colon
  trimmed := plain.trimmed
  unquoted := unquote_of_head fun c first quote =>
    plain.plain c (List.mem_of_head? first) (by simp [quote])
  bare := fun _ => plain.named
  valued := fun v value => ⟨plain.sealed.closed, (plain.value v value).2⟩

/-- Plain pairs are written as a directive string that is read as those pairs
    merged: each key once, in its first place and with its last value. What was
    read is written as it was. -/
theorem plain_pairs_read_merged {ps : List Pair} (plain : ∀ p ∈ ps, p.Plain) :
    (∀ rs, split (writeDirectives ps) = rs ↔ Merged ps rs) ∧
      writeDirectives (split (writeDirectives ps)) = writeDirectives ps := by
  have merged : ∀ p ∈ merge ps, p.Plain := fun p inside => plain p (mem_of_mem_merge inside)
  have read : split (writeDirectives ps) = merge ps := by
    rw [split_writeDirectives_iff fun p inside v value => ((plain p inside).value v value).1]
    exact ⟨fun p inside => (merged p inside).legible, fun p inside =>
      (merged p (List.dropLast_subset _ inside)).sealed.closed⟩
  rw [read]
  exact ⟨fun rs => merge_eq_iff, writeDirectives_merge ps⟩

/-- Pairs with repeated keys: a value that comes after a bare key and one that
    a bare key comes after, and values that are empty or hold separators. -/
def repeated : List Pair :=
  [⟨lit "visible", none⟩, ⟨lit "text", some (lit "a ? 'x:y' : f(b, c)")⟩, ⟨lit "my key", some []⟩,
    ⟨lit "visible", some (lit "on")⟩, ⟨lit "text", none⟩]

theorem plain_pairs_read_merged_repeated :
    (∀ p ∈ repeated, p.Plain) ∧ writeDirectives repeated = lit "visible:on,text,my key:" ∧
      Merged repeated [⟨lit "visible", some (lit "on")⟩, ⟨lit "text", none⟩, ⟨lit "my key", some []⟩] ∧
      writeDirectives (split (lit "visible:on,text,my key:")) = lit "visible:on,text,my key:" := by
  have keys : ∀ p ∈ repeated, p.key ≠ [] ∧ p.key.all (· ∉ quotes ++ openers ++ closers ++ [',', ':']) ∧
      p.key.strip = p.key ∧ Closed (p.value.getD []) ∧ Hidden ',' top (p.value.getD []) ∧
      (p.value.getD []).strip = p.value.getD [] := by decide
  have plain : ∀ p ∈ repeated, p.Plain := by
    intro p inside
    obtain ⟨named, plain, trimmed, closed, comma, solid⟩ := keys p inside
    refine ⟨named, fun c inside => of_decide_eq_true (List.all_eq_true.mp plain c inside), trimmed, fun v value => ?_⟩
    rw [value, Option.getD_some] at closed comma solid
    exact ⟨⟨closed, comma⟩, solid⟩
  have written : writeDirectives repeated = lit "visible:on,text,my key:" := by decide
  obtain ⟨reads, again⟩ := plain_pairs_read_merged plain
  rw [written] at reads again
  exact ⟨plain, written, (reads _).mp (by decide), again⟩

end Bindmark.Pair
