import Bindmark.Table
import Mathlib.Tactic.Common

/-!
# Looking into tables

What a table holds under a key after a key has been set or taken out.
-/

namespace Bindmark.Table

variable {α : Type}

theorem lookup_cons_of_ne {k key : Text} (other : k ≠ key) (b : α) (rest : List (Text × α)) :
    ((key, b) :: rest).lookup k = rest.lookup k := by
  rw [List.lookup_cons, beq_eq_false_iff_ne.mpr other]

theorem lookup_insertEntry (k k' : Text) (a : α) (entries : List (Text × α)) :
    (insertEntry k a entries).lookup k' = if k' = k then some a else entries.lookup k' := by
  induction entries with
  | nil =>
    by_cases same : k' = k
    · rw [same, insertEntry, List.lookup_cons_self, if_pos rfl]
    · rw [insertEntry, lookup_cons_of_ne same, if_neg same]
  | cons entry rest ih =>
    obtain ⟨key, b⟩ := entry
    rw [insertEntry]
    by_cases here : key = k
    · rw [if_pos here, here]
      by_cases same : k' = k
      · rw [same, List.lookup_cons_self, if_pos rfl]
      · rw [lookup_cons_of_ne same, lookup_cons_of_ne same, if_neg same]
    · rw [if_neg here]
      by_cases first : k' = key
      · rw [first, List.lookup_cons_self, if_neg here, List.lookup_cons_self]
      · rw [lookup_cons_of_ne first, lookup_cons_of_ne first, ih]

theorem get?_insert (t : Table α) (k k' : Text) (a : α) :
    (t.insert k a).get? k' = if k' = k then some a else t.get? k' :=
  lookup_insertEntry k k' a t.entries

theorem eraseEntry_cons_self (k : Text) (b : α) (rest : List (Text × α)) :
    eraseEntry k ((k, b) :: rest) = eraseEntry k rest := List.filter_cons_of_neg (by simp)

theorem eraseEntry_cons_of_ne {k key : Text} (other : key ≠ k) (b : α) (rest : List (Text × α)) :
    eraseEntry k ((key, b) :: rest) = (key, b) :: eraseEntry k rest := List.filter_cons_of_pos (by simpa using other)

theorem eraseEntry_missing {k : Text} {entries : List (Text × α)} (missing : k ∉ entries.map Prod.fst) :
    eraseEntry k entries = entries := by
  refine List.filter_eq_self.mpr fun entry inside => decide_eq_true ?_
  rintro rfl
  exact missing (List.mem_map_of_mem inside)

theorem lookup_eraseEntry {k k' : Text} (other : k' ≠ k) (entries : List (Text × α)) :
    (eraseEntry k entries).lookup k' = entries.lookup k' := by
  induction entries with
  | nil => rfl
  | cons entry rest ih =>
    obtain ⟨key, b⟩ := entry
    by_cases gone : key = k
    · rw [gone, eraseEntry_cons_self, ih, lookup_cons_of_ne other]
    · rw [eraseEntry_cons_of_ne gone]
      by_cases first : k' = key
      · rw [first, List.lookup_cons_self, List.lookup_cons_self]
      · rw [lookup_cons_of_ne first, lookup_cons_of_ne first, ih]

theorem get?_erase_of_ne (t : Table α) {k k' : Text} (other : k' ≠ k) : (t.erase k).get? k' = t.get? k' :=
  lookup_eraseEntry other t.entries

theorem get?_eq_none_iff {t : Table α} {k : Text} : t.get? k = none ↔ k ∉ t.keys := by
  rw [get?, List.lookup_eq_none_iff, keys, List.mem_map, not_exists]
  exact forall_congr' fun entry => by rw [bne_iff_ne, not_and, ne_comm]

/-- A new key goes last. -/
theorem insertEntry_missing {k : Text} {entries : List (Text × α)} (missing : k ∉ entries.map Prod.fst) (a : α) :
    insertEntry k a entries = entries ++ [(k, a)] := by
  induction entries with
  | nil => rfl
  | cons entry rest ih =>
    obtain ⟨key, b⟩ := entry
    obtain ⟨other, missing⟩ := not_or.mp (List.mem_cons.not.mp missing)
    rw [insertEntry, if_neg (Ne.symm other), ih missing, List.cons_append]

theorem entries_insert_of_missing {t : Table α} {k : Text} (missing : t.get? k = none) (a : α) :
    (t.insert k a).entries = t.entries ++ [(k, a)] :=
  insertEntry_missing (get?_eq_none_iff.mp missing) a

/-- A key that is set again keeps its place. -/
theorem insertEntry_between {k : Text} {before : List (Text × α)} (first : k ∉ before.map Prod.fst) (a b : α)
    (after : List (Text × α)) : insertEntry k a (before ++ (k, b) :: after) = before ++ (k, a) :: after := by
  induction before with
  | nil => rw [List.nil_append, insertEntry, if_pos rfl, List.nil_append]
  | cons entry before ih =>
    obtain ⟨key, c⟩ := entry
    obtain ⟨other, first⟩ := not_or.mp (List.mem_cons.not.mp first)
    rw [List.cons_append, insertEntry, if_neg (Ne.symm other), ih first, List.cons_append]

theorem insertEntry_insertEntry (k : Text) (a b : α) (entries : List (Text × α)) :
    insertEntry k b (insertEntry k a entries) = insertEntry k b entries := by
  induction entries with
  | nil => simp only [insertEntry, if_true]
  | cons entry rest ih =>
    obtain ⟨key, c⟩ := entry
    by_cases here : key = k
    · simp only [insertEntry, here, if_true]
    · simp only [insertEntry, here, if_false, ih]

/-- Setting a key and taking another one out can be swapped. -/
theorem eraseEntry_insertEntry {k k' : Text} (other : k ≠ k') (a : α) (entries : List (Text × α)) :
    eraseEntry k' (insertEntry k a entries) = insertEntry k a (eraseEntry k' entries) := by
  induction entries with
  | nil => exact eraseEntry_cons_of_ne other a []
  | cons entry rest ih =>
    obtain ⟨key, b⟩ := entry
    by_cases here : key = k
    · rw [insertEntry, if_pos here, here, eraseEntry_cons_of_ne other, eraseEntry_cons_of_ne other, insertEntry,
        if_pos rfl]
    · rw [insertEntry, if_neg here]
      by_cases gone : key = k'
      · rw [gone, eraseEntry_cons_self, eraseEntry_cons_self, ih]
      · rw [eraseEntry_cons_of_ne gone, eraseEntry_cons_of_ne gone, insertEntry, if_neg here, ih]

theorem get?_map {β : Type} (t : Table α) (f : Text → α → β) (k : Text) : (t.map f).get? k = (t.get? k).map (f k) := by
  have mapped (entries : List (Text × α)) : (mapEntries f entries).lookup k = (entries.lookup k).map (f k) := by
    induction entries with
    | nil => rfl
    | cons entry rest ih =>
      obtain ⟨key, a⟩ := entry
      have split : mapEntries f ((key, a) :: rest) = (key, f key a) :: mapEntries f rest := rfl
      by_cases same : k = key
      · rw [split, same, List.lookup_cons_self, List.lookup_cons_self, Option.map_some]
      · rw [split, lookup_cons_of_ne same, lookup_cons_of_ne same, ih]
  exact mapped t.entries

theorem mem_of_get? {t : Table α} {k : Text} {a : α} (found : t.get? k = some a) : (k, a) ∈ t.entries := by
  obtain ⟨before, after, split, _⟩ := List.lookup_eq_some_iff.mp found
  rw [split]
  exact List.mem_append_right _ (List.mem_cons_self ..)

theorem mem_insertEntry {k : Text} {a : α} {entry : Text × α} {entries : List (Text × α)}
    (inside : entry ∈ insertEntry k a entries) : entry = (k, a) ∨ entry ∈ entries := by
  induction entries with
  | nil => exact .inl (List.mem_singleton.mp inside)
  | cons first rest ih =>
    obtain ⟨key, b⟩ := first
    rw [insertEntry] at inside
    split at inside
    · rcases List.mem_cons.mp inside with rfl | later
      · exact .inl rfl
      · exact .inr (List.mem_cons_of_mem _ later)
    · rcases List.mem_cons.mp inside with rfl | later
      · exact .inr (List.mem_cons_self ..)
      · exact (ih later).imp id (List.mem_cons_of_mem _)

theorem mem_insertAll {entry : Text × α} : ∀ (entries : List (Text × α)) (t : Table α),
    entry ∈ (t.insertAll entries).entries → entry ∈ t.entries ∨ entry ∈ entries
  | [], _, inside => .inl inside
  | (k, a) :: rest, t, inside => by
    rcases mem_insertAll rest (t.insert k a) inside with before | later
    · rcases mem_insertEntry before with rfl | old
      · exact .inr (List.mem_cons_self ..)
      · exact .inl old
    · exact .inr (List.mem_cons_of_mem _ later)

/-! ## Entries that are set one after the other -/

theorem notMem_keys_before {k : Text} {a : α} {before after : List (Text × α)}
    (distinct : ((before ++ (k, a) :: after).map Prod.fst).Nodup) : k ∉ before.map Prod.fst := by
  rw [List.map_append, List.map_cons, List.nodup_append] at distinct
  exact fun earlier => distinct.2.2 k earlier k (List.mem_cons_self ..) rfl

theorem get?_of_mem {t : Table α} {k : Text} {a : α} (inside : (k, a) ∈ t.entries) : t.get? k = some a := by
  obtain ⟨before, after, split⟩ := List.append_of_mem inside
  refine List.lookup_eq_some_iff.mpr ⟨before, after, split, fun entry earlier => ?_⟩
  have distinct := t.nodup_keys
  rw [split] at distinct
  have other : k ≠ entry.1 := by
    rintro rfl
    exact notMem_keys_before distinct (List.mem_map_of_mem earlier)
  simpa using other

/-- A table holds the last value that was set for a key. -/
theorem get?_insertAll (k : Text) : ∀ (entries : List (Text × α)) (t : Table α),
    (t.insertAll entries).get? k = (entries.reverse.lookup k).or (t.get? k)
  | [], t => rfl
  | (k', a) :: rest, t => by
    rw [insertAll, get?_insertAll k rest, get?_insert, List.reverse_cons, List.lookup_append, Option.or_assoc]
    by_cases same : k = k'
    · rw [if_pos same, same, List.lookup_cons_self, Option.some_or]
    · rw [if_neg same, lookup_cons_of_ne same, List.lookup_nil, Option.none_or]

theorem eraseDups_of_nodup {keys : List Text} (distinct : keys.Nodup) : keys.eraseDups = keys := by
  induction keys with
  | nil => rfl
  | cons k keys ih =>
    obtain ⟨new, distinct⟩ := List.nodup_cons.mp distinct
    have others : keys.filter (fun other => !other == k) = keys := by
      refine List.filter_eq_self.mpr fun other inside => ?_
      have apart : other ≠ k := fun same => new (same ▸ inside)
      simpa using apart
    rw [List.eraseDups_cons, others, ih distinct]

/-- Keys stand in the order in which they were first set. -/
theorem keys_insertAll : ∀ (entries : List (Text × α)) (t : Table α),
    (t.insertAll entries).keys = (t.keys ++ entries.map Prod.fst).eraseDups
  | [], t => by
    have distinct : t.keys.Nodup := t.nodup_keys
    rw [insertAll, List.map_nil, List.append_nil, eraseDups_of_nodup distinct]
  | (k, a) :: rest, t => by
    have keys : (t.insert k a).keys = if k ∈ t.keys then t.keys else t.keys ++ [k] := keys_insertEntry k a t.entries
    rw [insertAll, keys_insertAll rest, keys, List.map_cons]
    by_cases old : k ∈ t.keys
    · rw [if_pos old, List.eraseDups_append, List.eraseDups_append, List.cons_removeAll]
      simp [old]
    · rw [if_neg old, List.append_assoc, List.singleton_append]

theorem mem_keys_insertAll {k : Text} {entries : List (Text × α)} {t : Table α}
    (inside : k ∈ t.keys ∨ k ∈ entries.map Prod.fst) : k ∈ (t.insertAll entries).keys := by
  rw [keys_insertAll, List.mem_eraseDups, List.mem_append]
  exact inside

end Bindmark.Table
