import Bindmark.Text.Basic

/-!
# Tables

Ordered tables from texts to values. No key stands twice. A key that is set
again keeps its place, a new key goes last.
-/

namespace Bindmark

namespace Table
variable {α : Type}

/-! ## Entries -/

def insertEntry (k : Text) (a : α) : List (Text × α) → List (Text × α)
  | [] => [(k, a)]
  | (k', b) :: rest => if k' = k then (k, a) :: rest else (k', b) :: insertEntry k a rest

theorem keys_insertEntry (k : Text) (a : α) (entries : List (Text × α)) :
    (insertEntry k a entries).map Prod.fst =
      if k ∈ entries.map Prod.fst then entries.map Prod.fst else entries.map Prod.fst ++ [k] := by
  induction entries with
  | nil => rfl
  | cons entry rest ih =>
    obtain ⟨k', b⟩ := entry
    by_cases h : k' = k
    · simp [insertEntry, h]
    · have h' : ¬ k = k' := fun e => h e.symm
      simp only [insertEntry, h, if_false, List.map_cons, ih, List.mem_cons, h', false_or]
      split <;> simp

theorem nodup_insertEntry {entries : List (Text × α)} (k : Text) (a : α)
    (h : (entries.map Prod.fst).Nodup) : ((insertEntry k a entries).map Prod.fst).Nodup := by
  rw [keys_insertEntry]
  split
  · exact h
  · rename_i new
    rw [List.nodup_append]
    refine ⟨h, by simp, ?_⟩
    intro x hx y hy e
    rw [List.mem_singleton] at hy
    exact new (hy ▸ e ▸ hx)

def eraseEntry (k : Text) (entries : List (Text × α)) : List (Text × α) :=
  entries.filter fun entry => entry.1 ≠ k

theorem nodup_eraseEntry {entries : List (Text × α)} (k : Text)
    (h : (entries.map Prod.fst).Nodup) : ((eraseEntry k entries).map Prod.fst).Nodup :=
  h.sublist (List.filter_sublist.map _)

def mapEntries {β : Type} (f : Text → α → β) (entries : List (Text × α)) : List (Text × β) :=
  entries.map fun entry => (entry.1, f entry.1 entry.2)

theorem keys_mapEntries {β : Type} (f : Text → α → β) (entries : List (Text × α)) :
    (mapEntries f entries).map Prod.fst = entries.map Prod.fst := by
  simp [mapEntries, Function.comp_def]

end Table

/-- A table from texts to values, in the order in which the keys were first set. -/
structure Table (α : Type) where
  entries : List (Text × α)
  nodup_keys : (entries.map Prod.fst).Nodup

namespace Table
variable {α : Type}

/-! ## Tables -/

def empty : Table α := ⟨[], by simp⟩

instance : Inhabited (Table α) := ⟨empty⟩

def keys (t : Table α) : List Text := t.entries.map Prod.fst

def get? (t : Table α) (k : Text) : Option α := t.entries.lookup k

def holds (t : Table α) (k : Text) : Bool := (t.get? k).isSome

def insert (t : Table α) (k : Text) (a : α) : Table α :=
  ⟨insertEntry k a t.entries, nodup_insertEntry k a t.nodup_keys⟩

def erase (t : Table α) (k : Text) : Table α :=
  ⟨eraseEntry k t.entries, nodup_eraseEntry k t.nodup_keys⟩

def map {β : Type} (t : Table α) (f : Text → α → β) : Table β :=
  ⟨mapEntries f t.entries, by rw [keys_mapEntries]; exact t.nodup_keys⟩

/-- A table with the entries of a list set one after the other. -/
def insertAll (t : Table α) : List (Text × α) → Table α
  | [] => t
  | (k, a) :: rest => insertAll (t.insert k a) rest

/-- The table of a list of entries: a repeated key keeps its first place and
    its last value. -/
def ofList (entries : List (Text × α)) : Table α := empty.insertAll entries

theorem ext {s t : Table α} (h : s.entries = t.entries) : s = t := by
  cases s; cases t; cases h; rfl

end Table
end Bindmark
