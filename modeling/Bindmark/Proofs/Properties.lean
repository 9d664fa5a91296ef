import Bindmark.Directive.Stage
import Bindmark.Proofs.Keeping
import Bindmark.Proofs.Tables

/-!
# Properties of objects

What is left of the properties of an object once they are preprocessed. A
property that has a function gets its answer for a value, whatever directives
the function adds meanwhile. Every other property keeps its value, and what is
bare or falsy then goes. The rest is in order.
-/

namespace Bindmark.Directive

open Work

variable {P : State → Prop} {add : Adder} {table : Table (Pipeline Preprocessor)} {answer : Text → Text → Datum}

/-! ## Answers -/

/-- The functions of a table return for the properties in a list: they keep what
    holds of the state, and answer with a value for a key and a value. -/
def Answers (P : State → Prop) (add : Adder) (table : Table (Pipeline Preprocessor)) (answer : Text → Text → Datum)
    (ps : List Pair) : Prop :=
  ∀ p ∈ ps, ∀ pipeline v, table.get? p.key = some pipeline → p.value = some v → ∀ carried,
    Gives P ((pipeline.through Datum.truthy (apply add p.key) (.text v)).run carried) fun result =>
      result.1 = answer p.key v

/-- What becomes of the value of a property. -/
def answered (table : Table (Pipeline Preprocessor)) (answer : Text → Text → Datum) (p : Pair) : Datum :=
  match table.get? p.key, p.value with
  | some _, some v => answer p.key v
  | _, _ => .ofText? p.value

/-- A property with what becomes of its value, unless that is falsy. -/
def kept? (table : Table (Pipeline Preprocessor)) (answer : Text → Text → Datum) (p : Pair) : Option (Text × Text) :=
  if (answered table answer p).truthy then some (p.key, (answered table answer p).display) else none

/-- What is left of the properties in a list, in order. -/
def kept (table : Table (Pipeline Preprocessor)) (answer : Text → Text → Datum) (ps : List Pair) : List (Text × Text) :=
  ps.filterMap (kept? table answer)

theorem Answers.tail {p : Pair} {ps : List Pair} (answers : Answers P add table answer (p :: ps)) :
    Answers P add table answer ps :=
  fun q inside => answers q (List.mem_cons_of_mem _ inside)

/-! ## What is left of an object -/

theorem propertyValue_gives_answered {p : Pair} (answers : Answers P add table answer [p]) (carried : List Pair) :
    Gives P ((propertyValue add table p).run carried) fun result => result.1 = answered table answer p := by
  unfold propertyValue answered
  cases found : table.get? p.key with
  | none => exact Gives.pure rfl
  | some pipeline =>
    cases value : p.value with
    | none => exact Gives.pure rfl
    | some v => exact answers p (List.mem_singleton_self _) pipeline v found value carried

/-- The properties that are left are those that are kept, with their answers. -/
theorem propertyValues_gives_kept : ∀ {ps : List Pair}, Answers P add table answer ps → ∀ carried,
    Gives P ((propertyValues add table ps).run carried) fun result => result.1 = kept table answer ps
  | [], _, _ => Gives.pure rfl
  | p :: rest, answers, carried => by
    have split : (propertyValues add table (p :: rest)).run carried =
        (propertyValue add table p).run carried >>= fun value =>
          (propertyValues add table rest).run value.2 >>= fun others =>
            pure (if value.1.truthy then (p.key, value.1.display) :: others.1 else others.1, others.2) := by
      simp [propertyValues, StateT.run_bind]
    have alone : Answers P add table answer [p] := by
      intro q inside
      cases List.mem_singleton.mp inside
      exact answers p (List.mem_cons_self ..)
    rw [split]
    refine (propertyValue_gives_answered alone carried).bind fun value isAnswer => ?_
    refine (propertyValues_gives_kept answers.tail value.2).bind fun others areKept => Gives.pure ?_
    rw [isAnswer, areKept, kept, kept, List.filterMap_cons]
    by_cases truthy : (answered table answer p).truthy = true <;> simp [kept?, truthy]

/-- What is left of the properties of an object. -/
def keptOf (h : Handler) (answer : Text → Text → Datum) (t : Text) : List (Text × Text) :=
  kept (h.properties.getD .empty) answer (Pair.ofObject t)

/-- An object gives way to what is left of its properties. -/
theorem preprocessProperties_gives_kept {h : Handler} {t : Text} (isObject : Pair.isObject t = true)
    (answers : Answers P add (h.properties.getD .empty) answer (Pair.ofObject t)) (carried : List Pair) :
    Gives P ((preprocessProperties add h t).run carried) fun result =>
      result.1 = Pair.writeObject (keptOf h answer t) := by
  unfold preprocessProperties
  rw [if_pos isObject, StateT.run_bind]
  exact (propertyValues_gives_kept answers carried).bind fun result areKept => Gives.pure (by rw [areKept, keptOf])

/-! ## What is kept -/

theorem mem_keptOf {h : Handler} {t k v : Text} : (k, v) ∈ keptOf h answer t ↔
    ∃ p ∈ Pair.ofObject t, p.key = k ∧ (answered (h.properties.getD .empty) answer p).truthy = true ∧
      (answered (h.properties.getD .empty) answer p).display = v := by
  simp only [keptOf, kept, List.mem_filterMap, kept?, Option.ite_none_right_eq_some, Option.some.injEq, Prod.mk.injEq]
  constructor
  · rintro ⟨p, inside, truthy, key, value⟩
    exact ⟨p, inside, key, truthy, value⟩
  · rintro ⟨p, inside, key, truthy, value⟩
    exact ⟨p, inside, truthy, key, value⟩

/-! ## A single property -/

/-- A handler with one property, whose function always gives the same text. -/
def replacing (property t : Text) : Handler :=
  { properties := some (Table.empty.insert property
      (.stage (.client ⟨[], fun _ _ => { result := .ok (.text t) }⟩))) }

theorem get?_replacing (property t k : Text) :
    ((replacing property t).properties.getD .empty).get? k =
      if k = property then some (.stage (.client ⟨[], fun _ _ => { result := .ok (.text t) }⟩)) else none := by
  rw [replacing, Option.getD_some, Table.get?_insert]
  rfl

theorem replacing_answers (property t : Text) (ps : List Pair) :
    Answers (fun _ => True) add ((replacing property t).properties.getD .empty) (fun _ _ => .text t) ps := by
  intro p _ pipeline v found _ carried
  rw [get?_replacing] at found
  split at found
  · cases found
    exact fun st _ => ⟨_, _, rfl, trivial, rfl⟩
  · cases found

end Bindmark.Directive
