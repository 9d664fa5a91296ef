import Bindmark.Binary.Basic

/-!
# Data

The values that clients hand over and get back: null, truth values, numbers,
texts, lists and objects. A value is falsy when it is null, false, zero or
empty, and a falsy result of a preprocessor removes its directive.
-/

namespace Bindmark

/-- A value of a client. -/
inductive Datum where
  | null
  | bool (b : Bool)
  | int (i : Int)
  /-- A number of limited precision. -/
  | float (x : Binary)
  | text (t : Text)
  | list (items : List Datum)
  | object (fields : List (Text × Datum))

namespace Datum

instance : Inhabited Datum := ⟨.null⟩

/-- An optional text, where nothing is null. -/
def ofText? : Option Text → Datum
  | none => .null
  | some t => .text t

/-! ## Truth -/

/-- Whether a value counts as something: not null, false, zero or empty. -/
def truthy : Datum → Bool
  | .null => false
  | .bool b => b
  | .int i => i != 0
  | .float x => x.isNonzero
  | .text t => !t.isEmpty
  | .list items => !items.isEmpty
  | .object fields => !fields.isEmpty

/-! ## Equality -/

/-- The whole number that a value counts as: truth values count as 0 and 1. -/
def int? : Datum → Option Int
  | .bool b => some (if b then 1 else 0)
  | .int i => some i
  | _ => none

def sameNumber (a b : Datum) : Bool :=
  match a, a.int?, b, b.int? with
  | .float x, _, .float y, _ => x.same y
  | .float x, _, _, some j => x.isInt j
  | _, some i, .float y, _ => y.isInt i
  | _, some i, _, some j => i == j
  | _, _, _, _ => false

mutual
/-- Whether two values are equal: numbers by their value, objects field by
    field in any order. -/
def same : Datum → Datum → Bool
  | .null, .null => true
  | .text t, .text u => t == u
  | .list xs, .list ys => sameItems xs ys
  | .object xs, .object ys => xs.length == ys.length && sameFields xs ys
  | a, b => sameNumber a b

def sameItems : List Datum → List Datum → Bool
  | [], [] => true
  | x :: xs, y :: ys => same x y && sameItems xs ys
  | _, _ => false

/-- Whether every field of an object has an equal one in another. -/
def sameFields : List (Text × Datum) → List (Text × Datum) → Bool
  | [], _ => true
  | (k, x) :: rest, ys =>
    (match ys.lookup k with
      | some y => same x y
      | none => false) && sameFields rest ys
end

/-! ## Kinds -/

/-- The name of a value's kind, as error messages give it. -/
def kindName : Datum → Text
  | .null => lit "NoneType"
  | .bool _ => lit "bool"
  | .int _ => lit "int"
  | .float _ => lit "float"
  | .text _ => lit "str"
  | .list _ => lit "list"
  | .object _ => lit "dict"

end Datum
end Bindmark
