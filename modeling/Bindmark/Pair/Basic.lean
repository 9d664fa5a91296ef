import Bindmark.Reading
import Bindmark.Text.Blank

/-!
# Pairs

Directive strings and object literals are lists of units with commas between
them. A unit is a key, or a key and a value with a colon between them. Commas
and colons inside quotes and brackets belong to the unit.
-/

namespace Bindmark

/-- A key with its value; a bare key has none. -/
structure Pair where
  key : Text
  value : Option Text
  deriving DecidableEq

namespace Pair

/-- A key without the quotes around it. -/
def unquote : Text → Text
  | [] => []
  | mark :: rest =>
    if mark ∈ Reading.quotes ∧ rest.getLast? = some mark then rest.dropLast else mark :: rest

/-- The pair of one unit; a blank unit holds none. -/
def ofUnit? (unit : Text) : Option Pair :=
  match Reading.cutAt? ':' .top unit with
  | some (key, value) => some ⟨unquote key.strip, some value.strip⟩
  | none => if unit.strip.isEmpty then none else some ⟨unquote unit.strip, none⟩

def split (t : Text) : List Pair := (Reading.partsAt ',' .top t).filterMap ofUnit?

end Pair
end Bindmark
