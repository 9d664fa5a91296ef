import Bindmark.Pair.Basic
import Bindmark.Table

/-!
# Directive strings

Writing pairs as a directive string. Every key stands once: where it stood
first, with the value it had last.
-/

namespace Bindmark.Pair

/-- Pairs with every key once, in its first place and with its last value. -/
def merge (pairs : List Pair) : List Pair :=
  (Table.ofList (pairs.map fun p => (p.key, p.value))).entries.map fun (k, v) => ⟨k, v⟩

/-- A directive: its key, and its value after a colon. -/
def writeDirective (p : Pair) : Text :=
  match p.value with
  | none => p.key
  | some value => p.key ++ lit ":" ++ value

def writeDirectives (pairs : List Pair) : Text :=
  Text.join (lit ",") ((merge pairs).map writeDirective)

end Bindmark.Pair
