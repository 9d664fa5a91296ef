import Bindmark.Pair.Basic
import Bindmark.Text.Word

/-!
# Object literals

Object literals as values of directives, their pairs, and writing pairs as an
object literal again.
-/

namespace Bindmark.Pair

/-- Whether a text has the shape of an object literal. -/
def isObject (t : Text) : Bool := t.stripStart.head? == some '\x7b'

/-- The pairs of an object literal; the outer braces may be missing. -/
def ofObject (t : Text) : List Pair :=
  let t := t.strip
  if t.head? = some '\x7b' ∧ t.getLast? = some '\x7d' then split (t.drop 1).dropLast else split t

/-- A key as an object literal writes it: in single quotes unless it is plain. -/
def writeKey (key : Text) : Text :=
  if Text.isPlainKey key then key else lit "'" ++ Text.replaceChar '\'' (lit "\\'") key ++ lit "'"

def writeMember (key value : Text) : Text := writeKey key ++ lit ":" ++ value

def writeObject (members : List (Text × Text)) : Text :=
  lit "\x7b" ++ Text.join (lit ",") (members.map fun (k, v) => writeMember k v) ++ lit "\x7d"

end Bindmark.Pair
