import Bindmark.Datum.Display
import Bindmark.Table

/-!
# Writing JSON

The JSON text of a value, in ASCII characters and without blanks. The fields of
an object are written in the order of their keys, and numbers that have no
digits by the words that reading knows them by.
-/

namespace Bindmark.Datum

/-! ## Texts -/

/-- A number of sixteen bits as an escape. -/
def writeUnit (n : Nat) : Text := lit "\\u" ++ hexOfWidth 4 n

def writeChar (c : Char) : Text :=
  if c = '"' ∨ c = '\\' then ['\\', c]
  else if ' ' ≤ c ∧ c ≤ '~' then [c]
  else if c.toNat < 0x10000 then writeUnit c.toNat
  else
    let n := c.toNat - 0x10000
    writeUnit (0xD800 + n / 0x400) ++ writeUnit (0xDC00 + n % 0x400)

def writeString (t : Text) : Text := lit "\"" ++ t.flatMap writeChar ++ lit "\""

/-! ## Values -/

/-- The words for numbers that have no digits. -/
def jsonNames : NumberNames := ⟨lit "Infinity", lit "NaN"⟩

mutual
def write : Datum → Text
  | .null => lit "null"
  | .bool true => lit "true"
  | .bool false => lit "false"
  | .int i => (toString i).toList
  | .float x => displayBinary jsonNames x
  | .text t => writeString t
  | .list items => lit "[" ++ Text.join (lit ",") (writeItems items) ++ lit "]"
  | .object fields =>
    let written := (writeFields fields).mergeSort fun a b => Text.atMost a.1 b.1
    lit "\x7b" ++ Text.join (lit ",") (written.map Prod.snd) ++ lit "\x7d"

def writeItems : List Datum → List Text
  | [] => []
  | x :: rest => write x :: writeItems rest

/-- The keys of an object, each with its field as JSON. -/
def writeFields : List (Text × Datum) → List (Text × Text)
  | [] => []
  | (k, x) :: rest => (k, writeString k ++ lit ":" ++ write x) :: writeFields rest
end

end Bindmark.Datum
