import Bindmark.Binary.Shortest
import Bindmark.Datum.Basic
import Bindmark.Text.Printable

/-!
# Values as text

How a value that is not a text is written into a directive string. A text
stands as it is; inside lists and objects texts are quoted.
-/

namespace Bindmark.Datum

/-! ## Numbers -/

/-- Digits with a point after the first `n` of them, padded with zeros. -/
def pointed (digits : Text) (n : Int) : Text :=
  if n ≤ 0 then lit "0." ++ List.replicate (-n).toNat '0' ++ digits
  else if digits.length ≤ n.toNat then
    digits ++ List.replicate (n.toNat - digits.length) '0' ++ lit ".0"
  else digits.take n.toNat ++ lit "." ++ digits.drop n.toNat

/-- A decimal number: with a point from 0.0001 up to ten to the sixteenth, else
    with one digit before the point and an exponent of two digits or more. -/
def displayDecimal (x : Binary.Decimal) : Text :=
  let digits := Text.ofNat x.digits
  let scale := x.exponent + digits.length
  if -4 < scale ∧ scale ≤ 16 then pointed digits scale
  else
    let size := Text.ofNat (scale - 1).natAbs
    digits.take 1 ++ (if digits.length ≤ 1 then [] else lit "." ++ digits.drop 1) ++
      lit (if scale ≤ 0 then "e-" else "e+") ++ (if size.length < 2 then lit "0" else []) ++ size

/-- The names of the numbers that have no digits. -/
structure NumberNames where
  infinite : Text
  undefined : Text

def displaySign (negative : Bool) : Text := if negative then lit "-" else []

/-- A number of limited precision, in its shortest digits. -/
def displayBinary (names : NumberNames) : Binary → Text
  | .finite negative units => displaySign negative ++ displayDecimal (Binary.shortest units)
  | .infinite negative => displaySign negative ++ names.infinite
  | .undefined => names.undefined

def valueNames : NumberNames := ⟨lit "inf", lit "nan"⟩

/-! ## Texts in quotes -/

/-- A number in hexadecimal digits, padded with zeros to a width. -/
def hexOfWidth (width n : Nat) : Text :=
  let digits := Nat.toDigits 16 n
  List.replicate (width - digits.length) '0' ++ digits

/-- A character between quotes `mark`. -/
def quoteChar (mark c : Char) : Text :=
  if c = mark ∨ c = '\\' then ['\\', c]
  else if c = '\n' then lit "\\n"
  else if c = '\r' then lit "\\r"
  else if c = '\t' then lit "\\t"
  else if Text.isPrintable c then [c]
  else if c.toNat < 0x100 then lit "\\x" ++ hexOfWidth 2 c.toNat
  else if c.toNat < 0x10000 then lit "\\u" ++ hexOfWidth 4 c.toNat
  else lit "\\U" ++ hexOfWidth 8 c.toNat

/-- A text in single quotes, or in double quotes when it holds single quotes
    and no double ones. -/
def quote (t : Text) : Text :=
  let mark := if t.contains '\'' && !t.contains '"' then '"' else '\''
  [mark] ++ t.flatMap (quoteChar mark) ++ [mark]

/-! ## Values -/

mutual
def displayInner : Datum → Text
  | .null => lit "None"
  | .bool true => lit "True"
  | .bool false => lit "False"
  | .int i => (toString i).toList
  | .float x => displayBinary valueNames x
  | .text t => quote t
  | .list items => lit "[" ++ displayItems items ++ lit "]"
  | .object fields => lit "\x7b" ++ displayFields fields ++ lit "\x7d"

def displayItems : List Datum → Text
  | [] => []
  | [x] => displayInner x
  | x :: rest => displayInner x ++ lit ", " ++ displayItems rest

def displayFields : List (Text × Datum) → Text
  | [] => []
  | [(k, x)] => quote k ++ lit ": " ++ displayInner x
  | (k, x) :: rest => quote k ++ lit ": " ++ displayInner x ++ lit ", " ++ displayFields rest
end

/-- A value as it is written into a directive string. -/
def display : Datum → Text
  | .text t => t
  | d => displayInner d

end Bindmark.Datum
