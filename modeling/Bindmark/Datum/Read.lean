import Bindmark.Datum.Basic
import Bindmark.Table

/-!
# Reading JSON

A value from its JSON text. Beside the standard forms the words `NaN`,
`Infinity` and `-Infinity` are numbers. A field that stands twice in an
object keeps its first place and its last value. Whole numbers of very many
digits are not read.
-/

namespace Bindmark.Datum

/-! ## Tokens -/

/-- A text without the white space that JSON skips. -/
def skipSpace (t : Text) : Text := t.dropWhile [' ', '\t', '\n', '\r'].contains

def hexDigit? (c : Char) : Option Nat :=
  if '0' ≤ c ∧ c ≤ '9' then some (c.toNat - '0'.toNat)
  else if 'a' ≤ c ∧ c ≤ 'f' then some (c.toNat - 'a'.toNat + 10)
  else if 'A' ≤ c ∧ c ≤ 'F' then some (c.toNat - 'A'.toNat + 10)
  else none

/-- Four hexadecimal digits and what follows them. -/
def hexUnit? : Text → Option (Nat × Text)
  | a :: b :: c :: d :: rest => do
    let a ← hexDigit? a
    let b ← hexDigit? b
    let c ← hexDigit? c
    let d ← hexDigit? d
    return (((a * 16 + b) * 16 + c) * 16 + d, rest)
  | _ => none

/-- A character written as one unit of sixteen bits or as a pair of them. -/
def codePoint? (t : Text) : Option (Char × Text) := do
  let (high, rest) ← hexUnit? t
  if 0xD800 ≤ high ∧ high < 0xDC00 then
    match rest with
    | '\\' :: 'u' :: more =>
      match hexUnit? more with
      | some (low, after) =>
        if 0xDC00 ≤ low ∧ low < 0xE000 then
          return (Char.ofNat (0x10000 + (high - 0xD800) * 0x400 + (low - 0xDC00)), after)
        else return ('\ufffd', rest)
      | none => return ('\ufffd', rest)
    | _ => return ('\ufffd', rest)
  else if 0xDC00 ≤ high ∧ high < 0xE000 then return ('\ufffd', rest)
  else return (Char.ofNat high, rest)

/-- What a backslash and the character after it stand for, `u` apart. -/
def escape? : Char → Option Char
  | '"' => some '"'
  | '\\' => some '\\'
  | '/' => some '/'
  | 'b' => some '\x08'
  | 'f' => some '\x0c'
  | 'n' => some '\n'
  | 'r' => some '\r'
  | 't' => some '\t'
  | _ => none

/-- The rest of a string after its opening quote. -/
def readString? : Nat → Text → Option (Text × Text)
  | 0, _ => none
  | _ + 1, [] => none
  | _ + 1, '"' :: rest => some ([], rest)
  | n + 1, '\\' :: 'u' :: rest => do
    let (c, rest) ← codePoint? rest
    let (t, rest) ← readString? n rest
    return (c :: t, rest)
  | n + 1, '\\' :: e :: rest => do
    let c ← escape? e
    let (t, rest) ← readString? n rest
    return (c :: t, rest)
  | n + 1, c :: rest =>
    if c = '\\' ∨ c.toNat < 0x20 then none
    else do
      let (t, rest) ← readString? n rest
      return (c :: t, rest)

def ofDigits (t : Text) : Nat := t.foldl (fun n c => n * 10 + (c.toNat - '0'.toNat)) 0

/-- The most digits that a whole number may have. -/
def maxDigits : Nat := 4300

/-- A number and what follows it. A number with a fraction or a power is one of
    limited precision. -/
def readNumber? (t : Text) : Option (Datum × Text) :=
  let (negative, body) : Bool × Text := match t with
    | '-' :: rest => (true, rest)
    | _ => (false, t)
  let whole := match body with
    | '0' :: _ => ['0']
    | _ => body.takeWhile Char.isDigit
  if whole.isEmpty then none
  else
    let rest := body.drop whole.length
    let (fraction, rest) : Text × Text := match rest with
      | '.' :: more => if (more.takeWhile Char.isDigit).isEmpty then ([], rest)
        else (more.takeWhile Char.isDigit, more.dropWhile Char.isDigit)
      | _ => ([], rest)
    let (power, rest) : Option Int × Text := match rest with
      | c :: more =>
        if c = 'e' ∨ c = 'E' then
          let (negative, digits) : Bool × Text := match more with
            | '-' :: digits => (true, digits)
            | '+' :: digits => (false, digits)
            | _ => (false, more)
          let size := ofDigits (digits.takeWhile Char.isDigit)
          if (digits.takeWhile Char.isDigit).isEmpty then (none, rest)
          else (some (if negative then -size else size), digits.dropWhile Char.isDigit)
        else (none, rest)
      | [] => (none, rest)
    let size := ofDigits (whole ++ fraction)
    if fraction.isEmpty && power.isNone then
      if maxDigits < whole.length then none
      else some (.int (if negative then -size else size), rest)
    else
      some (.float (Binary.ofDecimal negative size (power.getD 0 - fraction.length)), rest)

def words : List (Text × Datum) :=
  [(lit "null", .null), (lit "true", .bool true), (lit "false", .bool false),
   (lit "NaN", .float .undefined), (lit "Infinity", .float (.infinite false)),
   (lit "-Infinity", .float (.infinite true))]

def readAtom? (t : Text) : Option (Datum × Text) :=
  match words.findSome? fun (word, value) => (Text.dropLeading? word t).map (value, ·) with
  | some found => some found
  | none => readNumber? t

/-! ## Values -/

mutual
def readValue? : Nat → Text → Option (Datum × Text)
  | 0, _ => none
  | n + 1, t =>
    match skipSpace t with
    | '"' :: rest => (readString? rest.length.succ rest).map fun (s, rest) => (.text s, rest)
    | '[' :: rest =>
      match skipSpace rest with
      | ']' :: rest => some (.list [], rest)
      | rest => (readItems? n rest).map fun (items, rest) => (.list items, rest)
    | '\x7b' :: rest =>
      match skipSpace rest with
      | '\x7d' :: rest => some (.object [], rest)
      | rest => (readFields? n [] rest).map fun (fields, rest) => (.object fields, rest)
    | t => readAtom? t

/-- The items of a list up to its end. -/
def readItems? : Nat → Text → Option (List Datum × Text)
  | 0, _ => none
  | n + 1, t => do
    let (item, rest) ← readValue? n t
    match skipSpace rest with
    | ',' :: rest => (readItems? n rest).map fun (items, rest) => (item :: items, rest)
    | ']' :: rest => some ([item], rest)
    | _ => none

/-- The fields of an object up to its end, after the fields `fields`. -/
def readFields? : Nat → List (Text × Datum) → Text → Option (List (Text × Datum) × Text)
  | 0, _, _ => none
  | n + 1, fields, t =>
    match skipSpace t with
    | '"' :: rest => do
      let (key, rest) ← readString? rest.length.succ rest
      match skipSpace rest with
      | ':' :: rest => do
        let (value, rest) ← readValue? n rest
        let fields := Table.insertEntry key value fields
        match skipSpace rest with
        | ',' :: rest => readFields? n fields rest
        | '\x7d' :: rest => some (fields, rest)
        | _ => none
      | _ => none
    | _ => none
end

def read? (t : Text) : Option Datum :=
  match readValue? (2 * t.length + 2) t with
  | some (d, rest) => if (skipSpace rest).isEmpty then some d else none
  | none => none

end Bindmark.Datum
