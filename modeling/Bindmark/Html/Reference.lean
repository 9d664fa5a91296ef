import Bindmark.Text.Basic

/-!
# Character references

The references to characters in the text and in the attribute values of a
source: by a few names, or by a decimal number.
-/

namespace Bindmark.Html

def entities : List (Text × Char) :=
  [(lit "amp", '&'), (lit "lt", '<'), (lit "gt", '>'), (lit "quot", '"')]

/-- The characters that the numbers from 128 to 159 stand for. -/
def c1Characters : List Char :=
  ['\u20ac', '\x81', '\u201a', '\u0192', '\u201e', '\u2026', '\u2020', '\u2021', '\u02c6',
   '\u2030', '\u0160', '\u2039', '\u0152', '\x8d', '\u017d', '\x8f', '\x90', '\u2018', '\u2019',
   '\u201c', '\u201d', '\u2022', '\u2013', '\u2014', '\u02dc', '\u2122', '\u0161', '\u203a',
   '\u0153', '\x9d', '\u017e', '\u0178']

/-- The character of a number, if it is one of a character other than NUL. -/
def characterOf (n : Nat) : Char :=
  if 0x80 ≤ n ∧ n < 0xa0 then c1Characters.getD (n - 0x80) '\ufffd'
  else if n ≠ 0 ∧ n.isValidChar then Char.ofNat n
  else '\ufffd'

/-- The text of a number in an attribute value, where controls and numbers that
    are set aside stand for nothing. -/
def attributeCharacter (n : Nat) : Text :=
  if (0 < n ∧ n < 0x09) ∨ n = 0x0b ∨ (0x0e ≤ n ∧ n < 0x20) ∨ n = 0x7f ∨ (0xfdd0 ≤ n ∧ n ≤ 0xfdef) ∨
      (n ≤ 0x10ffff ∧ 0xfffe ≤ n % 0x10000) then []
  else [characterOf n]

/-- The number of decimal digits. -/
def decimal (digits : Text) : Nat :=
  digits.foldl (fun n c => n * 10 + (c.toNat - '0'.toNat)) 0

/-- A text without a semicolon at its start. -/
def dropSemicolon : Text → Text
  | ';' :: rest => rest
  | t => t

/-- What an ampersand and the text after it stand for, and how much of that text
    belongs to the reference. -/
def reference (ofNumber : Nat → Text) : Text → Text × Nat
  | '#' :: rest =>
    let digits := rest.takeWhile Char.isDigit
    if digits.isEmpty then (['&'], 0)
    else
      let after := rest.drop digits.length
      (ofNumber (decimal digits), 1 + digits.length + (after.length - (dropSemicolon after).length))
  | rest =>
    let name := rest.takeWhile Char.isAlphanum
    match entities.lookup name with
    | some c =>
      let after := rest.drop name.length
      ([c], name.length + (after.length - (dropSemicolon after).length))
    | none => (['&'], 0)

def resolve (ofNumber : Nat → Text) : Text → Text
  | [] => []
  | c :: rest =>
    if c = '&' then
      let found := reference ofNumber rest
      found.1 ++ resolve ofNumber (rest.drop found.2)
    else c :: resolve ofNumber rest
termination_by t => t.length
decreasing_by
  · rw [List.length_drop, List.length_cons]; omega
  · rw [List.length_cons]; omega

end Bindmark.Html
