import Bindmark.Text.Basic

/-!
# Numbers of limited precision

Numbers that keep 53 binary digits. Each finite one is a whole multiple of the
smallest positive one, so that its size is a natural number of such units, and
numbers are compared and rounded without loss. Beside them stand two
infinities and a number that is not defined.
-/

namespace Bindmark

/-- A number of limited precision. Zero has a sign as well. -/
inductive Binary where
  /-- The number of a sign and of so many units. -/
  | finite (negative : Bool) (units : Nat)
  | infinite (negative : Bool)
  | undefined
  deriving DecidableEq

namespace Binary

def twoTo (n : Nat) : Nat := Nat.pow 2 n

def tenTo (n : Nat) : Nat := Nat.pow 10 n

def one : Nat := twoTo 1074

/-- The number of units from which on numbers are infinite. -/
def limit : Nat := twoTo 2098

/-- The number of units that the last of 53 binary digits stands for, in
    numbers of a size. -/
def lastPlace (units : Nat) : Nat := twoTo (units.log2 - 52)

/-! ## Rounding -/

/-- The whole number nearest to a quotient, and of two the even one. -/
def roundQuotient (n d : Nat) : Nat :=
  let below := n / d
  if 2 * (n % d) < d ∨ (2 * (n % d) = d ∧ below % 2 = 0) then below else below + 1

/-- The number nearest to a quotient of units. -/
def ofQuotient (negative : Bool) (n d : Nat) : Binary :=
  let place := lastPlace (n / d)
  let units := roundQuotient n (d * place) * place
  if units < limit then .finite negative units else .infinite negative

/-- The number nearest to `digits * 10 ^ exponent`. From ten to the 310th on
    numbers are infinite, and below ten to the minus 340th they are zero,
    whatever their digits. -/
def ofDecimal (negative : Bool) (digits : Nat) (exponent : Int) : Binary :=
  let size := exponent + (Text.ofNat digits).length
  if digits = 0 ∨ size < -340 then .finite negative 0
  else if 310 < size then .infinite negative
  else ofQuotient negative (digits * tenTo exponent.toNat * one) (tenTo (-exponent).toNat)

/-! ## Values -/

def isNonzero : Binary → Bool
  | .finite _ units => units != 0
  | _ => true

/-- A number of units with its sign. -/
def signed (negative : Bool) (units : Nat) : Int := if negative then -units else units

/-- Whether two numbers are equal. The two zeros are, and a number that is not
    defined equals none. -/
def same : Binary → Binary → Bool
  | .finite n x, .finite m y => signed n x == signed m y
  | .infinite n, .infinite m => n == m
  | _, _ => false

def isInt (x : Binary) (i : Int) : Bool :=
  match x with
  | .finite negative units => signed negative units == i * one
  | _ => false

/-- The whole number that a number is, if it is one. -/
def toInt? : Binary → Option Int
  | .finite negative units =>
    if units % one = 0 then some (signed negative (units / one)) else none
  | _ => none

end Binary
end Bindmark
