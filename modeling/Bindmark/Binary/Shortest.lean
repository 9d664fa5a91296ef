import Bindmark.Binary.Basic

/-!
# The shortest digits of a number

A number of limited precision stands for all numbers that are rounded to it.
Its digits are the fewest that any of those has, and of several with as few
digits the nearest.
-/

namespace Bindmark.Binary

/-- The number `digits * 10 ^ exponent`. -/
structure Decimal where
  digits : Nat
  exponent : Int
  deriving DecidableEq

/-! ## The numbers that are rounded to one -/

/-- The numbers that are rounded to a number of units, in quarters of units:
    from the middle below it to the middle above it. Both middles belong to it
    if its last binary digit is even. -/
structure Surroundings where
  least : Nat
  greatest : Nat
  closed : Bool

/-- The surroundings of a number of units. Below a power of two the numbers
    stand twice as close, unless they are the smallest. -/
def surroundings (units : Nat) : Surroundings :=
  let place := lastPlace units
  let below := if units = twoTo 52 * place ∧ 1 < place then place else 2 * place
  { least := 4 * units - below
    greatest := 4 * units + 2 * place
    closed := units / place % 2 = 0 }

/-- Whether the quotient of `n` and `d` lies within surroundings. -/
def Surroundings.holds (s : Surroundings) (n d : Nat) : Bool :=
  if s.closed then s.least * d ≤ n && n ≤ s.greatest * d
  else s.least * d < n && n < s.greatest * d

/-! ## Digits -/

/-- The multiple of a power of ten that is rounded to a number of units. Only
    the two nearest multiples can be; of both the nearer one is taken, and of
    two as near the even one. -/
def onGrid? (units : Nat) (exponent : Int) : Option Decimal :=
  let s := surroundings units
  let step := 4 * one * tenTo exponent.toNat
  let scale := tenTo (-exponent).toNat
  let below := 4 * units * scale / step
  let nearest := roundQuotient (4 * units * scale) step
  let other := if nearest = below then below + 1 else below
  if s.holds (nearest * step) scale then some ⟨nearest, exponent⟩
  else if s.holds (other * step) scale then some ⟨other, exponent⟩
  else none

/-- A power of ten that no number of that many units exceeds. -/
def decimalSize (units : Nat) : Int :=
  if one ≤ units then (Text.ofNat (units / one)).length
  else 1 - (Text.ofNat (one / units)).length

/-- A decimal number without zeros at the end of its digits. -/
def dropZeros : Nat → Decimal → Decimal
  | 0, x => x
  | fuel + 1, x =>
    if x.digits % 10 = 0 ∧ x.digits ≠ 0 then dropZeros fuel ⟨x.digits / 10, x.exponent + 1⟩ else x

/-- The exact decimal number of so many units. -/
def exactDecimal (units : Nat) : Decimal := ⟨units * Nat.pow 5 1074, -1074⟩

/-- The shortest decimal number that is rounded to so many units. Seventeen
    digits are always enough. -/
def shortest (units : Nat) : Decimal :=
  if units = 0 then ⟨0, 0⟩
  else
    let size := decimalSize units
    let found := (List.range 17).findSome? fun (n : Nat) => onGrid? units (size - 1 - n)
    let x := found.getD (exactDecimal units)
    dropZeros x.digits.log2 x

end Bindmark.Binary
