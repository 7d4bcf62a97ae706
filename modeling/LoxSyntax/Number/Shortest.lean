import LoxSyntax.Number.Binary64

/-!
# Shortest decimals

The decimal that stands for a binary64 number is the one with the fewest digits
among those that read back as the number, and the nearest to it among these. On
the grid of decimals with a given count of leading digits only the two
neighbours of the exact value can qualify, so the search tries the neighbours on
the grids of one digit, two digits and so on. It ends at the latest on the grid
that holds the exact value.

`Numeral` holds the digits of the result without trailing zeros and the place of
the decimal point, which is all that a layout needs.
-/

namespace LoxSyntax

namespace Binary64

/-- Whether a decimal reads back as the magnitude of the number. -/
def readsBack (x : Binary64) (d : Decimal) : Bool :=
  ofDecimal d == x.magnitude

/-- The decimal on the grid of `count` leading digits that reads back as the
number. Of two such neighbours the nearer is taken, and of two equally near ones
the even one. -/
def neighbour? (x : Binary64) (count : Nat) : Option Decimal :=
  let exact := x.exactDecimal
  let dropped := (digitsOf exact.coefficient).length - count
  let unit := Nat.pow 10 dropped
  let below := exact.coefficient / unit
  let double := 2 * (exact.coefficient % unit)
  let low : Decimal := ⟨below, exact.exponent + dropped⟩
  let high : Decimal := ⟨below + 1, exact.exponent + dropped⟩
  -- conditions and no match on the two readings, which opening it would carry out
  if x.readsBack low then
    if x.readsBack high then
      if double < unit then some low
      else if unit < double then some high
      else if below % 2 = 0 then some low
      else some high
    else some low
  else if x.readsBack high then some high
  else none

/-- The first decimal found on the grids of `count` digits, `count + 1` digits
and so on, or the exact value after `remaining` grids. -/
def shortestFrom (x : Binary64) : (remaining count : Nat) → Decimal
  | 0, _ => x.exactDecimal
  | remaining + 1, count =>
    (x.neighbour? count).getD (shortestFrom x remaining (count + 1))

/-- The shortest decimal that reads back as the magnitude of a finite number. -/
def shortest (x : Binary64) : Decimal :=
  x.shortestFrom (digitsOf x.exactDecimal.coefficient).length 1

end Binary64

/-- The digits of a decimal without trailing zeros; the point stands after
`point` digits, counted from the first. Zero has no digits. -/
structure Numeral where
  digits : List Char
  point : Int
deriving DecidableEq, Repr

namespace Numeral

/-- A row of digits without its trailing zeros. -/
def dropTrailingZeros (digits : List Char) : List Char :=
  (digits.reverse.dropWhile (· == '0')).reverse

/-- The numeral of a decimal. The point of zero stands where a single digit would
precede it, whatever the exponent. -/
def ofDecimal (d : Decimal) : Numeral :=
  if d.coefficient = 0 then ⟨[], 1⟩
  else
    let digits := digitsOf d.coefficient
    ⟨dropTrailingZeros digits, digits.length + d.exponent⟩

end Numeral

end LoxSyntax
