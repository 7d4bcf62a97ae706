import LoxSyntax.Number.Shortest

/-!
# Layout of numbers

Two texts of a number share the digits of its shortest decimal and differ in
their layout. The natural text writes every digit in its place and gives a whole
number no fraction. The debug text keeps a fraction of at least one digit, and
writes numbers outside the range from `0.0001` to below `10 ^ 16` with an exponent.
-/

namespace LoxSyntax

/-- The decisions of a number format. -/
structure NumberLayout where
  /-- Whether a number whose first digit counts `10 ^ exponent` is written
  without an exponent. -/
  positional : (exponent : Int) → Bool
  /-- Whether a whole number keeps a fraction of one zero. -/
  keepsFraction : Bool

/-- Every digit is written in its place, and whole numbers have no fraction. -/
def NumberLayout.natural : NumberLayout where
  positional := fun _ => true
  keepsFraction := false

/-- Exponents from `-4` to `15` are written positionally, and whole numbers end
in a zero fraction. -/
def NumberLayout.debug : NumberLayout where
  positional := fun exponent => decide (-4 ≤ exponent) && decide (exponent < 16)
  keepsFraction := true

namespace Numeral

/-- A row of `n` zeros. -/
def zeros (n : Nat) : List Char :=
  List.replicate n '0'

/-- The numeral with each digit in its place. -/
def positionalText (n : Numeral) (keepsFraction : Bool) : List Char :=
  if n.point ≤ 0 then
    '0' :: '.' :: zeros (-n.point).toNat ++ n.digits
  else
    let whole := n.point.toNat
    if n.digits.length ≤ whole then
      n.digits ++ zeros (whole - n.digits.length) ++ (if keepsFraction then ['.', '0'] else [])
    else
      n.digits.take whole ++ '.' :: n.digits.drop whole

/-- An exponent with its sign and at least two digits. -/
def exponentText (exponent : Int) : List Char :=
  let digits := digitsOf exponent.natAbs
  (if exponent < 0 then '-' else '+') :: zeros (2 - digits.length) ++ digits

/-- The numeral with one digit before the point and an exponent. -/
def scientificText (n : Numeral) : List Char :=
  let mantissa :=
    match n.digits with
    | first :: second :: rest => first :: '.' :: second :: rest
    | digits => digits
  mantissa ++ 'e' :: exponentText (n.point - 1)

/-- The numeral laid out by the decisions of a format. -/
def text (n : Numeral) (layout : NumberLayout) : List Char :=
  if layout.positional (n.point - 1) then n.positionalText layout.keepsFraction
  else n.scientificText

end Numeral

namespace Binary64

/-- The text of a number in a format. A sign precedes every negative number, zero
and infinity included. -/
def text (x : Binary64) (layout : NumberLayout) : String :=
  if x.isNaN then "nan"
  else
    let body := if x.isFinite then (Numeral.ofDecimal x.shortest).text layout else "inf".toList
    String.ofList (if x.negative then '-' :: body else body)

/-- The number in its natural decimal form. -/
def naturalText (x : Binary64) : String :=
  x.text .natural

/-- The number as debug listings write it. -/
def debugText (x : Binary64) : String :=
  x.text .debug

end Binary64

end LoxSyntax
