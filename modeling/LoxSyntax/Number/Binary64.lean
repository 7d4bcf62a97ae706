import LoxSyntax.Number.Decimal

/-!
# Binary64 numbers

The numbers of the language are the IEEE 754 binary64 numbers, held as the three
fields of their encoding. A finite magnitude is `significand * 2 ^ scale`, and
the magnitudes in increasing order are numbered by their encoding without the
sign: `ofRank` turns such a rank into the number, and every rank past the
greatest finite one is infinity.

* `Binary64.exactDecimal` is the exact decimal value of a finite magnitude.
* `Binary64.nearest` rounds a quotient of natural numbers to the nearest number,
  ties to the even significand; `Binary64.ofDecimal` is the same for decimals.
* `Binary64.ofBits_toBits`: the encoding loses nothing.
-/

namespace LoxSyntax

/-- The number of fractions that share an exponent: `2 ^ 52`. -/
abbrev fractionCount : Nat :=
  0x10000000000000

/-- A binary64 number: its sign, its biased exponent and the fraction of its
significand. -/
structure Binary64 where
  negative : Bool
  exponent : Fin 2048
  fraction : Fin fractionCount
deriving DecidableEq, Repr

namespace Binary64

/-! ## Encoding -/

/-- The number whose 64-bit encoding is `bits`; higher bits are ignored. -/
def ofBits (bits : Nat) : Binary64 where
  negative := bits / 0x8000000000000000 % 2 == 1
  exponent := ⟨bits / fractionCount % 2048, Nat.mod_lt _ (by decide)⟩
  fraction := ⟨bits % fractionCount, Nat.mod_lt _ (by decide)⟩

/-- The 64-bit encoding of a number. -/
def toBits (x : Binary64) : Nat :=
  (if x.negative then 0x8000000000000000 else 0) + x.exponent.val * fractionCount + x.fraction.val

/-- A number is read back from its own encoding. -/
theorem ofBits_toBits (x : Binary64) : ofBits x.toBits = x := by
  obtain ⟨negative, ⟨exponent, exponentLt⟩, ⟨fraction, fractionLt⟩⟩ := x
  simp only [ofBits, toBits, mk.injEq, Fin.mk.injEq]
  cases negative <;> refine ⟨?_, ?_, ?_⟩ <;> simp [fractionCount] at fractionLt ⊢ <;> omega

/-! ## Classes -/

/-- Neither an infinity nor an undefined number. -/
def isFinite (x : Binary64) : Bool :=
  x.exponent.val != 2047

/-- The result of an undefined operation. -/
def isNaN (x : Binary64) : Bool :=
  x.exponent.val == 2047 && x.fraction.val != 0

/-- One of the two zeros. -/
def isZero (x : Binary64) : Bool :=
  x.exponent.val == 0 && x.fraction.val == 0

/-- The number without its sign. -/
def magnitude (x : Binary64) : Binary64 :=
  { x with negative := false }

/-- Numeric equality: the two zeros are equal, and an undefined number equals
nothing. -/
def sameNumber (x y : Binary64) : Bool :=
  !x.isNaN && (x == y || x.isZero && y.isZero)

/-! ## Finite values -/

/-- The integer significand of a finite number. Numbers of the least exponent
lack the implicit leading bit. -/
def significand (x : Binary64) : Nat :=
  if x.exponent.val = 0 then x.fraction.val else fractionCount + x.fraction.val

/-- The power of two that scales the significand. -/
def scale (x : Binary64) : Int :=
  (max x.exponent.val 1 : Nat) - 1075

/-- The exact decimal value of a finite magnitude. A negative power of two is a
power of five over a power of ten. -/
def exactDecimal (x : Binary64) : Decimal :=
  if 0 ≤ x.scale then ⟨x.significand * Nat.pow 2 x.scale.toNat, 0⟩
  else ⟨x.significand * Nat.pow 5 (-x.scale).toNat, x.scale⟩

/-! ## Rounding -/

/-- The non-negative number of the given rank: zero has rank zero, and each
further number has the next rank. Ranks past the finite numbers give infinity. -/
def ofRank (rank : Nat) : Binary64 :=
  ofBits (min rank (2047 * fractionCount))

/-- The natural number nearest to a quotient, a half going to the even one. -/
def roundHalfEven (numerator denominator : Nat) : Nat :=
  let quotient := numerator / denominator
  let double := 2 * (numerator % denominator)
  if double < denominator then quotient
  else if denominator < double then quotient + 1
  else quotient + quotient % 2

/-- The non-negative number nearest to a quotient of natural numbers, ties to
the even significand. The quotient is measured in units of the least positive
number; `shift` drops the bits that do not fit a significand of 53 bits. A
significand rounded up to 54 bits carries into the rank on its own. -/
def nearest (numerator denominator : Nat) : Binary64 :=
  let units := numerator * Nat.pow 2 1074
  let shift := (units / denominator).log2 - 52
  ofRank (shift * fractionCount + roundHalfEven units (denominator * Nat.pow 2 shift))

/-- The non-negative number nearest to a decimal. -/
def ofDecimal (d : Decimal) : Binary64 :=
  nearest d.numerator d.denominator

/-- The number zero. -/
def zero : Binary64 :=
  ofBits 0

/-- The number one. -/
def one : Binary64 :=
  ofBits 0x3FF0000000000000

end Binary64

end LoxSyntax
