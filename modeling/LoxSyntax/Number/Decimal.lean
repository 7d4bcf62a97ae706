/-!
# Decimals

A decimal is a natural coefficient scaled by a power of ten. Literals denote
decimals, and so do the values of binary64 numbers; this module holds the
reading of a literal's digits and the exact arithmetic of scaling.

* `Decimal.ofDigits` reads the digits on both sides of the point.
* `Decimal.numerator` and `Decimal.denominator` write the decimal as a quotient
  of natural numbers.
* `digitsOf` and `integerText` write whole numbers in decimal notation, which tells them
  apart (`integerText_injective`).
-/

namespace LoxSyntax

/-- The decimal `coefficient * 10 ^ exponent`. -/
structure Decimal where
  coefficient : Nat
  exponent : Int
deriving DecidableEq, Repr

/-- The decimal notation of a natural number, most significant digit first. -/
def digitsOf (n : Nat) : List Char :=
  Nat.toDigits 10 n

/-- The decimal notation of an integer: a minus sign where it is negative, and its
digits. -/
def integerText (i : Int) : String :=
  String.ofList (if i < 0 then '-' :: digitsOf i.natAbs else digitsOf i.natAbs)

/-- The number a row of decimal digits denotes; no digits denote zero. -/
def valueOfDigits (digits : List Char) : Nat :=
  Nat.ofDigitChars 10 digits 0

/-- Decimal notation denotes the number it was written for. -/
theorem valueOfDigits_digitsOf (n : Nat) : valueOfDigits (digitsOf n) = n :=
  Nat.ofDigitChars_toDigits (by decide) (by decide)

/-- Decimal notation consists of digits. -/
theorem isDigit_of_mem_digitsOf {n : Nat} {c : Char} (h : c ∈ digitsOf n) : c.isDigit = true :=
  Nat.isDigit_of_mem_toDigits (by decide) (by decide) h

/-- An integer is written with digits and, where it is negative, a minus sign. -/
theorem eq_minus_or_isDigit_of_mem_integerText {i : Int} {c : Char}
    (h : c ∈ (integerText i).toList) : c = '-' ∨ c.isDigit = true := by
  unfold integerText at h
  rw [String.toList_ofList] at h
  split at h
  · exact (List.mem_cons.mp h).imp_right isDigit_of_mem_digitsOf
  · exact .inr (isDigit_of_mem_digitsOf h)

theorem not_mem_integerText {c : Char} (minus : c ≠ '-') (digit : c.isDigit = false) (i : Int) :
    c ∉ (integerText i).toList := fun member => by
  rcases eq_minus_or_isDigit_of_mem_integerText member with same | written
  · exact minus same
  · rw [digit] at written
    cases written

theorem integerText_ne_nil (i : Int) : (integerText i).toList ≠ [] := by
  unfold integerText
  rw [String.toList_ofList]
  split
  · nofun
  · exact Nat.toDigits_ne_nil

/-- Decimal notation tells integers apart. -/
theorem integerText_injective {i j : Int} (h : integerText i = integerText j) : i = j := by
  have number {n m : Nat} (same : digitsOf n = digitsOf m) : n = m := by
    rw [← valueOfDigits_digitsOf n, same, valueOfDigits_digitsOf]
  have unsigned {n : Nat} : '-' ∉ digitsOf n := fun member => by
    cases isDigit_of_mem_digitsOf member
  have texts := String.ofList_injective h
  split at texts
  · split at texts
    · have magnitude := number (List.cons.inj texts).2
      omega
    · exact absurd (texts ▸ List.mem_cons_self) unsigned
  · split at texts
    · exact absurd (texts.symm ▸ List.mem_cons_self) unsigned
    · have magnitude := number texts
      omega

namespace Decimal

/-- The decimal denoted by the digits before and after a decimal point. -/
def ofDigits (whole fraction : List Char) : Decimal where
  coefficient := valueOfDigits (whole ++ fraction)
  exponent := -(fraction.length : Int)

/-- The numerator of the decimal as a quotient of natural numbers. -/
def numerator (d : Decimal) : Nat :=
  d.coefficient * Nat.pow 10 d.exponent.toNat

/-- The denominator of the decimal as a quotient of natural numbers: a power of
ten, and one when the exponent is not negative. -/
def denominator (d : Decimal) : Nat :=
  Nat.pow 10 (-d.exponent).toNat

theorem denominator_pos (d : Decimal) : 0 < d.denominator :=
  Nat.pow_pos (by decide)

/-- A literal without digits after the point denotes a whole number. -/
theorem denominator_ofDigits_nil (whole : List Char) :
    (ofDigits whole []).denominator = 1 := rfl

end Decimal

end LoxSyntax
