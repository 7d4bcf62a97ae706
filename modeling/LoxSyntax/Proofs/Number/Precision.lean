import LoxSyntax.Proofs.Number.CanonicalText
import LoxSyntax.Proofs.Number.ShortestDigits

/-!
# Decimals of ordinary precision

Two decimals of fifteen digits are further apart than a unit in the last place of a number that
has all bits of its significand. So no two of them are rounded to one such number
(`Binary64.value_eq_of_ofDecimal_eq`), and the decimals from `10 ^ -307` to `10 ^ 308` are rounded
to such numbers (`Binary64.ordinary_ofDecimal`). The shortest decimal of such a number is then the
one of fifteen digits that it was rounded from, and its natural text is the text that was read
(`Canonical.naturalText_ofDecimal`).
-/

namespace LoxSyntax

namespace Decimal

/-- Different decimals are apart by one at least in the last place of one of them. -/
theorem pow_min_le_sub {d d' : Decimal} (less : d.value < d'.value) :
    (10 : ℚ) ^ min d.exponent d'.exponent ≤ d'.value - d.value := by
  have power : (0 : ℚ) < 10 ^ min d.exponent d'.exponent := by positivity
  rw [value_eq_mul (min_le_left d.exponent d'.exponent),
    value_eq_mul (min_le_right d.exponent d'.exponent)] at less ⊢
  have counts := Nat.cast_lt.mp (lt_of_mul_lt_mul_right less power.le)
  have next : ((d.coefficient * 10 ^ (d.exponent - min d.exponent d'.exponent).toNat : Nat) : ℚ) +
      1 ≤ (d'.coefficient * 10 ^ (d'.exponent - min d.exponent d'.exponent).toNat : Nat) := by
    exact_mod_cast counts
  rw [← sub_mul]
  refine le_mul_of_one_le_left power.le ?_
  linarith

/-- Decimals of a few digits are apart by a share of the smaller one. -/
theorem value_le_mul_sub {d d' : Decimal} {bound : Nat} (less : d.value < d'.value)
    (short : d.coefficient ≤ bound) (short' : d'.coefficient ≤ bound) :
    d.value ≤ bound * (d'.value - d.value) := by
  have gap := pow_min_le_sub less
  have within {e : Decimal} (short : e.coefficient ≤ bound)
      (last : e.exponent = min d.exponent d'.exponent) : e.value ≤ bound * (d'.value - d.value) := by
    have short : (e.coefficient : ℚ) ≤ bound := Nat.cast_le.mpr short
    rw [value, last]
    gcongr
  rcases le_total d.exponent d'.exponent with first | second
  · exact within short (min_eq_left first).symm
  · exact less.le.trans (within short' (min_eq_right second).symm)

end Decimal

namespace Binary64

/-- A finite number with all 53 bits of its significand. -/
structure Ordinary (x : Binary64) : Prop where
  finite : x.isFinite = true
  full : fractionCount ≤ x.significand

theorem Ordinary.coefficient_ne_zero {x : Binary64} (h : x.Ordinary) :
    x.exactDecimal.coefficient ≠ 0 := by
  intro zero
  have size : x.size = 0 := by
    rw [← value_exactDecimal, Decimal.value_eq_zero_iff.mpr zero]
  have power : (2 : ℚ) ^ x.scale ≠ 0 := by positivity
  have none : x.significand = 0 := Nat.cast_eq_zero.mp ((mul_eq_zero_iff_right power).mp size)
  exact absurd (none ▸ h.full) (by decide)

/-- An ordinary number is 53 bits of half its last place. -/
theorem Ordinary.mul_half_le_size {x : Binary64} (h : x.Ordinary) :
    (2 ^ 53 : ℚ) * 2 ^ (x.scale - 1) ≤ x.size := by
  have full : (2 ^ 52 : ℚ) ≤ x.significand := by exact_mod_cast h.full
  have half : (0 : ℚ) < 2 ^ (x.scale - 1) := by positivity
  have place : (2 : ℚ) ^ x.scale = 2 * 2 ^ (x.scale - 1) := by
    rw [zpow_sub_one₀ two_ne_zero]
    ring
  have product := mul_le_mul_of_nonneg_right full half.le
  rw [size, place]
  linarith

section

variable {d d' : Decimal} (ordinary : (ofDecimal d).Ordinary) (short : d.coefficient ≤ 10 ^ 15)
  (short' : d'.coefficient ≤ 10 ^ 15) (same : ofDecimal d = ofDecimal d')
include ordinary short short' same

/-- Of two decimals of fifteen digits that are rounded to one number with all bits the first is
not smaller: they would be further apart than two errors of half a last place. -/
theorem not_value_lt_of_ofDecimal_eq : ¬ d.value < d'.value := by
  intro less
  have near := abs_value_sub_size_le ordinary.finite
  have near' := abs_value_sub_size_le (same ▸ ordinary.finite)
  rw [← same] at near'
  have large := ordinary.mul_half_le_size
  have gap := Decimal.value_le_mul_sub less short short'
  generalize ofDecimal d = x at near near' large
  have half : (0 : ℚ) < 2 ^ (x.scale - 1) := by positivity
  rw [abs_le] at near near'
  push_cast at gap
  linarith

/-- Decimals of fifteen digits that are rounded to one number with all bits are equal. -/
theorem value_eq_of_ofDecimal_eq : d.value = d'.value := by
  rcases lt_trichotomy d.value d'.value with less | equal | greater
  · exact absurd less (not_value_lt_of_ofDecimal_eq ordinary short short' same)
  · exact equal
  · exact absurd greater (not_value_lt_of_ofDecimal_eq (same ▸ ordinary) short' short same.symm)

end

/-- The greatest finite number. -/
def greatest : Binary64 :=
  ⟨false, ⟨2046, by decide⟩, ⟨fractionCount - 1, by decide⟩⟩

theorem ofDecimal_greatest : (ofDecimal greatest.exactDecimal).isFinite = true := by
  rw [ofDecimal_exactDecimal rfl]
  rfl

/-- A finite number without the leading bit is too small for the decimals from `10 ^ -307` on. -/
theorem size_lt_of_missing {x : Binary64} (missing : x.significand < fractionCount) :
    x.size + 2 ^ (x.scale - 1) < (10 : ℚ) ^ (-307 : Int) := by
  have least : x.exponent.val = 0 := by
    by_contra some
    rw [significand, if_neg some] at missing
    omega
  have scale : x.scale = -1074 := by
    unfold Binary64.scale
    rw [least]
    rfl
  have bits : (x.significand : ℚ) + 1 ≤ 2 ^ 52 := by
    exact_mod_cast (missing : x.significand + 1 ≤ 2 ^ 52)
  have bound : (2 : ℚ) ^ (-1022 : Int) ≤ 10 ^ (-307 : Int) := by
    have powers : 10 ^ 307 ≤ 2 ^ 1022 := by decide +kernel
    rw [zpow_neg, zpow_neg]
    refine inv_anti₀ (by positivity) ?_
    exact_mod_cast powers
  have positive : (0 : ℚ) < 2 ^ (-1074 : Int) := by positivity
  have half : (2 : ℚ) ^ (-1074 - 1 : Int) = 2 ^ (-1074 : Int) * 2⁻¹ :=
    zpow_sub_one₀ two_ne_zero _
  have carried : (2 : ℚ) ^ (-1022 : Int) = 2 ^ 52 * 2 ^ (-1074 : Int) := by
    rw [← zpow_natCast, ← zpow_add₀ two_ne_zero]
    rfl
  rw [size, scale, half]
  rw [carried] at bound
  -- the powers are variables, so that they are never evaluated
  generalize (2 : ℚ) ^ (-1074 : Int) = unit at *
  generalize (10 : ℚ) ^ (-307 : Int) = limit at *
  have product := mul_le_mul_of_nonneg_right bits positive.le
  linarith

/-- Decimals from `10 ^ -307` to `10 ^ 308` are rounded to finite numbers with all bits. -/
theorem ordinary_ofDecimal {d : Decimal} (low : (10 : ℚ) ^ (-307 : Int) ≤ d.value)
    (high : d.value ≤ (10 : ℚ) ^ (308 : Int)) : (ofDecimal d).Ordinary := by
  have finite : (ofDecimal d).isFinite = true := by
    refine isFinite_ofDecimal_of_le ?_ ofDecimal_greatest
    rw [value_exactDecimal]
    refine high.trans ?_
    have powers : 10 ^ 308 ≤ 9007199254740991 * 2 ^ 971 := by decide +kernel
    show (10 : ℚ) ^ (308 : Int) ≤ ((9007199254740991 : Nat) : ℚ) * 2 ^ (971 : Int)
    exact_mod_cast powers
  refine ⟨finite, ?_⟩
  by_contra missing
  have near := (abs_le.mp (abs_value_sub_size_le finite)).2
  have small := size_lt_of_missing (Nat.lt_of_not_le missing)
  linarith

end Binary64

/-! ## Texts that are read and written -/

/-- The digits of a text from the first that is not zero to the last that is not. -/
def significantDigits (whole fraction : List Char) : List Char :=
  Numeral.dropTrailingZeros ((whole ++ fraction).dropWhile (· == '0'))

/-- The numeral of the digits of a text has the significant ones. -/
theorem digits_ofDecimal_ofDigits (whole fraction : List Char)
    (digits : ∀ c ∈ whole ++ fraction, c.isDigit = true) :
    (Numeral.ofDecimal (.ofDigits whole fraction)).digits = significantDigits whole fraction := by
  obtain ⟨count, w, split, first⟩ := Numeral.exists_zeros_append (whole ++ fraction)
  have value : (Decimal.ofDigits whole fraction).coefficient = valueOfDigits w := by
    show valueOfDigits (whole ++ fraction) = _
    rw [split, Numeral.valueOfDigits_zeros_append]
  have dropped : (whole ++ fraction).dropWhile (· == '0') = w := by
    have zero : ∀ c ∈ Numeral.zeros count, (c == '0') = true := fun c member =>
      beq_iff_eq.mpr (List.eq_of_mem_replicate member)
    rw [split, List.dropWhile_append_of_pos zero, Lexeme.dropWhile_of_head]
    exact fun c head => beq_eq_false_iff_ne.mpr fun same => first (same ▸ head)
  rw [significantDigits, dropped]
  by_cases none : w = []
  · subst none
    have zero : (Decimal.ofDigits whole fraction).coefficient = 0 := value
    rw [Numeral.ofDecimal, if_pos zero]
    rfl
  · have inside : Lexeme.Digits w := by
      refine ⟨none, fun c member => digits c ?_⟩
      rw [split]
      exact List.mem_append_right _ member
    rw [Numeral.ofDecimal_of_digits inside first value]

/-- Digits without leading zeros denote less than the power of ten of their count. -/
theorem valueOfDigits_lt_pow {w : List Char} (digits : ∀ c ∈ w, c.isDigit = true)
    (first : w.head? ≠ some '0') : valueOfDigits w < 10 ^ w.length := by
  by_cases none : w = []
  · subst none
    exact Nat.zero_lt_one
  · have bound := lt_pow_length_digitsOf (valueOfDigits w)
    rwa [digitsOf_valueOfDigits ⟨none, digits⟩ first] at bound

namespace Binary64

/-- The shortest decimal of the number that a decimal of fifteen digits is rounded to has the
value of that decimal. -/
theorem value_shortest_ofDecimal {d : Decimal} (ordinary : (ofDecimal d).Ordinary)
    (short : (Numeral.ofDecimal d).digits.length ≤ 15) :
    (ofDecimal d).shortest.value = d.value := by
  let n := Numeral.ofDecimal d
  have value := Decimal.sameValue_iff.mp (Numeral.sameValue_ofDecimal d)
  have reads : ofDecimal n.value = ofDecimal d :=
    ofDecimal_congr (Decimal.sameValue_iff.mpr value.symm)
  have magnitude := (ofDecimal_unsigned d).magnitude_eq
  have coefficient : n.value.coefficient ≤ 10 ^ 15 := by
    refine Nat.le_trans (valueOfDigits_lt_pow ?_ ?_).le (Nat.pow_le_pow_right (by decide) short)
    · exact (Numeral.proper_ofDecimal d).digits
    · exact (Numeral.trimmed_ofDecimal d).first
  have shortest := coefficient_shortest_le ordinary.finite ordinary.coefficient_ne_zero (by decide)
    coefficient (reads.trans magnitude.symm)
  have same : ofDecimal n.value = ofDecimal (ofDecimal d).shortest := by
    rw [reads, ofDecimal_shortest ordinary.finite, magnitude]
  have ordinary' : (ofDecimal n.value).Ordinary := by
    rw [reads]
    exact ordinary
  rw [value, value_eq_of_ofDecimal_eq ordinary' coefficient shortest same]

end Binary64

/-- A canonical text of ordinary precision is the natural text of the number that it is read
as. -/
theorem Canonical.naturalText_ofDecimal {whole fraction : List Char}
    (h : Canonical whole fraction) (short : (significantDigits whole fraction).length ≤ 15)
    (range : (Decimal.ofDigits whole fraction).value = 0 ∨
      (10 : ℚ) ^ (-307 : Int) ≤ (Decimal.ofDigits whole fraction).value ∧
        (Decimal.ofDigits whole fraction).value ≤ (10 : ℚ) ^ (308 : Int)) :
    (Binary64.ofDecimal (.ofDigits whole fraction)).naturalText =
      String.ofList (plainText whole fraction) := by
  have unsigned := Binary64.ofDecimal_unsigned (.ofDigits whole fraction)
  obtain ⟨finite, value⟩ :
      (Binary64.ofDecimal (.ofDigits whole fraction)).isFinite = true ∧
        (Binary64.ofDecimal (.ofDigits whole fraction)).shortest.value =
          (Decimal.ofDigits whole fraction).value := by
    rcases range with zero | ⟨low, high⟩
    · have none : (⟨0, 0⟩ : Decimal).value = 0 := Decimal.value_eq_zero_iff.mpr rfl
      have same : Binary64.ofDecimal (.ofDigits whole fraction) = Binary64.zero := by
        rw [Binary64.ofDecimal_congr (Decimal.sameValue_iff.mpr (zero.trans none.symm))]
        decide +kernel
      have exact : Binary64.zero.exactDecimal.coefficient = 0 := by decide +kernel
      have finite : Binary64.zero.isFinite = true := rfl
      have shortest := Binary64.coefficient_shortest_of_zero finite exact
      rw [same, zero, Decimal.value_eq_zero_iff.mpr shortest]
      exact ⟨finite, rfl⟩
    · have ordinary := Binary64.ordinary_ofDecimal low high
      have digits := digits_ofDecimal_ofDigits whole fraction
        fun c member => (List.mem_append.mp member).elim (h.digits.2 c) (h.digits' c)
      exact ⟨ordinary.finite, Binary64.value_shortest_ofDecimal ordinary (digits ▸ short)⟩
  have numeral := Numeral.ofDecimal_congr (Decimal.sameValue_iff.mpr value)
  apply String.toList_inj.mp
  rw [Binary64.naturalText, Binary64.toList_text finite, unsigned.positive, String.toList_ofList,
    numeral]
  exact h.positionalText

end LoxSyntax
