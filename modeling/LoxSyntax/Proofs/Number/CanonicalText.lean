import LoxSyntax.Proofs.Lexeme.Boundary
import LoxSyntax.Proofs.Number.NaturalText
import LoxSyntax.Proofs.Number.Rounding

/-!
# Canonical digits

A decimal has one canonical text: no zero leads the digits before the point but a single one, and
none ends the digits after it (`Canonical`). The natural layout of every decimal is such a text
(`Numeral.canonical_ofDecimal`), it depends on the value of the decimal alone
(`Numeral.ofDecimal_congr`), and the decimal that a canonical text denotes is laid out as that very
text (`Canonical.positionalText`). There is a point in it just when the value is not whole
(`Canonical.fraction_eq_nil_iff`).
-/

namespace LoxSyntax

open Lexeme (Digits)

/-! ## Digits of natural numbers -/

/-- A digit is the notation of the number that it denotes. -/
theorem toDigits_of_isDigit {c : Char} (h : c.isDigit = true) :
    c.toNat - '0'.toNat < 10 ∧ Nat.toDigits 10 (c.toNat - '0'.toNat) = [c] := by
  have bounds := Text.toNat_of_isDigit h
  have zero : '0'.toNat = 48 := rfl
  rw [zero]
  have small : c.toNat - 48 < 10 := by omega
  refine ⟨small, ?_⟩
  rw [Nat.toDigits_of_lt_base small]
  refine congrArg (· :: []) (Char.toNat_inj.mp ?_)
  rw [Nat.toNat_digitChar_of_lt_ten small]
  omega

theorem valueOfDigits_concat (w : List Char) (c : Char) :
    valueOfDigits (w ++ [c]) = 10 * valueOfDigits w + (c.toNat - '0'.toNat) := by
  rw [valueOfDigits, Nat.ofDigitChars_append, Nat.ofDigitChars_cons, Nat.ofDigitChars_nil,
    valueOfDigits]

/-- The notation of a natural number that is not zero starts with another digit than zero. -/
theorem head?_digitsOf_ne {n : Nat} (h : n ≠ 0) : (digitsOf n).head? ≠ some '0' := by
  induction n using Nat.strongRecOn with
  | ind n ih =>
    unfold digitsOf
    by_cases short : n < 10
    · rw [Nat.toDigits_of_lt_base short]
      intro zero
      have value := Nat.toNat_digitChar_of_lt_ten short
      rw [Option.some.inj zero] at value
      exact h (by simpa using value)
    · have before : n / 10 < n := by omega
      have some : n / 10 ≠ 0 := by omega
      rw [Nat.toDigits_of_base_le (by decide) (by omega),
        List.head?_append_of_ne_nil _ Nat.toDigits_ne_nil]
      exact ih (n / 10) before some

/-- Digits without leading zeros are the notation of the number that they denote. -/
theorem digitsOf_valueOfDigits {w : List Char} (digits : Digits w) (first : w.head? ≠ some '0') :
    digitsOf (valueOfDigits w) = w := by
  induction w using List.reverseRecOn with
  | nil => exact absurd rfl digits.1
  | append_singleton w c ih =>
    obtain ⟨small, last⟩ := toDigits_of_isDigit (digits.2 c (by simp))
    rw [valueOfDigits_concat, digitsOf]
    by_cases none : w = []
    · subst none
      rw [valueOfDigits, Nat.ofDigitChars_nil, Nat.mul_zero, Nat.zero_add, last, List.nil_append]
    · have inside : Digits w := ⟨none, fun d member => digits.2 d (List.mem_append_left _ member)⟩
      rw [List.head?_append_of_ne_nil _ none] at first
      have again := ih inside first
      have some : 0 < valueOfDigits w := by
        refine Nat.pos_of_ne_zero fun zero => first ?_
        rw [← again, zero]
        rfl
      rw [← Nat.toDigits_append_toDigits (by decide) some small, last]
      exact congrArg (· ++ [c]) again

/-- Zeros at the end of a notation are powers of ten. -/
theorem digitsOf_mul_pow {n : Nat} (h : n ≠ 0) (count : Nat) :
    digitsOf (n * 10 ^ count) = digitsOf n ++ Numeral.zeros count := by
  induction count with
  | zero => rw [Nat.pow_zero, Nat.mul_one, Numeral.zeros, List.replicate_zero, List.append_nil]
  | succ count ih =>
    have some : 0 < n * 10 ^ count := Nat.mul_pos (Nat.pos_of_ne_zero h) (Nat.pow_pos (by decide))
    have step := Nat.toDigits_append_toDigits (b := 10) (d := 0) (by decide) some (by decide)
    have next : n * 10 ^ (count + 1) = 10 * (n * 10 ^ count) + 0 := by
      rw [Nat.pow_succ, ← Nat.mul_assoc, Nat.mul_comm, Nat.add_zero]
    rw [digitsOf, next, ← step, Nat.toDigits_zero, Numeral.zeros, List.replicate_succ',
      ← List.append_assoc]
    exact congrArg (· ++ ['0']) ih

namespace Numeral

/-! ## Zeros at the end -/

theorem dropTrailingZeros_append_zeros (w : List Char) (count : Nat) :
    dropTrailingZeros (w ++ zeros count) = dropTrailingZeros w := by
  have zero : ∀ c ∈ zeros count, (c == '0') = true := fun c member =>
    beq_iff_eq.mpr (List.eq_of_mem_replicate member)
  unfold dropTrailingZeros
  rw [List.reverse_append, List.dropWhile_append_of_pos fun c member =>
    zero c (List.mem_reverse.mp member)]

theorem dropTrailingZeros_eq_self {w : List Char} (h : w.getLast? ≠ some '0') :
    dropTrailingZeros w = w := by
  unfold dropTrailingZeros
  rw [← List.head?_reverse] at h
  rw [Lexeme.dropWhile_of_head, List.reverse_reverse]
  intro c head
  exact beq_eq_false_iff_ne.mpr fun same => h (same ▸ head)

theorem getLast?_dropTrailingZeros_ne (w : List Char) :
    (dropTrailingZeros w).getLast? ≠ some '0' := by
  intro last
  have stops := List.head?_dropWhile_not (· == '0') w.reverse
  rw [dropTrailingZeros, List.getLast?_reverse] at last
  rw [last] at stops
  simp at stops

/-- A decimal of smaller exponent has zeros at its end for the larger one, and they are dropped. -/
theorem ofDecimal_eq_of_finer {d d' : Decimal} (same : d.value = d'.value)
    (finer : d.exponent ≤ d'.exponent) : ofDecimal d = ofDecimal d' := by
  have power : (10 : ℚ) ^ d.exponent ≠ 0 := by positivity
  rw [Decimal.value_eq_mul finer, Decimal.value, mul_left_inj' power, Nat.cast_inj] at same
  obtain ⟨count, shift⟩ : ∃ count : Nat, d'.exponent = d.exponent + count :=
    ⟨(d'.exponent - d.exponent).toNat, by omega⟩
  have zeros : (d'.exponent - d.exponent).toNat = count := by omega
  rw [zeros] at same
  unfold ofDecimal
  by_cases none : d'.coefficient = 0
  · rw [if_pos none, if_pos (by rw [same, none, Nat.zero_mul])]
  · have some : d.coefficient ≠ 0 := same ▸ Nat.mul_ne_zero none (Nat.pow_pos (by decide)).ne'
    rw [if_neg none, if_neg some, same, digitsOf_mul_pow none]
    dsimp only
    rw [dropTrailingZeros_append_zeros, List.length_append, length_zeros, shift]
    congr 1
    push_cast
    ring

/-- A numeral depends on the value of the decimal alone. -/
theorem ofDecimal_congr {d d' : Decimal} (h : d.SameValue d') : ofDecimal d = ofDecimal d' := by
  have same := Decimal.sameValue_iff.mp h
  rcases Int.le_total d.exponent d'.exponent with finer | coarser
  · exact ofDecimal_eq_of_finer same finer
  · exact (ofDecimal_eq_of_finer same.symm coarser).symm

/-- The numeral of digits without leading zeros. -/
theorem ofDecimal_of_digits {d : Decimal} {w : List Char} (digits : Digits w)
    (first : w.head? ≠ some '0') (value : d.coefficient = valueOfDigits w) :
    ofDecimal d = ⟨dropTrailingZeros w, w.length + d.exponent⟩ := by
  have again := digitsOf_valueOfDigits digits first
  rw [← value] at again
  have some : d.coefficient ≠ 0 := by
    intro zero
    rw [zero] at again
    exact first (again ▸ rfl)
  rw [ofDecimal, if_neg some, again]

/-- Without trailing zeros a numeral has no digits, or the first is not zero and the last is
not. -/
structure Trimmed (n : Numeral) : Prop where
  first : n.digits.head? ≠ some '0'
  last : n.digits.getLast? ≠ some '0'
  placed : n.digits = [] → n.point = 1

theorem trimmed_ofDecimal (d : Decimal) : (ofDecimal d).Trimmed := by
  by_cases none : d.coefficient = 0
  · rw [ofDecimal, if_pos none]
    exact ⟨nofun, nofun, fun _ => rfl⟩
  · rw [ofDecimal, if_neg none]
    obtain ⟨count, split⟩ := exists_zeros_dropTrailingZeros (digitsOf d.coefficient)
    have some : dropTrailingZeros (digitsOf d.coefficient) ≠ [] := by
      intro empty
      have value := valueOfDigits_digitsOf d.coefficient
      rw [split, empty, valueOfDigits_append_zeros] at value
      exact none (value.symm.trans (Nat.zero_mul _))
    refine ⟨?_, getLast?_dropTrailingZeros_ne _, fun empty => absurd empty some⟩
    have first := head?_digitsOf_ne none
    rwa [split, List.head?_append_of_ne_nil _ some] at first

/-- The zeros that lead digits stand before one that is not zero. -/
theorem exists_zeros_append (w : List Char) :
    ∃ count rest, w = zeros count ++ rest ∧ rest.head? ≠ some '0' := by
  induction w with
  | nil => exact ⟨0, [], rfl, nofun⟩
  | cons c w ih =>
    by_cases zero : c = '0'
    · obtain ⟨count, rest, rfl, first⟩ := ih
      exact ⟨count + 1, rest, zero ▸ rfl, first⟩
    · exact ⟨0, c :: w, rfl, fun same => zero (Option.some.inj same)⟩

end Numeral

/-! ## Canonical texts -/

/-- Digits before and after a decimal point of which none could be left out: no zero leads but a
single one before the point, and none ends the digits after it. -/
structure Canonical (whole fraction : List Char) : Prop where
  digits : Digits whole
  first : whole.head? = some '0' → whole = ['0']
  digits' : ∀ c ∈ fraction, c.isDigit = true
  last : fraction.getLast? ≠ some '0'

/-- The natural layout of a decimal is canonical. -/
theorem Numeral.canonical_ofDecimal (d : Decimal) :
    Canonical (Numeral.ofDecimal d).whole ((Numeral.ofDecimal d).fraction false) := by
  have proper := Numeral.proper_ofDecimal d
  obtain ⟨first, last, placed⟩ := Numeral.trimmed_ofDecimal d
  generalize Numeral.ofDecimal d = n at proper first last placed
  refine ⟨proper.digits_whole, ?_, fun c => proper.isDigit_of_mem_fraction, ?_⟩
  · unfold Numeral.whole
    split
    · exact fun _ => rfl
    split
    · by_cases none : n.digits = []
      · intro _
        rw [none, placed none]
        rfl
      · rw [List.head?_append_of_ne_nil _ none]
        exact fun zero => absurd zero first
    · rw [List.head?_take, if_neg (by omega)]
      exact fun zero => absurd zero first
  · unfold Numeral.fraction
    split
    · have some : n.digits ≠ [] := fun none => by
        have point := placed none
        omega
      rwa [List.getLast?_append_of_ne_nil _ some]
    split
    · exact nofun
    · rwa [List.getLast?_drop, if_neg (by omega)]

namespace Canonical

variable {whole fraction : List Char}

/-- Below one, the zeros after the point lead the digits. -/
theorem positionalText_of_leadingZero (h : Canonical ['0'] fraction) :
    (Numeral.ofDecimal (.ofDigits ['0'] fraction)).positionalText false =
      plainText ['0'] fraction := by
  by_cases none : fraction = []
  · rw [none]
    rfl
  obtain ⟨count, w, rfl, first⟩ := Numeral.exists_zeros_append fraction
  have some : w ≠ [] := by
    rintro rfl
    have last := h.last
    rw [List.append_nil] at none last
    rw [Numeral.zeros, List.getLast?_replicate] at last
    split at last
    · rename_i zero
      exact none (by rw [zero]; rfl)
    · exact last rfl
  have digits : Digits w := ⟨some, fun c member => h.digits' c (List.mem_append_right _ member)⟩
  have last := h.last
  rw [List.getLast?_append_of_ne_nil _ some] at last
  have value : valueOfDigits ('0' :: (Numeral.zeros count ++ w)) = valueOfDigits w :=
    Numeral.valueOfDigits_zeros_append (count + 1) w
  have point : w.length + (Decimal.ofDigits ['0'] (Numeral.zeros count ++ w)).exponent =
      -(count : Int) := by
    unfold Decimal.ofDigits
    dsimp only
    rw [List.length_append, Numeral.length_zeros]
    omega
  rw [Numeral.ofDecimal_of_digits digits first value, Numeral.dropTrailingZeros_eq_self last, point,
    Numeral.positionalText, if_pos (by dsimp only; omega), plainText, if_neg none]
  dsimp only
  rw [neg_neg, Int.toNat_natCast]
  rfl

/-- From one on, the digits are those before and after the point. -/
theorem positionalText_of_head (h : Canonical whole fraction) (first : whole.head? ≠ some '0') :
    (Numeral.ofDecimal (.ofDigits whole fraction)).positionalText false =
      plainText whole fraction := by
  have digits : Digits (whole ++ fraction) := by
    refine ⟨List.append_ne_nil_of_left_ne_nil h.digits.1 _, fun c member => ?_⟩
    rcases List.mem_append.mp member with before | after
    · exact h.digits.2 c before
    · exact h.digits' c after
  have first : (whole ++ fraction).head? ≠ some '0' := by
    rwa [List.head?_append_of_ne_nil _ h.digits.1]
  have point : (whole ++ fraction).length + (Decimal.ofDigits whole fraction).exponent =
      (whole.length : Int) := by
    unfold Decimal.ofDigits
    dsimp only
    rw [List.length_append]
    omega
  have some : 0 < whole.length := List.length_pos_iff.mpr h.digits.1
  rw [Numeral.ofDecimal_of_digits digits first rfl, point, Numeral.positionalText,
    if_neg (by dsimp only; omega), plainText]
  dsimp only
  rw [Int.toNat_natCast]
  by_cases none : fraction = []
  · -- the zeros at the end of a whole number are written again
    subst none
    obtain ⟨count, split⟩ := Numeral.exists_zeros_dropTrailingZeros whole
    have length := congrArg List.length split
    rw [List.length_append, Numeral.length_zeros] at length
    have rest : whole.length - (Numeral.dropTrailingZeros whole).length = count := by omega
    rw [List.append_nil, if_pos (by omega), if_neg Bool.false_ne_true, if_pos rfl, rest, ← split]
  · have last := h.last
    rw [← List.getLast?_append_of_ne_nil whole none] at last
    have longer : 0 < fraction.length := List.length_pos_iff.mpr none
    rw [Numeral.dropTrailingZeros_eq_self last, List.length_append, if_neg (by omega), if_neg none,
      List.take_left, List.drop_left]

/-- The decimal that a canonical text denotes is laid out as that text. -/
theorem positionalText (h : Canonical whole fraction) :
    (Numeral.ofDecimal (.ofDigits whole fraction)).positionalText false =
      plainText whole fraction := by
  by_cases zero : whole.head? = some '0'
  · obtain rfl := h.first zero
    exact h.positionalText_of_leadingZero
  · exact h.positionalText_of_head zero

/-- Digits stand after the point just when the value is not whole. -/
theorem fraction_eq_nil_iff (h : Canonical whole fraction) :
    fraction = [] ↔ ∃ n : Nat, (Decimal.ofDigits whole fraction).value = n := by
  constructor
  · rintro rfl
    refine ⟨valueOfDigits (whole ++ []), ?_⟩
    rw [Decimal.value]
    show (valueOfDigits (whole ++ []) : ℚ) * 10 ^ (0 : Int) = _
    rw [zpow_zero, mul_one]
  · rintro ⟨n, value⟩
    rcases List.eq_nil_or_concat fraction with none | ⟨before, c, rfl⟩
    · exact none
    · exfalso
      obtain ⟨small, single⟩ := toDigits_of_isDigit (h.digits' c (by simp))
      have some : c.toNat - '0'.toNat ≠ 0 := by
        intro zero
        rw [zero, Nat.toDigits_zero] at single
        have last := h.last
        rw [List.concat_eq_append, List.getLast?_concat, ← (List.cons.inj single).1] at last
        exact last rfl
      -- the last digit would be a multiple of ten
      have coefficient :
          valueOfDigits (whole ++ (before ++ [c])) = n * 10 ^ (before.length + 1) := by
        have scaled : (valueOfDigits (whole ++ (before ++ [c])) : ℚ) *
            10 ^ (-((before ++ [c]).length : Int)) = n := by
          rw [← List.concat_eq_append]
          exact value
        rw [List.length_append, List.length_singleton, zpow_neg, zpow_natCast, ← div_eq_mul_inv,
          div_eq_iff (by positivity)] at scaled
        exact_mod_cast scaled
      rw [← List.append_assoc, valueOfDigits_concat, Nat.pow_succ, ← Nat.mul_assoc] at coefficient
      omega

end Canonical

end LoxSyntax
