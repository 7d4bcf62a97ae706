import LoxSyntax.Number.Shortest

/-!
# Reading numbers back

Rounding looks at the value of a decimal only (`Decimal.SameValue`), and the exact value of
a finite number is rounded to the number itself. So the shortest decimal, which the search
takes from decimals that read back, reads back whether the search finds one or falls back
on the exact value. Every number that a decimal is rounded to is unsigned: it has no sign
and is not undefined.

* `Binary64.ofDecimal_congr`: decimals of one value are rounded alike.
* `Binary64.ofDecimal_exactDecimal` and `Binary64.ofDecimal_shortest`: both decimals of a
  finite number are rounded to its magnitude.
* `Binary64.ofDecimal_unsigned`, and `Binary64.Unsigned.eq_infinity`: such numbers are finite
  or the positive infinity.
-/

namespace LoxSyntax

/-! ## Values of decimals -/

/-- The decimals denote the same value. -/
def Decimal.SameValue (d d' : Decimal) : Prop :=
  d.numerator * d'.denominator = d'.numerator * d.denominator

/-- Zeros at the end of a coefficient can be moved into the exponent. -/
theorem Decimal.sameValue_shift (coefficient zeros : Nat) (exponent : Int) :
    SameValue ⟨coefficient * Nat.pow 10 zeros, exponent⟩ ⟨coefficient, exponent + zeros⟩ := by
  have powers : zeros + (exponent.toNat + (-(exponent + zeros)).toNat) =
      (exponent + zeros).toNat + (-exponent).toNat := by omega
  show coefficient * 10 ^ zeros * 10 ^ exponent.toNat * 10 ^ (-(exponent + zeros)).toNat =
    coefficient * 10 ^ (exponent + zeros).toNat * 10 ^ (-exponent).toNat
  rw [Nat.mul_assoc, Nat.mul_assoc, Nat.mul_assoc, ← Nat.pow_add, ← Nat.pow_add, powers,
    Nat.pow_add]

/-- All decimals without a coefficient are zero. -/
theorem Decimal.sameValue_zero (exponent exponent' : Int) :
    SameValue ⟨0, exponent⟩ ⟨0, exponent'⟩ := by
  simp [SameValue, numerator]

namespace Binary64

/-! ## Rounding of quotients -/

theorem roundHalfEven_mul {factor : Nat} (h : 0 < factor) (numerator denominator : Nat) :
    roundHalfEven (numerator * factor) (denominator * factor) =
      roundHalfEven numerator denominator := by
  have double : 2 * (numerator % denominator * factor) = 2 * (numerator % denominator) * factor :=
    (Nat.mul_assoc _ _ _).symm
  simp only [roundHalfEven, Nat.mul_div_mul_right _ _ h, Nat.mul_mod_mul_right, double,
    Nat.mul_lt_mul_right h]

/-- Rounding an exact quotient gives it. -/
theorem roundHalfEven_exact {denominator : Nat} (h : 0 < denominator) (n : Nat) :
    roundHalfEven (n * denominator) denominator = n := by
  simp [roundHalfEven, Nat.mul_div_cancel _ h, h]

theorem nearest_mul {factor : Nat} (h : 0 < factor) (numerator denominator : Nat) :
    nearest (numerator * factor) (denominator * factor) = nearest numerator denominator := by
  unfold nearest
  dsimp only
  rw [Nat.mul_right_comm numerator, Nat.mul_div_mul_right _ _ h, Nat.mul_right_comm denominator,
    roundHalfEven_mul h]

/-- Equal quotients are rounded to the same number. -/
theorem nearest_congr {n n' d d' : Nat} (h : 0 < d) (h' : 0 < d') (same : n * d' = n' * d) :
    nearest n d = nearest n' d' := by
  calc nearest n d
      = nearest (n * d') (d * d') := (nearest_mul h' n d).symm
    _ = nearest (n' * d) (d' * d) := by rw [same, Nat.mul_comm d d']
    _ = nearest n' d' := nearest_mul h n' d'

/-- Decimals of the same value are rounded to the same number. -/
theorem ofDecimal_congr {d d' : Decimal} (h : d.SameValue d') : ofDecimal d = ofDecimal d' :=
  nearest_congr d.denominator_pos d'.denominator_pos h

/-! ## Exact values -/

/-- A significand of up to 53 bits and some zero bits drop just those bits. -/
theorem log2_sub {significand shift : Nat} (fits : significand < 2 * fractionCount)
    (full : shift ≠ 0 → fractionCount ≤ significand) :
    (significand * Nat.pow 2 shift).log2 - 52 = shift := by
  show (significand * 2 ^ shift).log2 - 52 = shift
  by_cases small : significand < fractionCount
  · have none : shift = 0 := Classical.byContradiction fun some => by
      have large := full some
      omega
    subst none
    rw [Nat.pow_zero, Nat.mul_one]
    have bound : significand.log2 < 52 ∨ significand = 0 := by
      by_cases zero : significand = 0
      · exact .inr zero
      · exact .inl ((Nat.log2_lt zero).mpr small)
    rcases bound with bound | rfl
    · omega
    · rfl
  · have lower : fractionCount ≤ significand := by omega
    have log : (significand * 2 ^ shift).log2 = 52 + shift := by
      have pos : 0 < 2 ^ shift := Nat.pow_pos (by decide)
      apply (Nat.log2_eq_iff (Nat.mul_ne_zero (by omega) (by omega))).mpr
      rw [Nat.add_right_comm, Nat.pow_add, Nat.pow_add]
      exact ⟨Nat.mul_le_mul_right _ lower, Nat.mul_lt_mul_of_pos_right fits pos⟩
    omega

/-- A quotient that is a significand with some zero bits, measured in units of the least
positive number, is rounded to the number of that significand. -/
theorem nearest_exact {unit numerator denominator significand shift : Nat} (least : unit = 1074)
    (pos : 0 < denominator) (fits : significand < 2 * fractionCount)
    (full : shift ≠ 0 → fractionCount ≤ significand)
    (same : numerator * Nat.pow 2 unit = significand * Nat.pow 2 shift * denominator) :
    nearest numerator denominator = ofRank (shift * fractionCount + significand) := by
  have dropped := log2_sub fits full
  have units : numerator * Nat.pow 2 unit / denominator = significand * Nat.pow 2 shift :=
    Nat.div_eq_of_eq_mul_left pos same
  have scaled : numerator * Nat.pow 2 unit =
      significand * (denominator * Nat.pow 2 shift) := by
    rw [Nat.mul_comm denominator, ← Nat.mul_assoc]
    exact same
  have grid : 0 < denominator * Nat.pow 2 shift := Nat.mul_pos pos (Nat.pow_pos (by decide))
  unfold nearest
  dsimp only
  rw [← least, units, dropped, scaled, roundHalfEven_exact grid]

/-- A finite number has the rank of its encoding. -/
theorem ofRank_encoding {x : Binary64} (finite : x.isFinite = true) :
    ofRank (x.exponent.val * fractionCount + x.fraction.val) = x.magnitude := by
  have bits : x.magnitude.toBits = x.exponent.val * fractionCount + x.fraction.val := by
    simp [toBits, magnitude]
  have last : x.exponent.val ≠ 2047 := by simpa [isFinite] using finite
  have exponent := x.exponent.isLt
  have fraction := x.fraction.isLt
  have within : x.exponent.val * fractionCount + x.fraction.val ≤ 2047 * fractionCount := by
    simp only [fractionCount] at fraction ⊢
    omega
  rw [ofRank, Nat.min_eq_left within, ← bits, ofBits_toBits]

/-- The exact value of a finite number, measured in units of the least positive number. -/
theorem numerator_exactDecimal (x : Binary64) {unit : Nat} (least : unit = 1074) :
    x.exactDecimal.numerator * Nat.pow 2 unit =
      x.significand * Nat.pow 2 (max x.exponent.val 1 - 1) * x.exactDecimal.denominator := by
  have scale : x.scale = (max x.exponent.val 1 : Nat) - 1075 := rfl
  unfold exactDecimal
  split
  · have shift : max x.exponent.val 1 - 1 = x.scale.toNat + unit := by omega
    show x.significand * 2 ^ x.scale.toNat * 10 ^ 0 * 2 ^ unit =
      x.significand * 2 ^ (max x.exponent.val 1 - 1) * 10 ^ 0
    rw [shift, Nat.pow_zero, Nat.mul_one, Nat.mul_one, Nat.mul_assoc, ← Nat.pow_add]
  · have none : x.scale.toNat = 0 := by omega
    have shift : unit = max x.exponent.val 1 - 1 + (-x.scale).toNat := by omega
    have tens : 10 ^ (-x.scale).toNat = 2 ^ (-x.scale).toNat * 5 ^ (-x.scale).toNat :=
      Nat.mul_pow 2 5 _
    show x.significand * 5 ^ (-x.scale).toNat * 10 ^ x.scale.toNat * 2 ^ unit =
      x.significand * 2 ^ (max x.exponent.val 1 - 1) * 10 ^ (-x.scale).toNat
    calc x.significand * 5 ^ (-x.scale).toNat * 10 ^ x.scale.toNat * 2 ^ unit
        = x.significand * 5 ^ (-x.scale).toNat *
            (2 ^ (max x.exponent.val 1 - 1) * 2 ^ (-x.scale).toNat) := by
          rw [none, Nat.pow_zero, Nat.mul_one, shift, Nat.pow_add]
      _ = _ := by
          rw [tens]
          ac_rfl

/-- The exact value of a finite number is rounded to its magnitude. -/
theorem ofDecimal_exactDecimal {x : Binary64} (finite : x.isFinite = true) :
    ofDecimal x.exactDecimal = x.magnitude := by
  have fraction := x.fraction.isLt
  have fits : x.significand < 2 * fractionCount := by
    unfold significand
    split <;> omega
  have full : max x.exponent.val 1 - 1 ≠ 0 → fractionCount ≤ x.significand := by
    intro shifted
    rw [significand, if_neg (by omega)]
    exact Nat.le_add_right _ _
  have rank : (max x.exponent.val 1 - 1) * fractionCount + x.significand =
      x.exponent.val * fractionCount + x.fraction.val := by
    unfold significand
    simp only [fractionCount]
    split <;> omega
  -- the exponent is a variable, so that its power of two is never evaluated
  obtain ⟨unit, least⟩ : ∃ unit, unit = 1074 := ⟨_, rfl⟩
  have units := x.numerator_exactDecimal least
  rw [ofDecimal, nearest_exact least x.exactDecimal.denominator_pos fits full units, rank,
    ofRank_encoding finite]

/-! ## Shortest decimals -/

/-- A neighbour of the exact value is taken only if it reads back. -/
theorem readsBack_of_neighbour? {x : Binary64} {count : Nat} {d : Decimal}
    (h : x.neighbour? count = some d) : x.readsBack d = true := by
  unfold neighbour? at h
  dsimp only at h
  split at h
  · rename_i low
    split at h
    · rename_i high
      split at h
      · cases h
        exact low
      split at h
      · cases h
        exact high
      split at h
      · cases h
        exact low
      · cases h
        exact high
    · cases h
      exact low
  · split at h
    · rename_i high
      cases h
      exact high
    · cases h

theorem readsBack_shortestFrom {x : Binary64} (exact : x.readsBack x.exactDecimal = true)
    (remaining count : Nat) : x.readsBack (x.shortestFrom remaining count) = true := by
  induction remaining generalizing count with
  | zero => exact exact
  | succ remaining ih =>
    rw [shortestFrom]
    cases found : x.neighbour? count with
    | some d => exact readsBack_of_neighbour? found
    | none => exact ih (count + 1)

/-- The shortest decimal of a finite number is rounded to its magnitude. -/
theorem ofDecimal_shortest {x : Binary64} (finite : x.isFinite = true) :
    ofDecimal x.shortest = x.magnitude := by
  have exact : x.readsBack x.exactDecimal = true := by
    rw [readsBack, ofDecimal_exactDecimal finite, beq_self_eq_true]
  have found := readsBack_shortestFrom exact (digitsOf x.exactDecimal.coefficient).length 1
  rw [readsBack, beq_iff_eq] at found
  exact found

/-! ## Unsigned numbers -/

/-- A number without a sign that is not undefined. -/
structure Unsigned (x : Binary64) : Prop where
  positive : x.negative = false
  defined : x.isNaN = false

/-- The positive infinity. -/
def infinity : Binary64 :=
  ⟨false, 2047, 0⟩

/-- A number of any rank is unsigned. -/
theorem ofRank_unsigned (rank : Nat) : (ofRank rank).Unsigned := by
  have bound : min rank (2047 * fractionCount) ≤ 2047 * fractionCount := Nat.min_le_right _ _
  unfold ofRank
  generalize min rank (2047 * fractionCount) = bits at bound
  simp only [fractionCount] at bound
  refine ⟨?_, ?_⟩
  · have low : bits / 0x8000000000000000 = 0 := by omega
    simp [ofBits, low]
  · have whole : bits / fractionCount % 2048 = 2047 → bits % fractionCount = 0 := by
      simp only [fractionCount]
      omega
    unfold isNaN ofBits
    simpa using whole

/-- Every number that a decimal is rounded to is unsigned. -/
theorem ofDecimal_unsigned (d : Decimal) : (ofDecimal d).Unsigned :=
  ofRank_unsigned _

/-- An unsigned number is its own magnitude. -/
theorem Unsigned.magnitude_eq {x : Binary64} (h : x.Unsigned) : x.magnitude = x := by
  obtain ⟨negative, exponent, fraction⟩ := x
  obtain rfl : negative = false := h.positive
  rfl

/-- An unsigned number that is not finite is the positive infinity. -/
theorem Unsigned.eq_infinity {x : Binary64} (h : x.Unsigned) (infinite : x.isFinite = false) :
    x = infinity := by
  obtain ⟨positive, defined⟩ := h
  obtain ⟨negative, exponent, fraction⟩ := x
  obtain rfl : exponent = 2047 := by
    have top := bne_eq_false_iff_eq.mp infinite
    exact Fin.ext top
  obtain rfl : fraction = 0 := by
    have none : (fraction.val != 0) = false := defined
    exact Fin.ext (bne_eq_false_iff_eq.mp none)
  obtain rfl : negative = false := positive
  rfl

/-- Unsigned numbers that are numerically equal are equal, since there is one zero among
them. -/
theorem Unsigned.sameNumber_iff {x y : Binary64} (h : x.Unsigned) (h' : y.Unsigned) :
    x.sameNumber y = true ↔ x = y := by
  have zero {z : Binary64} (h : z.Unsigned) (zero : z.isZero = true) : z = ⟨false, 0, 0⟩ := by
    obtain ⟨negative, exponent, fraction⟩ := z
    obtain rfl : negative = false := h.positive
    obtain ⟨exponent, fraction⟩ := Bool.and_eq_true_iff.mp zero
    rw [Binary64.mk.injEq]
    exact ⟨rfl, Fin.ext (beq_iff_eq.mp exponent), Fin.ext (beq_iff_eq.mp fraction)⟩
  unfold sameNumber
  rw [h.defined, Bool.not_false, Bool.true_and, Bool.or_eq_true, beq_iff_eq]
  constructor
  · intro same
    rcases same with same | zeros
    · exact same
    · obtain ⟨left, right⟩ := Bool.and_eq_true_iff.mp zeros
      rw [zero h left, zero h' right]
  · exact Or.inl

end Binary64

end LoxSyntax
