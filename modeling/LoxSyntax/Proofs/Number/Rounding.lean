import Mathlib.Algebra.Order.Field.Power
import Mathlib.Data.Nat.Log
import Mathlib.Data.Rat.Cast.Order
import Mathlib.Tactic.FieldSimp
import Mathlib.Tactic.Linarith
import Mathlib.Tactic.Positivity
import Mathlib.Tactic.Ring
import LoxSyntax.Proofs.Number.ReadBack

/-!
# Rounding and values

A decimal and the magnitude of a finite number have rational values (`Decimal.value`,
`Binary64.size`), and rounding is a matter of values: a greater decimal is never rounded to a
smaller number (`Binary64.rank_le_rank`), and no decimal is further from the number that it is
rounded to than half a unit in the last place of that number (`Binary64.abs_value_sub_size_le`).
So what lies between two decimals of one number is rounded to that number as well
(`Binary64.ofDecimal_eq_of_between`).
-/

namespace LoxSyntax

/-! ## Values -/

namespace Decimal

/-- The value of a decimal. -/
def value (d : Decimal) : ℚ :=
  d.coefficient * 10 ^ d.exponent

/-- The value is the quotient of numerator and denominator. -/
theorem value_eq_div (d : Decimal) : d.value = d.numerator / d.denominator := by
  obtain ⟨coefficient, exponent⟩ := d
  show (coefficient : ℚ) * 10 ^ exponent =
    ((coefficient * 10 ^ exponent.toNat : Nat) : ℚ) / ((10 ^ (-exponent).toNat : Nat) : ℚ)
  push_cast
  rw [mul_div_assoc, ← zpow_natCast, ← zpow_natCast, ← zpow_sub₀ (by norm_num)]
  congr 2
  omega

/-- Every decimal is a multiple of the powers of ten up to its own. -/
theorem value_eq_mul {d : Decimal} {exponent : Int} (h : exponent ≤ d.exponent) :
    d.value = (d.coefficient * 10 ^ (d.exponent - exponent).toNat : Nat) * 10 ^ exponent := by
  have split : d.exponent = ((d.exponent - exponent).toNat : Int) + exponent := by omega
  push_cast
  rw [value, mul_assoc, ← zpow_natCast, ← zpow_add₀ (by norm_num), ← split]

theorem value_eq_zero_iff {d : Decimal} : d.value = 0 ↔ d.coefficient = 0 := by
  have power : (10 : ℚ) ^ d.exponent ≠ 0 := by positivity
  rw [value, mul_eq_zero_iff_right power, Nat.cast_eq_zero]

/-- Decimals denote the same value when their values are equal. -/
theorem sameValue_iff {d d' : Decimal} : d.SameValue d' ↔ d.value = d'.value := by
  have pos : (d.denominator : ℚ) ≠ 0 := Nat.cast_ne_zero.mpr d.denominator_pos.ne'
  have pos' : (d'.denominator : ℚ) ≠ 0 := Nat.cast_ne_zero.mpr d'.denominator_pos.ne'
  rw [value_eq_div, value_eq_div, div_eq_div_iff pos pos', SameValue]
  exact_mod_cast Iff.rfl

/-- Values are in the order of the quotients. -/
theorem value_le_iff {d d' : Decimal} :
    d.value ≤ d'.value ↔ d.numerator * d'.denominator ≤ d'.numerator * d.denominator := by
  have pos : (0 : ℚ) < d.denominator := Nat.cast_pos.mpr d.denominator_pos
  have pos' : (0 : ℚ) < d'.denominator := Nat.cast_pos.mpr d'.denominator_pos
  rw [value_eq_div, value_eq_div, div_le_div_iff₀ pos pos']
  exact_mod_cast Iff.rfl

end Decimal

namespace Binary64

/-- The value of the magnitude of a finite number. -/
def size (x : Binary64) : ℚ :=
  x.significand * 2 ^ x.scale

theorem value_exactDecimal (x : Binary64) : x.exactDecimal.value = x.size := by
  unfold exactDecimal size
  split
  · rename_i large
    have power : ((2 : ℚ) ^ x.scale.toNat) = 2 ^ x.scale := by
      rw [← zpow_natCast, Int.toNat_of_nonneg large]
    show (((x.significand * 2 ^ x.scale.toNat : Nat) : ℚ)) * 10 ^ (0 : Int) = _
    rw [zpow_zero, mul_one]
    push_cast
    rw [power]
  · rename_i small
    have power : ((5 : ℚ) ^ (-x.scale).toNat) = 5 ^ (-x.scale) := by
      rw [← zpow_natCast, Int.toNat_of_nonneg (by omega)]
    have tens : (10 : ℚ) ^ x.scale = 2 ^ x.scale * 5 ^ x.scale := by
      rw [← mul_zpow]
      norm_num
    show (((x.significand * 5 ^ (-x.scale).toNat : Nat) : ℚ)) * 10 ^ x.scale = _
    push_cast
    rw [power, tens, zpow_neg]
    field_simp

/-! ## Ranks -/

/-- The rank of the number nearest to a quotient, which is measured in units of the least
positive number. -/
def rankOfUnits (units denominator : Nat) : Nat :=
  let shift := (units / denominator).log2 - 52
  shift * fractionCount + roundHalfEven units (denominator * Nat.pow 2 shift)

/-- The rank of the number that a decimal is rounded to. -/
def rank (d : Decimal) : Nat :=
  rankOfUnits (d.numerator * Nat.pow 2 1074) d.denominator

theorem ofDecimal_eq_ofRank (d : Decimal) : ofDecimal d = ofRank (rank d) := rfl

/-- A quotient is rounded by a half at most. -/
theorem roundHalfEven_near {denominator : Nat} (pos : 0 < denominator) (numerator : Nat) :
    2 * numerator ≤ 2 * (roundHalfEven numerator denominator * denominator) + denominator ∧
      2 * (roundHalfEven numerator denominator * denominator) ≤ 2 * numerator + denominator := by
  have split := Nat.div_add_mod numerator denominator
  have below := Nat.mod_lt numerator pos
  have next (n : Nat) : (n + 1) * denominator = denominator * n + denominator := by ring
  have parity := Nat.mod_two_eq_zero_or_one (numerator / denominator)
  unfold roundHalfEven
  dsimp only
  split
  · rw [Nat.mul_comm _ denominator]
    omega
  split
  · rw [next]
    omega
  · rcases parity with even | odd
    · rw [even, Nat.add_zero, Nat.mul_comm _ denominator]
      omega
    · rw [odd, next]
      omega

theorem div_le_roundHalfEven (numerator denominator : Nat) :
    numerator / denominator ≤ roundHalfEven numerator denominator ∧
      roundHalfEven numerator denominator ≤ numerator / denominator + 1 := by
  unfold roundHalfEven
  dsimp only
  split
  · omega
  split
  · omega
  · omega

theorem roundHalfEven_mono {n n' : Nat} (h : n ≤ n') (denominator : Nat) :
    roundHalfEven n denominator ≤ roundHalfEven n' denominator := by
  have quotients := Nat.div_le_div_right (c := denominator) h
  rcases Nat.lt_or_eq_of_le quotients with less | same
  · exact ((div_le_roundHalfEven n denominator).2.trans less).trans
      (div_le_roundHalfEven n' denominator).1
  · have split := Nat.div_add_mod n denominator
    have split' := Nat.div_add_mod n' denominator
    rw [← same] at split'
    have remainders : n % denominator ≤ n' % denominator := by omega
    unfold roundHalfEven
    dsimp only
    rw [← same]
    split_ifs <;> omega

section

variable {units units' denominator : Nat}

/-- The bits that are dropped leave a significand of 53 bits at most, and of 53 bits where any
are dropped. -/
theorem units_bounds (units : Nat) (pos : 0 < denominator) :
    units < denominator * Nat.pow 2 ((units / denominator).log2 - 52) * (2 * fractionCount) ∧
      ((units / denominator).log2 - 52 ≠ 0 →
        denominator * Nat.pow 2 ((units / denominator).log2 - 52) * fractionCount ≤ units) := by
  generalize quotient : units / denominator = q
  have powers (bits more : Nat) :
      denominator * Nat.pow 2 bits * 2 ^ more = 2 ^ (bits + more) * denominator := by
    show denominator * 2 ^ bits * 2 ^ more = _
    rw [Nat.pow_add, Nat.mul_assoc, Nat.mul_comm]
  refine ⟨?_, fun some => ?_⟩
  · have large : q < 2 ^ (q.log2 - 52 + 53) :=
      Nat.lt_of_lt_of_le Nat.lt_log2_self (Nat.pow_le_pow_right (by decide) (by omega))
    rw [show 2 * fractionCount = 2 ^ 53 from rfl, powers]
    exact (Nat.div_lt_iff_lt_mul pos).mp (quotient ▸ large)
  · have log : q.log2 - 52 + 52 = q.log2 := by omega
    have least : 2 ^ q.log2 ≤ q := Nat.log2_self_le (by rintro rfl; exact some rfl)
    rw [show fractionCount = 2 ^ 52 from rfl, powers, log]
    exact (Nat.le_div_iff_mul_le pos).mp (quotient ▸ least)

/-- What is rounded has 53 bits at most, and 53 bits or the next power of two where bits are
dropped. -/
theorem roundHalfEven_units_bounds (units : Nat) (pos : 0 < denominator) :
    roundHalfEven units (denominator * Nat.pow 2 ((units / denominator).log2 - 52)) ≤
        2 * fractionCount ∧
      ((units / denominator).log2 - 52 ≠ 0 →
        fractionCount ≤
          roundHalfEven units (denominator * Nat.pow 2 ((units / denominator).log2 - 52))) := by
  obtain ⟨above, below⟩ := units_bounds units pos
  have grid : 0 < denominator * Nat.pow 2 ((units / denominator).log2 - 52) :=
    Nat.mul_pos pos (Nat.pow_pos (by decide))
  obtain ⟨lower, upper⟩ := div_le_roundHalfEven units
    (denominator * Nat.pow 2 ((units / denominator).log2 - 52))
  refine ⟨upper.trans (Nat.div_lt_of_lt_mul above), fun some => ?_⟩
  refine Nat.le_trans ((Nat.le_div_iff_mul_le grid).mpr ?_) lower
  rw [Nat.mul_comm]
  exact below some

/-- A greater quotient is never rounded to a smaller rank. -/
theorem rankOfUnits_mono (pos : 0 < denominator) (h : units ≤ units') :
    rankOfUnits units denominator ≤ rankOfUnits units' denominator := by
  have quotients := Nat.div_le_div_right (c := denominator) h
  have shifts : (units / denominator).log2 - 52 ≤ (units' / denominator).log2 - 52 := by
    rw [Nat.log2_eq_log_two, Nat.log2_eq_log_two]
    exact Nat.sub_le_sub_right (Nat.log_mono_right quotients) 52
  have upper := (roundHalfEven_units_bounds units pos).1
  have lower := (roundHalfEven_units_bounds units' pos).2
  unfold rankOfUnits
  dsimp only
  generalize (units / denominator).log2 - 52 = shift at shifts upper
  generalize (units' / denominator).log2 - 52 = shift' at shifts lower
  rcases Nat.lt_or_eq_of_le shifts with less | same
  · have full := lower (by omega)
    have carried : (shift + 1) * fractionCount ≤ shift' * fractionCount :=
      Nat.mul_le_mul_right _ less
    rw [Nat.succ_mul] at carried
    omega
  · subst same
    exact Nat.add_le_add_left (roundHalfEven_mono h _) _

theorem rankOfUnits_mul {factor : Nat} (pos : 0 < factor) :
    rankOfUnits (units * factor) (denominator * factor) = rankOfUnits units denominator := by
  unfold rankOfUnits
  dsimp only
  rw [Nat.mul_div_mul_right _ _ pos, Nat.mul_right_comm denominator, roundHalfEven_mul pos]

end

/-- A greater decimal is never rounded to a smaller rank. -/
theorem rank_le_rank {d d' : Decimal} (h : d.value ≤ d'.value) : rank d ≤ rank d' := by
  have pos := d.denominator_pos
  have pos' := d'.denominator_pos
  unfold rank
  generalize Nat.pow 2 1074 = unit
  have units : d.numerator * unit * d'.denominator ≤ d'.numerator * unit * d.denominator := by
    rw [Nat.mul_right_comm, Nat.mul_right_comm d'.numerator]
    exact Nat.mul_le_mul_right _ (Decimal.value_le_iff.mp h)
  calc rankOfUnits (d.numerator * unit) d.denominator
      = rankOfUnits (d.numerator * unit * d'.denominator) (d.denominator * d'.denominator) :=
        (rankOfUnits_mul pos').symm
    _ ≤ rankOfUnits (d'.numerator * unit * d.denominator) (d.denominator * d'.denominator) :=
        rankOfUnits_mono (Nat.mul_pos pos pos') units
    _ = rankOfUnits (d'.numerator * unit) d'.denominator := by
        rw [Nat.mul_comm d.denominator, rankOfUnits_mul pos]

/-! ## Numbers of a rank -/

/-- The ranks below that of infinity are those of finite numbers. -/
theorem isFinite_ofRank (rank : Nat) :
    (ofRank rank).isFinite = true ↔ rank < 2047 * fractionCount := by
  have exponent : (ofRank rank).exponent.val =
      min rank (2047 * fractionCount) / fractionCount % 2048 := rfl
  rw [isFinite, exponent]
  simp only [fractionCount, bne_iff_ne]
  omega

theorem exponent_ofRank {rank : Nat} (h : rank < 2047 * fractionCount) :
    (ofRank rank).exponent.val = rank / fractionCount := by
  show min rank (2047 * fractionCount) / fractionCount % 2048 = _
  simp only [fractionCount] at h ⊢
  omega

theorem fraction_ofRank {rank : Nat} (h : rank < 2047 * fractionCount) :
    (ofRank rank).fraction.val = rank % fractionCount := by
  show min rank (2047 * fractionCount) % fractionCount = _
  rw [Nat.min_eq_left (Nat.le_of_lt h)]

/-- Numbers of different ranks up to that of infinity are different. -/
theorem min_eq_of_ofRank_eq {rank rank' : Nat} (h : ofRank rank = ofRank rank') :
    min rank (2047 * fractionCount) = min rank' (2047 * fractionCount) := by
  have bits (rank : Nat) : (ofRank rank).toBits = min rank (2047 * fractionCount) := by
    have positive := (ofRank_unsigned rank).positive
    unfold toBits
    rw [positive, if_neg Bool.false_ne_true, Nat.zero_add]
    show min rank (2047 * fractionCount) / fractionCount % 2048 * fractionCount +
      min rank (2047 * fractionCount) % fractionCount = _
    simp only [fractionCount]
    omega
  rw [← bits, ← bits, h]

/-- What lies between two decimals of one number is rounded to the number as well. -/
theorem ofDecimal_eq_of_between {low d high : Decimal} (above : low.value ≤ d.value)
    (below : d.value ≤ high.value) (same : ofDecimal low = ofDecimal high) :
    ofDecimal d = ofDecimal low := by
  have above := rank_le_rank above
  have below := rank_le_rank below
  rw [ofDecimal_eq_ofRank, ofDecimal_eq_ofRank] at same
  have ends := min_eq_of_ofRank_eq same
  have middle : min (rank d) (2047 * fractionCount) = min (rank low) (2047 * fractionCount) := by
    omega
  rw [ofDecimal_eq_ofRank, ofDecimal_eq_ofRank, ofRank, middle, ofRank]

/-- A decimal that is not greater than another is rounded to a finite number if the other
is. -/
theorem isFinite_ofDecimal_of_le {d d' : Decimal} (h : d.value ≤ d'.value)
    (finite : (ofDecimal d').isFinite = true) : (ofDecimal d).isFinite = true := by
  rw [ofDecimal_eq_ofRank, isFinite_ofRank] at finite ⊢
  exact (rank_le_rank h).trans_lt finite

/-! ## Half a unit in the last place -/

/-- The size of a number in units of the least positive number. -/
theorem size_mul_units (x : Binary64) {unit : Nat} (least : unit = 1074) :
    x.size * 2 ^ unit = x.significand * 2 ^ (max x.exponent.val 1 - 1) := by
  have scale : x.scale + unit = ((max x.exponent.val 1 - 1 : Nat) : Int) := by
    unfold scale
    omega
  rw [size, mul_assoc, ← zpow_natCast, ← zpow_add₀ two_ne_zero, scale, zpow_natCast]

/-- A significand that has been rounded, with the bits that were dropped as zeros, is the size
of the number of its rank, whose last place is no smaller. -/
theorem size_ofRank {unit shift significand : Nat} (least : unit = 1074)
    (fits : significand ≤ 2 * fractionCount) (full : shift ≠ 0 → fractionCount ≤ significand)
    (finite : (ofRank (shift * fractionCount + significand)).isFinite = true) :
    (ofRank (shift * fractionCount + significand)).size * 2 ^ unit = significand * 2 ^ shift ∧
      (shift : Int) ≤ (ofRank (shift * fractionCount + significand)).scale + unit := by
  have within := (isFinite_ofRank _).mp finite
  have exponent := exponent_ofRank within
  have fraction := fraction_ofRank within
  generalize ofRank (shift * fractionCount + significand) = x at exponent fraction
  have scale : x.scale + unit = ((max x.exponent.val 1 - 1 : Nat) : Int) := by
    unfold Binary64.scale
    omega
  have size := x.size_mul_units least
  unfold Binary64.significand at size
  rw [scale]
  rcases Nat.lt_or_ge significand fractionCount with small | large
  · -- no bits were dropped, and the leading one is missing
    have none : shift = 0 := by
      refine Classical.byContradiction fun some => ?_
      exact absurd (full some) (by omega)
    subst none
    rw [Nat.zero_mul, Nat.zero_add] at exponent fraction
    rw [Nat.div_eq_of_lt small] at exponent
    rw [Nat.mod_eq_of_lt small] at fraction
    rw [if_pos exponent, fraction, exponent] at size
    exact ⟨size, by omega⟩
  · have quotient : (shift * fractionCount + significand) / fractionCount =
        shift + significand / fractionCount := by
      rw [Nat.add_comm, Nat.add_mul_div_right _ _ (by decide), Nat.add_comm]
    rw [quotient] at exponent
    rw [Nat.mul_add_mod_self_right] at fraction
    rcases Nat.lt_or_eq_of_le fits with less | carried
    · have one : significand / fractionCount = 1 :=
        Nat.div_eq_of_lt_le (by omega) (by omega)
      have rest : significand % fractionCount = significand - fractionCount := by
        rw [Nat.mod_eq_sub_mod large, Nat.mod_eq_of_lt (by omega)]
      rw [one] at exponent
      have place : max (shift + 1) 1 - 1 = shift := by omega
      rw [if_neg (by omega), fraction, rest, exponent, Nat.add_sub_cancel' large, place] at size
      exact ⟨size, by omega⟩
    · -- rounding has carried into the next power of two, whose last place is twice as large
      subst carried
      rw [Nat.mul_div_cancel _ (by decide)] at exponent
      rw [Nat.mul_mod_left] at fraction
      rw [if_neg (by omega), fraction, exponent] at size
      refine ⟨?_, by omega⟩
      have place : max (shift + 2) 1 - 1 = shift + 1 := by omega
      rw [size, place]
      push_cast
      ring

/-- A decimal in units of the least positive number is rounded by half of the grid that is left
when bits are dropped. -/
theorem abs_units_sub_le (d : Decimal) {unit shift significand : Nat}
    (rounded : significand = roundHalfEven (d.numerator * Nat.pow 2 unit)
      (d.denominator * Nat.pow 2 shift)) :
    |d.value * 2 ^ unit - significand * 2 ^ shift| ≤ 2 ^ shift / 2 := by
  have grid : 0 < d.denominator * Nat.pow 2 shift :=
    Nat.mul_pos d.denominator_pos (Nat.pow_pos (by decide))
  obtain ⟨below, above⟩ := roundHalfEven_near grid (d.numerator * Nat.pow 2 unit)
  rw [← rounded] at below above
  have below : (2 : ℚ) * (d.numerator * 2 ^ unit) ≤
      2 * (significand * (d.denominator * 2 ^ shift)) + d.denominator * 2 ^ shift := by
    exact_mod_cast below
  have above : (2 : ℚ) * (significand * (d.denominator * 2 ^ shift)) ≤
      2 * (d.numerator * 2 ^ unit) + d.denominator * 2 ^ shift := by
    exact_mod_cast above
  have pos : (0 : ℚ) < d.denominator := Nat.cast_pos.mpr d.denominator_pos
  have numerator : d.value * d.denominator = d.numerator := by
    rw [d.value_eq_div, div_mul_cancel₀ _ pos.ne']
  rw [← numerator] at below above
  rw [abs_le]
  constructor
  · refine le_of_mul_le_mul_right ?_ pos
    linarith
  · refine le_of_mul_le_mul_right ?_ pos
    linarith

/-- No decimal is further from the number that it is rounded to than half a unit in the last
place of that number. -/
theorem abs_value_sub_size_le {d : Decimal} (finite : (ofDecimal d).isFinite = true) :
    |d.value - (ofDecimal d).size| ≤ 2 ^ ((ofDecimal d).scale - 1) := by
  -- the exponent is a variable, so that its power of two is never evaluated
  obtain ⟨unit, least, shape⟩ : ∃ unit, unit = 1074 ∧
      ofDecimal d = ofRank (rankOfUnits (d.numerator * Nat.pow 2 unit) d.denominator) :=
    ⟨_, rfl, ofDecimal_eq_ofRank d⟩
  obtain ⟨fits, full⟩ :=
    roundHalfEven_units_bounds (d.numerator * Nat.pow 2 unit) d.denominator_pos
  unfold rankOfUnits at shape
  dsimp only at shape
  generalize (d.numerator * Nat.pow 2 unit / d.denominator).log2 - 52 = shift at shape fits full
  generalize rounded : roundHalfEven (d.numerator * Nat.pow 2 unit)
    (d.denominator * Nat.pow 2 shift) = significand at shape fits full
  rw [shape] at finite ⊢
  obtain ⟨size, place⟩ := size_ofRank least fits full finite
  have near := abs_units_sub_le d rounded.symm
  generalize ofRank (shift * fractionCount + significand) = x at size place
  have power : (0 : ℚ) < 2 ^ unit := by positivity
  refine le_of_mul_le_mul_right ?_ power
  calc |d.value - x.size| * 2 ^ unit
      = |d.value * 2 ^ unit - significand * 2 ^ shift| := by
        rw [← size, ← sub_mul, abs_mul, abs_of_pos power]
    _ ≤ 2 ^ shift / 2 := near
    _ ≤ 2 ^ (x.scale + unit) / 2 := by
        rw [← zpow_natCast]
        gcongr
        exact one_le_two
    _ = 2 ^ (x.scale - 1) * 2 ^ unit := by
        rw [zpow_add₀ two_ne_zero, zpow_sub_one₀ two_ne_zero, zpow_natCast]
        ring

end Binary64

end LoxSyntax
