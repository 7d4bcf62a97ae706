import LoxSyntax.Proofs.Number.Rounding

/-!
# Shortest digits

The search for the shortest decimal looks at two neighbours of a number on each grid, and they
are enough: a decimal of a few digits that reads back as the number has one of the two between
itself and the number, or has a power of ten there that is on the grid
(`Binary64.exists_neighbour?`). So the search comes to no longer digits than any decimal that
reads back has (`Binary64.coefficient_shortest_le`), and it comes to a whole decimal just when the
number, which reads back from its own digits, is whole (`Binary64.exists_shortest_eq_iff`).
-/

namespace LoxSyntax

theorem pow_length_digitsOf_le {n : Nat} (h : n ≠ 0) : 10 ^ ((digitsOf n).length - 1) ≤ n := by
  by_cases one : (digitsOf n).length - 1 = 0
  · rw [one]
    exact Nat.pos_of_ne_zero h
  · refine Nat.le_of_not_lt fun less => ?_
    have shorter := (Nat.length_toDigits_le_iff (by decide) (Nat.pos_of_ne_zero one)).mpr less
    unfold digitsOf at one shorter
    omega

theorem lt_pow_length_digitsOf (n : Nat) : n < 10 ^ (digitsOf n).length :=
  (Nat.length_toDigits_le_iff (by decide) Nat.length_toDigits_pos).mp (Nat.le_refl _)

namespace Binary64

variable {x : Binary64}

theorem readsBack_iff {d : Decimal} : x.readsBack d = true ↔ ofDecimal d = x.magnitude :=
  beq_iff_eq

/-! ## Neighbours on a grid -/

/-- The number of digits of the exact value. -/
def exactDigits (x : Binary64) : Nat :=
  (digitsOf x.exactDecimal.coefficient).length

/-- The greatest decimal of `count` leading digits that does not exceed the number. -/
def lower (x : Binary64) (count : Nat) : Decimal where
  coefficient := x.exactDecimal.coefficient / 10 ^ (x.exactDigits - count)
  exponent := x.exactDecimal.exponent + (x.exactDigits - count : Nat)

/-- The next decimal on the grid of `count` leading digits. -/
def upper (x : Binary64) (count : Nat) : Decimal where
  coefficient := x.exactDecimal.coefficient / 10 ^ (x.exactDigits - count) + 1
  exponent := x.exactDecimal.exponent + (x.exactDigits - count : Nat)

theorem eq_or_eq_of_neighbour? {count : Nat} {d : Decimal} (h : x.neighbour? count = some d) :
    d = x.lower count ∨ d = x.upper count := by
  unfold neighbour? at h
  dsimp only at h
  split_ifs at h <;> cases h <;> first | exact .inl rfl | exact .inr rfl

/-- A neighbour is found where one of the two reads back. -/
theorem exists_neighbour?_of_readsBack {count : Nat}
    (h : ofDecimal (x.lower count) = x.magnitude ∨ ofDecimal (x.upper count) = x.magnitude) :
    ∃ d, x.neighbour? count = some d := by
  rw [← readsBack_iff, ← readsBack_iff] at h
  unfold neighbour?
  dsimp only
  split_ifs with low high near far even high
  · exact ⟨_, rfl⟩
  · exact ⟨_, rfl⟩
  · exact ⟨_, rfl⟩
  · exact ⟨_, rfl⟩
  · exact ⟨_, rfl⟩
  · exact ⟨_, rfl⟩
  · exact absurd h (not_or.mpr ⟨low, high⟩)

/-- The step of the grid of `count` leading digits. -/
def gridStep (x : Binary64) (count : Nat) : ℚ :=
  10 ^ (x.exactDecimal.exponent + (x.exactDigits - count : Nat))

theorem gridStep_pos (x : Binary64) (count : Nat) : 0 < x.gridStep count := by
  unfold gridStep
  positivity

/-- The multiples of the grid up to the number are those up to the lower neighbour. -/
theorem mul_gridStep_le_size_iff (x : Binary64) (count n : Nat) :
    n * x.gridStep count ≤ x.size ↔ n ≤ (x.lower count).coefficient := by
  have power : (0 : ℚ) < 10 ^ x.exactDecimal.exponent := by positivity
  have units : n * x.gridStep count =
      (n * 10 ^ (x.exactDigits - count) : Nat) * 10 ^ x.exactDecimal.exponent := by
    rw [gridStep, zpow_add₀ (by norm_num), zpow_natCast]
    push_cast
    ring
  rw [units, ← value_exactDecimal, Decimal.value, mul_le_mul_iff_of_pos_right power, Nat.cast_le]
  exact (Nat.le_div_iff_mul_le (Nat.pow_pos (by decide))).symm

theorem value_lower_le_size (x : Binary64) (count : Nat) : (x.lower count).value ≤ x.size :=
  (x.mul_gridStep_le_size_iff count _).mpr (Nat.le_refl _)

theorem size_lt_value_upper (x : Binary64) (count : Nat) : x.size < (x.upper count).value :=
  lt_of_not_ge fun reached =>
    Nat.not_succ_le_self _ ((x.mul_gridStep_le_size_iff count _).mp reached)

section Grid

variable {count : Nat} {d : Decimal}

/-- A decimal of a few digits on a finer grid is below the lower neighbour, since the power of ten
that the digits of the number start at is on both grids. -/
theorem value_le_lower_of_finer (some : x.exactDecimal.coefficient ≠ 0) (pos : 0 < count)
    (within : count ≤ x.exactDigits) (short : d.coefficient ≤ 10 ^ count)
    (finer : d.exponent < x.exactDecimal.exponent + (x.exactDigits - count : Nat)) :
    d.value ≤ (x.lower count).value := by
  have leading : 10 ^ (count - 1) ≤ (x.lower count).coefficient := by
    have digits : count - 1 + (x.exactDigits - count) = x.exactDigits - 1 := by omega
    refine (Nat.le_div_iff_mul_le (Nat.pow_pos (by decide))).mpr ?_
    rw [← Nat.pow_add, digits]
    exact pow_length_digitsOf_le some
  have short : (d.coefficient : ℚ) ≤ 10 ^ count := by exact_mod_cast short
  have leading : (10 : ℚ) ^ (count - 1) ≤ (x.lower count).coefficient := by exact_mod_cast leading
  calc d.value
      ≤ 10 ^ count * 10 ^ (x.exactDecimal.exponent + (x.exactDigits - count : Nat) - 1) := by
        unfold Decimal.value
        gcongr
        · norm_num
        · omega
    _ = 10 ^ (count - 1) * x.gridStep count := by
        have split : (10 : ℚ) ^ count = 10 ^ (count - 1) * 10 := by
          rw [← pow_succ, Nat.sub_add_cancel pos]
        rw [gridStep, zpow_sub_one₀ (by norm_num), split]
        ring
    _ ≤ (x.lower count).value := by
        have step := (x.gridStep_pos count).le
        show _ ≤ ((x.lower count).coefficient : ℚ) * x.gridStep count
        gcongr

/-- A decimal of a few digits that does not exceed the number does not exceed the lower
neighbour. -/
theorem value_le_lower (some : x.exactDecimal.coefficient ≠ 0) (pos : 0 < count)
    (within : count ≤ x.exactDigits) (short : d.coefficient ≤ 10 ^ count)
    (below : d.value ≤ x.size) : d.value ≤ (x.lower count).value := by
  rcases Int.lt_or_le d.exponent
    (x.exactDecimal.exponent + (x.exactDigits - count : Nat)) with finer | on
  · exact value_le_lower_of_finer some pos within short finer
  · rw [Decimal.value_eq_mul on] at below ⊢
    have multiple := (x.mul_gridStep_le_size_iff count _).mp below
    exact mul_le_mul_of_nonneg_right (Nat.cast_le.mpr multiple) (x.gridStep_pos count).le

/-- A decimal of a few digits that exceeds the number reaches the upper neighbour. -/
theorem upper_le_value (some : x.exactDecimal.coefficient ≠ 0) (pos : 0 < count)
    (within : count ≤ x.exactDigits) (short : d.coefficient ≤ 10 ^ count)
    (above : x.size < d.value) : (x.upper count).value ≤ d.value := by
  rcases Int.lt_or_le d.exponent
    (x.exactDecimal.exponent + (x.exactDigits - count : Nat)) with finer | on
  · have lower := value_le_lower_of_finer some pos within short finer
    exact absurd above (not_lt.mpr (lower.trans (x.value_lower_le_size count)))
  · rw [Decimal.value_eq_mul on] at above ⊢
    have multiple := mt (x.mul_gridStep_le_size_iff count _).mpr (not_le.mpr above)
    exact mul_le_mul_of_nonneg_right (Nat.cast_le.mpr (Nat.lt_of_not_le multiple))
      (x.gridStep_pos count).le

/-- Where a decimal of a few digits reads back, a neighbour on the grid of so many digits does. -/
theorem exists_neighbour? (finite : x.isFinite = true) (some : x.exactDecimal.coefficient ≠ 0)
    (pos : 0 < count) (within : count ≤ x.exactDigits) (short : d.coefficient ≤ 10 ^ count)
    (reads : ofDecimal d = x.magnitude) : ∃ n, x.neighbour? count = Option.some n := by
  have exact := ofDecimal_exactDecimal finite
  refine exists_neighbour?_of_readsBack ?_
  rcases le_or_gt d.value x.size with below | above
  · refine .inl (Eq.trans ?_ reads)
    refine ofDecimal_eq_of_between (value_le_lower some pos within short below) ?_
      (reads.trans exact.symm)
    rw [value_exactDecimal]
    exact x.value_lower_le_size count
  · refine .inr (Eq.trans ?_ exact)
    refine ofDecimal_eq_of_between ?_ (upper_le_value some pos within short above)
      (exact.trans reads.symm)
    rw [value_exactDecimal]
    exact (x.size_lt_value_upper count).le

end Grid

/-! ## The search -/

/-- The search finds the first grid with a neighbour that reads back. -/
theorem exists_neighbour?_eq_shortestFrom {remaining count found : Nat} {d : Decimal}
    (h : x.neighbour? found = some d) (reached : count ≤ found) (before : found < count + remaining) :
    ∃ first ≤ found, count ≤ first ∧
      x.neighbour? first = some (x.shortestFrom remaining count) := by
  induction remaining generalizing count with
  | zero => omega
  | succ remaining ih =>
    rw [shortestFrom]
    cases here : x.neighbour? count with
    | some n => exact ⟨count, reached, Nat.le_refl _, here⟩
    | none =>
      have later : count ≠ found := by
        rintro rfl
        cases here.symm.trans h
      obtain ⟨first, last, start, eq⟩ := ih (Nat.lt_of_le_of_ne reached later) (by omega)
      exact ⟨first, last, Nat.le_of_succ_le start, eq⟩

/-- The shortest decimal is a neighbour on a grid of no more digits than a decimal that reads
back has. -/
theorem exists_neighbour?_eq_shortest (finite : x.isFinite = true)
    (some : x.exactDecimal.coefficient ≠ 0) {count : Nat} {d : Decimal} (pos : 0 < count)
    (short : d.coefficient ≤ 10 ^ count) (reads : ofDecimal d = x.magnitude) :
    ∃ first ≤ count, 0 < first ∧ first ≤ x.exactDigits ∧
      x.neighbour? first = Option.some x.shortest := by
  have digits : 0 < x.exactDigits := Nat.length_toDigits_pos
  obtain ⟨found, last, first, within, n, neighbour⟩ : ∃ found ≤ count, 0 < found ∧
      found ≤ x.exactDigits ∧ ∃ n, x.neighbour? found = Option.some n := by
    rcases Nat.le_total count x.exactDigits with within | beyond
    · exact ⟨count, Nat.le_refl _, pos, within, exists_neighbour? finite some pos within short reads⟩
    · -- the exact value itself is on the last grid
      exact ⟨x.exactDigits, beyond, digits, Nat.le_refl _,
        exists_neighbour? finite some digits (Nat.le_refl _)
          (lt_pow_length_digitsOf _).le (ofDecimal_exactDecimal finite)⟩
  have inside : found < 1 + x.exactDigits := by omega
  obtain ⟨first', last', start, eq⟩ := exists_neighbour?_eq_shortestFrom neighbour first inside
  exact ⟨first', last'.trans last, start, last'.trans within, eq⟩

/-- The shortest decimal has no more digits than a decimal that reads back. -/
theorem coefficient_shortest_le (finite : x.isFinite = true)
    (some : x.exactDecimal.coefficient ≠ 0) {count : Nat} {d : Decimal} (pos : 0 < count)
    (short : d.coefficient ≤ 10 ^ count) (reads : ofDecimal d = x.magnitude) :
    x.shortest.coefficient ≤ 10 ^ count := by
  obtain ⟨first, last, start, within, eq⟩ :=
    exists_neighbour?_eq_shortest finite some pos short reads
  have digits : (x.lower first).coefficient < 10 ^ first := by
    have split : x.exactDigits = first + (x.exactDigits - first) := by omega
    have bound : x.exactDecimal.coefficient < 10 ^ x.exactDigits := lt_pow_length_digitsOf _
    rw [split, Nat.pow_add] at bound
    exact Nat.div_lt_of_lt_mul (Nat.mul_comm _ _ ▸ bound)
  have larger : 10 ^ first ≤ 10 ^ count := Nat.pow_le_pow_right (by decide) last
  rcases eq_or_eq_of_neighbour? eq with lower | upper
  · rw [lower]
    exact digits.le.trans larger
  · rw [upper]
    exact Nat.le_trans digits larger

/-- A whole number has no more digits than the exact value has before its point. -/
theorem length_digitsOf_le {n : Nat} (whole : x.size = n) (some : n ≠ 0) :
    ((digitsOf n).length : Int) ≤ x.exactDigits + x.exactDecimal.exponent := by
  have first : (10 : ℚ) ^ ((digitsOf n).length - 1 : Int) ≤ n := by
    have length : 0 < (digitsOf n).length := Nat.length_toDigits_pos
    have bound : ((10 ^ ((digitsOf n).length - 1) : Nat) : ℚ) ≤ n :=
      Nat.cast_le.mpr (pow_length_digitsOf_le some)
    have power : ((digitsOf n).length - 1 : Int) = ((digitsOf n).length - 1 : Nat) := by omega
    rw [power, zpow_natCast]
    exact_mod_cast bound
  have last : x.size < 10 ^ (x.exactDigits + x.exactDecimal.exponent : Int) := by
    have bound : (x.exactDecimal.coefficient : ℚ) < 10 ^ x.exactDigits := by
      exact_mod_cast lt_pow_length_digitsOf x.exactDecimal.coefficient
    rw [← value_exactDecimal, Decimal.value, zpow_add₀ (by norm_num), zpow_natCast]
    gcongr
  have powers := (zpow_lt_zpow_iff_right₀ (by norm_num)).mp (first.trans_lt (whole ▸ last))
  omega

/-- The shortest decimal of a whole number is whole. -/
theorem exponent_shortest_nonneg (finite : x.isFinite = true) {n : Nat} (whole : x.size = n)
    (some : n ≠ 0) : 0 ≤ x.shortest.exponent := by
  have value : (⟨n, 0⟩ : Decimal).value = x.exactDecimal.value := by
    rw [value_exactDecimal, whole, Decimal.value, zpow_zero, mul_one]
  have reads : ofDecimal ⟨n, 0⟩ = x.magnitude := by
    rw [ofDecimal_congr (Decimal.sameValue_iff.mpr value), ofDecimal_exactDecimal finite]
  have coefficient : x.exactDecimal.coefficient ≠ 0 := by
    intro zero
    rw [← value_exactDecimal, Decimal.value_eq_zero_iff.mpr zero] at whole
    exact some (Nat.cast_eq_zero.mp whole.symm)
  obtain ⟨first, last, start, within, eq⟩ := exists_neighbour?_eq_shortest finite coefficient
    Nat.length_toDigits_pos (lt_pow_length_digitsOf n).le reads
  have digits := length_digitsOf_le whole some
  have exponent : x.shortest.exponent =
      x.exactDecimal.exponent + (x.exactDigits - first : Nat) := by
    rcases eq_or_eq_of_neighbour? eq with lower | upper
    · rw [lower]
      rfl
    · rw [upper]
      rfl
  unfold digitsOf at digits
  omega

/-- The shortest decimal of zero is zero. -/
theorem coefficient_shortest_of_zero (finite : x.isFinite = true)
    (zero : x.exactDecimal.coefficient = 0) : x.shortest.coefficient = 0 := by
  have digits : x.exactDigits = 1 := by
    rw [exactDigits, zero]
    rfl
  have lower : (x.lower 1).coefficient = 0 := by
    show x.exactDecimal.coefficient / _ = 0
    rw [zero, Nat.zero_div]
  have reads : x.readsBack (x.lower 1) = true := by
    have value : (x.lower 1).value = x.exactDecimal.value := by
      rw [Decimal.value_eq_zero_iff.mpr lower, Decimal.value_eq_zero_iff.mpr zero]
    rw [readsBack_iff, ofDecimal_congr (Decimal.sameValue_iff.mpr value),
      ofDecimal_exactDecimal finite]
  -- zero is on the grid, so that it is nearer than the decimal above
  have nearer : 2 * (x.exactDecimal.coefficient % Nat.pow 10 (x.exactDigits - 1)) <
      Nat.pow 10 (x.exactDigits - 1) := by
    rw [digits, zero]
    decide
  have found : x.neighbour? 1 = some (x.lower 1) := by
    unfold neighbour?
    dsimp only
    split_ifs with low high near
    · rfl
    · exact absurd nearer near
    · exact absurd nearer near
    · exact absurd nearer near
    · rfl
    · exact absurd reads low
    · exact absurd reads low
  have shortest : x.shortest = (x.neighbour? 1).getD (x.shortestFrom 0 2) := by
    show x.shortestFrom x.exactDigits 1 = _
    rw [digits]
    rfl
  rw [shortest, found]
  exact lower

/-- Only a whole number has a whole shortest decimal. -/
theorem exists_size_eq_of_shortest (finite : x.isFinite = true) {n : Nat}
    (whole : x.shortest.value = n) : ∃ m : Nat, x.size = m := by
  have near := abs_value_sub_size_le (d := x.shortest) (by rw [ofDecimal_shortest finite]; exact finite)
  rw [ofDecimal_shortest finite, whole] at near
  have near : |(n : ℚ) - x.size| ≤ 2 ^ (x.scale - 1) := near
  rcases Int.lt_or_le x.scale 0 with fine | coarse
  · -- the nearest multiple of the last place is the whole number itself
    refine ⟨n, ?_⟩
    have power : (0 : ℚ) < 2 ^ x.scale := by positivity
    have multiple : (n : ℚ) = (n * 2 ^ (-x.scale).toNat : Nat) * 2 ^ x.scale := by
      push_cast
      rw [mul_assoc, ← zpow_natCast, ← zpow_add₀ two_ne_zero, Int.toNat_of_nonneg (by omega),
        neg_add_cancel, zpow_zero, mul_one]
    rw [size, multiple, ← sub_mul, abs_mul, abs_of_pos power, zpow_sub_one₀ two_ne_zero,
      mul_comm _ (2 : ℚ)⁻¹, mul_le_mul_iff_of_pos_right power, abs_le] at near
    rw [multiple, size]
    generalize n * 2 ^ (-x.scale).toNat = places at near
    have above : (x.significand : ℚ) < (places + 1 : Nat) := by
      push_cast
      linarith
    have below : (places : ℚ) < (x.significand + 1 : Nat) := by
      push_cast
      linarith
    have same : x.significand = places :=
      Nat.le_antisymm (Nat.lt_succ_iff.mp (Nat.cast_lt.mp above))
        (Nat.lt_succ_iff.mp (Nat.cast_lt.mp below))
    rw [same]
  · refine ⟨x.significand * 2 ^ x.scale.toNat, ?_⟩
    push_cast
    rw [size, ← zpow_natCast, Int.toNat_of_nonneg coarse]

/-- The shortest decimal is whole just when the number is. -/
theorem exists_shortest_eq_iff (finite : x.isFinite = true) :
    (∃ n : Nat, x.shortest.value = n) ↔ ∃ n : Nat, x.size = n := by
  refine ⟨fun ⟨n, whole⟩ => exists_size_eq_of_shortest finite whole, fun ⟨n, whole⟩ => ?_⟩
  by_cases zero : n = 0
  · rw [zero, ← value_exactDecimal, Nat.cast_zero, Decimal.value_eq_zero_iff] at whole
    have none := coefficient_shortest_of_zero finite whole
    exact ⟨0, by rw [Decimal.value_eq_zero_iff.mpr none, Nat.cast_zero]⟩
  · have exponent := exponent_shortest_nonneg finite whole zero
    refine ⟨x.shortest.coefficient * 10 ^ x.shortest.exponent.toNat, ?_⟩
    push_cast
    rw [Decimal.value, ← zpow_natCast, Int.toNat_of_nonneg exponent]

end Binary64

end LoxSyntax
