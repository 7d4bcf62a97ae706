import LoxSyntax.Number.Layout
import LoxSyntax.Proofs.Lexeme.Grammar
import LoxSyntax.Proofs.Number.ReadBack

/-!
# The natural text of numbers

The numeral of a decimal has the value of the decimal (`Numeral.sameValue_ofDecimal`). A
positional layout is the digits before and after a point (`Numeral.positionalText_eq`), which
denote that value (`Numeral.sameValue_positional`), so that the natural layout is a number literal
of it (`Numeral.denotes_positionalText`). The shortest decimal of a finite number is rounded to the
number, so its natural text is a literal that stands for the number: printing loses nothing
(`Binary64.denotes_naturalText`).
-/

namespace LoxSyntax

open Lexeme (Digits Denotes)

/-- The digits before and after a decimal point, which is written only in front of digits. -/
def plainText (whole fraction : List Char) : List Char :=
  whole ++ (if fraction = [] then [] else '.' :: fraction)

/-- Digits with a point or without are a literal that stands for the number nearest to the
decimal that they denote. -/
theorem denotes_plainText {whole fraction : List Char} (digits : Digits whole)
    (digits' : ∀ c ∈ fraction, c.isDigit = true) :
    Denotes (plainText whole fraction) .number
      (.number (.ofDecimal (.ofDigits whole fraction))) := by
  unfold plainText
  by_cases none : fraction = []
  · rw [if_pos none, List.append_nil, none]
    exact .whole digits
  · rw [if_neg none]
    exact .decimal digits ⟨none, digits'⟩

namespace Numeral

/-! ## Zeros around digits -/

theorem valueOfDigits_zeros_append (count : Nat) (digits : List Char) :
    valueOfDigits (zeros count ++ digits) = valueOfDigits digits := by
  rw [valueOfDigits, Nat.ofDigitChars_append, zeros, Nat.ofDigitChars_replicate_zero,
    Nat.mul_zero, valueOfDigits]

theorem valueOfDigits_append_zeros (digits : List Char) (count : Nat) :
    valueOfDigits (digits ++ zeros count) = valueOfDigits digits * Nat.pow 10 count := by
  rw [valueOfDigits, Nat.ofDigitChars_append, zeros, Nat.ofDigitChars_replicate_zero,
    Nat.mul_comm, valueOfDigits]
  rfl

theorem length_zeros (count : Nat) : (zeros count).length = count :=
  List.length_replicate

theorem isDigit_of_mem_zeros {count : Nat} {c : Char} (h : c ∈ zeros count) :
    c.isDigit = true := by
  rw [List.eq_of_mem_replicate h]
  rfl

/-- The trailing zeros that are dropped are all there is behind what is kept. -/
theorem exists_zeros_dropTrailingZeros (digits : List Char) :
    ∃ count, digits = dropTrailingZeros digits ++ zeros count := by
  have dropped : digits.reverse.takeWhile (· == '0') =
      List.replicate (digits.reverse.takeWhile (· == '0')).length '0' := by
    refine List.eq_replicate_iff.mpr ⟨rfl, fun c member => ?_⟩
    exact beq_iff_eq.mp (List.all_eq_true.mp List.all_takeWhile c member)
  have split := List.takeWhile_append_dropWhile (p := (· == '0')) (l := digits.reverse)
  rw [dropped] at split
  have reversed := congrArg List.reverse split
  rw [List.reverse_append, List.reverse_replicate, List.reverse_reverse] at reversed
  exact ⟨_, reversed.symm⟩

/-! ## Numerals of decimals -/

/-- The decimal that a numeral denotes. -/
def value (n : Numeral) : Decimal :=
  ⟨valueOfDigits n.digits, n.point - n.digits.length⟩

/-- The numeral is written with digits, and has one before the point where it has no
other. -/
structure Proper (n : Numeral) : Prop where
  digits : ∀ c ∈ n.digits, c.isDigit = true
  placed : n.digits = [] → 0 < n.point

/-- The numeral of a decimal denotes the decimal. -/
theorem sameValue_ofDecimal (d : Decimal) : d.SameValue (ofDecimal d).value := by
  obtain ⟨coefficient, exponent⟩ := d
  unfold ofDecimal
  split
  · rename_i zero
    obtain rfl : coefficient = 0 := zero
    exact Decimal.sameValue_zero _ _
  · obtain ⟨count, split⟩ := exists_zeros_dropTrailingZeros (digitsOf coefficient)
    have length := congrArg List.length split
    have digits := valueOfDigits_digitsOf coefficient
    rw [List.length_append, length_zeros] at length
    rw [split, valueOfDigits_append_zeros] at digits
    have point : (digitsOf coefficient).length + exponent -
        (dropTrailingZeros (digitsOf coefficient)).length = exponent + count := by omega
    have shift := Decimal.sameValue_shift
      (valueOfDigits (dropTrailingZeros (digitsOf coefficient))) count exponent
    rw [digits, ← point] at shift
    exact shift

theorem proper_ofDecimal (d : Decimal) : (ofDecimal d).Proper := by
  unfold ofDecimal
  split
  · exact ⟨nofun, fun _ => Int.zero_lt_one⟩
  · rename_i some
    obtain ⟨count, split⟩ := exists_zeros_dropTrailingZeros (digitsOf d.coefficient)
    refine ⟨fun c member => ?_, fun none => ?_⟩
    · have kept : c ∈ digitsOf d.coefficient := by
        rw [split]
        exact List.mem_append_left _ member
      exact isDigit_of_mem_digitsOf kept
    · -- without digits the coefficient would be zero
      dsimp only at none
      have value := valueOfDigits_digitsOf d.coefficient
      rw [split, none, valueOfDigits_append_zeros] at value
      exact absurd (value.symm.trans (Nat.zero_mul _)) some

/-! ## Positional layouts -/

/-- The digits before the point of a positional layout. -/
def whole (n : Numeral) : List Char :=
  if n.point ≤ 0 then ['0']
  else if n.digits.length ≤ n.point.toNat then
    n.digits ++ zeros (n.point.toNat - n.digits.length)
  else n.digits.take n.point.toNat

/-- The digits after the point of a positional layout. -/
def fraction (n : Numeral) (keepsFraction : Bool) : List Char :=
  if n.point ≤ 0 then zeros (-n.point).toNat ++ n.digits
  else if n.digits.length ≤ n.point.toNat then (if keepsFraction then ['0'] else [])
  else n.digits.drop n.point.toNat

variable {n : Numeral}

/-- A positional layout is its digits with a point where digits follow. -/
theorem positionalText_eq (proper : n.Proper) (keepsFraction : Bool) :
    n.positionalText keepsFraction = plainText n.whole (n.fraction keepsFraction) := by
  unfold positionalText plainText whole fraction
  by_cases small : n.point ≤ 0
  · rw [if_pos small, if_pos small, if_pos small, if_neg]
    · rfl
    · intro none
      have placed := proper.placed (List.append_eq_nil_iff.mp none).2
      omega
  · rw [if_neg small, if_neg small, if_neg small]
    dsimp only
    by_cases short : n.digits.length ≤ n.point.toNat
    · rw [if_pos short, if_pos short, if_pos short]
      cases keepsFraction <;> rfl
    · rw [if_neg short, if_neg short, if_neg short, if_neg]
      intro none
      have length := congrArg List.length none
      rw [List.length_drop, List.length_nil] at length
      omega

/-- Before the point stand digits. -/
theorem Proper.digits_whole (proper : n.Proper) : Digits n.whole := by
  unfold whole
  split
  · refine ⟨nofun, fun c member => ?_⟩
    rw [List.mem_singleton.mp member]
    rfl
  split
  · refine ⟨fun none => ?_, fun c member => ?_⟩
    · have length := congrArg List.length none
      rw [List.length_append, length_zeros, List.length_nil] at length
      omega
    · rcases List.mem_append.mp member with digit | zero
      · exact proper.digits c digit
      · exact isDigit_of_mem_zeros zero
  · refine ⟨fun none => ?_, fun c member => proper.digits c (List.mem_of_mem_take member)⟩
    have length := congrArg List.length none
    rw [List.length_take, List.length_nil] at length
    omega

/-- After the point stands nothing but digits. -/
theorem Proper.isDigit_of_mem_fraction (proper : n.Proper) {keepsFraction : Bool} {c : Char}
    (h : c ∈ n.fraction keepsFraction) : c.isDigit = true := by
  unfold fraction at h
  split at h
  · rcases List.mem_append.mp h with zero | digit
    · exact isDigit_of_mem_zeros zero
    · exact proper.digits c digit
  split at h
  · cases keepsFraction with
    | false => cases h
    | true =>
      rw [List.mem_singleton.mp h]
      rfl
  · exact proper.digits c (List.mem_of_mem_drop h)

/-- The digits of a positional layout denote the value of the numeral. -/
theorem sameValue_positional (n : Numeral) (keepsFraction : Bool) :
    (Decimal.ofDigits n.whole (n.fraction keepsFraction)).SameValue n.value := by
  unfold whole fraction
  split
  · -- zeros lead the digits
    rename_i small
    have same : n.value = .ofDigits ['0'] (zeros (-n.point).toNat ++ n.digits) := by
      have leading := valueOfDigits_zeros_append ((-n.point).toNat + 1) n.digits
      unfold value Decimal.ofDigits
      rw [List.length_append, length_zeros]
      refine congr (congrArg Decimal.mk leading.symm) ?_
      omega
    rw [same]
    exact rfl
  rename_i large
  split
  · -- zeros follow the digits
    rename_i short
    obtain ⟨more, fraction⟩ : ∃ more, (if keepsFraction then ['0'] else []) = zeros more := by
      cases keepsFraction
      · exact ⟨0, rfl⟩
      · exact ⟨1, rfl⟩
    have shift := Decimal.sameValue_shift (valueOfDigits n.digits)
      (n.point.toNat - n.digits.length + more) (-more)
    have point : -(more : Int) + ((n.point.toNat - n.digits.length + more : Nat) : Int) =
        n.point - n.digits.length := by omega
    rw [point, ← valueOfDigits_append_zeros] at shift
    have zeros_add : zeros (n.point.toNat - n.digits.length + more) =
        zeros (n.point.toNat - n.digits.length) ++ zeros more :=
      List.replicate_append_replicate.symm
    unfold Decimal.ofDigits
    rw [fraction, List.append_assoc, length_zeros, ← zeros_add]
    exact shift
  · -- the point stands among the digits
    have same : n.value =
        .ofDigits (n.digits.take n.point.toNat) (n.digits.drop n.point.toNat) := by
      unfold value Decimal.ofDigits
      rw [List.take_append_drop, List.length_drop]
      refine congrArg (Decimal.mk _) ?_
      omega
    rw [same]
    exact rfl

/-- The natural layout of a numeral is a literal that stands for the number nearest to its
value. -/
theorem denotes_positionalText (proper : n.Proper) :
    Denotes (n.positionalText false) .number (.number (.ofDecimal n.value)) := by
  rw [positionalText_eq proper, ← Binary64.ofDecimal_congr (n.sameValue_positional false)]
  exact denotes_plainText proper.digits_whole fun c => proper.isDigit_of_mem_fraction

end Numeral

namespace Binary64

variable {x : Binary64}

/-- The text of a finite number is the layout of its shortest decimal, behind the sign. -/
theorem toList_text (finite : x.isFinite = true) (layout : NumberLayout) :
    (x.text layout).toList =
      (if x.negative then ['-'] else []) ++ (Numeral.ofDecimal x.shortest).text layout := by
  have defined : ¬ x.isNaN = true := by
    unfold isFinite at finite
    unfold isNaN
    simp at finite ⊢
    exact fun top => absurd top finite
  rw [text, if_neg defined]
  dsimp only
  rw [finite, if_pos rfl, String.toList_ofList]
  cases x.negative <;> rfl

/-- The natural text of a finite unsigned number is a literal that stands for the number. -/
theorem denotes_naturalText (unsigned : x.Unsigned) (finite : x.isFinite = true) :
    Denotes x.naturalText.toList .number (.number x) := by
  have text : x.naturalText.toList = (Numeral.ofDecimal x.shortest).positionalText false := by
    rw [naturalText, toList_text finite, unsigned.positive]
    rfl
  have value : ofDecimal (Numeral.ofDecimal x.shortest).value = x := by
    rw [← ofDecimal_congr (Numeral.sameValue_ofDecimal x.shortest), ofDecimal_shortest finite,
      unsigned.magnitude_eq]
  have literal := Numeral.denotes_positionalText (Numeral.proper_ofDecimal x.shortest)
  rw [value] at literal
  rwa [text]

/-- The text of infinity is no literal. -/
theorem naturalText_infinity : infinity.naturalText = "inf" := rfl

end Binary64

end LoxSyntax
