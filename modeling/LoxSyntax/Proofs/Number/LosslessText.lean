import LoxSyntax.Proofs.Number.CanonicalText
import LoxSyntax.Proofs.Number.ShortestDigits
import LoxSyntax.TokenStream

/-!
# Texts of numbers lose nothing

A numeric text denotes a sign and a decimal (`signedDecimal?`): digits, a point among them, and
an exponent behind. Every layout of a numeral denotes the value of the numeral
(`Numeral.exists_ofText?_text`), so the natural text of a number denotes what its debug text
denotes. The natural text is canonical besides, and a source that is nothing else has the number
as its one token (`naturalText_lossless`).
-/

namespace LoxSyntax

open Lexeme (Digits)

/-! ## Numeric texts -/

namespace Decimal

/-- The exponent that ends a numeric text, which is zero where none is written. -/
def exponentOfText? : List Char → Option Int
  | [] => some 0
  | 'e' :: '+' :: digits =>
    if digits ≠ [] ∧ digits.all Char.isDigit then some (valueOfDigits digits) else none
  | 'e' :: '-' :: digits =>
    if digits ≠ [] ∧ digits.all Char.isDigit then some (-valueOfDigits digits) else none
  | _ => none

/-- The decimal that a numeric text without a sign denotes: digits, a point and more digits
unless there are none, and an exponent. -/
def ofText? (text : List Char) : Option Decimal :=
  let whole := text.takeWhile Char.isDigit
  let rest := text.dropWhile Char.isDigit
  let fraction := Lexeme.fractionDigits rest
  let behind := if fraction = [] then rest else rest.drop (fraction.length + 1)
  if whole = [] then none
  else (exponentOfText? behind).map fun exponent =>
    ⟨(ofDigits whole fraction).coefficient, (ofDigits whole fraction).exponent + exponent⟩

theorem head?_of_exponentOfText? {text : List Char} {exponent : Int}
    (h : exponentOfText? text = some exponent) : ∀ c ∈ text.head?, c = 'e' := by
  intro c head
  unfold exponentOfText? at h
  split at h
  · cases head
  · cases head
    rfl
  · cases head
    rfl
  · cases h

/-- Behind the digits before the point the point and the digits after it are read, if there are
any, and the exponent is left. -/
theorem exists_rest_of_plainText {fraction tail : List Char} {exponent : Int} (whole : List Char)
    (digits' : ∀ c ∈ fraction, c.isDigit = true) (h : exponentOfText? tail = some exponent) :
    ∃ rest, plainText whole fraction ++ tail = whole ++ rest ∧
      (∀ c ∈ rest.head?, c.isDigit = false) ∧ Lexeme.fractionDigits rest = fraction ∧
        (if fraction = [] then rest else rest.drop (fraction.length + 1)) = tail := by
  have stop : ∀ c ∈ tail.head?, c.isDigit = false := fun c head =>
    head?_of_exponentOfText? h c head ▸ rfl
  unfold plainText
  rw [List.append_assoc]
  refine ⟨_, rfl, ?_⟩
  by_cases none : fraction = []
  · subst none
    refine ⟨stop, ?_, rfl⟩
    cases tail with
    | nil => rfl
    | cons c tail =>
      obtain rfl : c = 'e' := head?_of_exponentOfText? h c rfl
      rfl
  · rw [if_neg none]
    refine ⟨fun c head => ?_, ?_, ?_⟩
    · cases head
      rfl
    · show (fraction ++ tail).takeWhile Char.isDigit = fraction
      rw [List.takeWhile_append_of_pos digits', Lexeme.takeWhile_of_head stop, List.append_nil]
    · rw [if_neg none]
      exact List.drop_left

/-- Digits with a point or without are read up to the exponent. -/
theorem ofText?_plainText_append {whole fraction tail : List Char} {exponent : Int}
    (digits : Digits whole) (digits' : ∀ c ∈ fraction, c.isDigit = true)
    (h : exponentOfText? tail = some exponent) :
    ofText? (plainText whole fraction ++ tail) =
      some ⟨(ofDigits whole fraction).coefficient,
        (ofDigits whole fraction).exponent + exponent⟩ := by
  obtain ⟨rest, text, behind, point, behind'⟩ := exists_rest_of_plainText whole digits' h
  unfold ofText?
  dsimp only
  rw [text, List.takeWhile_append_of_pos digits.2, Lexeme.takeWhile_of_head behind,
    List.dropWhile_append_of_pos digits.2, Lexeme.dropWhile_of_head behind, List.append_nil, point,
    behind', if_neg digits.1, h]
  rfl

end Decimal

/-- The sign and the decimal that a numeric text denotes. -/
def signedDecimal? : List Char → Option (Bool × Decimal)
  | '-' :: text => (Decimal.ofText? text).map (true, ·)
  | text => (Decimal.ofText? text).map (false, ·)

theorem signedDecimal?_of_ofText? {text : List Char} {d : Decimal}
    (h : Decimal.ofText? text = some d) : signedDecimal? text = some (false, d) := by
  unfold signedDecimal?
  split
  · cases h
  · rw [h]
    rfl

namespace Numeral

variable {n : Numeral}

/-- The exponent that a layout writes is read back. -/
theorem exponentOfText?_exponentText (exponent : Int) :
    Decimal.exponentOfText? ('e' :: exponentText exponent) = some exponent := by
  have digits : zeros (2 - (digitsOf exponent.natAbs).length) ++ digitsOf exponent.natAbs ≠ [] ∧
      (zeros (2 - (digitsOf exponent.natAbs).length) ++ digitsOf exponent.natAbs).all
        Char.isDigit = true := by
    refine ⟨fun none => Nat.toDigits_ne_nil (List.append_eq_nil_iff.mp none).2, ?_⟩
    refine List.all_eq_true.mpr fun c member => ?_
    rcases List.mem_append.mp member with zero | digit
    · exact isDigit_of_mem_zeros zero
    · exact isDigit_of_mem_digitsOf digit
  have value := valueOfDigits_zeros_append (2 - (digitsOf exponent.natAbs).length)
    (digitsOf exponent.natAbs)
  rw [valueOfDigits_digitsOf] at value
  unfold exponentText
  dsimp only
  by_cases negative : exponent < 0
  · rw [if_pos negative, List.cons_append, Decimal.exponentOfText?, if_pos digits, value]
    exact congrArg some (by omega)
  · rw [if_neg negative, List.cons_append, Decimal.exponentOfText?, if_pos digits, value]
    exact congrArg some (by omega)

/-- The exponent belongs to the digits behind the first. -/
theorem ofText?_scientificText (proper : n.Proper) (some : n.digits ≠ []) :
    Decimal.ofText? n.scientificText = Option.some n.value := by
  obtain ⟨digits, point⟩ := n
  obtain ⟨first, rest, rfl⟩ := List.exists_cons_of_ne_nil some
  have whole : Digits [first] := ⟨List.cons_ne_nil _ _, fun c member =>
    proper.digits c (List.mem_cons.mpr (.inl (List.mem_singleton.mp member)))⟩
  have fraction : ∀ c ∈ rest, c.isDigit = true := fun c member =>
    proper.digits c (List.mem_cons_of_mem first member)
  have text : (⟨first :: rest, point⟩ : Numeral).scientificText =
      plainText [first] rest ++ 'e' :: exponentText (point - 1) := by
    cases rest <;> rfl
  rw [text, Decimal.ofText?_plainText_append whole fraction (exponentOfText?_exponentText _)]
  refine congrArg (fun exponent => Option.some (Decimal.mk _ exponent)) ?_
  show -(rest.length : Int) + (point - 1) = point - ((rest.length + 1 : Nat) : Int)
  omega

/-- Every layout of a numeral denotes its value, unless it writes zero with an exponent. -/
theorem exists_ofText?_text (proper : n.Proper) (layout : NumberLayout)
    (placed : n.digits = [] → layout.positional (n.point - 1) = true) :
    ∃ d, Decimal.ofText? (n.text layout) = some d ∧ d.SameValue n.value := by
  unfold text
  split
  · have fraction (c : Char) (member : c ∈ n.fraction layout.keepsFraction) :
        c.isDigit = true := proper.isDigit_of_mem_fraction member
    have plain : Decimal.exponentOfText? [] = some 0 := rfl
    have read := Decimal.ofText?_plainText_append proper.digits_whole fraction plain
    rw [List.append_nil, Int.add_zero] at read
    exact ⟨_, positionalText_eq proper _ ▸ read, n.sameValue_positional _⟩
  · rename_i scientific
    have some : n.digits ≠ [] := fun none => scientific (placed none)
    exact ⟨_, ofText?_scientificText proper some, rfl⟩

end Numeral

namespace Binary64

variable {x : Binary64}

/-- The value of a finite number. -/
def value (x : Binary64) : ℚ :=
  if x.negative then -x.size else x.size

/-- A number is whole just when its magnitude is. -/
theorem exists_value_eq_iff : (∃ i : ℤ, x.value = i) ↔ ∃ n : Nat, x.size = n := by
  unfold value
  constructor
  · rintro ⟨i, whole⟩
    refine ⟨i.natAbs, ?_⟩
    have size : 0 ≤ x.size := by
      unfold Binary64.size
      positivity
    rw [Nat.cast_natAbs, Int.cast_abs, ← whole]
    split
    · rw [abs_neg, abs_of_nonneg size]
    · rw [abs_of_nonneg size]
  · rintro ⟨n, whole⟩
    rw [whole]
    split
    · exact ⟨-n, by push_cast; rfl⟩
    · exact ⟨n, by push_cast; rfl⟩

/-- The text of a finite number denotes its sign and the value of its shortest decimal. -/
theorem exists_signedDecimal?_text (finite : x.isFinite = true) (layout : NumberLayout)
    (placed : layout.positional 0 = true) :
    ∃ d, signedDecimal? (x.text layout).toList = some (x.negative, d) ∧
      d.value = x.shortest.value := by
  obtain ⟨d, read, same⟩ := Numeral.exists_ofText?_text
    (Numeral.proper_ofDecimal x.shortest) layout fun none => by
      rw [(Numeral.trimmed_ofDecimal x.shortest).placed none]
      exact placed
  have value := Decimal.sameValue_iff.mp (Numeral.sameValue_ofDecimal x.shortest)
  refine ⟨d, ?_, (Decimal.sameValue_iff.mp same).trans value.symm⟩
  rw [toList_text finite]
  cases x.negative with
  | true => simp [signedDecimal?, read]
  | false => exact signedDecimal?_of_ofText? read

end Binary64

/-! ## Single literals -/

section

variable {whole fraction : List Char} (digits : Digits whole)
  (digits' : ∀ c ∈ fraction, c.isDigit = true)
include digits digits'

/-- Besides digits a literal has its point only, if digits follow. -/
theorem mem_plainText_iff {c : Char} (other : c.isDigit = false) :
    c ∈ plainText whole fraction ↔ c = '.' ∧ fraction ≠ [] := by
  have outside : c ∉ whole := fun member => by simp [digits.2 c member] at other
  have outside' : c ∉ fraction := fun member => by simp [digits' c member] at other
  unfold plainText
  rw [List.mem_append]
  by_cases none : fraction = []
  · simp [none, outside]
  · simp [none, outside, outside']

/-- A source that is a number literal and nothing else has one token. -/
theorem tokenize_plainText :
    tokenize (String.ofList (plainText whole fraction)) =
      .ok #[⟨.number, String.ofList (plainText whole fraction),
        .number (.ofDecimal (.ofDigits whole fraction)), 1⟩] := by
  have made : (Lexeme.number whole fraction).WellFormed := ⟨digits, fun some => ⟨some, digits'⟩⟩
  have cut : Lexeme.cut (plainText whole fraction) = [.number whole fraction] :=
    (made.readable (k := .number) rfl).cut_spelling
  have line : Text.lineFeeds (plainText whole fraction) = 0 := by
    refine List.count_eq_zero.mpr fun member => ?_
    exact absurd ((mem_plainText_iff digits digits' rfl).mp member).1 (by decide)
  have token : (Lexeme.number whole fraction).token? 1 =
      some ⟨.number, String.ofList (plainText whole fraction),
        .number (.ofDecimal (.ofDigits whole fraction)), 1⟩ := rfl
  have scan : (TokenStream.ofSource (String.ofList (plainText whole fraction))).scan =
      ((TokenStream.ofSource (String.ofList (plainText whole fraction))).accept
        (.number whole fraction) [], .ok ()) := by
    rw [TokenStream.scan_ofList, cut]
    rfl
  have start : (TokenStream.ofSource (String.ofList (plainText whole fraction))).line +
      Text.lineFeeds (Lexeme.number whole fraction).spelling = 1 := by
    show (1 : Int) + Text.lineFeeds (plainText whole fraction) = 1
    rw [line]
    rfl
  rw [tokenize, scan]
  refine congrArg Except.ok (Array.toList_inj.mp ?_)
  rw [TokenStream.tokens_accept, start, token]
  rfl

end

/-- The natural text of a finite number is canonical, with a minus sign just when the number has
one and a point just when it is not whole. It denotes the decimal that the debug text denotes and
from which the number is read back, the sign included. As a source of its own the text of a
number without a sign has one token, which stands for the number. -/
theorem naturalText_lossless (x : Binary64) (finite : x.isFinite = true) :
    (∃ whole fraction, Canonical whole fraction ∧
      x.naturalText.toList =
        (if x.negative then ['-'] else []) ++ plainText whole fraction) ∧
    ('-' ∈ x.naturalText.toList ↔ x.negative = true) ∧
    ('.' ∈ x.naturalText.toList ↔ ¬ ∃ i : ℤ, x.value = i) ∧
    (∃ d d', signedDecimal? x.naturalText.toList = some (x.negative, d) ∧
      signedDecimal? x.debugText.toList = some (x.negative, d') ∧ d.value = d'.value ∧
      { Binary64.ofDecimal d with negative := x.negative } = x) ∧
    (x.negative = false →
      tokenize x.naturalText = .ok #[⟨.number, x.naturalText, .number x, 1⟩]) := by
  let n := Numeral.ofDecimal x.shortest
  have proper : n.Proper := Numeral.proper_ofDecimal x.shortest
  have canonical : Canonical n.whole (n.fraction false) := Numeral.canonical_ofDecimal x.shortest
  have value : (Decimal.ofDigits n.whole (n.fraction false)).value = x.shortest.value :=
    (Decimal.sameValue_iff.mp (n.sameValue_positional false)).trans
      (Decimal.sameValue_iff.mp (Numeral.sameValue_ofDecimal x.shortest)).symm
  have text : x.naturalText.toList =
      (if x.negative then ['-'] else []) ++ plainText n.whole (n.fraction false) := by
    rw [← Numeral.positionalText_eq proper]
    exact Binary64.toList_text finite .natural
  have letters {c : Char} := mem_plainText_iff canonical.digits canonical.digits' (c := c)
  refine ⟨⟨_, _, canonical, text⟩, ?_, ?_, ?_, ?_⟩
  · rw [text]
    cases x.negative <;> simp [letters]
  · rw [Binary64.exists_value_eq_iff, ← Binary64.exists_shortest_eq_iff finite, ← value,
      ← canonical.fraction_eq_nil_iff, text]
    cases x.negative <;> simp [letters]
  · obtain ⟨d, read, same⟩ := Binary64.exists_signedDecimal?_text finite .natural rfl
    obtain ⟨d', read', same'⟩ := Binary64.exists_signedDecimal?_text finite .debug rfl
    refine ⟨d, d', read, read', same.trans same'.symm, ?_⟩
    rw [Binary64.ofDecimal_congr (Decimal.sameValue_iff.mpr same),
      Binary64.ofDecimal_shortest finite]
    rfl
  · intro positive
    have number : Binary64.ofDecimal (.ofDigits n.whole (n.fraction false)) = x := by
      rw [Binary64.ofDecimal_congr (Decimal.sameValue_iff.mpr value),
        Binary64.ofDecimal_shortest finite, Binary64.magnitude, ← positive]
    have source : x.naturalText = String.ofList (plainText n.whole (n.fraction false)) := by
      apply String.toList_inj.mp
      rw [text, positive, String.toList_ofList]
      rfl
    have tokens := tokenize_plainText canonical.digits canonical.digits'
    rwa [number, ← source] at tokens

/-- The debug text of a hundred thousandth has an exponent, and the natural text has zeros. -/
theorem naturalText_lossless_small :
    let x := Binary64.ofBits 0x3EE4F8B588E368F1
    x.isFinite = true ∧ x.naturalText = "0.00001" ∧ x.debugText = "1e-05" ∧
      ('.' ∈ x.naturalText.toList ↔ ¬ ∃ i : ℤ, x.value = i) ∧
      tokenize x.naturalText = .ok #[⟨.number, x.naturalText, .number x, 1⟩] := by
  intro x
  have finite : x.isFinite = true := by decide
  obtain ⟨-, -, point, -, tokens⟩ := naturalText_lossless x finite
  exact ⟨finite, by decide +kernel, by decide +kernel, point, tokens rfl⟩

end LoxSyntax
