import LoxSyntax.Expr.Printed
import LoxSyntax.Proofs.Grammar.Completeness
import LoxSyntax.Proofs.Lexeme.MaximalMunch
import LoxSyntax.Proofs.Number.LosslessText
import LoxSyntax.Proofs.Number.Precision

/-!
# Printed numbers

A source of one literal is read as that literal (`parseSource_of_literal`), and a number is printed
in its natural text, which for a number of ordinary precision is the canonical text that it was
read from (`ordinary_number_printed`).
-/

namespace LoxSyntax

/-- A source whose one token is a literal is read as that literal. -/
theorem parseSource_of_literal {source : String} {t : Token}
    (scanned : tokenize source = .ok #[t]) (kind : t.isLiteral = true) :
    parseSource source = .ok (.literal t) := by
  obtain ⟨ended, tokens⟩ := tokenize_eq_ok.mp scanned
  unfold parseSource
  cases scan : (TokenStream.ofSource source).scan with
  | mk s outcome =>
  rw [scan] at ended tokens
  obtain rfl : outcome = .ok () := ended
  have tokens : s.tokens = #[t] := tokens
  let c : Cursor := {}
  have inside : 0 ≤ c.position ∧ c.position ≤ s.count := ⟨Int.le_refl 0, Int.natCast_nonneg _⟩
  have ahead : c.ahead s = [t] ++ [] := by
    unfold Cursor.ahead
    rw [tokens]
    rfl
  have phrase : Phrase 0 c.levels (.literal t) [t] :=
    ⟨.literal t, .literal kind, Nat.zero_le _, Nat.zero_le _⟩
  have read := Nonterminal.expression.complete (c.surroundings s) c.levels _ _ [] phrase (.nil 0)
  rw [← ahead] at read
  exact congrArg Prod.snd (Cursor.parse_of_parsed inside read)

/-- Canonical texts of zero and of numbers from `10 ^ -307` to `10 ^ 308` with fifteen significant
digits at most are printed as they were written. -/
theorem ordinary_number_printed (whole fraction : List Char) (canonical : Canonical whole fraction)
    (short : (significantDigits whole fraction).length ≤ 15)
    (range : (Decimal.ofDigits whole fraction).value = 0 ∨
      (10 : ℚ) ^ (-307 : Int) ≤ (Decimal.ofDigits whole fraction).value ∧
        (Decimal.ofDigits whole fraction).value ≤ (10 : ℚ) ^ (308 : Int)) :
    ∃ e, parseSource (String.ofList (plainText whole fraction)) = .ok e ∧
      e.shown = .ok (.text (String.ofList (plainText whole fraction))) := by
  let t : Token := ⟨.number, String.ofList (plainText whole fraction),
    .number (.ofDecimal (.ofDigits whole fraction)), 1⟩
  have tokens : tokenize (String.ofList (plainText whole fraction)) = .ok #[t] :=
    tokenize_plainText canonical.digits canonical.digits'
  have text : t.text = String.ofList (plainText whole fraction) :=
    canonical.naturalText_ofDecimal short range
  have kind : t.kind ≠ .identifier := by
    intro same
    cases same
  refine ⟨.literal t, parseSource_of_literal tokens rfl, ?_⟩
  rw [Expr.shown, Token.shown_eq_text rfl kind, text]

/-- Twenty-three zeros behind a one are not significant, and the nearest number, which is smaller
than what is written, is printed with them. -/
theorem ordinary_number_printed_large :
    let whole := "100000000000000000000000".toList
    Canonical whole [] ∧ (significantDigits whole []).length ≤ 15 ∧
      (10 : ℚ) ^ (-307 : Int) ≤ (Decimal.ofDigits whole []).value ∧
      (Decimal.ofDigits whole []).value ≤ (10 : ℚ) ^ (308 : Int) ∧
      ∃ e, parseSource (String.ofList (plainText whole [])) = .ok e ∧
        e.shown = .ok (.text (String.ofList (plainText whole []))) := by
  intro whole
  have canonical : Canonical whole [] := by
    refine ⟨⟨by decide, ?_⟩, by decide, nofun, nofun⟩
    exact List.all_eq_true.mp (by decide)
  have short : (significantDigits whole []).length ≤ 15 := by decide
  have value : (Decimal.ofDigits whole []).value = 10 ^ (23 : Int) := by
    have digits : valueOfDigits (whole ++ []) = 10 ^ 23 := by decide
    show (valueOfDigits (whole ++ []) : ℚ) * 10 ^ (0 : Int) = _
    rw [digits, zpow_zero, mul_one]
    norm_num
  have low : (10 : ℚ) ^ (-307 : Int) ≤ (Decimal.ofDigits whole []).value := by
    rw [value]
    exact zpow_le_zpow_right₀ (by norm_num) (by decide)
  have high : (Decimal.ofDigits whole []).value ≤ (10 : ℚ) ^ (308 : Int) := by
    rw [value]
    exact zpow_le_zpow_right₀ (by norm_num) (by decide)
  exact ⟨canonical, short, low, high,
    ordinary_number_printed whole [] canonical short (.inr ⟨low, high⟩)⟩

end LoxSyntax
