import LoxSyntax.Diagnostic

/-!
# Lexical errors

Two things can be wrong with the letters of a source: a letter that starts no
lexeme, and a string that is never closed. This module words both.
-/

namespace LoxSyntax

/-- What is wrong with the letters of a source, and on which line. -/
inductive LexicalError
  /-- A letter outside strings and comments that starts no lexeme. -/
  | unrecognized (letter : Char) (line : Int)
  /-- A string without a closing quote; the line is the last one of the source. -/
  | unclosedString (line : Int)
deriving DecidableEq, Repr

namespace LexicalError

/-- What to write instead of a letter that other languages use. -/
def alternatives : Char → List String
  | '&' => ["and"]
  | '|' => ["or"]
  | '%' => ["/"]
  | '\'' => ["\""]
  | _ => []

/-- The code point of a letter in capital hexadecimal digits, four at least. -/
def codePointText (letter : Char) : String :=
  let digits := (Nat.toDigits 16 letter.toNat).map Char.toUpper
  "U+" ++ String.ofList (List.replicate (4 - digits.length) '0' ++ digits)

/-- The help for a letter: what to write instead where that is known, and
otherwise the letter itself if it is printable ASCII, or its code point. -/
def helpFor (letter : Char) : String :=
  match alternatives letter with
  | [] =>
    if 0x20 ≤ letter.toNat ∧ letter.toNat < 0x7F then
      "The character '" ++ letter.toString ++ "' is not valid in Lox source code."
    else
      "Non-ASCII or non-printable character (" ++ codePointText letter ++ ") is not allowed."
  | suggestions => "Did you mean: " ++ ", ".intercalate suggestions ++ "?"

/-- The wording of a lexical error. -/
def diagnostic : LexicalError → Diagnostic
  | unrecognized letter line =>
    { message := "Unrecognized character '" ++ letter.toString ++ "'"
      line
      severity := "error"
      code := "L001"
      help := helpFor letter
      suggestions := alternatives letter }
  | unclosedString line =>
    { message := "Unclosed string"
      line
      severity := "error"
      code := "L002"
      help := "String literals must be closed with a matching \" quote."
      suggestions := ["Add a closing \" quote"] }

/-- The line an error is reported on. -/
def line : LexicalError → Int
  | unrecognized _ line => line
  | unclosedString line => line

/-- The wording keeps the line. -/
theorem line_diagnostic (e : LexicalError) : e.diagnostic.line = e.line := by
  cases e <;> rfl

end LexicalError

end LoxSyntax
