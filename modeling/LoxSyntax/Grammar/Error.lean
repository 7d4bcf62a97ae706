import LoxSyntax.Diagnostic
import LoxSyntax.Token.Basic

/-!
# Syntax errors

Four things can be wrong with a row of tokens that is to be an expression, and
one more is worth a warning: tokens left over behind a complete expression. This
module words them all.
-/

namespace LoxSyntax

/-- What is wrong with a row of tokens. -/
inductive SyntaxError
  /-- A token that starts no operand stands where one must start. -/
  | unexpectedToken (found : Token)
  /-- The tokens end where something is still expected. -/
  | unexpectedEnd (expected : String) (line : Int)
  /-- A parenthesis is not closed where its contents end; `found` stands there,
  unless the tokens end. -/
  | unclosedDelimiter (opener : Token) (found : Option Token) (line : Int)
  /-- More levels are nested than the limit allows. -/
  | nestedTooDeeply (line : Int) (limit : Int)
deriving DecidableEq, Repr

namespace SyntaxError

/-- Suggestions for the kinds that often stand where an operand is missing. -/
def suggestionsFor : Kind → List String
  | .identifier => ["Variables are not supported in expressions; use a literal value"]
  | .rightParen | .star | .slash | .plus => ["Check for a missing operand before this token"]
  | _ => []

/-- A lexeme in single quotes. -/
def inQuotes (t : Token) : String :=
  "'" ++ t.lexeme ++ "'"

/-- The wording of a syntax error. -/
def diagnostic : SyntaxError → Diagnostic
  | unexpectedToken found =>
    { message := "Expected expression, found " ++ inQuotes found
      line := found.line
      severity := "error"
      code := "P001"
      help := "An expression must start with a number, string, true, false, nil, " ++
        "'(', '!' or '-'."
      suggestions := suggestionsFor found.kind }
  | unexpectedEnd expected line =>
    { message := "Unexpected end of input, expected " ++ expected
      line
      severity := "error"
      code := "P010"
      help := "The parser ran out of tokens while expecting " ++ expected ++ "."
      suggestions := ["Add the missing " ++ expected] }
  | unclosedDelimiter opener found line =>
    { message := "Expected ')' after expression, found " ++
        (found.map inQuotes).getD "end of input"
      line
      severity := "error"
      code := "P004"
      help := "The '(' on line " ++ integerText opener.line ++ " was never closed."
      suggestions := ["Add a closing ')'"] }
  | nestedTooDeeply line limit =>
    { message := "Expression nested too deeply"
      line
      severity := "error"
      code := "P014"
      help := "At most " ++ integerText limit ++ " levels of '(', '!' and '-' may be nested."
      suggestions := ["Split the expression or remove redundant parentheses"] }

/-- The token an error is about, if it is about one. -/
def token? : SyntaxError → Option Token
  | unexpectedToken found => some found
  | unclosedDelimiter _ found _ => found
  | _ => none

end SyntaxError

/-- The warning that tokens are left over behind a complete expression, with the
first of them. -/
structure TrailingTokens where
  first : Token
deriving DecidableEq, Repr

/-- The wording of the warning. -/
def TrailingTokens.diagnostic (w : TrailingTokens) : Diagnostic where
  message := "Ignoring tokens after complete expression, starting at " ++
    SyntaxError.inQuotes w.first
  line := w.first.line
  severity := "warning"
  code := "P013"
  help := "Only a single expression is parsed."

end LoxSyntax
