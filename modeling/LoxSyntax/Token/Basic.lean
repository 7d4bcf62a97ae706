import LoxSyntax.Token.Kind
import LoxSyntax.Token.Value

/-!
# Tokens

A token has a kind, the text it was read from, a value, and the line it ends on.
Tokens can also be made by hand, so the fields are free of each other. A number
token made by hand may have a value that is no number, and then it cannot be
shown.

* `Token.text` is the token in a printed expression.
* `Token.shown` is the token on its own, or the reason that it cannot be shown.
  `Token.shown_eq_text` relates the two.
* `Token.summary` names the kind and the text, and the value where it says more
  than the text. `Token.listing` puts the line in front.
* `Token.debug` shows every field.
-/

namespace LoxSyntax

/-- A token: its kind, the text it was read from, its value and its line. -/
structure Token where
  kind : Kind
  lexeme : String
  value : Value
  line : Int
deriving DecidableEq, Repr

namespace Token

/-- Whether the token is an expression on its own. -/
def isLiteral (t : Token) : Bool :=
  t.kind.isLiteral

/-- Whether the token is a reserved word. -/
def isKeyword (t : Token) : Bool :=
  t.kind.isKeyword

/-- Equality field by field, with values compared by what they denote. -/
def same (t u : Token) : Bool :=
  t.kind == u.kind && t.lexeme == u.lexeme && t.value.same u.value && t.line == u.line

/-- Equality of rows of tokens, token by token. -/
def sameAll : List Token → List Token → Bool
  | [], [] => true
  | t :: ts, u :: us => t.same u && sameAll ts us
  | _, _ => false

/-- The token within a printed expression. Strings, numbers and identifiers show
their value, so that two spellings of one number print alike; all others show the
text they were read from. -/
def text (t : Token) : String :=
  match t.kind with
  | .string => "\"" ++ t.value.plain ++ "\""
  | .number =>
    match t.value with
    | .number x => x.naturalText
    | v => v.plain
  | .identifier => t.value.plain
  | _ => t.lexeme

/-- Why a token cannot be shown: it is a number token, and its value is no number. -/
inductive TextError
  /-- The value is absent. -/
  | absentNumber
  /-- The value is a text. -/
  | textForNumber
  /-- The value is a truth value. -/
  | truthForNumber
deriving DecidableEq, Repr

/-- The wording of why a token cannot be shown. -/
def TextError.message : TextError → String
  | absentNumber => "must be real number, not NoneType"
  | textForNumber => "must be real number, not str"
  | truthForNumber => "'bool' object has no attribute 'is_integer'"

/-- Why the token cannot be shown, if it cannot. -/
def textError? (t : Token) : Option TextError :=
  match t.kind, t.value with
  | .number, .absent => some .absentNumber
  | .number, .text _ => some .textForNumber
  | .number, .truth _ => some .truthForNumber
  | _, _ => none

/-- The token on its own. An identifier is shown as its value, whatever that is, and
all others as their text. -/
def shown (t : Token) : Except TextError Value :=
  match t.textError? with
  | some e => .error e
  | none => .ok (if t.kind = .identifier then t.value else .text t.text)

/-- A token that can be shown is shown as its text, unless it is an identifier. -/
theorem shown_eq_text {t : Token} (showable : t.textError? = none) (kind : t.kind ≠ .identifier) :
    t.shown = .ok (.text t.text) := by
  simp [shown, showable, kind]

/-- The kind, the quoted text, and the value where it says more than the text. -/
def summary (t : Token) : String :=
  if t.value = .absent ∨ t.value = .text t.lexeme then
    t.kind.name ++ "(" ++ Text.quoted t.lexeme ++ ")"
  else
    t.kind.name ++ "(" ++ Text.quoted t.lexeme ++ " -> " ++ t.value.debug ++ ")"

/-- A text moved to the right end of a column of `width` places. -/
def padLeft (width : Nat) (s : String) : String :=
  String.ofList (List.replicate (width - s.length) ' ') ++ s

/-- One line of a token listing: the line number in a column of four places and
the summary. -/
def listing (t : Token) : String :=
  padLeft 4 (integerText t.line) ++ " " ++ t.summary

/-- Every field of the token. -/
def debug (t : Token) : String :=
  "Token(" ++ t.kind.name ++ ", " ++ Text.quoted t.lexeme ++ ", " ++ t.value.debug ++
    ", line=" ++ integerText t.line ++ ")"

end Token

end LoxSyntax
