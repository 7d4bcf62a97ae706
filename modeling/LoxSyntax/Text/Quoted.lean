import LoxSyntax.Text.Printable

/-!
# Quoted text

Debug listings quote text so that it stays on one line and can be told apart
from what surrounds it. The quote is a single one, unless the text holds a single
quote and no double quote. Inside, the backslash and the quote in use are escaped,
and every character that is not printable is written by its code.

* `Quoted.encode` escapes the contents for a given quote.
* `Text.quoted` is the whole written form.
-/

namespace LoxSyntax.Text

namespace Quoted

/-- The `width` lowest hexadecimal digits of a code, most significant first. -/
def hexDigits : (width code : Nat) → List Char
  | 0, _ => []
  | width + 1, code => hexDigits width (code / 16) ++ [Nat.digitChar (code % 16)]

/-- The escape of a character by its code, as short as the code allows. -/
def escapeByCode (c : Char) : List Char :=
  let code := c.toNat
  if code < 0x100 then '\\' :: 'x' :: hexDigits 2 code
  else if code < 0x10000 then '\\' :: 'u' :: hexDigits 4 code
  else '\\' :: 'U' :: hexDigits 8 code

/-- The written form of one character between quotes. -/
def encodeChar (quote c : Char) : List Char :=
  if c = '\\' ∨ c = quote then ['\\', c]
  else if c = '\n' then ['\\', 'n']
  else if c = '\r' then ['\\', 'r']
  else if c = '\t' then ['\\', 't']
  else if isPrintable c then [c]
  else escapeByCode c

/-- The written form of a text between quotes. -/
def encode (quote : Char) (contents : List Char) : List Char :=
  contents.flatMap (encodeChar quote)

/-- The quote that a text is written with. -/
def quoteFor (contents : List Char) : Char :=
  if contents.contains '\'' && !contents.contains '"' then '"' else '\''

theorem encode_nil (quote : Char) : encode quote [] = [] := rfl

theorem encode_append (quote : Char) (a b : List Char) :
    encode quote (a ++ b) = encode quote a ++ encode quote b :=
  List.flatMap_append

end Quoted

/-- A text in quotes. -/
def quoted (text : String) : String :=
  let contents := text.toList
  let quote := Quoted.quoteFor contents
  String.ofList (quote :: Quoted.encode quote contents ++ [quote])

end LoxSyntax.Text
