import LoxSyntax.Lexeme.Error
import LoxSyntax.Text.Line
import LoxSyntax.Token.Basic

/-!
# Lexemes

A source is a row of lexemes: blanks, comments, marks, strings, numbers and
words. Two further lexemes stand for what cannot be read, a letter that starts
nothing and a string without an end, so that every source is a row of lexemes.

* `Lexeme.read` finds the lexeme at the head of a text that is not empty.
* `Lexeme.spelling` is the part of the text that a lexeme covers.
* `Lexeme.token?` is the token that a lexeme stands for, and `Lexeme.error?` what
  is wrong with it.
-/

namespace LoxSyntax

/-- A lexeme with the letters that tell it from others of its sort. -/
inductive Lexeme
  /-- A space, a tab, a carriage return or a line feed. -/
  | blank (letter : Char)
  /-- Two slashes and the text up to the end of the line. -/
  | comment (text : List Char)
  /-- A mark of one or two letters. -/
  | mark (kind : Kind) (spelling : List Char)
  /-- The text between two quotes. -/
  | string (contents : List Char)
  /-- Digits and, unless `fraction` is empty, a point and more digits. -/
  | number (whole fraction : List Char)
  /-- A letter or underscore, and letters and digits after it. -/
  | word (letters : List Char)
  /-- A letter that starts no lexeme. -/
  | unrecognized (letter : Char)
  /-- A quote and the text after it, up to the end of the source. -/
  | unclosed (contents : List Char)
deriving DecidableEq, Repr

namespace Lexeme

/-! ## Marks -/

/-- The marks of one letter that no other mark starts with. -/
def singleMarks : List (Char × Kind) :=
  [('(', .leftParen), (')', .rightParen), ('*', .star), ('+', .plus), (',', .comma),
    ('-', .minus), ('.', .dot), (';', .semicolon), ('{', .leftBrace), ('}', .rightBrace)]

/-- The marks that an equals sign turns into another mark, and both kinds. -/
def equalMarks : List (Char × Kind × Kind) :=
  [('!', .bang, .bangEqual), ('<', .less, .lessEqual), ('=', .equal, .equalEqual),
    ('>', .greater, .greaterEqual)]

/-! ## Reading -/

/-- Whether a letter is blank on its own. -/
def isBlank (c : Char) : Bool :=
  c == ' ' || c == '\t' || c == '\r' || c == '\n'

/-- Whether a letter starts a word: an ASCII letter or the underscore. -/
def startsWord (c : Char) : Bool :=
  c.isAlpha || c == '_'

/-- The lexeme that starts with a quote, from the text after the quote. -/
def readString (rest : List Char) : Lexeme :=
  let contents := rest.takeWhile (· != '"')
  match rest.dropWhile (· != '"') with
  | [] => .unclosed contents
  | _ :: _ => .string contents

/-- The digits after a decimal point at the head of a text. A point without a
digit after it is no decimal point. -/
def fractionDigits : List Char → List Char
  | '.' :: rest => rest.takeWhile Char.isDigit
  | _ => []

/-- The lexeme that starts with a digit, from that digit and the text after it. -/
def readNumber (first : Char) (rest : List Char) : Lexeme :=
  .number (first :: rest.takeWhile Char.isDigit) (fractionDigits (rest.dropWhile Char.isDigit))

/-- The lexeme that starts with a slash, from the text after the slash. -/
def readSlash : List Char → Lexeme
  | '/' :: text => .comment (text.takeWhile (· != '\n'))
  | _ => .mark .slash ['/']

/-- The lexeme at the head of a text, from the first letter and the text after
it. Digits and letters are those of ASCII. -/
def read (first : Char) (rest : List Char) : Lexeme :=
  if isBlank first then .blank first
  else if first = '/' then readSlash rest
  else if first = '"' then readString rest
  else if first.isDigit then readNumber first rest
  else if startsWord first then .word (first :: rest.takeWhile Char.isAlphanum)
  else
    match singleMarks.lookup first, equalMarks.lookup first with
    | some kind, _ => .mark kind [first]
    | none, some (alone, withEqual) =>
      if rest.head? = some '=' then .mark withEqual [first, '='] else .mark alone [first]
    | none, none => .unrecognized first

/-! ### By the first letter -/

theorem isBlank_iff {c : Char} : isBlank c = true ↔ c ∈ [' ', '\t', '\r', '\n'] := by
  simp [isBlank, or_assoc]

theorem startsWord_iff {c : Char} : startsWord c = true ↔ c.isAlpha = true ∨ c = '_' := by
  simp [startsWord]

theorem isBlank_of_isDigit {c : Char} (h : c.isDigit = true) : isBlank c = false := by
  cases blank : isBlank c with
  | false => rfl
  | true =>
    simp only [isBlank, Bool.or_eq_true, beq_iff_eq] at blank
    rcases blank with ((rfl | rfl) | rfl) | rfl <;> cases h

theorem isBlank_of_startsWord {c : Char} (h : startsWord c = true) : isBlank c = false := by
  cases blank : isBlank c with
  | false => rfl
  | true =>
    simp only [isBlank, Bool.or_eq_true, beq_iff_eq] at blank
    rcases blank with ((rfl | rfl) | rfl) | rfl <;> cases h

theorem isDigit_of_startsWord {c : Char} (h : startsWord c = true) : c.isDigit = false := by
  cases digit : c.isDigit with
  | false => rfl
  | true =>
    have le : c.val ≤ '9'.val := of_decide_eq_true (Bool.and_eq_true_iff.mp digit).2
    rcases Bool.or_eq_true_iff.mp h with alpha | underscore
    · rcases Bool.or_eq_true_iff.mp alpha with upper | lower
      · exact absurd (UInt32.le_trans (of_decide_eq_true upper).1 le) (by decide)
      · have ge : 'a'.val ≤ c.val := of_decide_eq_true (Bool.and_eq_true_iff.mp lower).1
        exact absurd (UInt32.le_trans ge le) (by decide)
    · obtain rfl := beq_iff_eq.mp underscore
      cases digit

theorem read_of_isBlank {first : Char} (h : isBlank first = true) (rest : List Char) :
    read first rest = .blank first :=
  if_pos h

theorem read_slash (rest : List Char) : read '/' rest = readSlash rest := rfl

theorem read_quote (rest : List Char) : read '"' rest = readString rest := rfl

theorem read_of_isDigit {first : Char} (h : first.isDigit = true) (rest : List Char) :
    read first rest = readNumber first rest := by
  have slash : first ≠ '/' := by
    intro same
    subst same
    cases h
  have quote : first ≠ '"' := by
    intro same
    subst same
    cases h
  simp [read, isBlank_of_isDigit h, slash, quote, h]

theorem read_of_startsWord {first : Char} (h : startsWord first = true) (rest : List Char) :
    read first rest = .word (first :: rest.takeWhile Char.isAlphanum) := by
  have slash : first ≠ '/' := by
    intro same
    subst same
    cases h
  have quote : first ≠ '"' := by
    intro same
    subst same
    cases h
  simp [read, isBlank_of_startsWord h, isDigit_of_startsWord h, slash, quote, h]

theorem read_of_mem_singleMarks {first : Char} {kind : Kind} (h : (first, kind) ∈ singleMarks)
    (rest : List Char) : read first rest = .mark kind [first] := by
  simp only [singleMarks, List.mem_cons, Prod.mk.injEq, List.not_mem_nil, or_false] at h
  rcases h with h | h | h | h | h | h | h | h | h | h <;> obtain ⟨rfl, rfl⟩ := h <;> rfl

theorem read_of_mem_equalMarks {first : Char} {alone withEqual : Kind}
    (h : (first, alone, withEqual) ∈ equalMarks) (rest : List Char) :
    read first rest =
      if rest.head? = some '=' then .mark withEqual [first, '='] else .mark alone [first] := by
  simp only [equalMarks, List.mem_cons, Prod.mk.injEq, List.not_mem_nil, or_false] at h
  rcases h with h | h | h | h <;> obtain ⟨rfl, rfl, rfl⟩ := h <;> rfl

/-! ## What a lexeme covers and stands for -/

/-- The part of the text that a lexeme covers. -/
def spelling : Lexeme → List Char
  | blank letter => [letter]
  | comment text => '/' :: '/' :: text
  | mark _ spelling => spelling
  | string contents => '"' :: contents ++ ['"']
  | number whole fraction => whole ++ (if fraction = [] then [] else '.' :: fraction)
  | word letters => letters
  | unrecognized letter => [letter]
  | unclosed contents => '"' :: contents

/-- The value of a reserved word: the truth values denote themselves, the others
nothing. -/
def keywordValue : Keyword → Value
  | .trueWord => .truth true
  | .falseWord => .truth false
  | _ => .absent

/-- The kind and the value of a word: a reserved word, or an identifier that
denotes its own text. -/
def wordMeaning (word : String) : Kind × Value :=
  match Keyword.ofSpelling? word with
  | some keyword => (.keyword keyword, keywordValue keyword)
  | none => (.identifier, .text word)

/-- The kind and the value of a lexeme, unless it stands for no token. -/
def meaning? : Lexeme → Option (Kind × Value)
  | mark kind _ => some (kind, .absent)
  | string contents => some (.string, .text (String.ofList contents))
  | number whole fraction =>
    some (.number, .number (Binary64.ofDecimal (Decimal.ofDigits whole fraction)))
  | word letters => some (wordMeaning (String.ofList letters))
  | _ => none

/-- The token that a lexeme ending on a line stands for. -/
def token? (line : Int) (l : Lexeme) : Option Token :=
  l.meaning?.map fun (kind, value) => ⟨kind, String.ofList l.spelling, value, line⟩

/-- What is wrong with a lexeme that ends on a line. -/
def error? (line : Int) : Lexeme → Option LexicalError
  | unrecognized letter => some (.unrecognized letter line)
  | unclosed _ => some (.unclosedString line)
  | _ => none

end Lexeme

end LoxSyntax
