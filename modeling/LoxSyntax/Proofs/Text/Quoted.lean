import Mathlib.Algebra.Group.Nat.Defs
import LoxSyntax.Text.Quoted

/-!
# Quoted text is read back

What a character is written as between quotes is read back as that character, whatever stands
behind it (`Quoted.Written.decode`), and the quote in use starts nothing that is written
between quotes. So a quoted text determines its contents and the place where it ends
(`quoted_unique`). It is on one line: every character of it is printable
(`all_isPrintable_quoted`).
-/

namespace LoxSyntax.Text

/-- A row of characters ends where the first character stands that is not among them. -/
theorem field_unique {stop : Char} {w w' rest rest' : List Char} (free : stop ∉ w)
    (free' : stop ∉ w') (same : w ++ stop :: rest = w' ++ stop :: rest') :
    w = w' ∧ rest = rest' := by
  induction w generalizing w' with
  | nil =>
    cases w' with
    | nil => exact ⟨rfl, (List.cons.inj same).2⟩
    | cons c' w' =>
      obtain ⟨rfl, -⟩ := List.cons.inj same
      exact absurd List.mem_cons_self free'
  | cons c w ih =>
    cases w' with
    | nil =>
      obtain ⟨rfl, -⟩ := List.cons.inj same
      exact absurd List.mem_cons_self free
    | cons c' w' =>
      obtain ⟨rfl, behind⟩ := List.cons.inj same
      obtain ⟨rfl, ends⟩ := ih (fun member => free (List.mem_cons_of_mem _ member))
        (fun member => free' (List.mem_cons_of_mem _ member)) behind
      exact ⟨rfl, ends⟩

namespace Quoted

/-! ## Codes -/

/-- The value of a hexadecimal digit. -/
def hexDigitValue (c : Char) : Nat :=
  if c.isDigit then c.toNat - '0'.toNat else c.toNat - 'a'.toNat + 10

/-- The code that hexadecimal digits write. -/
def hexValue (digits : List Char) : Nat :=
  digits.foldl (fun code c => 16 * code + hexDigitValue c) 0

theorem hexDigitValue_digitChar : ∀ d < 16, hexDigitValue d.digitChar = d := by
  decide

theorem length_hexDigits (width code : Nat) : (hexDigits width code).length = width := by
  induction width generalizing code with
  | zero => rfl
  | succ width ih => rw [hexDigits, List.length_append, ih, List.length_singleton]

/-- Hexadecimal digits write the code as far as there is room for it. -/
theorem hexValue_hexDigits (width code : Nat) :
    hexValue (hexDigits width code) = code % 16 ^ width := by
  induction width generalizing code with
  | zero => rw [Nat.pow_zero, Nat.mod_one]; rfl
  | succ width ih =>
    have last := hexDigitValue_digitChar (code % 16) (Nat.mod_lt code (by decide))
    have before := ih (code / 16)
    unfold hexValue at before ⊢
    rw [hexDigits, List.foldl_append, before, List.foldl_cons, List.foldl_nil, last,
      Nat.pow_succ', Nat.mod_mul, Nat.add_comm]

theorem all_isPrintable_hexDigits (width code : Nat) :
    (hexDigits width code).all isPrintable = true := by
  have printable : ∀ d < 16, isPrintable (Nat.digitChar d) = true := by decide
  induction width generalizing code with
  | zero => rfl
  | succ width ih =>
    have last := printable (code % 16) (Nat.mod_lt code (by decide))
    simp [hexDigits, List.all_append, ih, last]

/-! ## Characters -/

/-- The character whose code the first digits of a text write, and the text behind them. -/
def decodeCode (width : Nat) (text : List Char) : Char × List Char :=
  (Char.ofNat (hexValue (text.take width)), text.drop width)

/-- The character that stands at the head of a text between quotes, behind a backslash. -/
def decodeEscape : List Char → Option (Char × List Char)
  | [] => none
  | 'n' :: rest => some ('\n', rest)
  | 'r' :: rest => some ('\r', rest)
  | 't' :: rest => some ('\t', rest)
  | 'x' :: rest => some (decodeCode 2 rest)
  | 'u' :: rest => some (decodeCode 4 rest)
  | 'U' :: rest => some (decodeCode 8 rest)
  | c :: rest => some (c, rest)

/-- The character that stands at the head of a text between quotes, and the text behind it. -/
def decodeChar? : List Char → Option (Char × List Char)
  | [] => none
  | c :: rest => if c = '\\' then decodeEscape rest else some (c, rest)

/-- The characters that text is quoted with. -/
def IsQuote (quote : Char) : Prop :=
  quote = '\'' ∨ quote = '"'

theorem isQuote_quoteFor (contents : List Char) : IsQuote (quoteFor contents) := by
  unfold quoteFor
  split
  · exact .inr rfl
  · exact .inl rfl

theorem decodeCode_hexDigits {width : Nat} {c : Char} (room : c.toNat < 16 ^ width)
    (rest : List Char) : decodeCode width (hexDigits width c.toNat ++ rest) = (c, rest) := by
  have length := length_hexDigits width c.toNat
  rw [decodeCode, List.take_left' length, List.drop_left' length, hexValue_hexDigits,
    Nat.mod_eq_of_lt room, Char.ofNat_toNat]

/-- `Written quote c text`: between these quotes a character is written as itself, behind a
backslash, by a letter of its own, or by its code. -/
inductive Written (quote c : Char) : List Char → Prop
  | plain : c ≠ '\\' → c ≠ quote → isPrintable c = true → Written quote c [c]
  | escaped : c = '\\' ∨ c = quote → Written quote c ['\\', c]
  | named {letter : Char} : (c, letter) ∈ [('\n', 'n'), ('\r', 'r'), ('\t', 't')] →
    Written quote c ['\\', letter]
  | byCode (letter : Char) (width : Nat) : (letter, width) ∈ [('x', 2), ('u', 4), ('U', 8)] →
    c.toNat < 16 ^ width → Written quote c ('\\' :: letter :: hexDigits width c.toNat)

theorem written_escapeByCode (quote c : Char) : Written quote c (escapeByCode c) := by
  unfold escapeByCode
  dsimp only
  split
  · next room => exact .byCode 'x' 2 (by decide) room
  split
  · next room => exact .byCode 'u' 4 (by decide) room
  · exact .byCode 'U' 8 (by decide) c.val.toNat_lt

theorem written_encodeChar (quote c : Char) : Written quote c (encodeChar quote c) := by
  unfold encodeChar
  split
  · next itself => exact .escaped itself
  next other =>
  split
  · next same => exact .named (by rw [same]; decide)
  split
  · next same => exact .named (by rw [same]; decide)
  split
  · next same => exact .named (by rw [same]; decide)
  split
  · next shown => exact .plain (fun same => other (.inl same)) (fun same => other (.inr same)) shown
  · exact written_escapeByCode quote c

namespace Written

variable {quote c : Char} {text : List Char}

/-- What a character is written as is read back, whatever stands behind it. -/
theorem decode (h : Written quote c text) (isQuote : IsQuote quote) (rest : List Char) :
    decodeChar? (text ++ rest) = some (c, rest) := by
  cases h with
  | plain backslash _ _ => exact if_neg backslash
  | escaped itself =>
    rcases itself with rfl | rfl
    · rfl
    · rcases isQuote with rfl | rfl <;> rfl
  | named member =>
    simp only [List.mem_cons, Prod.mk.injEq, List.not_mem_nil, or_false] at member
    rcases member with ⟨rfl, rfl⟩ | ⟨rfl, rfl⟩ | ⟨rfl, rfl⟩ <;> rfl
  | byCode letter width member room =>
    have read := congrArg some (decodeCode_hexDigits room rest)
    simp only [List.mem_cons, Prod.mk.injEq, List.not_mem_nil, or_false] at member
    rcases member with ⟨rfl, rfl⟩ | ⟨rfl, rfl⟩ | ⟨rfl, rfl⟩ <;> exact read

/-- What a character is written as does not start with the quote in use. -/
theorem exists_cons (h : Written quote c text) (isQuote : IsQuote quote) :
    ∃ first more, text = first :: more ∧ first ≠ quote := by
  have backslash : '\\' ≠ quote := by
    rcases isQuote with rfl | rfl <;> decide
  cases h with
  | plain _ other _ => exact ⟨_, _, rfl, other⟩
  | _ => exact ⟨_, _, rfl, backslash⟩

/-- What a character is written as is printable, whatever the character. -/
theorem all_isPrintable (h : Written quote c text) (isQuote : IsQuote quote) :
    text.all isPrintable = true := by
  cases h with
  | plain _ _ shown => simpa using shown
  | escaped itself =>
    rcases itself with rfl | rfl
    · rfl
    · rcases isQuote with rfl | rfl <;> rfl
  | named member =>
    simp only [List.mem_cons, Prod.mk.injEq, List.not_mem_nil, or_false] at member
    rcases member with ⟨-, rfl⟩ | ⟨-, rfl⟩ | ⟨-, rfl⟩ <;> rfl
  | byCode letter width member _ =>
    have digits := all_isPrintable_hexDigits width c.toNat
    simp only [List.mem_cons, Prod.mk.injEq, List.not_mem_nil, or_false] at member
    rcases member with ⟨rfl, rfl⟩ | ⟨rfl, rfl⟩ | ⟨rfl, rfl⟩ <;> exact digits

end Written

/-! ## Contents -/

variable {quote : Char}

/-- The contents end at the first quote that is not escaped. -/
theorem encode_unique (h : IsQuote quote) {a b rest rest' : List Char}
    (same : encode quote a ++ quote :: rest = encode quote b ++ quote :: rest') :
    a = b ∧ rest = rest' := by
  -- the quote cannot be taken for the head of a character, nor a character for another
  have ended {c : Char} {contents rest rest' : List Char} :
      quote :: rest ≠ encode quote (c :: contents) ++ rest' := by
    obtain ⟨first, more, written, other⟩ := (written_encodeChar quote c).exists_cons h
    rw [encode, List.flatMap_cons, written]
    exact fun same => other (List.cons.inj same).1.symm
  induction a generalizing b with
  | nil =>
    cases b with
    | nil => exact ⟨rfl, (List.cons.inj same).2⟩
    | cons d b => exact absurd same ended
  | cons c a ih =>
    cases b with
    | nil => exact absurd same.symm ended
    | cons d b =>
      have decoded := congrArg decodeChar? same
      rw [encode, encode, List.flatMap_cons, List.flatMap_cons, List.append_assoc,
        List.append_assoc, (written_encodeChar quote c).decode h,
        (written_encodeChar quote d).decode h] at decoded
      obtain ⟨rfl, behind⟩ := Prod.mk.inj (Option.some.inj decoded)
      obtain ⟨rfl, ends⟩ := ih behind
      exact ⟨rfl, ends⟩

theorem all_isPrintable_encode (h : IsQuote quote) (contents : List Char) :
    (encode quote contents).all isPrintable = true := by
  rw [encode, List.all_flatMap, List.all_eq_true]
  exact fun c _ => (written_encodeChar quote c).all_isPrintable h

end Quoted

/-! ## Quoted texts -/

/-- A quoted text in front of another text. -/
theorem toList_quoted_append (text : String) (rest : List Char) :
    ∃ quote, Quoted.IsQuote quote ∧ (quoted text).toList ++ rest =
      quote :: (Quoted.encode quote text.toList ++ quote :: rest) := by
  refine ⟨_, Quoted.isQuote_quoteFor text.toList, ?_⟩
  simp [quoted]

/-- A quoted text determines the text and where it ends. -/
theorem quoted_unique {s t : String} {rest rest' : List Char}
    (same : (quoted s).toList ++ rest = (quoted t).toList ++ rest') : s = t ∧ rest = rest' := by
  obtain ⟨quote, isQuote, first⟩ := toList_quoted_append s rest
  obtain ⟨quote', -, second⟩ := toList_quoted_append t rest'
  rw [first, second] at same
  obtain ⟨rfl, behind⟩ := List.cons.inj same
  obtain ⟨contents, ends⟩ := Quoted.encode_unique isQuote behind
  exact ⟨String.toList_inj.mp contents, ends⟩

/-- Quoted texts are printable. -/
theorem all_isPrintable_quoted (text : String) :
    (quoted text).toList.all isPrintable = true := by
  obtain ⟨quote, isQuote, whole⟩ := toList_quoted_append text []
  have shown : isPrintable quote = true := by
    rcases isQuote with rfl | rfl <;> rfl
  rw [← List.append_nil (quoted text).toList, whole, List.all_cons, List.all_append,
    Quoted.all_isPrintable_encode isQuote, shown]
  simpa using shown

end LoxSyntax.Text
