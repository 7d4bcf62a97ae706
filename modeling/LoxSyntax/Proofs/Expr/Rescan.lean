import LoxSyntax.Proofs.Expr.UniqueReading
import LoxSyntax.Proofs.TokenStream.Rendering

/-!
# Printed trees scanned again

The printed form of a tree that has been read from a source is itself a source, and a scan of
it finds the tokens of the tree in the order they are printed in, with a parenthesis on each
side of every node but the literals (`Expr.arrangement`). What is printed for a token ends in
front of a blank or a parenthesis, so that nothing runs into what stands behind it
(`Expr.Legible.renders`). Only infinity is printed as a text that stands for another token.
-/

namespace LoxSyntax

open Printed (Closed)

/-- Whether the value is finite, where it is a number. -/
def Value.isFinite : Value → Bool
  | number x => x.isFinite
  | _ => true

/-- The token with its own text for the text that it was read from. -/
def Token.respelled (t : Token) : Token :=
  { t with lexeme := t.text }

namespace Expr

/-! ## Prefix arrangements -/

def openingToken : Token := ⟨.leftParen, "(", .absent, 0⟩

def closingToken : Token := ⟨.rightParen, ")", .absent, 0⟩

/-- The name that stands in front of what a grouping groups. -/
def groupToken : Token := ⟨.identifier, "group", .text "group", 0⟩

/-- The tokens of a tree in prefix form. -/
def arrangement : Expr → List Token
  | literal token => [token]
  | grouping inner _ => openingToken :: groupToken :: (inner.arrangement ++ [closingToken])
  | unary operator operand =>
    openingToken :: operator :: (operand.arrangement ++ [closingToken])
  | binary left operator right =>
    openingToken :: operator :: (left.arrangement ++ right.arrangement ++ [closingToken])

end Expr

/-! ## Tokens printed -/

section

variable {t : Token}

/-- Its own text for the text it was read from changes a scanned token only if it is a
number. -/
theorem Token.Scanned.essence_respelled (h : t.Scanned) : t.respelled.essence = t.essence := by
  unfold essence respelled
  by_cases number : t.kind = .number
  · simp only [number, if_pos]
  · simp only [number, if_false, h.text_eq_lexeme number]

/-- The text of a finite token denotes what the token stands for. -/
theorem Token.Scanned.respelled (h : t.Scanned) (finite : t.value.isFinite = true) :
    t.respelled.Scanned := by
  rcases h.denotes_text with denotes | infinite
  · exact denotes
  · rw [infinite.2.2] at finite
    cases finite

end

namespace Expr

theorem scanned_groupToken : groupToken.Scanned := Lexeme.denotes_group

/-- Every token of the arrangement of a legible tree is a scanned token. -/
theorem Legible.scanned_arrangement {e : Expr} (h : e.Legible) :
    ∀ t ∈ e.arrangement, t.Scanned := by
  have opening : openingToken.Scanned := .mark (.single (by decide))
  have closing : closingToken.Scanned := .mark (.single (by decide))
  induction h with
  | literal scanned _ => exact List.forall_mem_singleton.mpr scanned
  | grouping _ _ _ ih =>
    simp only [arrangement, List.forall_mem_cons, List.forall_mem_append]
    exact ⟨opening, scanned_groupToken, ih, closing, List.forall_mem_nil _⟩
  | unary scanned _ _ ih =>
    simp only [arrangement, List.forall_mem_cons, List.forall_mem_append]
    exact ⟨opening, scanned, ih, closing, List.forall_mem_nil _⟩
  | binary scanned _ _ _ ihLeft ihRight =>
    simp only [arrangement, List.forall_mem_cons, List.forall_mem_append]
    exact ⟨opening, scanned, ⟨ihLeft, ihRight⟩, closing, List.forall_mem_nil _⟩

/-! ## Printed trees render -/

section

variable (left right inner : Expr) (operator : Token) (ts : List Token)

theorem respelled_grouping (paren : Option Token) :
    (grouping inner paren).arrangement.map Token.respelled ++ ts =
      openingToken :: groupToken ::
        (inner.arrangement.map Token.respelled ++ closingToken :: ts) := by
  rw [arrangement, List.map_cons, List.map_cons, List.map_append, List.cons_append,
    List.cons_append, List.append_assoc]
  rfl

theorem respelled_unary :
    (unary operator inner).arrangement.map Token.respelled ++ ts =
      openingToken :: operator.respelled ::
        (inner.arrangement.map Token.respelled ++ closingToken :: ts) := by
  rw [arrangement, List.map_cons, List.map_cons, List.map_append, List.cons_append,
    List.cons_append, List.append_assoc]
  rfl

theorem respelled_binary :
    (binary left operator right).arrangement.map Token.respelled ++ ts =
      openingToken :: operator.respelled :: (left.arrangement.map Token.respelled ++
        (right.arrangement.map Token.respelled ++ closingToken :: ts)) := by
  rw [arrangement, List.map_cons, List.map_cons, List.map_append, List.map_append,
    List.cons_append, List.cons_append, List.append_assoc, List.append_assoc]
  rfl

end

section

variable {rest : List Char} {ts : List Token}

/-- What is closed ends a token. -/
theorem closing_of_closed (h : Closed rest) :
    ∀ c ∈ rest.head?, Lexeme.isBlank c = true ∨ c = ')' := by
  intro c head
  rcases h c head with rfl | paren
  · exact .inl rfl
  · exact .inr paren

theorem renders_closing (behind : Renders rest ts) :
    Renders (')' :: rest) (closingToken :: ts) :=
  behind.mark (by decide) rfl rfl

/-- An operator or a name behind a parenthesis, with a space behind it. -/
theorem renders_word {t : Token} (scanned : t.Scanned) (behind : Renders rest ts) :
    Renders ('(' :: (t.lexeme.toList ++ ' ' :: rest)) (openingToken :: t :: ts) := by
  have spaced : Renders (' ' :: rest) ts := behind.blank rfl
  have word := spaced.token scanned (closing_of_closed (.space rest))
  exact word.mark (by decide) rfl rfl

/-- In front of something closed the printed form of a legible tree renders its arrangement,
unless one of its numbers is infinite. -/
theorem Legible.renders {e : Expr} (h : e.Legible)
    (finite : ∀ t ∈ e.anchors, t.value.isFinite = true) (closed : Closed rest)
    (behind : Renders rest ts) :
    Renders (e.printed.toList ++ rest) (e.arrangement.map Token.respelled ++ ts) := by
  -- a left operand has a space behind it and a last one a parenthesis: both are closed
  induction h generalizing rest ts with
  | literal scanned _ =>
    have respelled := scanned.respelled (finite _ (List.mem_singleton_self _))
    have text := behind.token respelled (closing_of_closed closed)
    exact text
  | grouping _ _ _ ih =>
    obtain ⟨-, finite⟩ := List.forall_mem_cons.mp finite
    have inner := ih finite (.paren rest) (renders_closing behind)
    have whole := renders_word scanned_groupToken inner
    rw [printed_grouping_append, respelled_grouping]
    exact whole
  | unary scanned _ _ ih =>
    obtain ⟨operator, finite⟩ := List.forall_mem_cons.mp finite
    have operand := ih finite (.paren rest) (renders_closing behind)
    have whole := renders_word (scanned.respelled operator) operand
    rw [printed_unary_append, respelled_unary]
    exact whole
  | binary scanned _ _ _ ihLeft ihRight =>
    obtain ⟨left, behindLeft⟩ := List.forall_mem_append.mp finite
    obtain ⟨operator, right⟩ := List.forall_mem_cons.mp behindLeft
    have rights := ihRight right (.paren rest) (renders_closing behind)
    have lefts := ihLeft left (.space _) (rights.blank rfl)
    have whole := renders_word (scanned.respelled operator) lefts
    rw [printed_binary_append, respelled_binary]
    exact whole

end

end Expr

/-- A scan of the printed form of a tree of a source, if its numbers are finite, finds the
tokens of the tree in prefix form, but for lines and the texts of numbers. -/
theorem printed_rescans {source : String} {e : Expr} (parsed : parseSource source = .ok e)
    (finite : ∀ t ∈ e.anchors, t.value.isFinite = true) :
    e.shown = .ok (.text e.printed) ∧ ∃ tokens, tokenize e.printed = .ok tokens ∧
      tokens.toList.map Token.essence = e.arrangement.map Token.essence := by
  have legible := Expr.legible_of_parseSource parsed
  have rendered := legible.renders finite .nil .nil
  rw [List.append_nil, List.append_nil] at rendered
  obtain ⟨tokens, found, same⟩ := tokenize_of_renders rendered
  refine ⟨legible.shown_eq, tokens, found, ?_⟩
  -- what scans and renderings leave out, essences leave out as well
  calc tokens.toList.map Token.essence
      = (tokens.toList.map Token.unlined).map Token.essence := by
        rw [List.map_map]
        rfl
    _ = (e.arrangement.map Token.respelled).map Token.essence := by
        rw [same, List.map_map]
        rfl
    _ = e.arrangement.map Token.essence := by
        rw [List.map_map]
        exact List.map_congr_left fun t member =>
          (legible.scanned_arrangement t member).essence_respelled

/-- The string `//` is printed in its quotes, so that it starts no comment, and `1.50` is
printed without its last digit. -/
theorem printed_rescans_comment :
    let minus : Token := ⟨.minus, "-", .absent, 1⟩
    let opener : Token := ⟨.leftParen, "(", .absent, 1⟩
    let string : Token := ⟨.string, "\"//\"", .text "//", 1⟩
    let operator : Token := ⟨.lessEqual, "<=", .absent, 1⟩
    let number : Token := ⟨.number, "1.50", .number ⟨false, 1023, 0x8000000000000⟩, 2⟩
    let e : Expr := .binary (.unary minus (.grouping (.literal string) (some opener))) operator
      (.literal number)
    parseSource "-(\"//\")<=//\n1.50" = .ok e ∧
      e.shown = .ok (.text "(<= (- (group \"//\")) 1.5)") ∧
      ∃ tokens, tokenize "(<= (- (group \"//\")) 1.5)" = .ok tokens ∧
        tokens.toList.map Token.essence = e.arrangement.map Token.essence := by
  intro minus opener string operator number e
  have parsed : parseSource "-(\"//\")<=//\n1.50" = .ok e := by decide +kernel
  have printed : e.printed = "(<= (- (group \"//\")) 1.5)" := by decide +kernel
  rw [← printed]
  exact ⟨parsed, printed_rescans parsed (by decide)⟩

end LoxSyntax
