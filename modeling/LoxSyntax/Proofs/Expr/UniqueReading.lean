import LoxSyntax.Expr.Printed
import LoxSyntax.Proofs.Grammar.Soundness
import LoxSyntax.Proofs.Token.Text
import LoxSyntax.Proofs.TokenStream.Lines

/-!
# Unique reading of printed trees

The printed form of a tree that has been read from a source (`Expr.Legible`) determines the
tree but for the lines and the texts that its numbers were read from, and it also
determines where it ends: two trees whose printed forms start one text, each with
something closed behind it, are the same and end at the same place
(`Expr.Legible.essence_eq_of_append`). A unary and a binary tree of one operator are told
apart by what stands behind the first operand, which is why the induction needs any text
behind the trees.

* `Expr.legible_of_parseSource`: the trees of sources are legible.
* `printed_eq_iff`: their printed forms are equal just when they are.
-/

namespace LoxSyntax

open Printed (Atom Closed Plain)

namespace Expr

/-- A tree of scanned tokens that are where tokens of their kinds belong. -/
inductive Legible : Expr → Prop
  | literal {token : Token} :
    token.Scanned → token.isLiteral = true → Legible (.literal token)
  | grouping {inner : Expr} {opener : Token} :
    opener.Scanned → opener.kind = .leftParen → Legible inner →
    Legible (.grouping inner (some opener))
  | unary {operator : Token} {operand : Expr} :
    operator.Scanned → operator.kind.isOperator = true → Legible operand →
    Legible (.unary operator operand)
  | binary {left right : Expr} {operator : Token} :
    operator.Scanned → operator.kind.isOperator = true → Legible left → Legible right →
    Legible (.binary left operator right)

/-- A shaped tree of scanned tokens is legible. -/
theorem Shaped.legible {e : Expr} (h : e.Shaped) (scanned : ∀ t ∈ e.anchors, t.Scanned) :
    e.Legible := by
  induction h with
  | literal literal => exact .literal (scanned _ (List.mem_singleton_self _)) literal
  | grouping opens _ ih =>
    obtain ⟨opener, inside⟩ := List.forall_mem_cons.mp scanned
    exact .grouping opener opens (ih inside)
  | unary has _ _ ih =>
    obtain ⟨operator, inside⟩ := List.forall_mem_cons.mp scanned
    refine .unary operator ?_ (ih inside)
    rw [Kind.isOperator, has, Bool.true_or]
  | binary level has _ _ _ _ ihLeft ihRight =>
    obtain ⟨left, behind⟩ := List.forall_mem_append.mp scanned
    obtain ⟨operator, right⟩ := List.forall_mem_cons.mp behind
    refine .binary operator ?_ (ihLeft left) (ihRight right)
    rw [Kind.isOperator, Level.of?_of_has has, Option.isSome_some, Bool.or_true]

/-- The tree of a source is legible. -/
theorem legible_of_parseSource {source : String} {e : Expr} (h : parseSource source = .ok e) :
    e.Legible := by
  obtain ⟨scanned, after, parsed⟩ := exists_parse_of_parseSource h
  obtain ⟨reached, read, -⟩ := Cursor.parse_eq_ok parsed
  obtain ⟨ts, spells, among⟩ := Cursor.exists_spells_of_parse parsed
  have history := TokenStream.History.of_scan_ok scanned
  have shaped := (Cursor.reads_of_read read).shaped
  exact shaped.legible fun t member =>
    history.scanned ((spells.anchors_sublist.trans among).mem member)

/-! ## Printed trees in front of other texts -/

section Printed

variable (operator : Token) (left right inner : Expr) (rest : List Char)

theorem printed_grouping_append (paren : Option Token) :
    (grouping inner paren).printed.toList ++ rest =
      '(' :: ("group".toList ++ ' ' :: (inner.printed.toList ++ ')' :: rest)) := by
  simp [printed]

theorem printed_unary_append :
    (unary operator inner).printed.toList ++ rest =
      '(' :: (operator.text.toList ++ ' ' :: (inner.printed.toList ++ ')' :: rest)) := by
  simp [printed]

theorem printed_binary_append :
    (binary left operator right).printed.toList ++ rest =
      '(' :: (operator.text.toList ++ ' ' :: (left.printed.toList ++
        ' ' :: (right.printed.toList ++ ')' :: rest))) := by
  simp [printed]

end Printed

/-! ## Unique reading -/

/-- A word between a parenthesis and a space is the one that stands there. -/
theorem word_unique {w w' rest rest' : List Char} (h : Plain w) (h' : Plain w')
    (same : '(' :: (w ++ ' ' :: rest) = '(' :: (w' ++ ' ' :: rest')) : w = w' ∧ rest = rest' := by
  have inside := (List.cons.inj same).2
  obtain ⟨words, behind⟩ :=
    (Atom.plain h).unique (.plain h') (.space rest) (.space rest') inside
  exact ⟨words, (List.cons.inj behind).2⟩

/-- An operator is not the name of a grouping. -/
theorem group_ne_operator {operator : Token} {rest rest' : List Char} (scanned : operator.Scanned)
    (kind : operator.kind.isOperator = true) :
    '(' :: ("group".toList ++ ' ' :: rest) ≠ '(' :: (operator.text.toList ++ ' ' :: rest') := by
  intro same
  obtain ⟨plain, other⟩ := scanned.plain_text kind
  have group : Plain "group".toList := ⟨nofun, by decide⟩
  exact other (String.toList_inj.mp (word_unique group plain same).1).symm

/-- Operators of one text are the same, and what stands behind them is, too. -/
theorem operator_unique {operator operator' : Token} {rest rest' : List Char}
    (scanned : operator.Scanned) (kind : operator.kind.isOperator = true)
    (scanned' : operator'.Scanned) (kind' : operator'.kind.isOperator = true)
    (same : '(' :: (operator.text.toList ++ ' ' :: rest) =
      '(' :: (operator'.text.toList ++ ' ' :: rest')) :
    operator.essence = operator'.essence ∧ rest = rest' := by
  obtain ⟨plain, -⟩ := scanned.plain_text kind
  obtain ⟨plain', -⟩ := scanned'.plain_text kind'
  obtain ⟨texts, behind⟩ := word_unique plain plain' same
  have word {k : Kind} (h : k.isOperator = true) : k ≠ .identifier := by
    intro identifier
    rw [identifier] at h
    cases h
  exact ⟨scanned.essence_eq_of_text scanned' (word kind) (word kind') (String.toList_inj.mp texts),
    behind⟩

/-- Literals of one text are the same, and what stands behind them is, too. -/
theorem literal_unique {token token' : Token} {rest rest' : List Char} (scanned : token.Scanned)
    (kind : token.isLiteral = true) (scanned' : token'.Scanned) (kind' : token'.isLiteral = true)
    (closed : Closed rest) (closed' : Closed rest')
    (same : token.text.toList ++ rest = token'.text.toList ++ rest') :
    token.essence = token'.essence ∧ rest = rest' := by
  obtain ⟨texts, behind⟩ :=
    (scanned.atom_text kind).unique (scanned'.atom_text kind') closed closed' same
  have word {t : Token} (h : t.isLiteral = true) : t.kind ≠ .identifier := by
    intro identifier
    rw [Token.isLiteral, identifier] at h
    cases h
  exact ⟨scanned.essence_eq_of_text scanned' (word kind) (word kind') (String.toList_inj.mp texts),
    behind⟩

/-- Two legible trees whose printed forms start one text, each with something closed behind
it, are the same but for lines and the texts of numbers, and end at the same place. -/
theorem Legible.essence_eq_of_append {e e' : Expr} (h : e.Legible) (h' : e'.Legible)
    {rest rest' : List Char} (closed : Closed rest) (closed' : Closed rest')
    (same : e.printed.toList ++ rest = e'.printed.toList ++ rest') :
    e.mapTokens Token.essence = e'.mapTokens Token.essence ∧ rest = rest' := by
  induction h generalizing e' rest rest' with
  | @literal token scanned kind =>
    have atom := scanned.atom_text kind
    cases h' with
    | literal scanned' kind' =>
      obtain ⟨tokens, behind⟩ := literal_unique scanned kind scanned' kind' closed closed' same
      exact ⟨congrArg Expr.literal tokens, behind⟩
    | grouping _ _ _ =>
      rw [printed_grouping_append] at same
      exact absurd same (atom.append_ne_paren _ _)
    | unary _ _ _ =>
      rw [printed_unary_append] at same
      exact absurd same (atom.append_ne_paren _ _)
    | binary _ _ _ _ =>
      rw [printed_binary_append] at same
      exact absurd same (atom.append_ne_paren _ _)
  | @grouping inner opener scanned kind _ ih =>
    rw [printed_grouping_append] at same
    cases h' with
    | literal scanned' kind' =>
      exact absurd same.symm ((scanned'.atom_text kind').append_ne_paren _ _)
    | grouping scanned' kind' inside' =>
      rw [printed_grouping_append] at same
      have group : Plain "group".toList := ⟨nofun, by decide⟩
      obtain ⟨-, behind⟩ := word_unique group group same
      obtain ⟨inside, ends⟩ := ih inside' (.paren _) (.paren _) behind
      refine ⟨?_, (List.cons.inj ends).2⟩
      simp only [mapTokens, inside, Option.map_some, scanned.essence_of_leftParen kind,
        scanned'.essence_of_leftParen kind']
    | unary scanned' kind' _ =>
      rw [printed_unary_append] at same
      exact absurd same (group_ne_operator scanned' kind')
    | binary scanned' kind' _ _ =>
      rw [printed_binary_append] at same
      exact absurd same (group_ne_operator scanned' kind')
  | @unary operator operand scanned kind _ ih =>
    rw [printed_unary_append] at same
    cases h' with
    | literal scanned' kind' =>
      exact absurd same.symm ((scanned'.atom_text kind').append_ne_paren _ _)
    | grouping _ _ _ =>
      rw [printed_grouping_append] at same
      exact absurd same.symm (group_ne_operator scanned kind)
    | unary scanned' kind' inside' =>
      rw [printed_unary_append] at same
      obtain ⟨operators, behind⟩ := operator_unique scanned kind scanned' kind' same
      obtain ⟨inside, ends⟩ := ih inside' (.paren _) (.paren _) behind
      refine ⟨?_, (List.cons.inj ends).2⟩
      rw [mapTokens, mapTokens, operators, inside]
    | binary scanned' kind' left' _ =>
      -- one ends behind its operand, where the other goes on
      rw [printed_binary_append] at same
      obtain ⟨-, behind⟩ := operator_unique scanned kind scanned' kind' same
      obtain ⟨-, ends⟩ := ih left' (.paren _) (.space _) behind
      cases ends
  | @binary left right operator scanned kind _ _ ihLeft ihRight =>
    rw [printed_binary_append] at same
    cases h' with
    | literal scanned' kind' =>
      exact absurd same.symm ((scanned'.atom_text kind').append_ne_paren _ _)
    | grouping _ _ _ =>
      rw [printed_grouping_append] at same
      exact absurd same.symm (group_ne_operator scanned kind)
    | unary scanned' kind' inside' =>
      rw [printed_unary_append] at same
      obtain ⟨-, behind⟩ := operator_unique scanned kind scanned' kind' same
      obtain ⟨-, ends⟩ := ihLeft inside' (.space _) (.paren _) behind
      cases ends
    | binary scanned' kind' left' right' =>
      rw [printed_binary_append] at same
      obtain ⟨operators, behind⟩ := operator_unique scanned kind scanned' kind' same
      obtain ⟨lefts, goesOn⟩ := ihLeft left' (.space _) (.space _) behind
      obtain ⟨rights, ends⟩ := ihRight right' (.paren _) (.paren _) (List.cons.inj goesOn).2
      refine ⟨?_, (List.cons.inj ends).2⟩
      rw [mapTokens, mapTokens, operators, lefts, rights]

/-- Lines and the texts of numbers are not printed. -/
theorem printed_mapTokens_essence (e : Expr) : (e.mapTokens Token.essence).printed = e.printed := by
  induction e with
  | literal token => exact token.text_essence
  | grouping inner paren ih => rw [mapTokens, printed, ih, printed]
  | unary operator operand ih => rw [mapTokens, printed, ih, operator.text_essence, printed]
  | binary left operator right ihLeft ihRight =>
    rw [mapTokens, printed, ihLeft, ihRight, operator.text_essence, printed]

/-- Legible trees are printed alike just when they are the same but for lines and the texts
of numbers. -/
theorem Legible.printed_eq_iff_essence {e e' : Expr} (h : e.Legible) (h' : e'.Legible) :
    e.printed = e'.printed ↔ e.mapTokens Token.essence = e'.mapTokens Token.essence := by
  constructor
  · intro same
    have texts : e.printed.toList ++ [] = e'.printed.toList ++ [] := by rw [same]
    exact (h.essence_eq_of_append h' .nil .nil texts).1
  · intro same
    rw [← printed_mapTokens_essence e, same, printed_mapTokens_essence]

/-- A legible tree can be printed. -/
theorem Legible.shown_eq {e : Expr} (h : e.Legible) : e.shown = .ok (.text e.printed) := by
  have printable : e.printError? = none := by
    induction h with
    | literal scanned _ => exact scanned.textError?_eq_none
    | grouping _ _ _ ih => exact ih
    | unary scanned _ _ ih => rw [printError?, scanned.textError?_eq_none, ih, Option.none_or]
    | binary scanned _ _ _ ihLeft ihRight =>
      rw [printError?, scanned.textError?_eq_none, ihLeft, ihRight, Option.none_or,
        Option.none_or]
  refine shown_eq_printed printable fun token literal identifier => ?_
  subst literal
  cases h with
  | literal _ kind =>
    rw [Token.isLiteral, identifier] at kind
    cases kind

/-- Where equality of replaced tokens, field by field, is equality, so it is for the trees
that they are replaced in. -/
theorem Legible.same_mapTokens_iff {f : Token → Token}
    (tokens : ∀ {t u : Token}, t.Scanned → u.Scanned → ((f t).same (f u) = true ↔ f t = f u))
    {e e' : Expr} (h : e.Legible) (h' : e'.Legible) :
    (e.mapTokens f).same (e'.mapTokens f) = true ↔ e.mapTokens f = e'.mapTokens f := by
  induction h generalizing e' with
  | literal scanned _ =>
    cases h' with
    | literal scanned' _ =>
      rw [mapTokens, mapTokens, same, literal.injEq]
      exact tokens scanned scanned'
    | _ => exact iff_of_false Bool.false_ne_true (by intro forms; cases forms)
  | grouping scanned _ _ ih =>
    cases h' with
    | grouping scanned' _ inside' =>
      simp only [mapTokens, Option.map_some, same, Bool.and_eq_true, grouping.injEq,
        Option.some.injEq, ih inside', tokens scanned scanned']
    | _ => exact iff_of_false Bool.false_ne_true (by intro forms; cases forms)
  | unary scanned _ _ ih =>
    cases h' with
    | unary scanned' _ inside' =>
      simp only [mapTokens, same, Bool.and_eq_true, unary.injEq, ih inside',
        tokens scanned scanned']
    | _ => exact iff_of_false Bool.false_ne_true (by intro forms; cases forms)
  | binary scanned _ _ _ ihLeft ihRight =>
    cases h' with
    | binary scanned' _ left' right' =>
      simp only [mapTokens, same, Bool.and_eq_true, binary.injEq, ihLeft left',
        ihRight right', tokens scanned scanned', and_assoc]
    | _ => exact iff_of_false Bool.false_ne_true (by intro forms; cases forms)

/-- Equality of legible trees without their lines and the texts of numbers, token by token, is
equality. -/
theorem Legible.same_essence_iff {e e' : Expr} (h : e.Legible) (h' : e'.Legible) :
    (e.mapTokens Token.essence).same (e'.mapTokens Token.essence) = true ↔
      e.mapTokens Token.essence = e'.mapTokens Token.essence :=
  h.same_mapTokens_iff Token.Scanned.same_essence_iff h'

end Expr

/-- The printed form is unambiguous: the trees of two sources can be printed, and are printed
alike just when they are equal but for lines and the texts that numbers were read from. -/
theorem printed_eq_iff (a b : String) (e₁ e₂ : Expr) (first : parseSource a = .ok e₁)
    (second : parseSource b = .ok e₂) :
    e₁.shown = .ok (.text e₁.printed) ∧ e₂.shown = .ok (.text e₂.printed) ∧
      (e₁.printed = e₂.printed ↔
        (e₁.mapTokens Token.essence).same (e₂.mapTokens Token.essence) = true) ∧
      (e₁.printed = e₂.printed ↔ e₁.mapTokens Token.essence = e₂.mapTokens Token.essence) := by
  have legible := Expr.legible_of_parseSource first
  have legible' := Expr.legible_of_parseSource second
  have iff := legible.printed_eq_iff_essence legible'
  refine ⟨legible.shown_eq, legible'.shown_eq, ?_, iff⟩
  exact iff.trans (legible.same_essence_iff legible').symm

/-- Two spellings of a number on different lines make different trees of one printed form. -/
theorem printed_eq_iff_number :
    let minus : Token := ⟨.minus, "-", .absent, 1⟩
    let value : Value := .number ⟨false, 1023, 0x8000000000000⟩
    let e₁ : Expr := .unary minus (.literal ⟨.number, "1.50", value, 1⟩)
    let e₂ : Expr := .unary minus (.literal ⟨.number, "1.5", value, 2⟩)
    parseSource "-1.50" = .ok e₁ ∧ parseSource "-\n1.5" = .ok e₂ ∧ e₁ ≠ e₂ ∧
      e₁.mapTokens Token.essence = e₂.mapTokens Token.essence ∧ e₁.printed = e₂.printed := by
  have first : parseSource "-1.50" = .ok (.unary ⟨.minus, "-", .absent, 1⟩
      (.literal ⟨.number, "1.50", .number ⟨false, 1023, 0x8000000000000⟩, 1⟩)) := by
    decide +kernel
  have second : parseSource "-\n1.5" = .ok (.unary ⟨.minus, "-", .absent, 1⟩
      (.literal ⟨.number, "1.5", .number ⟨false, 1023, 0x8000000000000⟩, 2⟩)) := by
    decide +kernel
  obtain ⟨-, -, -, iff⟩ := printed_eq_iff _ _ _ _ first second
  exact ⟨first, second, by decide, by decide, iff.mpr (by decide)⟩

end LoxSyntax
