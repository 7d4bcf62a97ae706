import LoxSyntax.Expr.Basic

/-!
# Printed expressions

Three views of a tree. `Expr.printed` writes it in prefix form, the operator in
front of its operands and every node but the literals in parentheses, so that
the shape of the tree can be read off. `Expr.debug` shows every field of every
token. `Expr.outline` lists the nodes, each one before its parts.

All of them go as deep as the tree is high, on a stack that is taken to have room for
that.

A tree made by hand may hold tokens that cannot be shown. `Expr.shown` is the
prefix form where there is one, and `Expr.shown_eq_printed` relates the two.
-/

namespace LoxSyntax

namespace Expr

/-- The tree in prefix form. -/
def printed : Expr → String
  | literal token => token.text
  | grouping inner _ => "(group " ++ inner.printed ++ ")"
  | unary operator operand => "(" ++ operator.text ++ " " ++ operand.printed ++ ")"
  | binary left operator right =>
    "(" ++ operator.text ++ " " ++ left.printed ++ " " ++ right.printed ++ ")"

/-- Why a tree cannot be printed, if it cannot: what is wrong with the first such
token in the order of printing. The parenthesis of a grouping is not printed. -/
def printError? : Expr → Option Token.TextError
  | literal token => token.textError?
  | grouping inner _ => inner.printError?
  | unary operator operand => operator.textError?.or operand.printError?
  | binary left operator right =>
    operator.textError?.or (left.printError?.or right.printError?)

/-- The tree in prefix form, if it can be printed. A tree of one token is shown as
that token. -/
def shown : Expr → Except Token.TextError Value
  | literal token => token.shown
  | e =>
    match e.printError? with
    | some error => .error error
    | none => .ok (.text e.printed)

/-- A tree that can be printed is shown in its prefix form, unless it is a single
identifier. -/
theorem shown_eq_printed {e : Expr} (printable : e.printError? = none)
    (compound : ∀ token, e = literal token → token.kind ≠ .identifier) :
    e.shown = .ok (.text e.printed) := by
  cases e with
  | literal token => exact Token.shown_eq_text printable (compound token rfl)
  | grouping inner paren => simp [shown, printable]
  | unary operator operand => simp [shown, printable]
  | binary left operator right => simp [shown, printable]

/-- The name of a node's form. -/
def formName : Expr → String
  | literal _ => "Literal"
  | grouping _ _ => "Grouping"
  | unary _ _ => "Unary"
  | binary _ _ _ => "Binary"

/-- Every field of every node. -/
def debug : Expr → String
  | literal token => "Literal(token=" ++ token.debug ++ ")"
  | grouping inner paren =>
    "Grouping(inner=" ++ inner.debug ++ ", paren=" ++ (paren.map Token.debug).getD "None" ++ ")"
  | unary operator operand =>
    "Unary(operator=" ++ operator.debug ++ ", operand=" ++ operand.debug ++ ")"
  | binary left operator right =>
    "Binary(left=" ++ left.debug ++ ", operator=" ++ operator.debug ++
      ", right=" ++ right.debug ++ ")"

-- the equations of `debug`, stated here because deriving them evaluates the long texts
section Debug

variable (token operator : Token) (paren : Option Token) (inner operand left right : Expr)

theorem debug_literal : (literal token).debug = "Literal(token=" ++ token.debug ++ ")" := rfl

theorem debug_grouping :
    (grouping inner paren).debug = "Grouping(inner=" ++ inner.debug ++ ", paren=" ++
      (paren.map Token.debug).getD "None" ++ ")" := rfl

theorem debug_unary :
    (unary operator operand).debug =
      "Unary(operator=" ++ operator.debug ++ ", operand=" ++ operand.debug ++ ")" := rfl

theorem debug_binary :
    (binary left operator right).debug =
      "Binary(left=" ++ left.debug ++ ", operator=" ++ operator.debug ++
        ", right=" ++ right.debug ++ ")" := rfl

end Debug

/-- The token a node is anchored at, unless it is a grouping without one. -/
def anchor? : Expr → Option Token
  | literal token => some token
  | grouping _ paren => paren
  | unary operator _ => some operator
  | binary _ operator _ => some operator

/-- A node in an outline: its depth below the root, the name of its form, its
line, and what its anchor shows. -/
structure OutlineEntry where
  depth : Nat
  form : String
  line : Int
  text : Option Value
deriving DecidableEq, Repr

/-- The entry of a node at a depth, if its anchor can be shown. -/
def entryAt (depth : Nat) (e : Expr) : Except Token.TextError OutlineEntry :=
  match e.anchor? with
  | none => .ok ⟨depth, e.formName, e.line, none⟩
  | some token => token.shown.map fun text => ⟨depth, e.formName, e.line, some text⟩

/-- The nodes of a tree whose root is at a depth, each before its parts and with
its own depth. -/
def nodesFrom (depth : Nat) : Expr → List (Nat × Expr)
  | literal token => [(depth, literal token)]
  | grouping inner paren => (depth, grouping inner paren) :: inner.nodesFrom (depth + 1)
  | unary operator operand => (depth, unary operator operand) :: operand.nodesFrom (depth + 1)
  | binary left operator right =>
    (depth, binary left operator right) ::
      (left.nodesFrom (depth + 1) ++ right.nodesFrom (depth + 1))

/-- The nodes of a tree, each before its parts, if all their anchors can be
shown. -/
def outline (e : Expr) : Except Token.TextError (List OutlineEntry) :=
  (e.nodesFrom 0).mapM fun (depth, node) => node.entryAt depth

end Expr

end LoxSyntax
