import LoxSyntax.Token.Basic

/-!
# Expressions

The tree of an expression. Every node is anchored at one token, which gives the
node its line: a literal at itself, a grouping at its opening parenthesis, the
others at their operator. A grouping made by hand may lack the parenthesis; it
then takes its line from what it groups.

`Expr.mapTokens` replaces the tokens of a tree, `Expr.anchors` lists them in the
order of the source, and `Expr.same` compares two trees node by node.
-/

namespace LoxSyntax

/-- The tree of an expression. -/
inductive Expr
  | literal (token : Token)
  | grouping (inner : Expr) (paren : Option Token)
  | unary (operator : Token) (operand : Expr)
  | binary (left : Expr) (operator : Token) (right : Expr)
deriving DecidableEq, Repr

namespace Expr

/-- The line of the token that anchors a node. -/
def line : Expr → Int
  | literal token => token.line
  | grouping _ (some paren) => paren.line
  | grouping inner none => inner.line
  | unary operator _ => operator.line
  | binary _ operator _ => operator.line

/-- The tree with every token replaced. -/
def mapTokens (f : Token → Token) : Expr → Expr
  | literal token => literal (f token)
  | grouping inner paren => grouping (inner.mapTokens f) (paren.map f)
  | unary operator operand => unary (f operator) (operand.mapTokens f)
  | binary left operator right => binary (left.mapTokens f) (f operator) (right.mapTokens f)

/-- The tokens of a tree in the order of the source. -/
def anchors : Expr → List Token
  | literal token => [token]
  | grouping inner paren => paren.toList ++ inner.anchors
  | unary operator operand => operator :: operand.anchors
  | binary left operator right => left.anchors ++ operator :: right.anchors

/-- Equality of trees, with tokens compared field by field. -/
def same : Expr → Expr → Bool
  | literal t, literal u => t.same u
  | grouping a none, grouping b none => a.same b
  | grouping a (some t), grouping b (some u) => a.same b && t.same u
  | unary t a, unary u b => t.same u && a.same b
  | binary a t b, binary c u d => a.same c && t.same u && b.same d
  | _, _ => false

theorem anchors_mapTokens (f : Token → Token) (e : Expr) :
    (e.mapTokens f).anchors = e.anchors.map f := by
  induction e with
  | literal token => rfl
  | grouping inner paren ih => cases paren <;> simp [mapTokens, anchors, ih]
  | unary operator operand ih => simp [mapTokens, anchors, ih]
  | binary left operator right ihLeft ihRight => simp [mapTokens, anchors, ihLeft, ihRight]

end Expr

end LoxSyntax
