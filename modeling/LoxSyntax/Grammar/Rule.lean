import LoxSyntax.Expr.Basic
import LoxSyntax.Grammar.Error
import LoxSyntax.Grammar.Level

/-!
# The rules of the grammar

    expression → equality
    equality   → comparison (("!=" | "==") comparison)*
    comparison → term ((">" | ">=" | "<" | "<=") term)*
    term       → factor (("-" | "+") factor)*
    factor     → unary (("/" | "*") unary)*
    unary      → ("!" | "-") unary | primary
    primary    → number | string | "true" | "false" | "nil" | "(" expression ")"

A rule reads a tree from the head of a row of tokens and says how many tokens it
used, or says what is wrong and how many tokens it used before. Parentheses and
unary operators open a level of nesting each. The rules of one level are written
over the unary rule of the next one, which is absent where no further level may
be opened, so that the whole grammar is one recursion on the number of levels.

* `leftAssociative` is the rule of a level of binary operators, `foldOperators_eq` its
  loop as a recursion on the tokens left, and `foldOperators_induction` the induction
  along that loop.
* `unaryOver`, `primaryOver` and `expressionOver` are the other rules.
* `Nonterminal.rule` is each rule for a given number of levels.
-/

namespace LoxSyntax

/-- What a rule makes of a row of tokens: a tree or an error, and the number of
tokens used. -/
inductive Outcome
  | parsed (tree : Expr) (used : Nat)
  | failed (error : SyntaxError) (used : Nat)
deriving DecidableEq, Repr

/-- A rule of the grammar. -/
abbrev Rule := List Token → Outcome

/-- What the rules need to know besides the tokens ahead: the nesting limit that
errors name, and the line where the tokens end. -/
structure Surroundings where
  limit : Int
  endLine : Int
deriving DecidableEq, Repr

/-! ## Binary operators -/

/-- The rest of a row of operands joined by the operators of a level, behind the
tree `left`, which used `used` tokens in all; the first `covered` of the tokens
given belong to it. -/
def foldOperators (level : Level) (operand : Rule) :
    (used covered : Nat) → (left : Expr) → List Token → Outcome
  | used, covered, left, [] => .parsed left (used + covered)
  | used, covered + 1, left, _ :: rest => foldOperators level operand (used + 1) covered left rest
  | used, 0, left, operator :: rest =>
    if level.has operator.kind then
      match operand rest with
      | .parsed right n =>
        foldOperators level operand (used + 1) n (.binary left operator right) rest
      | .failed error n => .failed error (used + 1 + n)
    else .parsed left used

/-- Operands joined by the operators of a level, grouped to the left. -/
def leftAssociative (level : Level) (operand : Rule) : Rule := fun tokens =>
  match operand tokens with
  | .parsed left n => foldOperators level operand 0 n left tokens
  | .failed error n => .failed error n

/-- The tokens of the left operand are passed over first. -/
theorem foldOperators_eq (level : Level) (operand : Rule) (used covered : Nat) (left : Expr)
    (tokens : List Token) :
    foldOperators level operand used covered left tokens =
      foldOperators level operand (used + covered) 0 left (tokens.drop covered) := by
  induction tokens generalizing used covered with
  | nil => cases covered <;> simp [foldOperators]
  | cons t rest ih =>
    cases covered with
    | zero => rfl
    | succ covered =>
      rw [foldOperators, ih, List.drop_succ_cons, Nat.add_right_comm, Nat.add_assoc]

/-- Without an operator of the level ahead, the tree so far is all there is. -/
theorem foldOperators_of_head {level : Level} {operand : Rule} {used : Nat} {left : Expr}
    {tokens : List Token} (h : ∀ t ∈ tokens.head?, level.has t.kind = false) :
    foldOperators level operand used 0 left tokens = .parsed left used := by
  cases tokens with
  | nil => rfl
  | cons t rest => rw [foldOperators, if_neg (by simp [h t rfl])]

/-- With an operator of the level ahead, the operand behind it is read next. -/
theorem foldOperators_of_has {level : Level} {operand : Rule} {used : Nat} {left : Expr}
    {operator : Token} {rest : List Token} (h : level.has operator.kind = true) :
    foldOperators level operand used 0 left (operator :: rest) =
      match operand rest with
      | .parsed right n =>
        foldOperators level operand (used + 1 + n) 0 (.binary left operator right) (rest.drop n)
      | .failed error n => .failed error (used + 1 + n) := by
  rw [foldOperators, if_pos h]
  cases operand rest with
  | parsed right n => exact foldOperators_eq _ _ _ _ _ _
  | failed error n => rfl

/-- Induction along the loop of a level: what holds where the loop stops and where an
operand fails, and is carried from behind an operand to before its operator, holds of
every run of the loop. -/
theorem foldOperators_induction {level : Level} {operand : Rule}
    {motive : Nat → Expr → List Token → Outcome → Prop}
    (stop : ∀ used left tokens, (∀ t ∈ tokens.head?, level.has t.kind = false) →
      motive used left tokens (.parsed left used))
    (step : ∀ used left operator rest right n outcome, level.has operator.kind = true →
      operand rest = .parsed right n →
      motive (used + 1 + n) (.binary left operator right) (rest.drop n) outcome →
      motive used left (operator :: rest) outcome)
    (fail : ∀ used left operator rest error n, level.has operator.kind = true →
      operand rest = .failed error n →
      motive used left (operator :: rest) (.failed error (used + 1 + n)))
    (used : Nat) (left : Expr) (tokens : List Token) :
    motive used left tokens (foldOperators level operand used 0 left tokens) := by
  induction length : tokens.length using Nat.strongRecOn generalizing used left tokens with
  | ind length ih =>
    by_cases ahead : ∀ t ∈ tokens.head?, level.has t.kind = false
    · rw [foldOperators_of_head ahead]
      exact stop used left tokens ahead
    · cases tokens with
      | nil => exact absurd (fun t member => by cases member) ahead
      | cons operator rest =>
        have has : level.has operator.kind = true := by simpa using ahead
        rw [foldOperators_of_has has]
        cases next : operand rest with
        | parsed right n =>
          refine step used left operator rest right n _ has next (ih _ ?_ _ _ _ rfl)
          simp at length ⊢
          omega
        | failed error n => exact fail used left operator rest error n has next

/-! ## Operands -/

/-- Everything that an expression may be, over the unary rule of its level. -/
def expressionOver (unary : Rule) : Rule :=
  leftAssociative .equality (leftAssociative .comparison
    (leftAssociative .term (leftAssociative .factor unary)))

/-- The closing of a parenthesis around a tree, from the tokens behind the tree;
`used` tokens were used before them. -/
def closeGroup (around : Surroundings) (opener : Token) (inner : Expr) (used : Nat) : Rule
  | [] => .failed (.unclosedDelimiter opener none around.endLine) used
  | t :: _ =>
    if t.kind = .rightParen then .parsed (.grouping inner (some opener)) (used + 1)
    else .failed (.unclosedDelimiter opener (some t) t.line) used

/-- Literals and parenthesized expressions. `deeper` is the unary rule of the next
level of nesting. -/
def primaryOver (around : Surroundings) (deeper : Option Rule) : Rule
  | [] => .failed (.unexpectedEnd "expression" around.endLine) 0
  | t :: rest =>
    if t.isLiteral then .parsed (.literal t) 1
    else if t.kind = .leftParen then
      match deeper with
      | none => .failed (.nestedTooDeeply t.line around.limit) 1
      | some unary =>
        match expressionOver unary rest with
        | .parsed inner n => closeGroup around t inner (n + 1) (rest.drop n)
        | .failed error n => .failed error (n + 1)
    else .failed (.unexpectedToken t) 0

/-- Operands with any number of unary operators in front. -/
def unaryOver (around : Surroundings) (deeper : Option Rule) : Rule
  | [] => primaryOver around deeper []
  | t :: rest =>
    if t.kind.isUnaryOperator then
      match deeper with
      | none => .failed (.nestedTooDeeply t.line around.limit) 1
      | some unary =>
        match unary rest with
        | .parsed operand n => .parsed (.unary t operand) (n + 1)
        | .failed error n => .failed error (n + 1)
    else primaryOver around deeper (t :: rest)

/-! ### Operands by their first token -/

/-- A group with its parenthesis, from the tokens behind the parenthesis. -/
def groupOver (around : Surroundings) (opener : Token) (contents : Rule) : Rule := fun rest =>
  match contents rest with
  | .parsed inner n => closeGroup around opener inner (n + 1) (rest.drop n)
  | .failed error n => .failed error (n + 1)

/-- A unary tree with its operator, from the tokens behind the operator. -/
def operatorOver (operator : Token) (unary : Rule) : Rule := fun rest =>
  match unary rest with
  | .parsed operand n => .parsed (.unary operator operand) (n + 1)
  | .failed error n => .failed error (n + 1)

section FirstToken

variable {around : Surroundings} {deeper : Option Rule} {unary : Rule} {t : Token}
  {rest : List Token}

theorem primaryOver_of_isLiteral (h : t.isLiteral = true) :
    primaryOver around deeper (t :: rest) = .parsed (.literal t) 1 :=
  if_pos h

theorem not_isLiteral_of_leftParen (h : t.kind = .leftParen) : t.isLiteral = false := by
  rw [Token.isLiteral, h]
  rfl

/-- Where no further level may be opened, a parenthesis is one too many. -/
theorem primaryOver_of_leftParen_none (h : t.kind = .leftParen) :
    primaryOver around none (t :: rest) = .failed (.nestedTooDeeply t.line around.limit) 1 := by
  simp [primaryOver, not_isLiteral_of_leftParen h, h]

theorem primaryOver_of_leftParen_some (h : t.kind = .leftParen) :
    primaryOver around (some unary) (t :: rest) =
      groupOver around t (expressionOver unary) rest := by
  simp [primaryOver, groupOver, not_isLiteral_of_leftParen h, h]

theorem primaryOver_of_other (literal : ¬ t.isLiteral = true) (paren : t.kind ≠ .leftParen) :
    primaryOver around deeper (t :: rest) = .failed (.unexpectedToken t) 0 := by
  simp [primaryOver, literal, paren]

/-- Where no further level may be opened, a unary operator is one too many. -/
theorem unaryOver_of_operator_none (h : t.kind.isUnaryOperator = true) :
    unaryOver around none (t :: rest) = .failed (.nestedTooDeeply t.line around.limit) 1 := by
  simp [unaryOver, h]

theorem unaryOver_of_operator_some (h : t.kind.isUnaryOperator = true) :
    unaryOver around (some unary) (t :: rest) = operatorOver t unary rest := by
  simp [unaryOver, operatorOver, h]

theorem primaryOver_of_not_unaryOperator (h : t.kind.isUnaryOperator = false) :
    unaryOver around deeper (t :: rest) = primaryOver around deeper (t :: rest) := by
  simp [unaryOver, h]

end FirstToken

/-! ## The grammar -/

/-- The unary rule with room for a number of levels of nesting. -/
def unaryWithin (around : Surroundings) : (levels : Nat) → List Token → Outcome
  | 0, tokens => unaryOver around none tokens
  | levels + 1, tokens => unaryOver around (some fun rest => unaryWithin around levels rest) tokens

/-- The unary rule of the next level, if there is room for one. -/
def deeperWithin (around : Surroundings) : (levels : Nat) → Option Rule
  | 0 => none
  | levels + 1 => some (unaryWithin around levels)

theorem unaryWithin_eq (around : Surroundings) (levels : Nat) :
    unaryWithin around levels = unaryOver around (deeperWithin around levels) := by
  funext tokens
  cases levels <;> rfl

/-- The names on the left of the grammar's rules. -/
inductive Nonterminal
  | expression | equality | comparison | term | factor | unary | primary
deriving DecidableEq, Repr

/-- The rule of a nonterminal, with room for a number of levels of nesting. -/
def Nonterminal.rule (around : Surroundings) (levels : Nat) : Nonterminal → Rule
  | expression => expressionOver (unaryWithin around levels)
  | equality => expressionOver (unaryWithin around levels)
  | comparison =>
    leftAssociative .comparison (leftAssociative .term
      (leftAssociative .factor (unaryWithin around levels)))
  | term => leftAssociative .term (leftAssociative .factor (unaryWithin around levels))
  | factor => leftAssociative .factor (unaryWithin around levels)
  | unary => unaryWithin around levels
  | primary => primaryOver around (deeperWithin around levels)

end LoxSyntax
