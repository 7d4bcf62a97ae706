import LoxSyntax.Cursor

/-!
# The rules by recursive descent

The rules are carried out token by token by a reader, a cursor that counts the levels of nesting
open around it: each parenthesis and each unary operator raises the count, checks it against the
limit, and lowers it again when what it opened has been read or has failed. A reading is a
program on the reader's state, and keeps the state that a failure left.

The calls stand on a stack that has room for so many calls of the unary rule, one for each level
of nesting that is open and one more. A parse that exhausts the stack is refused like one above
the limit (`Reading.exhausted`). A reading on its own has no answer to that: it is meant for a
stack that it cannot exhaust, and gives the answer of the parse.

* `Reading.nonterminal` reads a nonterminal, and `Reading.parse` an expression that should be all
  there is.
-/

namespace LoxSyntax

/-- A cursor that counts the levels of nesting that are open around it. -/
structure Reader extends Cursor where
  depth : Int := 0
deriving DecidableEq, Repr

/-- A program on a reader. -/
abbrev Reading (α : Type) :=
  EStateM Failure Reader α

namespace Reading

variable (s : TokenStream)

/-! ## Single tokens -/

/-- Whether the cursor stands behind the last token. -/
def atEnd : Reading Bool := do
  return (← get).toCursor.atEnd s

/-- The token at the cursor. -/
def peek : Reading Token := do
  ofExcept ((← get).toCursor.peek s)

/-- The token before the cursor. -/
def previous : Reading Token := do
  ofExcept ((← get).toCursor.previous s)

/-- The token at the cursor, which moves behind it. -/
def advance : Reading Token := do
  let t ← peek s
  modify fun c => { c with position := c.position + 1 }
  return t

/-- Whether a token of the kind stands at the cursor. -/
def check (kind : Kind) : Reading Bool := do
  if ← atEnd s then
    return false
  return (← peek s).kind == kind

/-- Moves the cursor behind the token at it if that is of one of the kinds, and says whether
it was. -/
def accept : List Kind → Reading Bool
  | [] => return false
  | kind :: kinds => do
    if ← check s kind then
      let _ ← advance s
      return true
    accept kinds

/-! ## The rules -/

/-- Carries out the reading one level deeper, behind the token that opens the level. -/
def nested {α : Type} (opener : Token) (body : Reading α) : Reading α := do
  modify fun c => { c with depth := c.depth + 1 }
  try
    let c ← get
    if c.limit < c.depth then
      throw (.grammatical (.nestedTooDeeply opener.line c.limit))
    body
  finally
    modify fun c => { c with depth := c.depth - 1 }

/-- Reads the operators of a level and the operands behind them, for as many turns at most. -/
def chain (level : Level) (operand : Reading Expr) : (turns : Nat) → Expr → Reading Expr
  | 0, left => return left
  | turns + 1, left => do
    if ← accept s level.operators then
      let operator ← previous s
      let right ← operand
      chain level operand turns (.binary left operator right)
    else
      return left

/-- Reads operands joined by the operators of a level. -/
def operands (level : Level) (operand : Reading Expr) : Reading Expr := do
  let left ← operand
  chain s level operand s.count left

/-- Reads everything that an expression may be, over the reading of operands. -/
def expressionOver (unary : Reading Expr) : Reading Expr :=
  operands s .equality (operands s .comparison (operands s .term (operands s .factor unary)))

/-- Passes over the parenthesis that closes a group. -/
def close (opener : Token) : Reading Unit := do
  if ← accept s [.rightParen] then
    return ()
  if ← atEnd s then
    throw (.grammatical (.unclosedDelimiter opener none s.lastLine))
  let found ← peek s
  throw (.grammatical (.unclosedDelimiter opener (some found) found.line))

/-- Reads literals and parenthesized expressions. -/
def primaryOver (unary : Reading Expr) : Reading Expr := do
  if ← atEnd s then
    throw (.grammatical (.unexpectedEnd "expression" s.lastLine))
  let t ← peek s
  if t.isLiteral then
    let _ ← advance s
    return .literal t
  if t.kind = .leftParen then
    let _ ← advance s
    let inner ← nested t (expressionOver s unary)
    close s t
    return .grouping inner (some t)
  throw (.grammatical (.unexpectedToken t))

/-- Reads operands with any number of unary operators in front. -/
def unaryOver (unary : Reading Expr) : Reading Expr := do
  if ← accept s unaryOperators then
    let operator ← previous s
    let operand ← nested operator unary
    return .unary operator operand
  primaryOver s unary

/-- What a parse makes of an exhausted stack: what is ahead is nested too deeply. The error is on
the line of the token at the cursor, or on that of the last token behind it. -/
def exhausted : Reading Expr := do
  let line ← if ← atEnd s then pure s.lastLine else Token.line <$> peek s
  throw (.grammatical (.nestedTooDeeply line (← get).limit))

/-- Reads operands with so many calls on the stack at most. A call that the stack has no room for
is refused where it is made: the cursor does not move while the calls around it end. -/
def unary : (frames : Nat) → Reading Expr
  | 0 => exhausted s
  | frames + 1 => unaryOver s (unary frames)

/-- Reads a nonterminal with so many calls on the stack at most. -/
def nonterminal (frames : Nat) : Nonterminal → Reading Expr
  | .expression => expressionOver s (unary s frames)
  | .equality => expressionOver s (unary s frames)
  | .comparison =>
    operands s .comparison (operands s .term (operands s .factor (unary s frames)))
  | .term => operands s .term (operands s .factor (unary s frames))
  | .factor => operands s .factor (unary s frames)
  | .unary => unary s frames
  | .primary => primaryOver s (unary s frames)

/-- Reads an expression with so many calls on the stack at most, from a count of zero, and warns
of the tokens left over. -/
def parse (frames : Nat) : Reading Expr := do
  modify fun c => { c with depth := 0 }
  let e ← nonterminal s frames .expression
  if ← atEnd s then
    return e
  let t ← peek s
  modify fun c => { c with warnings := c.warnings.push ⟨t⟩ }
  return e

end Reading

end LoxSyntax
