import LoxSyntax.Grammar.Rule
import LoxSyntax.TokenStream

/-!
# Cursors

A cursor is a place in the tokens of a stream from which expressions are read.
It keeps the warnings of its readings and the nesting limit they are held to, and
nothing else: what a reading does depends on the tokens, the place and the limit
alone. A reading moves the cursor to where it ended or went wrong. Reading outside
the tokens is an error of the caller and moves nothing.

* `Cursor.read` reads a nonterminal, and `Cursor.parse` an expression that should
  be all there is, on a stack that is not exhausted; `Reading.parse` has the stack.
* `Cursor.advance`, `Cursor.peek` and `Cursor.previous` look at single tokens.
* `parseSource` reads a whole source.
-/

namespace LoxSyntax

/-- Why a source gives no expression, or a cursor no token. -/
inductive Failure
  | lexical (error : LexicalError)
  | grammatical (error : SyntaxError)
  | outOfRange (error : OutOfRange)
deriving DecidableEq, Repr

/-- The nesting limit of a new cursor. -/
def defaultNestingLimit : Int :=
  100

/-- A place in a row of tokens, the warnings of earlier readings, and the nesting
limit. -/
structure Cursor where
  position : Int := 0
  warnings : Array TrailingTokens := #[]
  limit : Int := defaultNestingLimit
deriving DecidableEq, Repr

namespace Cursor

/-! ## Single tokens -/

/-- The token at the cursor. -/
def peek (c : Cursor) (s : TokenStream) : Except Failure Token :=
  (s.tokenAt c.position).mapError .outOfRange

/-- The token before the cursor. -/
def previous (c : Cursor) (s : TokenStream) : Except Failure Token :=
  (s.tokenAt (c.position - 1)).mapError .outOfRange

/-- The token at the cursor, which moves behind it. -/
def advance (c : Cursor) (s : TokenStream) : Cursor × Except Failure Token :=
  match c.peek s with
  | .ok t => ({ c with position := c.position + 1 }, .ok t)
  | .error e => (c, .error e)

/-- Whether the cursor stands behind the last token. -/
def atEnd (c : Cursor) (s : TokenStream) : Bool :=
  c.position == s.count

/-! ## Readings -/

/-- The nesting limit as a number of levels: a negative limit allows none. -/
def levels (c : Cursor) : Nat :=
  c.limit.toNat

/-- Reads a nonterminal with room for a number of levels of nesting. -/
def readWithin (c : Cursor) (s : TokenStream) (levels : Nat) (n : Nonterminal) :
    Cursor × Except Failure Expr :=
  if c.position < 0 ∨ s.count < c.position then
    (c, .error (.outOfRange ⟨c.position, s.count⟩))
  else
    match n.rule ⟨c.limit, s.lastLine⟩ levels (s.tokens.toList.drop c.position.toNat) with
    | .parsed e used => ({ c with position := c.position + used }, .ok e)
    | .failed error used =>
      ({ c with position := c.position + used }, .error (.grammatical error))

/-- Reads a nonterminal under the cursor's own limit. -/
def read (c : Cursor) (s : TokenStream) (n : Nonterminal) : Cursor × Except Failure Expr :=
  c.readWithin s c.levels n

/-- A reading moves the cursor and changes nothing else of it. -/
theorem readWithin_eq_position (c : Cursor) (s : TokenStream) (levels : Nat) (n : Nonterminal) :
    (c.readWithin s levels n).1 =
      { c with position := (c.readWithin s levels n).1.position } := by
  unfold readWithin
  split
  · rfl
  · split <;> rfl

/-- Outside the tokens nothing is read. -/
theorem readWithin_of_outside {c : Cursor} {s : TokenStream} (levels : Nat) (n : Nonterminal)
    (h : c.position < 0 ∨ s.count < c.position) :
    c.readWithin s levels n = (c, .error (.outOfRange ⟨c.position, s.count⟩)) :=
  if_pos h

/-- The tokens from the cursor on. -/
def ahead (c : Cursor) (s : TokenStream) : List Token :=
  s.tokens.toList.drop c.position.toNat

/-- What the rules need to know besides the tokens ahead of the cursor. -/
def surroundings (c : Cursor) (s : TokenStream) : Surroundings :=
  ⟨c.limit, s.lastLine⟩

/-- Within the tokens the cursor moves as far as the rule used them, whether it reads a
tree or fails. -/
theorem readWithin_of_inside {c : Cursor} {s : TokenStream} (levels : Nat) (n : Nonterminal)
    (h : 0 ≤ c.position ∧ c.position ≤ s.count) :
    c.readWithin s levels n =
      match n.rule (c.surroundings s) levels (c.ahead s) with
      | .parsed e used => ({ c with position := c.position + used }, .ok e)
      | .failed error used =>
        ({ c with position := c.position + used }, .error (.grammatical error)) :=
  if_neg (by omega)

/-- A tree comes from the rule, on tokens within the stream. -/
theorem readWithin_eq_ok {c after : Cursor} {s : TokenStream} {levels : Nat} {n : Nonterminal}
    {e : Expr} (h : c.readWithin s levels n = (after, .ok e)) :
    0 ≤ c.position ∧ c.position ≤ s.count ∧ ∃ used,
      n.rule (c.surroundings s) levels (c.ahead s) = .parsed e used ∧
      after = { c with position := c.position + used } := by
  by_cases outside : c.position < 0 ∨ s.count < c.position
  · rw [readWithin_of_outside levels n outside] at h
    cases h
  · have inside : 0 ≤ c.position ∧ c.position ≤ s.count := by omega
    refine ⟨inside.1, inside.2, ?_⟩
    rw [readWithin_of_inside levels n inside] at h
    split at h
    · rename_i tree used result
      cases h
      exact ⟨used, result, rfl⟩
    · cases h

/-- The cursor after a complete expression: tokens left over are warned of. -/
def warnOfRest (c : Cursor) (s : TokenStream) : Cursor :=
  match c.peek s with
  | .ok t => { c with warnings := c.warnings.push ⟨t⟩ }
  | .error _ => c

/-- Reads an expression with room for a number of levels of nesting, and warns of
the tokens left over. -/
def parseWithin (c : Cursor) (s : TokenStream) (levels : Nat) : Cursor × Except Failure Expr :=
  match c.readWithin s levels .expression with
  | (after, .ok e) => (after.warnOfRest s, .ok e)
  | (after, .error e) => (after, .error e)

/-- The token warned of is the first one ahead. -/
theorem warnOfRest_eq {c : Cursor} {s : TokenStream} (h : 0 ≤ c.position) :
    c.warnOfRest s =
      { c with warnings := c.warnings ++ ((c.ahead s).head?.map TrailingTokens.mk).toArray } := by
  have first : (c.ahead s).head? = s.tokens[c.position.toNat]? := by
    rw [ahead, List.head?_drop, Array.getElem?_toList]
  unfold warnOfRest peek TokenStream.tokenAt
  rw [first, if_neg (by omega)]
  cases s.tokens[c.position.toNat]? with
  | none =>
    show c = _
    simp
  | some t =>
    show { c with warnings := c.warnings.push ⟨t⟩ } = _
    simp

/-- The warning leaves the cursor where it is. -/
theorem position_warnOfRest (c : Cursor) (s : TokenStream) :
    (c.warnOfRest s).position = c.position := by
  unfold warnOfRest
  split <;> rfl

/-- Reads an expression under the cursor's own limit, and warns of the tokens left
over. This is what the descent `Reading.parse` comes to on a stack that it does not
exhaust (`Reader.run_parse_eq`), and it comes to nothing else but a refusal on any
stack (`Reader.run_parse_or_exhausted`). -/
def parse (c : Cursor) (s : TokenStream) : Cursor × Except Failure Expr :=
  c.parseWithin s c.levels

/-- A parse gives the tree of the reading and stops where the reading stops. -/
theorem parse_eq_ok {c after : Cursor} {s : TokenStream} {e : Expr}
    (h : c.parse s = (after, .ok e)) :
    ∃ reached, c.read s .expression = (reached, .ok e) ∧ after = reached.warnOfRest s := by
  unfold parse parseWithin at h
  split at h
  · rename_i reached tree result
    cases h
    exact ⟨reached, result, rfl⟩
  · cases h

/-- Where the rule of expressions reads a tree, the parse gives that tree, and a warning
if tokens are left over. -/
theorem parse_of_parsed {c : Cursor} {s : TokenStream} {e : Expr} {used : Nat}
    (h : 0 ≤ c.position ∧ c.position ≤ s.count)
    (parsed : Nonterminal.expression.rule (c.surroundings s) c.levels (c.ahead s) =
      .parsed e used) :
    c.parse s = (({ c with position := c.position + used } : Cursor).warnOfRest s, .ok e) := by
  unfold parse parseWithin
  rw [readWithin_of_inside _ _ h, parsed]

/-- Where the rule of expressions fails, the parse fails in the same way. -/
theorem parse_of_failed {c : Cursor} {s : TokenStream} {error : SyntaxError} {used : Nat}
    (h : 0 ≤ c.position ∧ c.position ≤ s.count)
    (failed : Nonterminal.expression.rule (c.surroundings s) c.levels (c.ahead s) =
      .failed error used) :
    c.parse s = ({ c with position := c.position + used }, .error (.grammatical error)) := by
  unfold parse parseWithin
  rw [readWithin_of_inside _ _ h, failed]

/-- The record that a warning leaves. -/
def recordOf (w : TrailingTokens) : LogRecord :=
  ⟨.warning, "Parser", w.diagnostic.short⟩

/-- The records that a parse leaves, from the cursors before and after it: one for
each warning. -/
def parseLog (before after : Cursor) : List LogRecord :=
  (after.warnings.toList.drop before.warnings.size).map recordOf

end Cursor

/-- The expression that a source starts with, or its first error: a lexical one
anywhere in the source, else a syntax error. -/
def parseSource (source : String) : Except Failure Expr :=
  match (TokenStream.ofSource source).scan with
  | (_, .error e) => .error (.lexical e)
  | (s, .ok ()) => (Cursor.parse {} s).2

end LoxSyntax
