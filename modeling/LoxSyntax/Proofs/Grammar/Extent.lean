import LoxSyntax.Cursor

/-!
# Readings stay within the tokens

No rule uses more tokens than there are, whether it reads a tree or fails
(`Nonterminal.withinTokens`). So a reading that starts within the tokens of a stream moves
its cursor forward, ends within the tokens, and is never out of range
(`Cursor.readWithin_advances`).
-/

namespace LoxSyntax

/-- The number of tokens that a rule used. -/
def Outcome.used : Outcome → Nat
  | parsed _ used => used
  | failed _ used => used

@[simp]
theorem Outcome.used_parsed (e : Expr) (n : Nat) : (parsed e n).used = n := rfl

@[simp]
theorem Outcome.used_failed (error : SyntaxError) (n : Nat) : (failed error n).used = n := rfl

/-- A rule never uses more tokens than there are. -/
def Rule.WithinTokens (rule : Rule) : Prop :=
  ∀ tokens, (rule tokens).used ≤ tokens.length

namespace Rule.WithinTokens

section Chain

variable {operand : Rule}

theorem foldOperators (within : operand.WithinTokens) (level : Level) (used : Nat) (left : Expr)
    (tokens : List Token) :
    (foldOperators level operand used 0 left tokens).used ≤ used + tokens.length := by
  refine foldOperators_induction
    (motive := fun used _ tokens outcome => outcome.used ≤ used + tokens.length)
    ?_ ?_ ?_ used left tokens
  · intro used left tokens _
    exact Nat.le_add_right _ _
  · intro used left operator rest right n outcome _ next ih
    have turn := within rest
    rw [next] at turn
    simp only [Outcome.used_parsed, List.length_drop, List.length_cons] at turn ih ⊢
    omega
  · intro used left operator rest error n _ next
    have turn := within rest
    rw [next] at turn
    simp only [Outcome.used_failed, List.length_cons] at turn ⊢
    omega

theorem leftAssociative (within : operand.WithinTokens) (level : Level) :
    (leftAssociative level operand).WithinTokens := by
  intro tokens
  have first := within tokens
  unfold LoxSyntax.leftAssociative
  cases read : operand tokens with
  | parsed left n =>
    rw [read] at first
    have loop := within.foldOperators level n left (tokens.drop n)
    simp only [Outcome.used_parsed, List.length_drop] at first loop
    dsimp only
    rw [foldOperators_eq, Nat.zero_add]
    omega
  | failed error n =>
    rw [read] at first
    exact first

theorem expressionOver (within : operand.WithinTokens) :
    (expressionOver operand).WithinTokens :=
  (((within.leftAssociative .factor).leftAssociative .term).leftAssociative
    .comparison).leftAssociative .equality

end Chain

section Operands

variable {around : Surroundings} {deeper : Option Rule}

theorem closeGroup (around : Surroundings) (opener : Token) (inner : Expr) (used : Nat)
    (rest : List Token) :
    (closeGroup around opener inner used rest).used ≤ used + rest.length := by
  unfold LoxSyntax.closeGroup
  split
  · exact Nat.le_refl _
  split
  · rw [Outcome.used_parsed, List.length_cons]
    omega
  · exact Nat.le_add_right _ _

theorem primaryOver (within : ∀ unary ∈ deeper, Rule.WithinTokens unary) :
    Rule.WithinTokens (primaryOver around deeper) := by
  intro tokens
  unfold LoxSyntax.primaryOver
  split
  · exact Nat.le_refl _
  split
  · simp
  split
  · rename_i t rest _ _
    split
    · simp
    · rename_i unary
      have inside := (within unary rfl).expressionOver rest
      split
      · rename_i inner n read
        rw [read] at inside
        have closed := closeGroup around t inner (n + 1) (rest.drop n)
        simp only [Outcome.used_parsed, List.length_drop] at inside closed
        rw [List.length_cons]
        omega
      · rename_i error n read
        rw [read] at inside
        exact Nat.succ_le_succ inside
  · exact Nat.zero_le _

theorem unaryOver (within : ∀ unary ∈ deeper, Rule.WithinTokens unary) :
    Rule.WithinTokens (unaryOver around deeper) := by
  intro tokens
  unfold LoxSyntax.unaryOver
  split
  · exact primaryOver within []
  split
  · rename_i t rest _
    split
    · simp
    · rename_i unary
      have inside := within unary rfl rest
      split
      · rename_i operand n read
        rw [read] at inside
        exact Nat.succ_le_succ inside
      · rename_i error n read
        rw [read] at inside
        exact Nat.succ_le_succ inside
  · exact primaryOver within _

end Operands

theorem unaryWithin (around : Surroundings) (levels : Nat) :
    Rule.WithinTokens (unaryWithin around levels) := by
  induction levels with
  | zero =>
    rw [unaryWithin_eq]
    exact unaryOver nofun
  | succ levels ih =>
    rw [unaryWithin_eq]
    refine unaryOver fun unary member => ?_
    cases member
    exact ih

theorem deeperWithin (around : Surroundings) (levels : Nat) :
    ∀ unary ∈ deeperWithin around levels, Rule.WithinTokens unary := by
  intro unary member
  cases levels with
  | zero => cases member
  | succ levels =>
    cases member
    exact unaryWithin around levels

end Rule.WithinTokens

/-- The rule of every nonterminal stays within the tokens. -/
theorem Nonterminal.withinTokens (around : Surroundings) (levels : Nat) (n : Nonterminal) :
    Rule.WithinTokens (n.rule around levels) := by
  have unary := Rule.WithinTokens.unaryWithin around levels
  have factor := unary.leftAssociative .factor
  have term := factor.leftAssociative .term
  cases n with
  | expression => exact unary.expressionOver
  | equality => exact unary.expressionOver
  | comparison => exact term.leftAssociative .comparison
  | term => exact term
  | factor => exact factor
  | unary => exact unary
  | primary => exact .primaryOver (.deeperWithin around levels)

/-! ## Cursors within the tokens -/

namespace Cursor

/-- The cursor stands at one of the tokens or behind the last one. -/
def Within (c : Cursor) (s : TokenStream) : Prop :=
  0 ≤ c.position ∧ c.position ≤ s.count

/-- Tokens added to a stream leave a cursor within the tokens. -/
theorem Within.grow {c : Cursor} {s later : TokenStream} (h : c.Within s)
    (grown : s.tokens.toList <+: later.tokens.toList) : c.Within later := by
  have more := TokenStream.count_le_of_grown grown
  unfold Within at h ⊢
  omega

theorem length_ahead (c : Cursor) (s : TokenStream) :
    (c.ahead s).length = s.count - c.position.toNat := by
  simp [ahead, TokenStream.count]

/-- From one cursor to another that stands no further back, within the tokens, and has no
warning less. -/
structure Advances (s : TokenStream) (c after : Cursor) : Prop where
  forward : c.position ≤ after.position
  within : after.position ≤ s.count
  warned : c.warnings.toList <+: after.warnings.toList

theorem Advances.refl {c : Cursor} {s : TokenStream} (h : c.Within s) : c.Advances s c :=
  ⟨Int.le_refl _, h.2, List.prefix_refl _⟩

/-- The result of a reading is a tree or a syntax error. -/
def IsRead (result : Except Failure Expr) : Prop :=
  (∃ e, result = .ok e) ∨ ∃ error, result = .error (.grammatical error)

variable {c : Cursor} {s : TokenStream}

/-- A reading that starts within the tokens moves the cursor forward within them and is
never out of range. -/
theorem readWithin_advances (h : c.Within s) (levels : Nat) (n : Nonterminal) :
    c.Advances s (c.readWithin s levels n).1 ∧ IsRead (c.readWithin s levels n).2 := by
  have used := n.withinTokens (c.surroundings s) levels (c.ahead s)
  have ahead : (c.ahead s).length = s.count - c.position.toNat := by
    simp [Cursor.ahead, TokenStream.count]
  rw [ahead] at used
  unfold Within at h
  rw [readWithin_of_inside levels n h]
  cases read : n.rule (c.surroundings s) levels (c.ahead s) with
  | parsed e total =>
    rw [read] at used
    rw [Outcome.used_parsed] at used
    refine ⟨⟨?_, ?_, List.prefix_refl _⟩, .inl ⟨e, rfl⟩⟩ <;> dsimp only <;> omega
  | failed error total =>
    rw [read] at used
    rw [Outcome.used_failed] at used
    refine ⟨⟨?_, ?_, List.prefix_refl _⟩, .inr ⟨error, rfl⟩⟩ <;> dsimp only <;> omega

/-- The warning of the tokens left over comes behind the warnings before. -/
theorem prefix_warnings_warnOfRest (c : Cursor) (s : TokenStream) :
    c.warnings.toList <+: (c.warnOfRest s).warnings.toList := by
  unfold warnOfRest
  split
  · rw [Array.toList_push]
    exact List.prefix_append _ _
  · exact List.prefix_refl _

/-- A parse that starts within the tokens moves the cursor forward within them and is never
out of range. -/
theorem parse_advances (h : c.Within s) : c.Advances s (c.parse s).1 ∧ IsRead (c.parse s).2 := by
  have reading := readWithin_advances h c.levels .expression
  unfold parse parseWithin
  split
  · rename_i after e read
    rw [read] at reading
    obtain ⟨⟨forward, within, warned⟩, -⟩ := reading
    refine ⟨⟨?_, ?_, warned.trans (prefix_warnings_warnOfRest after s)⟩, .inl ⟨e, rfl⟩⟩
    · rw [position_warnOfRest]
      exact forward
    · rw [position_warnOfRest]
      exact within
  · rename_i after error read
    rw [read] at reading
    exact reading

end Cursor

end LoxSyntax
