import LoxSyntax.Proofs.Grammar.Soundness

/-!
# Phrases are read

The converse of soundness: a phrase of a nonterminal, in front of any tokens that do not
prolong it, is read by the rule of that nonterminal and gives the very tree it spells.
The loop of a level is entered by following the left operands of the tree down to a
tighter one (`leftAssociative_eq_foldOperators`); from there each operator on the way
back up is one turn. Since reading is a function, no row of tokens spells two shaped
trees.
-/

namespace LoxSyntax

/-- A rule reads every phrase of this tightness wherever the phrase ends there. -/
def Rule.Complete (tightness levels : Nat) (rule : Rule) : Prop :=
  ∀ (e : Expr) (ts rest : List Token), Phrase tightness levels e ts →
    NoOperatorAhead tightness rest → rule (ts ++ rest) = .parsed e ts.length

/-! ## Levels of binary operators -/

section Chain

variable {level : Level} {levels : Nat} {operand : Rule}

theorem leftAssociative_of_operand (complete : operand.Complete (level.tightness + 1) levels)
    {e : Expr} {ts rest : List Token} (phrase : Phrase (level.tightness + 1) levels e ts)
    (stops : NoOperatorAhead (level.tightness + 1) rest) :
    leftAssociative level operand (ts ++ rest) =
      foldOperators level operand ts.length 0 e rest := by
  unfold leftAssociative
  rw [complete e ts rest phrase stops]
  simp only
  rw [foldOperators_eq, Nat.zero_add, List.drop_left]

/-- Reading a phrase of a level leads into the loop behind that phrase. -/
theorem leftAssociative_eq_foldOperators
    (complete : operand.Complete (level.tightness + 1) levels) (e : Expr)
    (ts rest : List Token) (phrase : Phrase level.tightness levels e ts)
    (stops : NoOperatorAhead (level.tightness + 1) rest) :
    leftAssociative level operand (ts ++ rest) =
      foldOperators level operand ts.length 0 e rest := by
  have tighter : level.tightness + 1 ≤ 4 := level.tightness_lt_four
  induction e generalizing ts rest with
  | literal token =>
    have operandPhrase := phrase.tighten (Nat.le_succ_of_le tighter)
    exact leftAssociative_of_operand complete operandPhrase stops
  | grouping inner paren _ =>
    have operandPhrase := phrase.tighten (Nat.le_succ_of_le tighter)
    exact leftAssociative_of_operand complete operandPhrase stops
  | unary operator inner _ =>
    exact leftAssociative_of_operand complete (phrase.tighten tighter) stops
  | binary left operator right ihLeft _ =>
    obtain ⟨own, us, vs, has, tight, rfl, leftPhrase, rightPhrase⟩ := phrase.of_binary
    rcases Nat.eq_or_lt_of_le tight with same | tighter
    · obtain rfl := Level.tightness_injective same
      have turn := complete right vs rest rightPhrase stops
      rw [List.append_assoc, List.cons_append,
        ihLeft us (operator :: (vs ++ rest)) leftPhrase (.of_has has _),
        foldOperators_of_has has, turn]
      simp only
      rw [List.drop_left, List.length_append, List.length_cons]
      congr 1
      omega
    · have whole := Phrase.binary has leftPhrase rightPhrase
      exact leftAssociative_of_operand complete (whole.mono tighter) stops

theorem Rule.Complete.leftAssociative (level : Level)
    (complete : operand.Complete (level.tightness + 1) levels) :
    (leftAssociative level operand).Complete level.tightness levels := by
  intro e ts rest phrase stops
  rw [leftAssociative_eq_foldOperators complete e ts rest phrase (stops.mono (Nat.le_succ _))]
  exact foldOperators_of_head fun t member => stops t member level (Nat.le_refl _)

end Chain

theorem Rule.Complete.expressionOver {levels : Nat} {unary : Rule}
    (complete : unary.Complete 4 levels) : (expressionOver unary).Complete 0 levels :=
  Rule.Complete.leftAssociative .equality
    (Rule.Complete.leftAssociative .comparison
      (Rule.Complete.leftAssociative .term
        (Rule.Complete.leftAssociative .factor complete)))

/-! ## Operands -/

/-- Where there is room for a further level, there is a complete unary rule for it. -/
def CompleteBelow (levels : Nat) (deeper : Option Rule) : Prop :=
  ∀ fewer, levels = fewer + 1 → ∃ unary, deeper = some unary ∧ Rule.Complete 4 fewer unary

section Operands

variable {levels : Nat} {deeper : Option Rule} {around : Surroundings}

theorem primaryOver_complete (complete : CompleteBelow levels deeper) :
    Rule.Complete 5 levels (primaryOver around deeper) := by
  intro e ts rest phrase stops
  cases e with
  | literal token =>
    obtain ⟨kind, rfl⟩ := phrase.of_literal
    exact if_pos kind
  | grouping inner paren =>
    obtain ⟨fewer, opener, closer, us, rfl, rfl, opens, closes, rfl, innerPhrase⟩ :=
      phrase.of_grouping
    obtain ⟨unary, rfl, completeUnary⟩ := complete fewer rfl
    have notLiteral : opener.isLiteral = false := by
      unfold Token.isLiteral
      rw [opens]
      rfl
    have ends : NoOperatorAhead 0 (closer :: rest) :=
      .of_not_has (fun level => closes ▸ Kind.not_has_rightParen level) 0 rest
    have read := Rule.Complete.expressionOver completeUnary inner us (closer :: rest)
      innerPhrase ends
    simp only [List.cons_append, List.append_assoc, List.nil_append]
    unfold primaryOver
    simp only [notLiteral, opens, read, List.drop_left]
    simp [closeGroup, closes]
  | unary operator operand => exact absurd phrase.tight (Nat.lt_irrefl 4)
  | binary left operator right => exact absurd phrase.lt_four_of_binary (by omega)

theorem Rule.Complete.unaryOver (complete : CompleteBelow levels deeper) :
    Rule.Complete 4 levels (unaryOver around deeper) := by
  intro e ts rest phrase stops
  have primary (tighter : 5 ≤ e.tightness) :
      primaryOver around deeper (ts ++ rest) = .parsed e ts.length :=
    primaryOver_complete complete e ts rest (phrase.tighten tighter) (stops.mono (Nat.le_succ 4))
  cases e with
  | literal token =>
    obtain ⟨kind, rfl⟩ := phrase.of_literal
    have other := Kind.isUnaryOperator_of_isLiteral kind
    exact (primaryOver_of_not_unaryOperator other).trans (primary (Nat.le_refl 5))
  | grouping inner paren =>
    obtain ⟨fewer, opener, closer, us, -, -, opens, -, rfl, -⟩ := phrase.of_grouping
    have other : opener.kind.isUnaryOperator = false := by
      rw [opens]
      rfl
    exact (primaryOver_of_not_unaryOperator other).trans (primary (Nat.le_refl 5))
  | unary operator operand =>
    obtain ⟨fewer, us, rfl, has, rfl, operandPhrase⟩ := phrase.of_unary
    obtain ⟨unary, rfl, completeUnary⟩ := complete fewer rfl
    have read := completeUnary operand us rest operandPhrase stops
    unfold LoxSyntax.unaryOver
    simp [has, read]
  | binary left operator right => exact absurd phrase.lt_four_of_binary (Nat.lt_irrefl 4)

end Operands

/-! ## The grammar -/

theorem unaryWithin_complete (around : Surroundings) (levels : Nat) :
    Rule.Complete 4 levels (unaryWithin around levels) := by
  induction levels with
  | zero =>
    rw [unaryWithin_eq]
    exact Rule.Complete.unaryOver (fun fewer room => by cases room)
  | succ levels ih =>
    rw [unaryWithin_eq]
    refine Rule.Complete.unaryOver (fun fewer room => ⟨_, rfl, ?_⟩)
    cases room
    exact ih

theorem completeBelow_deeperWithin (around : Surroundings) (levels : Nat) :
    CompleteBelow levels (deeperWithin around levels) := by
  intro fewer room
  subst room
  exact ⟨_, rfl, unaryWithin_complete around fewer⟩

/-- The rule of every nonterminal reads all phrases of that nonterminal. -/
theorem Nonterminal.complete (around : Surroundings) (levels : Nat) (n : Nonterminal) :
    Rule.Complete n.tightness levels (n.rule around levels) := by
  have unary := unaryWithin_complete around levels
  have factor := Rule.Complete.leftAssociative .factor unary
  have term := Rule.Complete.leftAssociative .term factor
  have comparison := Rule.Complete.leftAssociative .comparison term
  cases n with
  | expression => exact Rule.Complete.expressionOver unary
  | equality => exact Rule.Complete.expressionOver unary
  | comparison => exact comparison
  | term => exact term
  | factor => exact factor
  | unary => exact unary
  | primary => exact primaryOver_complete (completeBelow_deeperWithin around levels)

/-! ## Trees and their tokens -/

namespace Expr

/-- A row of tokens spells one shaped tree at most. -/
theorem eq_of_spells {e e' : Expr} {ts : List Token} (shaped : e.Shaped) (spells : e.Spells ts)
    (shaped' : e'.Shaped) (spells' : e'.Spells ts) : e' = e := by
  let levels := max e.nesting e'.nesting
  have phrase : Phrase 0 levels e ts :=
    ⟨spells, shaped, Nat.zero_le _, Nat.le_max_left _ _⟩
  have phrase' : Phrase 0 levels e' ts :=
    ⟨spells', shaped', Nat.zero_le _, Nat.le_max_right _ _⟩
  have read := Nonterminal.expression.complete ⟨0, 1⟩ levels e ts [] phrase (.nil 0)
  have read' := Nonterminal.expression.complete ⟨0, 1⟩ levels e' ts [] phrase' (.nil 0)
  rw [read] at read'
  cases read'
  rfl

end Expr

namespace Cursor

/-- A shaped tree is the only one that its tokens spell, and wherever they stand in front
of nothing that goes on with a binary operator, under a limit that the tree keeps to, a
parse gives that tree, stops behind them and warns of the token there, if there is one. -/
theorem parse_of_spells {e : Expr} {ts : List Token} (shaped : e.Shaped) (spells : e.Spells ts) :
    (∀ e' : Expr, e'.Shaped → e'.Spells ts → e' = e) ∧
      ∀ (s : TokenStream) (c : Cursor) (before behind : List Token),
        s.tokens.toList = before ++ ts ++ behind → c.position = before.length →
        (e.nesting : Int) ≤ max c.limit 0 →
        (∀ t ∈ behind.head?, ∀ level : Level, level.has t.kind = false) →
        c.parse s =
          ({ c with
              position := before.length + ts.length
              warnings := c.warnings ++ (behind.head?.map TrailingTokens.mk).toArray },
            .ok e) := by
  refine ⟨fun e' shaped' spells' => Expr.eq_of_spells shaped spells shaped' spells', ?_⟩
  intro s c before behind row place nesting ends
  have count : s.count = before.length + ts.length + behind.length := by
    have counted := congrArg List.length row
    simpa [TokenStream.count, Nat.add_assoc] using counted
  have inside : 0 ≤ c.position ∧ c.position ≤ s.count := by omega
  have ahead : c.ahead s = ts ++ behind := by
    unfold Cursor.ahead
    rw [row, place, Int.toNat_natCast, List.append_assoc, List.drop_left]
  have phrase : Phrase 0 c.levels e ts :=
    ⟨spells, shaped, Nat.zero_le _, by unfold Cursor.levels; omega⟩
  have stops : NoOperatorAhead 0 behind := fun t member level _ => ends t member level
  have read := Nonterminal.expression.complete (c.surroundings s) c.levels e ts behind phrase stops
  rw [← ahead] at read
  have rest : ({ c with position := c.position + ts.length } : Cursor).ahead s = behind := by
    unfold Cursor.ahead
    rw [row, place]
    exact List.drop_left' (by simp; omega)
  rw [parse_of_parsed inside read, warnOfRest_eq (by simp only; omega), rest, place]

/-- The tokens of `(!nil)` spell a grouping; behind two others and in front of a literal
they are read under a limit of two. -/
theorem parse_of_spells_group :
    let opener : Token := ⟨.leftParen, "(", .absent, 1⟩
    let bang : Token := ⟨.bang, "!", .absent, 1⟩
    let operand : Token := ⟨.keyword .nilWord, "nil", .absent, 1⟩
    let closer : Token := ⟨.rightParen, ")", .absent, 2⟩
    let s : TokenStream :=
      ⟨[], 0, 1, #[closer, bang, opener, bang, operand, closer, operand], none⟩
    let e : Expr := .grouping (.unary bang (.literal operand)) (some opener)
    e.Shaped ∧ e.Spells [opener, bang, operand, closer] ∧
      Cursor.parse ⟨2, #[], 2⟩ s = (⟨6, #[⟨operand⟩], 2⟩, .ok e) := by
  intro opener bang operand closer s e
  have shaped : e.Shaped := .grouping rfl (.unary rfl (by decide) (.literal rfl))
  have spells : e.Spells [opener, bang, operand, closer] :=
    .grouping opener closer (.unary bang (.literal operand)) rfl
  refine ⟨shaped, spells, ?_⟩
  exact (parse_of_spells shaped spells).2 s ⟨2, #[], 2⟩ [closer, bang] [operand] rfl rfl
    (by decide) (by intro t member level; cases member; cases level <;> rfl)

end Cursor

end LoxSyntax
