import LoxSyntax.Proofs.Grammar.Completeness
import LoxSyntax.Proofs.Grammar.CorrectPrefix
import LoxSyntax.Proofs.Grammar.Extent

/-!
# The nesting limit

The tokens of a tree that open levels of nesting are those in front of its groupings and its
unary operators; `Expr.Opens` says where in the row of its tokens each of them stands and which
level it opens. Under a limit that a tree does not keep to, its reading ends just behind the
first token that opens one level too many (`Rule.Cuts`).

Under a lower limit a rule either does the same as before or is cut off, and then no further on
than it came before (`Rule.Curbs`). So a limit changes nothing of a parse but where it is cut
off (`Cursor.run_of_limits`).
-/

namespace LoxSyntax

/-! ## The tokens that open levels of nesting -/

namespace Expr

/-- The number of tokens that a tree spells. -/
def width : Expr → Nat
  | literal _ => 1
  | grouping inner _ => inner.width + 2
  | unary _ operand => operand.width + 1
  | binary left _ right => left.width + 1 + right.width

/-- `Opens e offset level t`: behind `offset` other tokens of the tree `e` stands the token `t`,
a parenthesis or a unary operator, and together with those around it it makes `level` levels of
nesting. -/
inductive Opens : Expr → (offset level : Nat) → Token → Prop
  | paren (inner : Expr) (opener : Token) : Opens (.grouping inner (some opener)) 0 1 opener
  | operator (operator : Token) (operand : Expr) : Opens (.unary operator operand) 0 1 operator
  | inGrouping {inner : Expr} {offset level : Nat} {t : Token} (opener : Option Token) :
    Opens inner offset level t → Opens (.grouping inner opener) (offset + 1) (level + 1) t
  | inUnary {operand : Expr} {offset level : Nat} {t : Token} (operator : Token) :
    Opens operand offset level t → Opens (.unary operator operand) (offset + 1) (level + 1) t
  | inLeft {left : Expr} {offset level : Nat} {t : Token} (operator : Token) (right : Expr) :
    Opens left offset level t → Opens (.binary left operator right) offset level t
  | inRight {right : Expr} {offset level : Nat} {t : Token} (left : Expr) (operator : Token) :
    Opens right offset level t →
    Opens (.binary left operator right) (left.width + 1 + offset) level t

/-- The first token of a tree, in the order of the source, that opens a level. -/
structure FirstToOpen (e : Expr) (level offset : Nat) (t : Token) : Prop where
  opens : e.Opens offset level t
  first : ∀ other u, e.Opens other level u → offset ≤ other

variable {e : Expr} {ts : List Token} {offset level : Nat} {t : Token}

theorem Spells.length_eq (h : e.Spells ts) : ts.length = e.width := by
  induction h with
  | literal token => rfl
  | grouping opener closer _ _ ih => simp [width, ih]
  | unary operator _ ih => simp [width, ih]
  | binary operator _ _ ihLeft ihRight =>
    simp [width, ihLeft, ihRight]
    omega

theorem Opens.lt_width (h : e.Opens offset level t) : offset < e.width := by
  induction h with
  | paren inner opener => simp [width]
  | operator operator operand => simp [width]
  | inGrouping opener _ ih => rw [width]; omega
  | inUnary operator _ ih => rw [width]; omega
  | inLeft operator right _ ih => rw [width]; omega
  | inRight left operator _ ih => rw [width]; omega

theorem Opens.level_le_nesting (h : e.Opens offset level t) : level ≤ e.nesting := by
  induction h with
  | paren inner opener => exact Nat.succ_le_succ (Nat.zero_le _)
  | operator operator operand => exact Nat.succ_le_succ (Nat.zero_le _)
  | inGrouping opener _ ih => exact Nat.succ_le_succ ih
  | inUnary operator _ ih => exact Nat.succ_le_succ ih
  | inLeft operator right _ ih => exact Nat.le_trans ih (Nat.le_max_left _ _)
  | inRight left operator _ ih => exact Nat.le_trans ih (Nat.le_max_right _ _)

/-- The token that opens a level stands at its place in every row that the tree spells. -/
theorem Opens.getElem?_eq (h : e.Opens offset level t) (spells : e.Spells ts) :
    ts[offset]? = some t := by
  induction h generalizing ts with
  | paren inner opener => cases spells with | grouping _ closer _ _ => rfl
  | operator operator operand => cases spells with | unary _ _ => rfl
  | inGrouping opener opens ih =>
    cases spells with
    | grouping opener closer inside closes =>
      have before := opens.lt_width
      rw [← inside.length_eq] at before
      rw [List.getElem?_cons_succ, List.getElem?_append_left before, ih inside]
  | inUnary operator _ ih =>
    cases spells with
    | unary _ inside => rw [List.getElem?_cons_succ, ih inside]
  | inLeft operator right opens ih =>
    cases spells with
    | binary _ inLeft inRight =>
      have before := opens.lt_width
      rw [← inLeft.length_eq] at before
      rw [List.getElem?_append_left before, ih inLeft]
  | @inRight right offset level t left operator opens ih =>
    cases spells with
    | @binary _ _ us vs _ inLeft inRight =>
      have place : left.width + 1 + offset - us.length = offset + 1 := by
        rw [inLeft.length_eq]
        omega
      rw [List.getElem?_append_right (by rw [inLeft.length_eq]; omega), place,
        List.getElem?_cons_succ, ih inRight]

/-! ### The first token to open a level -/

namespace FirstToOpen

theorem paren (inner : Expr) (opener : Token) :
    FirstToOpen (.grouping inner (some opener)) 1 0 opener :=
  ⟨.paren inner opener, fun _ _ _ => Nat.zero_le _⟩

theorem operator (operator : Token) (operand : Expr) :
    FirstToOpen (.unary operator operand) 1 0 operator :=
  ⟨.operator operator operand, fun _ _ _ => Nat.zero_le _⟩

theorem inGrouping (h : e.FirstToOpen (level + 1) offset t) (opener : Option Token) :
    FirstToOpen (.grouping e opener) (level + 2) (offset + 1) t := by
  refine ⟨h.opens.inGrouping opener, fun other u opens => ?_⟩
  cases opens with
  | inGrouping _ inside => exact Nat.succ_le_succ (h.first _ _ inside)

theorem inUnary (h : e.FirstToOpen (level + 1) offset t) (operator : Token) :
    FirstToOpen (.unary operator e) (level + 2) (offset + 1) t := by
  refine ⟨h.opens.inUnary operator, fun other u opens => ?_⟩
  cases opens with
  | inUnary _ inside => exact Nat.succ_le_succ (h.first _ _ inside)

/-- What the left operand opens comes before anything that the right one does. -/
theorem inLeft (h : e.FirstToOpen level offset t) (operator : Token) (right : Expr) :
    FirstToOpen (.binary e operator right) level offset t := by
  refine ⟨h.opens.inLeft operator right, fun other u opens => ?_⟩
  cases opens with
  | inLeft _ _ inside => exact h.first _ _ inside
  | inRight _ _ inside =>
    have before := h.opens.lt_width
    omega

/-- Where the left operand does not reach the level, the right one is the first to open it. -/
theorem inRight (h : e.FirstToOpen level offset t) {left : Expr} (operator : Token)
    (lower : left.nesting < level) :
    FirstToOpen (.binary left operator e) level (left.width + 1 + offset) t := by
  refine ⟨h.opens.inRight left operator, fun other u opens => ?_⟩
  cases opens with
  | inLeft _ _ inside => exact absurd inside.level_le_nesting (Nat.not_le_of_lt lower)
  | inRight _ _ inside => exact Nat.add_le_add_left (h.first _ _ inside) _

end FirstToOpen

end Expr

/-! ## Where a tree that nests too deeply is cut off -/

/-- A rule with room for a number of levels cuts off every phrase that nests deeper, just behind
the first token that opens one level too many. -/
def Rule.Cuts (limit : Int) (tightness levels : Nat) (rule : Rule) : Prop :=
  ∀ (e : Expr) (ts rest : List Token) (room : Nat), Phrase tightness room e ts →
    levels < e.nesting →
    ∃ offset t, e.FirstToOpen (levels + 1) offset t ∧
      rule (ts ++ rest) = .failed (.nestedTooDeeply t.line limit) (offset + 1)

section Chain

variable {limit : Int} {level : Level} {levels : Nat} {operand : Rule}

theorem leftAssociative_of_failed {tokens : List Token} {error : SyntaxError} {used : Nat}
    (h : operand tokens = .failed error used) :
    leftAssociative level operand tokens = .failed error used := by
  unfold leftAssociative
  rw [h]

theorem Rule.Cuts.leftAssociative (level : Level)
    (complete : operand.Complete (level.tightness + 1) levels)
    (cuts : operand.Cuts limit (level.tightness + 1) levels) :
    (leftAssociative level operand).Cuts limit level.tightness levels := by
  intro e ts rest room phrase deep
  have tighter : level.tightness + 1 ≤ 4 := level.tightness_lt_four
  -- a tree that is tighter than the level is cut off as an operand
  have of_operand (e : Expr) (ts rest : List Token) (phrase : Phrase level.tightness room e ts)
      (tight : level.tightness + 1 ≤ e.tightness) (deep : levels < e.nesting) :
      ∃ offset t, e.FirstToOpen (levels + 1) offset t ∧
        LoxSyntax.leftAssociative level operand (ts ++ rest) =
          .failed (.nestedTooDeeply t.line limit) (offset + 1) := by
    obtain ⟨offset, t, first, cut⟩ := cuts e ts rest room (phrase.tighten tight) deep
    exact ⟨offset, t, first, leftAssociative_of_failed cut⟩
  induction e generalizing ts rest with
  | literal token => cases deep
  | grouping inner paren _ => exact of_operand _ ts rest phrase (Nat.le_succ_of_le tighter) deep
  | unary operator inner _ => exact of_operand _ ts rest phrase tighter deep
  | binary left operator right ihLeft _ =>
    obtain ⟨own, us, vs, has, tight, split, leftPhrase, rightPhrase⟩ := phrase.of_binary
    rcases Nat.eq_or_lt_of_le tight with same | tight
    · obtain rfl := Level.tightness_injective same
      rw [split, List.append_assoc, List.cons_append]
      by_cases deepLeft : levels < left.nesting
      · obtain ⟨offset, t, first, cut⟩ := ihLeft us (operator :: (vs ++ rest)) leftPhrase deepLeft
        exact ⟨offset, t, first.inLeft operator right, cut⟩
      · have low : left.nesting ≤ levels := Nat.le_of_not_lt deepLeft
        have deepRight : levels < right.nesting := by
          rw [Expr.nesting] at deep
          omega
        obtain ⟨offset, t, first, cut⟩ := cuts right vs rest room rightPhrase deepRight
        refine ⟨_, t, first.inRight operator (Nat.lt_succ_of_le low), ?_⟩
        rw [leftAssociative_eq_foldOperators complete left us (operator :: (vs ++ rest))
          ⟨leftPhrase.spells, leftPhrase.shaped, leftPhrase.tight, low⟩ (.of_has has _),
          foldOperators_of_has has, cut, leftPhrase.spells.length_eq]
        simp only [Nat.add_assoc]
    · refine of_operand _ ts rest phrase ?_ deep
      rw [Expr.tightness_binary has]
      exact tight

end Chain

theorem Rule.Cuts.expressionOver {limit : Int} {levels : Nat} {unary : Rule}
    (complete : unary.Complete 4 levels) (cuts : unary.Cuts limit 4 levels) :
    (expressionOver unary).Cuts limit 0 levels := by
  have completeFactor := Rule.Complete.leftAssociative .factor complete
  have completeTerm := Rule.Complete.leftAssociative .term completeFactor
  have completeComparison := Rule.Complete.leftAssociative .comparison completeTerm
  have factor := Rule.Cuts.leftAssociative .factor complete cuts
  have term := Rule.Cuts.leftAssociative .term completeFactor factor
  have comparison := Rule.Cuts.leftAssociative .comparison completeTerm term
  exact Rule.Cuts.leftAssociative .equality completeComparison comparison

section Operands

variable {around : Surroundings} {levels : Nat}

theorem primaryOver_cuts
    (below : ∀ fewer, levels = fewer + 1 →
      Rule.Cuts around.limit 4 fewer (unaryWithin around fewer)) :
    Rule.Cuts around.limit 5 levels (primaryOver around (deeperWithin around levels)) := by
  intro e ts rest room phrase deep
  cases e with
  | literal token => cases deep
  | grouping inner paren =>
    obtain ⟨_, opener, closer, us, -, rfl, opens, -, rfl, innerPhrase⟩ := phrase.of_grouping
    rw [List.cons_append, List.append_assoc, List.singleton_append]
    cases levels with
    | zero => exact ⟨0, opener, .paren inner opener, primaryOver_of_leftParen_none opens⟩
    | succ fewer =>
      have complete := unaryWithin_complete around fewer
      have cuts := Rule.Cuts.expressionOver complete (below fewer rfl)
      obtain ⟨offset, t, first, cut⟩ := cuts inner us (closer :: rest) _ innerPhrase
        (Nat.lt_of_succ_lt_succ deep)
      refine ⟨offset + 1, t, first.inGrouping (some opener), ?_⟩
      rw [deeperWithin, primaryOver_of_leftParen_some opens, groupOver, cut]
  | unary operator operand => exact absurd phrase.tight (Nat.lt_irrefl 4)
  | binary left operator right => exact absurd phrase.lt_four_of_binary (by omega)

theorem unaryOver_cuts
    (below : ∀ fewer, levels = fewer + 1 →
      Rule.Cuts around.limit 4 fewer (unaryWithin around fewer)) :
    Rule.Cuts around.limit 4 levels (unaryOver around (deeperWithin around levels)) := by
  intro e ts rest room phrase deep
  cases e with
  | literal token => cases deep
  | grouping inner paren =>
    obtain ⟨offset, t, first, cut⟩ := primaryOver_cuts below _ ts rest room
      (phrase.tighten (Nat.le_refl 5)) deep
    obtain ⟨fewer, opener, closer, us, -, -, opens, -, rfl, -⟩ := phrase.of_grouping
    have other : opener.kind.isUnaryOperator = false := by
      rw [opens]
      rfl
    exact ⟨offset, t, first, (primaryOver_of_not_unaryOperator other).trans cut⟩
  | unary operator operand =>
    obtain ⟨_, us, -, has, rfl, operandPhrase⟩ := phrase.of_unary
    rw [List.cons_append]
    cases levels with
    | zero => exact ⟨0, operator, .operator operator operand, unaryOver_of_operator_none has⟩
    | succ fewer =>
      obtain ⟨offset, t, first, cut⟩ := below fewer rfl operand us rest _ operandPhrase
        (Nat.lt_of_succ_lt_succ deep)
      refine ⟨offset + 1, t, first.inUnary operator, ?_⟩
      rw [deeperWithin, unaryOver_of_operator_some has, operatorOver, cut]
  | binary left operator right => exact absurd phrase.lt_four_of_binary (Nat.lt_irrefl 4)

end Operands

theorem unaryWithin_cuts (around : Surroundings) (levels : Nat) :
    Rule.Cuts around.limit 4 levels (unaryWithin around levels) := by
  induction levels with
  | zero =>
    rw [unaryWithin_eq]
    exact unaryOver_cuts fun fewer room => by cases room
  | succ levels ih =>
    rw [unaryWithin_eq]
    refine unaryOver_cuts fun fewer room => ?_
    cases room
    exact ih

/-! ## Lower limits -/

/-- An outcome under a lower limit beside the one under a higher limit: the same, or cut off by
the lower limit and no further on. -/
def Outcome.Curbed (limit : Int) (outcome outcome' : Outcome) : Prop :=
  outcome = outcome' ∨
    ∃ line used, outcome = .failed (.nestedTooDeeply line limit) used ∧ used ≤ outcome'.used

/-- What the first rule makes of a row of tokens is what the second one does, or is cut off. -/
def Rule.Curbs (limit : Int) (rule rule' : Rule) : Prop :=
  ∀ tokens, Outcome.Curbed limit (rule tokens) (rule' tokens)

namespace Rule.Curbs

section Chain

variable {limit : Int} {operand operand' : Rule}

/-- The loop of a level never goes back. -/
theorem le_used_foldOperators (level : Level) (operand : Rule) (used : Nat) (left : Expr)
    (tokens : List Token) : used ≤ (foldOperators level operand used 0 left tokens).used := by
  refine foldOperators_induction (motive := fun used _ _ outcome => used ≤ outcome.used)
    ?_ ?_ ?_ used left tokens
  · intro used left tokens _
    exact Nat.le_refl _
  · intro used left operator rest right n outcome _ _ ih
    omega
  · intro used left operator rest error n _ _
    rw [Outcome.used_failed]
    omega

theorem foldOperators (curbs : Rule.Curbs limit operand operand') (level : Level) (used : Nat)
    (left : Expr) (tokens : List Token) :
    Outcome.Curbed limit (LoxSyntax.foldOperators level operand used 0 left tokens)
      (LoxSyntax.foldOperators level operand' used 0 left tokens) := by
  refine (@foldOperators_induction level operand'
    (fun used left tokens outcome => used ≤ outcome.used ∧
      Outcome.Curbed limit (LoxSyntax.foldOperators level operand used 0 left tokens) outcome)
    ?_ ?_ ?_ used left tokens).2
  · intro used left tokens ahead
    exact ⟨Nat.le_refl _, .inl (foldOperators_of_head ahead)⟩
  · intro used left operator rest right n outcome has next ih
    refine ⟨by omega, ?_⟩
    rw [foldOperators_of_has has]
    rcases curbs rest with same | ⟨line, m, cut, before⟩
    · rw [same, next]
      exact ih.2
    · rw [next, Outcome.used_parsed] at before
      rw [cut]
      exact .inr ⟨line, _, rfl, by omega⟩
  · intro used left operator rest error n has next
    refine ⟨by rw [Outcome.used_failed]; omega, ?_⟩
    rw [foldOperators_of_has has]
    rcases curbs rest with same | ⟨line, m, cut, before⟩
    · rw [same, next]
      exact .inl rfl
    · rw [next, Outcome.used_failed] at before
      rw [cut]
      exact .inr ⟨line, _, rfl, by rw [Outcome.used_failed]; omega⟩

theorem leftAssociative (curbs : Rule.Curbs limit operand operand') (level : Level) :
    Rule.Curbs limit (leftAssociative level operand) (leftAssociative level operand') := by
  intro tokens
  unfold LoxSyntax.leftAssociative
  rcases curbs tokens with same | ⟨line, m, cut, before⟩
  · rw [same]
    cases operand' tokens with
    | failed error n => exact .inl rfl
    | parsed left n =>
      dsimp only
      rw [foldOperators_eq, foldOperators_eq level operand']
      exact curbs.foldOperators level _ left _
  · rw [cut]
    refine .inr ⟨line, m, rfl, ?_⟩
    cases first : operand' tokens with
    | failed error n =>
      rw [first] at before
      exact before
    | parsed left n =>
      rw [first, Outcome.used_parsed] at before
      dsimp only
      rw [foldOperators_eq, Nat.zero_add]
      exact Nat.le_trans before (le_used_foldOperators _ _ _ _ _)

theorem expressionOver (curbs : Rule.Curbs limit operand operand') :
    Rule.Curbs limit (expressionOver operand) (expressionOver operand') :=
  (((curbs.leftAssociative .factor).leftAssociative .term).leftAssociative
    .comparison).leftAssociative .equality

end Chain

section Operands

variable {around around' : Surroundings} {deeper deeper' : Option Rule}

theorem le_used_closeGroup (around : Surroundings) (opener : Token) (inner : Expr) (used : Nat)
    (rest : List Token) : used ≤ (closeGroup around opener inner used rest).used := by
  unfold closeGroup
  split
  · exact Nat.le_refl _
  split
  · exact Nat.le_succ _
  · exact Nat.le_refl _

theorem groupOver {inner inner' : Rule} (ends : around.endLine = around'.endLine)
    {limit : Int} (curbs : Rule.Curbs limit inner inner') (opener : Token) :
    Rule.Curbs limit (groupOver around opener inner) (groupOver around' opener inner') := by
  intro rest
  unfold LoxSyntax.groupOver
  rcases curbs rest with same | ⟨line, m, cut, before⟩
  · rw [same]
    refine .inl ?_
    cases inner' rest with
    | failed error n => rfl
    | parsed e n =>
      dsimp only
      cases rest.drop n with
      | nil => rw [closeGroup, closeGroup, ends]
      | cons t behind => rfl
  · rw [cut]
    refine .inr ⟨line, m + 1, rfl, ?_⟩
    cases inside : inner' rest with
    | failed error n =>
      rw [inside] at before
      exact Nat.succ_le_succ before
    | parsed e n =>
      rw [inside] at before
      exact Nat.le_trans (Nat.succ_le_succ before) (le_used_closeGroup _ _ _ _ _)

theorem operatorOver {limit : Int} {unary unary' : Rule} (curbs : Rule.Curbs limit unary unary')
    (operator : Token) :
    Rule.Curbs limit (operatorOver operator unary) (operatorOver operator unary') := by
  intro rest
  unfold LoxSyntax.operatorOver
  rcases curbs rest with same | ⟨line, m, cut, before⟩
  · rw [same]
    exact .inl rfl
  · rw [cut]
    refine .inr ⟨line, m + 1, rfl, ?_⟩
    cases inside : unary' rest with
    | failed error n =>
      rw [inside] at before
      exact Nat.succ_le_succ before
    | parsed operand n =>
      rw [inside] at before
      exact Nat.succ_le_succ before

/-- What opens a level is used, whatever becomes of the level. -/
theorem one_le_used_of_leftParen {t : Token} (h : t.kind = .leftParen) (rest : List Token) :
    1 ≤ (LoxSyntax.primaryOver around deeper (t :: rest)).used := by
  cases deeper with
  | none =>
    rw [primaryOver_of_leftParen_none h]
    exact Nat.le_refl 1
  | some unary =>
    rw [primaryOver_of_leftParen_some h, LoxSyntax.groupOver]
    cases LoxSyntax.expressionOver unary rest with
    | failed error n => exact Nat.le_add_left 1 n
    | parsed inner n => exact Nat.le_trans (Nat.le_add_left 1 n) (le_used_closeGroup _ _ _ _ _)

theorem one_le_used_of_operator {t : Token} (h : t.kind.isUnaryOperator = true)
    (rest : List Token) : 1 ≤ (LoxSyntax.unaryOver around deeper (t :: rest)).used := by
  cases deeper with
  | none =>
    rw [unaryOver_of_operator_none h]
    exact Nat.le_refl 1
  | some unary =>
    rw [unaryOver_of_operator_some h, LoxSyntax.operatorOver]
    cases unary rest with
    | failed error n => exact Nat.le_add_left 1 n
    | parsed operand n => exact Nat.le_add_left 1 n

/-- Under the lower limit there is a further level only where there is one under the higher. -/
def Below (limit : Int) (deeper deeper' : Option Rule) : Prop :=
  ∀ unary ∈ deeper, ∃ unary' ∈ deeper', Rule.Curbs limit unary unary'

theorem primaryOver (ends : around.endLine = around'.endLine)
    (below : Below around.limit deeper deeper') :
    Rule.Curbs around.limit (primaryOver around deeper) (primaryOver around' deeper') := by
  intro tokens
  cases tokens with
  | nil => exact .inl (by simp only [LoxSyntax.primaryOver, ends])
  | cons t rest =>
    by_cases literal : t.isLiteral = true
    · rw [primaryOver_of_isLiteral literal, primaryOver_of_isLiteral literal]
      exact .inl rfl
    by_cases opens : t.kind = .leftParen
    · cases deeper with
      | none =>
        rw [primaryOver_of_leftParen_none opens]
        exact .inr ⟨t.line, 1, rfl, one_le_used_of_leftParen opens rest⟩
      | some unary =>
        obtain ⟨unary', rfl, curbs⟩ := below unary rfl
        rw [primaryOver_of_leftParen_some opens, primaryOver_of_leftParen_some opens]
        exact curbs.expressionOver.groupOver ends t rest
    · rw [primaryOver_of_other literal opens, primaryOver_of_other literal opens]
      exact .inl rfl

theorem unaryOver (ends : around.endLine = around'.endLine)
    (below : Below around.limit deeper deeper') :
    Rule.Curbs around.limit (unaryOver around deeper) (unaryOver around' deeper') := by
  intro tokens
  cases tokens with
  | nil => exact primaryOver ends below []
  | cons t rest =>
    cases opens : t.kind.isUnaryOperator with
    | true =>
      cases deeper with
      | none =>
        rw [unaryOver_of_operator_none opens]
        exact .inr ⟨t.line, 1, rfl, one_le_used_of_operator opens rest⟩
      | some unary =>
        obtain ⟨unary', rfl, curbs⟩ := below unary rfl
        rw [unaryOver_of_operator_some opens, unaryOver_of_operator_some opens]
        exact curbs.operatorOver t rest
    | false =>
      rw [primaryOver_of_not_unaryOperator opens, primaryOver_of_not_unaryOperator opens]
      exact primaryOver ends below (t :: rest)

end Operands

theorem unaryWithin {around around' : Surroundings} (ends : around.endLine = around'.endLine)
    {levels levels' : Nat} (le : levels ≤ levels') :
    Rule.Curbs around.limit (unaryWithin around levels) (unaryWithin around' levels') := by
  induction levels generalizing levels' with
  | zero =>
    rw [unaryWithin_eq, unaryWithin_eq]
    exact unaryOver ends fun unary member => by cases member
  | succ levels ih =>
    cases levels' with
    | zero => cases le
    | succ levels' =>
      rw [unaryWithin_eq, unaryWithin_eq]
      refine unaryOver ends fun unary member => ?_
      cases member
      exact ⟨_, rfl, ih (Nat.le_of_succ_le_succ le)⟩

end Rule.Curbs

/-! ## Parses under two limits -/

/-- What a parse comes to: the tree or the error, where the cursor stops and the warnings it
has then. -/
structure Run where
  result : Except Failure Expr
  position : Int
  warnings : Array TrailingTokens

namespace Cursor

/-- What a parse from the cursor comes to under a limit. -/
def runUnder (c : Cursor) (s : TokenStream) (limit : Int) : Run :=
  let run := ({ c with limit } : Cursor).parse s
  ⟨run.2, run.1.position, run.1.warnings⟩

/-- What a parse comes to by the outcome of the rule of expressions. -/
def runOf (c : Cursor) (s : TokenStream) : Outcome → Run
  | .parsed e used =>
    ⟨.ok e, c.position + used,
      c.warnings ++ (((c.ahead s).drop used).head?.map TrailingTokens.mk).toArray⟩
  | .failed error used => ⟨.error (.grammatical error), c.position + used, c.warnings⟩

/-- The outcome of the rule of expressions under a limit. -/
def outcomeUnder (c : Cursor) (s : TokenStream) (limit : Int) : Outcome :=
  expressionOver (unaryWithin ⟨limit, s.lastLine⟩ limit.toNat) (c.ahead s)

variable {c : Cursor} {s : TokenStream} {limit limit' : Int}

theorem runUnder_eq (h : c.Within s) : c.runUnder s limit = c.runOf s (c.outcomeUnder s limit) := by
  unfold Within at h
  unfold runUnder
  cases result : c.outcomeUnder s limit with
  | parsed e used =>
    have place : (c.position + used).toNat = c.position.toNat + used := by omega
    rw [parse_of_parsed (c := { c with limit }) h result, warnOfRest_eq (by dsimp only; omega)]
    simp only [runOf, ahead, place, List.drop_drop]
  | failed error used => rw [parse_of_failed (c := { c with limit }) h result, runOf]

theorem position_runOf (c : Cursor) (s : TokenStream) (outcome : Outcome) :
    (c.runOf s outcome).position = c.position + outcome.used := by
  cases outcome <;> rfl

/-- A lower limit curbs the outcome. -/
theorem outcomeUnder_curbed (c : Cursor) (s : TokenStream) (le : limit ≤ limit') :
    Outcome.Curbed limit (c.outcomeUnder s limit) (c.outcomeUnder s limit') := by
  let around (limit : Int) : Surroundings := ⟨limit, s.lastLine⟩
  have ends : (around limit).endLine = (around limit').endLine := rfl
  exact (Rule.Curbs.unaryWithin ends (Int.toNat_le_toNat le)).expressionOver (c.ahead s)

/-- The tokens of a tree that was read under some limit are read under another one that the
tree keeps to, and under any other one are cut off at the first token that opens a level too
many. -/
theorem outcomeUnder_of_parsed {e : Expr} {used : Nat}
    (parsed : c.outcomeUnder s limit' = .parsed e used) (limit : Int) :
    (e.nesting ≤ limit.toNat → c.outcomeUnder s limit = .parsed e used) ∧
      (limit.toNat < e.nesting → ∃ offset t, e.FirstToOpen (limit.toNat + 1) offset t ∧
        (c.ahead s)[offset]? = some t ∧
        c.outcomeUnder s limit = .failed (.nestedTooDeeply t.line limit) (offset + 1)) := by
  obtain ⟨ts, rest, split, rfl, phrase, stops⟩ := Nonterminal.expression.sound _ _ _ _ _ parsed
  unfold outcomeUnder
  rw [split]
  have complete := unaryWithin_complete ⟨limit, s.lastLine⟩ limit.toNat
  refine ⟨fun low => ?_, fun deep => ?_⟩
  · exact Rule.Complete.expressionOver complete e ts rest
      ⟨phrase.spells, phrase.shaped, phrase.tight, low⟩ stops
  · obtain ⟨offset, t, first, cut⟩ := Rule.Cuts.expressionOver complete
      (unaryWithin_cuts ⟨limit, s.lastLine⟩ limit.toNat) e ts rest _ phrase deep
    have stands := first.opens.getElem?_eq phrase.spells
    have before := (List.getElem?_eq_some_iff.mp stands).1
    exact ⟨offset, t, first, by rw [List.getElem?_append_left before, stands], cut⟩

/-- A nesting limit only cuts off, and just where it is exceeded. A parse that a limit does not
cut off comes to the same under every higher one. A tree that is read under the higher limit is
read under the lower one if it keeps to it; else the parse stops just behind the first token
that opens a level too many, with an error on its line. A parse that fails under the higher
limit fails in the same way under the lower one, or is cut off no further on. -/
theorem run_of_limits {c : Cursor} {s : TokenStream} {limit limit' : Int} (h : c.Within s)
    (le : limit ≤ limit') :
    (¬ Overnested (c.runUnder s limit).result → c.runUnder s limit' = c.runUnder s limit) ∧
      (∀ e, (c.runUnder s limit').result = .ok e →
        ((e.nesting : Int) ≤ max limit 0 → c.runUnder s limit = c.runUnder s limit') ∧
        (max limit 0 < e.nesting → ∃ (level offset : Nat) (t : Token) (error : SyntaxError),
          (level : Int) = max limit 0 + 1 ∧
          e.FirstToOpen level offset t ∧ s.tokens[c.position.toNat + offset]? = some t ∧
          error.Reports "P014" none t.line ∧
          c.runUnder s limit =
            ⟨.error (.grammatical error), c.position + offset + 1, c.warnings⟩)) ∧
      (∀ failure, (c.runUnder s limit').result = .error failure →
        c.runUnder s limit = c.runUnder s limit' ∨
        Overnested (c.runUnder s limit).result ∧
          (c.runUnder s limit).position ≤ (c.runUnder s limit').position) := by
  have curbed := c.outcomeUnder_curbed s le
  rw [runUnder_eq h, runUnder_eq h]
  refine ⟨fun within => ?_, fun e tree => ?_, fun failure fails => ?_⟩
  · rcases curbed with same | ⟨line, used, cut, -⟩
    · rw [same]
    · rw [cut] at within
      exact absurd ⟨_, rfl, (SyntaxError.reports_nestedTooDeeply line limit).code⟩ within
  · cases parsed : c.outcomeUnder s limit' with
    | failed error used =>
      rw [parsed] at tree
      cases tree
    | parsed e' used =>
      rw [parsed] at tree
      cases tree
      have under := outcomeUnder_of_parsed parsed limit
      refine ⟨fun low => by rw [under.1 (by omega)], fun deep => ?_⟩
      obtain ⟨offset, t, first, stands, cut⟩ := under.2 (by omega)
      refine ⟨limit.toNat + 1, offset, t, _, by omega, first, ?_,
        SyntaxError.reports_nestedTooDeeply t.line limit, ?_⟩
      · rwa [ahead, List.getElem?_drop, Array.getElem?_toList] at stands
      · rw [cut, runOf, Int.natCast_add, ← Int.add_assoc]
        rfl
  · rcases curbed with same | ⟨line, used, cut, before⟩
    · exact .inl (by rw [same])
    · refine .inr ?_
      rw [position_runOf, position_runOf, cut]
      refine ⟨⟨_, rfl, (SyntaxError.reports_nestedTooDeeply line limit).code⟩, ?_⟩
      rw [Outcome.used_failed]
      omega

/-- In `nil * (-nil) - (-(nil))` the second minus sign behind a parenthesis and the parenthesis
behind it are the second and the third level; under a limit of two the parse stops just behind
that parenthesis, since the first group, which is closed, does not count. -/
theorem run_of_limits_siblings :
    let opener (line : Int) : Token := ⟨.leftParen, "(", .absent, line⟩
    let closer : Token := ⟨.rightParen, ")", .absent, 4⟩
    let minus : Token := ⟨.minus, "-", .absent, 1⟩
    let star : Token := ⟨.star, "*", .absent, 1⟩
    let operand : Token := ⟨.keyword .nilWord, "nil", .absent, 1⟩
    let s : TokenStream := ⟨[], 0, 4, #[operand, star, opener 1, minus, operand, closer, minus,
      opener 2, minus, opener 3, operand, closer, closer], none⟩
    let c : Cursor := {}
    c.Within s ∧ (2 : Int) ≤ 3 ∧
      (c.runUnder s 2).result = .error (.grammatical (.nestedTooDeeply 3 2)) ∧
      (c.runUnder s 2).position = 10 ∧
      (∃ e, (c.runUnder s 3).result = .ok e ∧ (e.nesting : Int) = 3) ∧
      ∀ e, (c.runUnder s 3).result = .ok e → max 2 0 < (e.nesting : Int) →
        ∃ (level offset : Nat) (t : Token) (error : SyntaxError),
          (level : Int) = max 2 0 + 1 ∧ e.FirstToOpen level offset t ∧
          s.tokens[c.position.toNat + offset]? = some t ∧ error.Reports "P014" none t.line ∧
          c.runUnder s 2 = ⟨.error (.grammatical error), c.position + offset + 1, c.warnings⟩ := by
  intro opener closer minus star operand s c
  have within : c.Within s := ⟨Int.le_refl 0, Int.natCast_nonneg _⟩
  refine ⟨within, by decide, by rfl, by rfl, ⟨_, by rfl, by rfl⟩, fun e tree => ?_⟩
  exact ((run_of_limits within (by decide)).2.1 e tree).2

end Cursor

end LoxSyntax
