import Mathlib.Data.List.Forall2
import LoxSyntax.Cursor

/-!
# Readings decide by the kinds of tokens alone

Two rows of tokens of the same kinds are read in parallel: whatever relation `R` between
tokens of one kind holds between the rows token by token holds between the trees, the errors
and the warnings too, and both readings use the same number of tokens.

* `Rule.Parallel` says so of a rule, and each way to build a rule hands it on
  (`Rule.Parallel.leftAssociative`, `Rule.Parallel.primaryOver`, `Rule.Parallel.unaryOver`), so
  that it holds of every rule of the grammar (`Nonterminal.parallel`).
* `Cursor.Parallel` says so of what cursors read (`Cursor.readWithin_parallel`,
  `Cursor.parseWithin_parallel`).
* With `R` the graph of a map, replacing tokens by tokens of their kinds replaces them in
  every outcome (`Cursor.readings_relabeled`).
-/

namespace LoxSyntax

/-! ## Outcomes side by side -/

/-- Trees of one form with related tokens. -/
inductive Expr.Parallel (R : Token → Token → Prop) : Expr → Expr → Prop
  | literal {t u : Token} : R t u → Parallel R (.literal t) (.literal u)
  | grouping {inner inner' : Expr} {t u : Token} :
    Parallel R inner inner' → R t u →
    Parallel R (.grouping inner (some t)) (.grouping inner' (some u))
  | unary {operand operand' : Expr} {t u : Token} :
    R t u → Parallel R operand operand' → Parallel R (.unary t operand) (.unary u operand')
  | binary {left left' right right' : Expr} {t u : Token} :
    Parallel R left left' → R t u → Parallel R right right' →
    Parallel R (.binary left t right) (.binary left' u right')

/-- Errors of one sort behind the same number of tokens of two rows. Each is about the token
that stands there in its own row, or about the end of its own row, or about the token
before. -/
inductive SyntaxError.Parallel (R : Token → Token → Prop) (around around' : Surroundings)
    (row row' : List Token) : Nat → SyntaxError → SyntaxError → Prop
  | unexpectedToken {stop : Nat} {t u : Token} :
    row[stop]? = some t → row'[stop]? = some u → R t u →
    Parallel R around around' row row' stop (.unexpectedToken t) (.unexpectedToken u)
  | unexpectedEnd {stop : Nat} {expected : String} :
    row[stop]? = none →
    Parallel R around around' row row' stop (.unexpectedEnd expected around.endLine)
      (.unexpectedEnd expected around'.endLine)
  | unclosed {stop : Nat} {opener opener' t u : Token} :
    R opener opener' → row[stop]? = some t → row'[stop]? = some u → R t u →
    Parallel R around around' row row' stop (.unclosedDelimiter opener (some t) t.line)
      (.unclosedDelimiter opener' (some u) u.line)
  | unclosedEnd {stop : Nat} {opener opener' : Token} :
    R opener opener' → row[stop]? = none →
    Parallel R around around' row row' stop (.unclosedDelimiter opener none around.endLine)
      (.unclosedDelimiter opener' none around'.endLine)
  | tooDeep {last : Nat} {opener opener' : Token} :
    row[last]? = some opener → row'[last]? = some opener' → R opener opener' →
    opener.kind = .leftParen ∨ opener.kind.isUnaryOperator = true →
    Parallel R around around' row row' (last + 1) (.nestedTooDeeply opener.line around.limit)
      (.nestedTooDeeply opener'.line around'.limit)

/-- Trees or errors side by side, behind the same number of tokens. -/
inductive Outcome.Parallel (R : Token → Token → Prop) (around around' : Surroundings)
    (row row' : List Token) : Outcome → Outcome → Prop
  | parsed {e e' : Expr} {used : Nat} :
    e.Parallel R e' → Parallel R around around' row row' (.parsed e used) (.parsed e' used)
  | failed {error error' : SyntaxError} {used : Nat} :
    SyntaxError.Parallel R around around' row row' used error error' →
    Parallel R around around' row row' (.failed error used) (.failed error' used)

/-- Two rules that make the same of rows with related tokens. -/
def Rule.Parallel (R : Token → Token → Prop) (around around' : Surroundings)
    (rule rule' : Rule) : Prop :=
  ∀ row row' : List Token, List.Forall₂ R row row' →
    Outcome.Parallel R around around' row row' (rule row) (rule' row')

section

variable {R : Token → Token → Prop} {around around' : Surroundings} {row row' : List Token}

/-- Errors behind the first tokens of two rows are errors of the whole rows. -/
theorem SyntaxError.Parallel.of_drop {covered stop : Nat} {error error' : SyntaxError}
    (h : Parallel R around around' (row.drop covered) (row'.drop covered) stop error error') :
    Parallel R around around' row row' (covered + stop) error error' := by
  cases h with
  | unexpectedToken found found' related =>
    rw [List.getElem?_drop] at found found'
    exact .unexpectedToken found found' related
  | unexpectedEnd ends =>
    rw [List.getElem?_drop] at ends
    exact .unexpectedEnd ends
  | unclosed openers found found' related =>
    rw [List.getElem?_drop] at found found'
    exact .unclosed openers found found' related
  | unclosedEnd openers ends =>
    rw [List.getElem?_drop] at ends
    exact .unclosedEnd openers ends
  | tooDeep last last' related opens =>
    rw [List.getElem?_drop] at last last'
    exact .tooDeep last last' related opens

theorem SyntaxError.Parallel.of_tail {stop : Nat} {error error' : SyntaxError} {t u : Token}
    (h : Parallel R around around' row row' stop error error') :
    Parallel R around around' (t :: row) (u :: row') (stop + 1) error error' := by
  rw [Nat.add_comm]
  exact .of_drop h

end

/-- Where one row goes on with a token, the other goes on with a related one. -/
theorem exists_drop_eq_cons {R : Token → Token → Prop} {row row' rest : List Token} {used : Nat}
    {t : Token} (rows : List.Forall₂ R row row') (split : t :: rest = row.drop used) :
    ∃ u rest', row'.drop used = u :: rest' ∧ R t u ∧ List.Forall₂ R rest rest' ∧
      rest = row.drop (used + 1) ∧ rest' = row'.drop (used + 1) := by
  have behind := List.forall₂_drop used rows
  rw [← split] at behind
  obtain ⟨u, rest', related, rests, split'⟩ := List.forall₂_cons_left_iff.mp behind
  refine ⟨u, rest', split', related, rests, ?_, ?_⟩
  · rw [← List.tail_drop, ← split, List.tail_cons]
  · rw [← List.tail_drop, split', List.tail_cons]

/-! ## Rules side by side -/

namespace Rule.Parallel

variable {R : Token → Token → Prop} {around around' : Surroundings}

section Chain

variable {operand operand' : Rule}

/-- The loop of a level goes through both rows in step. -/
theorem foldOperators (kinds : ∀ t u, R t u → u.kind = t.kind)
    (parallel : Rule.Parallel R around around' operand operand') (level : Level)
    {row row' : List Token} (rows : List.Forall₂ R row row') {left left' : Expr}
    (lefts : left.Parallel R left') (used : Nat) :
    Outcome.Parallel R around around' row row'
      (foldOperators level operand used 0 left (row.drop used))
      (foldOperators level operand' used 0 left' (row'.drop used)) := by
  -- errors count from the head of the rows, so the rows are kept whole and the loop is
  -- followed by the number of tokens used
  refine foldOperators_induction
    (motive := fun used left ahead outcome => ahead = row.drop used → ∀ left' : Expr,
      left.Parallel R left' → Outcome.Parallel R around around' row row' outcome
        (LoxSyntax.foldOperators level operand' used 0 left' (row'.drop used)))
    ?_ ?_ ?_ used left (row.drop used) rfl left' lefts
  · intro used left ahead stops split left' lefts
    have behind := List.forall₂_drop used rows
    rw [← split] at behind
    rw [foldOperators_of_head]
    · exact .parsed lefts
    · intro u member
      generalize row'.drop used = ahead' at behind member
      cases behind with
      | nil => cases member
      | cons related _ =>
        cases member
        rw [kinds _ _ related]
        exact stops _ rfl
  · intro used left operator rest right n outcome has next ih split left' lefts
    obtain ⟨operator', rest', split', related, rests, shifted, shifted'⟩ :=
      exists_drop_eq_cons rows split
    have turn := parallel rest rest' rests
    rw [next] at turn
    rw [split', foldOperators_of_has (by rw [kinds _ _ related]; exact has)]
    generalize operand' rest' = result at turn
    cases turn with
    | parsed rights =>
      dsimp only
      rw [shifted', List.drop_drop]
      exact ih (by rw [shifted, List.drop_drop]) _ (.binary lefts related rights)
  · intro used left operator rest error n has next split left' lefts
    obtain ⟨operator', rest', split', related, rests, shifted, shifted'⟩ :=
      exists_drop_eq_cons rows split
    have turn := parallel rest rest' rests
    rw [next] at turn
    rw [split', foldOperators_of_has (by rw [kinds _ _ related]; exact has)]
    generalize operand' rest' = result at turn
    cases turn with
    | failed errors =>
      rw [shifted, shifted'] at errors
      exact .failed errors.of_drop

theorem leftAssociative (kinds : ∀ t u, R t u → u.kind = t.kind)
    (parallel : Rule.Parallel R around around' operand operand') (level : Level) :
    Rule.Parallel R around around' (leftAssociative level operand)
      (leftAssociative level operand') := by
  intro row row' rows
  unfold LoxSyntax.leftAssociative
  have first := parallel row row' rows
  generalize operand row = result at first
  generalize operand' row' = result' at first
  cases first with
  | parsed lefts =>
    dsimp only
    rw [foldOperators_eq, foldOperators_eq level operand', Nat.zero_add]
    exact foldOperators kinds parallel level rows lefts _
  | failed errors => exact .failed errors

theorem expressionOver (kinds : ∀ t u, R t u → u.kind = t.kind)
    (parallel : Rule.Parallel R around around' operand operand') :
    Rule.Parallel R around around' (expressionOver operand) (expressionOver operand') :=
  (((parallel.leftAssociative kinds .factor).leftAssociative kinds .term).leftAssociative kinds
    .comparison).leftAssociative kinds .equality

end Chain

section Operands

variable {deeper deeper' : Option Rule}

theorem closeGroup (kinds : ∀ t u, R t u → u.kind = t.kind) {row row' : List Token}
    (rows : List.Forall₂ R row row') {opener opener' : Token} (openers : R opener opener')
    {inner inner' : Expr} (inners : inner.Parallel R inner') (used : Nat) :
    Outcome.Parallel R around around' row row'
      (closeGroup around opener inner used (row.drop used))
      (closeGroup around' opener' inner' used (row'.drop used)) := by
  have ahead := List.forall₂_drop used rows
  have head := List.head?_drop (l := row) (i := used)
  have head' := List.head?_drop (l := row') (i := used)
  generalize row.drop used = rest at ahead head
  generalize row'.drop used = rest' at ahead head'
  unfold LoxSyntax.closeGroup
  cases ahead with
  | nil => exact .failed (.unclosedEnd openers head.symm)
  | @cons t u _ _ related _ =>
    dsimp only
    rw [kinds t u related]
    split
    · exact .parsed (.grouping inners openers)
    · exact .failed (.unclosed openers head.symm head'.symm related)

theorem primaryOver (kinds : ∀ t u, R t u → u.kind = t.kind)
    (parallel : Option.Rel (Rule.Parallel R around around') deeper deeper') :
    Rule.Parallel R around around' (primaryOver around deeper) (primaryOver around' deeper') := by
  intro row row' rows
  unfold LoxSyntax.primaryOver
  cases rows with
  | nil => exact .failed (.unexpectedEnd rfl)
  | @cons t u rest rest' related rests =>
    have kind := kinds t u related
    have literal : u.isLiteral = t.isLiteral := congrArg Kind.isLiteral kind
    simp only [literal, kind]
    split
    · exact .parsed (.literal related)
    split
    · rename_i opens
      cases parallel with
      | none => exact .failed (.tooDeep rfl rfl related (.inl opens))
      | @some unary unary' within =>
        have inside := within.expressionOver kinds rest rest' rests
        dsimp only
        generalize LoxSyntax.expressionOver unary rest = result at inside
        generalize LoxSyntax.expressionOver unary' rest' = result' at inside
        cases inside with
        | @parsed inner inner' n inners =>
          exact closeGroup kinds (.cons related rests) related inners (n + 1)
        | failed errors => exact .failed errors.of_tail
    · exact .failed (.unexpectedToken rfl rfl related)

theorem unaryOver (kinds : ∀ t u, R t u → u.kind = t.kind)
    (parallel : Option.Rel (Rule.Parallel R around around') deeper deeper') :
    Rule.Parallel R around around' (unaryOver around deeper) (unaryOver around' deeper') := by
  intro row row' rows
  unfold LoxSyntax.unaryOver
  cases rows with
  | nil => exact primaryOver kinds parallel [] [] .nil
  | @cons t u rest rest' related rests =>
    dsimp only
    rw [kinds t u related]
    split
    · rename_i opens
      cases parallel with
      | none => exact .failed (.tooDeep rfl rfl related (.inr opens))
      | @some unary unary' within =>
        have inside := within rest rest' rests
        dsimp only
        generalize unary rest = result at inside
        generalize unary' rest' = result' at inside
        cases inside with
        | parsed operands => exact .parsed (.unary related operands)
        | failed errors => exact .failed errors.of_tail
    · exact primaryOver kinds parallel _ _ (.cons related rests)

end Operands

theorem unaryWithin (kinds : ∀ t u, R t u → u.kind = t.kind) (levels : Nat) :
    Rule.Parallel R around around' (unaryWithin around levels) (unaryWithin around' levels) := by
  induction levels with
  | zero =>
    rw [unaryWithin_eq, unaryWithin_eq]
    exact unaryOver kinds .none
  | succ levels ih =>
    rw [unaryWithin_eq, unaryWithin_eq]
    exact unaryOver kinds (.some ih)

end Rule.Parallel

/-- The rule of every nonterminal reads both rows in step. -/
theorem Nonterminal.parallel {R : Token → Token → Prop} {around around' : Surroundings}
    (kinds : ∀ t u, R t u → u.kind = t.kind) (levels : Nat) (n : Nonterminal) :
    Rule.Parallel R around around' (n.rule around levels) (n.rule around' levels) := by
  have unary := @Rule.Parallel.unaryWithin R around around' kinds levels
  have factor := unary.leftAssociative kinds .factor
  have term := factor.leftAssociative kinds .term
  cases n with
  | expression => exact unary.expressionOver kinds
  | equality => exact unary.expressionOver kinds
  | comparison => exact term.leftAssociative kinds .comparison
  | term => exact term
  | factor => exact factor
  | unary => exact unary
  | primary =>
    cases levels with
    | zero => exact .primaryOver kinds .none
    | succ levels => exact .primaryOver kinds (.some (.unaryWithin kinds levels))

/-! ## Cursors side by side -/

namespace Cursor

/-- Two cursors that readings of two streams have led to from the same cursor: both at the
same place, either with the warnings as they were or with one more on each side, about the
token at that place. -/
inductive Abreast (R : Token → Token → Prop) (s s' : TokenStream) (c : Cursor) :
    Cursor → Cursor → Prop
  | moved (position : Int) : Abreast R s s' c { c with position } { c with position }
  | warned {position : Int} {t u : Token} :
    s.tokens[position.toNat]? = some t → s'.tokens[position.toNat]? = some u → R t u →
    Abreast R s s' c { c with position, warnings := c.warnings.push ⟨t⟩ }
      { c with position, warnings := c.warnings.push ⟨u⟩ }

/-- What readings of two streams from the same cursor end with: cursors abreast, and trees or
errors side by side. -/
inductive Parallel (R : Token → Token → Prop) (s s' : TokenStream) (c : Cursor) :
    Cursor × Except Failure Expr → Cursor × Except Failure Expr → Prop
  | tree {after after' : Cursor} {e e' : Expr} :
    Abreast R s s' c after after' → e.Parallel R e' →
    Parallel R s s' c (after, .ok e) (after', .ok e')
  | error {after after' : Cursor} {error error' : SyntaxError} :
    Abreast R s s' c after after' →
    SyntaxError.Parallel R (c.surroundings s) (c.surroundings s') s.tokens.toList
      s'.tokens.toList after.position.toNat error error' →
    Parallel R s s' c (after, .error (.grammatical error)) (after', .error (.grammatical error'))

section Abreast

variable {R : Token → Token → Prop} {s s' : TokenStream} {c after after' : Cursor}

theorem Abreast.position (h : Abreast R s s' c after after') :
    after'.position = after.position := by
  cases h <;> rfl

theorem Abreast.limit (h : Abreast R s s' c after after') : after'.limit = after.limit := by
  cases h <;> rfl

theorem Abreast.warnings (h : Abreast R s s' c after after') :
    after.warnings = c.warnings ∧ after'.warnings = c.warnings ∨
      ∃ t u, s.tokens[after.position.toNat]? = some t ∧
        s'.tokens[after.position.toNat]? = some u ∧ R t u ∧
        after.warnings = c.warnings.push ⟨t⟩ ∧ after'.warnings = c.warnings.push ⟨u⟩ := by
  cases h with
  | moved position => exact .inl ⟨rfl, rfl⟩
  | warned found found' related => exact .inr ⟨_, _, found, found', related, rfl, rfl⟩

end Abreast

variable {R : Token → Token → Prop} {s s' : TokenStream} {c : Cursor}

theorem rule_parallel (kinds : ∀ t u, R t u → u.kind = t.kind)
    (rows : List.Forall₂ R s.tokens.toList s'.tokens.toList) (levels : Nat) (n : Nonterminal) :
    Outcome.Parallel R (c.surroundings s) (c.surroundings s') (c.ahead s) (c.ahead s')
      (n.rule (c.surroundings s) levels (c.ahead s))
      (n.rule (c.surroundings s') levels (c.ahead s')) :=
  n.parallel kinds levels _ _ (List.forall₂_drop _ rows)

/-- An error of the tokens ahead of a cursor within the tokens is one of all tokens. -/
theorem error_of_ahead (inside : 0 ≤ c.position) {used : Nat} {error error' : SyntaxError}
    (h : SyntaxError.Parallel R (c.surroundings s) (c.surroundings s') (c.ahead s) (c.ahead s')
      used error error') :
    Parallel R s s' c
      ({ c with position := c.position + used }, .error (.grammatical error))
      ({ c with position := c.position + used }, .error (.grammatical error')) := by
  refine .error (.moved _) ?_
  rw [show (c.position + used).toNat = c.position.toNat + used by omega]
  exact h.of_drop

/-- Within the tokens, streams with related tokens are read in parallel. -/
theorem readWithin_parallel (kinds : ∀ t u, R t u → u.kind = t.kind)
    (rows : List.Forall₂ R s.tokens.toList s'.tokens.toList)
    (inside : 0 ≤ c.position ∧ c.position ≤ s.count) (levels : Nat) (n : Nonterminal) :
    Parallel R s s' c (c.readWithin s levels n) (c.readWithin s' levels n) := by
  have count : s'.count = s.count := rows.length_eq.symm
  rw [readWithin_of_inside levels n inside, readWithin_of_inside levels n (by rwa [count])]
  have outcomes := rule_parallel (c := c) kinds rows levels n
  generalize n.rule (c.surroundings s) levels (c.ahead s) = result at outcomes
  generalize n.rule (c.surroundings s') levels (c.ahead s') = result' at outcomes
  cases outcomes with
  | parsed trees => exact .tree (.moved _) trees
  | failed errors => exact error_of_ahead inside.1 errors

/-- Both parses warn of the token at the same place, or neither warns. -/
theorem warnOfRest_abreast (rows : List.Forall₂ R s.tokens.toList s'.tokens.toList)
    {position : Int} (inside : 0 ≤ position) :
    Abreast R s s' c (({ c with position } : Cursor).warnOfRest s)
      (({ c with position } : Cursor).warnOfRest s') := by
  rw [warnOfRest_eq inside, warnOfRest_eq inside]
  have ahead := List.forall₂_drop position.toNat rows
  have head := List.head?_drop (l := s.tokens.toList) (i := position.toNat)
  have head' := List.head?_drop (l := s'.tokens.toList) (i := position.toNat)
  rw [Array.getElem?_toList] at head head'
  dsimp only [Cursor.ahead]
  generalize s.tokens.toList.drop position.toNat = rest at ahead head
  generalize s'.tokens.toList.drop position.toNat = rest' at ahead head'
  cases ahead with
  | nil => simpa using Abreast.moved position
  | cons related _ => simpa using Abreast.warned head.symm head'.symm related

/-- Within the tokens, streams with related tokens are parsed in parallel. -/
theorem parseWithin_parallel (kinds : ∀ t u, R t u → u.kind = t.kind)
    (rows : List.Forall₂ R s.tokens.toList s'.tokens.toList)
    (inside : 0 ≤ c.position ∧ c.position ≤ s.count) (levels : Nat) :
    Parallel R s s' c (c.parseWithin s levels) (c.parseWithin s' levels) := by
  have count : s'.count = s.count := rows.length_eq.symm
  unfold parseWithin
  rw [readWithin_of_inside levels _ inside, readWithin_of_inside levels _ (by rwa [count])]
  have outcomes := rule_parallel (c := c) kinds rows levels .expression
  generalize Nonterminal.expression.rule (c.surroundings s) _ _ = result at outcomes
  generalize Nonterminal.expression.rule (c.surroundings s') _ _ = result' at outcomes
  cases outcomes with
  | parsed trees => exact .tree (warnOfRest_abreast rows (by omega)) trees
  | failed errors => exact error_of_ahead inside.1 errors

end Cursor

/-! ## Replaced tokens -/

/-- The stream with every token replaced. -/
def TokenStream.mapTokens (f : Token → Token) (s : TokenStream) : TokenStream :=
  { s with tokens := s.tokens.map f }

/-- What becomes of an error behind `position` tokens of a stream when `f` replaces its
tokens: the same error about the image of its token. Its line is that of the image of its
token, else that of the image of the last token; but the line of an error about the limit is
that of the image of the token that opened one level too many, the last one used. -/
structure SyntaxError.Relabeled (f : Token → Token) (s : TokenStream) (position : Int)
    (error image : SyntaxError) : Prop where
  code : image.diagnostic.code = error.diagnostic.code
  suggestions : image.diagnostic.suggestions = error.diagnostic.suggestions
  token : image.token? = error.token?.map f
  tokenLine : ∀ t, error.token? = some t →
    s.tokens[position.toNat]? = some t ∧ image.diagnostic.line = (f t).line
  endLine : error.token? = none → error.diagnostic.code ≠ some "P014" →
    image.diagnostic.line = (s.tokens.back?.map fun t => (f t).line).getD 1
  openerLine : error.diagnostic.code = some "P014" → ∃ last opener,
    position = (last : Nat) + 1 ∧ s.tokens[last]? = some opener ∧
    (opener.kind = .leftParen ∨ opener.kind.isUnaryOperator = true) ∧
    error.diagnostic.line = opener.line ∧ image.diagnostic.line = (f opener).line

/-- What becomes of a reading from the cursor `c` when `f` replaces the tokens of its
stream. -/
structure Cursor.Relabeled (f : Token → Token) (s : TokenStream) (c : Cursor)
    (run image : Cursor × Except Failure Expr) : Prop where
  position : image.1.position = run.1.position
  limit : image.1.limit = run.1.limit
  warnings : ∃ found : List Token,
    run.1.warnings.toList = c.warnings.toList ++ found.map TrailingTokens.mk ∧
    image.1.warnings.toList = c.warnings.toList ++ (found.map f).map TrailingTokens.mk
  tree : ∀ e, run.2 = .ok e → image.2 = .ok (e.mapTokens f)
  error : ∀ failure, run.2 = .error failure → ∃ error error' : SyntaxError,
    failure = .grammatical error ∧ image.2 = .error (.grammatical error') ∧
    error.Relabeled f s run.1.position error'

section

variable {f : Token → Token} {s : TokenStream} {c : Cursor}

theorem Expr.Parallel.eq_mapTokens {e e' : Expr} (h : e.Parallel (fun t u => u = f t) e') :
    e' = e.mapTokens f := by
  induction h with
  | literal related => rw [related, Expr.mapTokens]
  | grouping _ related ih =>
    rw [related, ih, Expr.mapTokens]
    rfl
  | unary related _ ih => rw [related, ih, Expr.mapTokens]
  | binary _ related _ left right => rw [related, left, right, Expr.mapTokens]

theorem TokenStream.lastLine_mapTokens (f : Token → Token) (s : TokenStream) :
    (s.mapTokens f).lastLine = (s.tokens.back?.map fun t => (f t).line).getD 1 := by
  have last : (s.mapTokens f).tokens.back? = s.tokens.back?.map f := by
    simp [mapTokens, Array.back?_map]
  rw [lastLine, last]
  cases s.tokens.back? <;> rfl

theorem SyntaxError.Parallel.relabeled (kinds : ∀ t, (f t).kind = t.kind) {position : Int}
    {error error' : SyntaxError}
    (h : Parallel (fun t u => u = f t) (c.surroundings s) (c.surroundings (s.mapTokens f))
      s.tokens.toList (s.mapTokens f).tokens.toList position.toNat error error') :
    error.Relabeled f s position error' := by
  generalize stop : position.toNat = stop at h
  cases h with
  | @unexpectedToken _ t u found _ image =>
    subst image
    rw [Array.getElem?_toList] at found
    refine ⟨rfl, ?_, rfl, fun t' same => ?_, nofun, fun other => ?_⟩
    · show some (suggestionsFor (f t).kind) = some (suggestionsFor t.kind)
      rw [kinds]
    · cases same
      exact ⟨stop ▸ found, rfl⟩
    · have codes : some "P001" = some "P014" := other
      exact absurd codes (by decide)
  | unexpectedEnd _ =>
    refine ⟨rfl, rfl, rfl, fun t' same => ?_, fun _ _ => TokenStream.lastLine_mapTokens f s,
      fun other => ?_⟩
    · cases same
    · have codes : some "P010" = some "P014" := other
      exact absurd codes (by decide)
  | @unclosed _ _ _ t u _ found _ image =>
    subst image
    rw [Array.getElem?_toList] at found
    refine ⟨rfl, rfl, rfl, fun t' same => ?_, nofun, fun other => ?_⟩
    · cases same
      exact ⟨stop ▸ found, rfl⟩
    · have codes : some "P004" = some "P014" := other
      exact absurd codes (by decide)
  | unclosedEnd _ _ =>
    refine ⟨rfl, rfl, rfl, fun t' same => ?_, fun _ _ => TokenStream.lastLine_mapTokens f s,
      fun other => ?_⟩
    · cases same
    · have codes : some "P004" = some "P014" := other
      exact absurd codes (by decide)
  | @tooDeep last opener _ found _ image opens =>
    subst image
    rw [Array.getElem?_toList] at found
    refine ⟨rfl, rfl, rfl, fun t' same => ?_, fun _ other => absurd rfl other, fun _ => ?_⟩
    · cases same
    · exact ⟨last, opener, by omega, found, opens, rfl, rfl⟩

theorem Cursor.Parallel.relabeled (kinds : ∀ t, (f t).kind = t.kind)
    {run image : Cursor × Except Failure Expr}
    (h : Cursor.Parallel (fun t u => u = f t) s (s.mapTokens f) c run image) :
    Cursor.Relabeled f s c run image := by
  have warnings {after after' : Cursor}
      (h : Abreast (fun t u => u = f t) s (s.mapTokens f) c after after') :
      ∃ found : List Token,
        after.warnings.toList = c.warnings.toList ++ found.map TrailingTokens.mk ∧
        after'.warnings.toList = c.warnings.toList ++ (found.map f).map TrailingTokens.mk := by
    rcases h.warnings with ⟨none, none'⟩ | ⟨t, u, -, -, image, warned, warned'⟩
    · exact ⟨[], by simp [none], by simp [none']⟩
    · exact ⟨[t], by simp [warned], by simp [warned', image]⟩
  cases h with
  | tree abreast trees =>
    refine ⟨abreast.position, abreast.limit, warnings abreast, fun e same => ?_,
      fun _ failed => ?_⟩
    · cases same
      exact congrArg Except.ok trees.eq_mapTokens
    · cases failed
  | error abreast errors =>
    refine ⟨abreast.position, abreast.limit, warnings abreast, fun e same => ?_,
      fun _ failed => ?_⟩
    · cases same
    · cases failed
      exact ⟨_, _, rfl, rfl, errors.relabeled kinds⟩

end

/-- Replacing the tokens of a stream by tokens of their kinds replaces them in what comes of
every reading and of every parse, and changes nothing else. -/
theorem Cursor.readings_relabeled (f : Token → Token) (kinds : ∀ t, (f t).kind = t.kind)
    (s : TokenStream) (c : Cursor) (inside : 0 ≤ c.position ∧ c.position ≤ s.count) :
    (∀ n, Cursor.Relabeled f s c (c.read s n) (c.read (s.mapTokens f) n)) ∧
      Cursor.Relabeled f s c (c.parse s) (c.parse (s.mapTokens f)) := by
  have images : ∀ t u, u = f t → u.kind = t.kind := fun t u image => image ▸ kinds t
  have rows : List.Forall₂ (fun t u => u = f t) s.tokens.toList (s.mapTokens f).tokens.toList := by
    rw [TokenStream.mapTokens, Array.toList_map, List.forall₂_map_right_iff]
    exact List.forall₂_same.mpr fun _ _ => rfl
  exact ⟨fun n => (readWithin_parallel images rows inside _ n).relabeled kinds,
    (parseWithin_parallel images rows inside _).relabeled kinds⟩

/-- Other texts, values and lines for the tokens of `- ( 1 )` change the line of the error
for a limit of one level. -/
theorem Cursor.readings_relabeled_tooDeep :
    let f : Token → Token := fun t => ⟨t.kind, "?", .absent, t.line + 7⟩
    let s : TokenStream := ⟨[], 0, 2, #[⟨.minus, "-", .absent, 1⟩, ⟨.leftParen, "(", .absent, 2⟩,
      ⟨.number, "1", .absent, 2⟩, ⟨.rightParen, ")", .absent, 2⟩], none⟩
    let c : Cursor := ⟨0, #[], 1⟩
    (∀ n, Cursor.Relabeled f s c (c.read s n) (c.read (s.mapTokens f) n)) ∧
      Cursor.Relabeled f s c (c.parse s) (c.parse (s.mapTokens f)) := by
  intro f s c
  exact Cursor.readings_relabeled f (fun _ => rfl) s c (by decide)

end LoxSyntax
