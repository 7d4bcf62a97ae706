import LoxSyntax.Proofs.Grammar.CorrectPrefix
import LoxSyntax.Proofs.Grammar.Extent

/-!
# Later tokens

What a rule makes of a row of tokens is settled when it stops in front of one of them, or
when the nesting limit cuts it off (`Outcome.Settled`). Tokens added behind the row do not
change a settled outcome, whatever line they end on (`Rule.Stable`). So a parse that has stopped
in front of a token comes out the same once a resumed scan has found more of them; only one that
came to the end of the tokens may be continued by later ones, and then it has read an expression
up to the end, or misses an operand or a closing parenthesis there
(`Cursor.parse_of_later_tokens`).
-/

namespace LoxSyntax

/-! ## Settled outcomes -/

/-- An outcome for a row of `count` tokens that no token behind the row can change: the rule
stopped in front of one of the tokens, or the limit cut it off. -/
def Outcome.Settled (count : Nat) (outcome : Outcome) : Prop :=
  outcome.used < count ∨
    ∃ line limit used, outcome = .failed (.nestedTooDeeply line limit) used

namespace Outcome.Settled

variable {count : Nat}

theorem of_parsed {e : Expr} {used : Nat} (h : (parsed e used).Settled count) : used < count := by
  rcases h with before | cut
  · exact before
  · obtain ⟨_, _, _, cut⟩ := cut
    cases cut

/-- A failure behind further tokens is as settled as without them. -/
theorem of_failed_add {error : SyntaxError} {used before : Nat}
    (h : (failed error (before + used)).Settled (before + count)) :
    (failed error used).Settled count := by
  rcases h with stopped | cut
  · exact .inl (Nat.lt_of_add_lt_add_left stopped)
  · obtain ⟨line, limit, _, cut⟩ := cut
    cases cut
    exact .inr ⟨line, limit, used, rfl⟩

end Outcome.Settled

/-- Wherever the first rule settles what a row of tokens is, the second one makes the same of
the row with more tokens behind it. -/
def Rule.Stable (rule rule' : Rule) : Prop :=
  ∀ tokens more, (rule tokens).Settled tokens.length → rule' (tokens ++ more) = rule tokens

namespace Rule.Stable

section Chain

variable {operand operand' : Rule}

/-- The loop of a level comes out the same wherever its outcome is settled. -/
theorem foldOperators (stable : Rule.Stable operand operand') (level : Level) (used : Nat)
    (left : Expr) (tokens more : List Token)
    (settled : (foldOperators level operand used 0 left tokens).Settled (used + tokens.length)) :
    LoxSyntax.foldOperators level operand' used 0 left (tokens ++ more) =
      LoxSyntax.foldOperators level operand used 0 left tokens := by
  -- at the end of the tokens the loop has stopped there, so nothing is settled: the invariant
  -- says so too, for the turn whose operand takes the last token
  refine (@foldOperators_induction level operand
    (fun used left tokens outcome =>
      (tokens = [] → outcome = .parsed left used) ∧
      (outcome.Settled (used + tokens.length) →
        LoxSyntax.foldOperators level operand' used 0 left (tokens ++ more) = outcome))
    ?_ ?_ ?_ used left tokens).2 settled
  · intro used left tokens ahead
    refine ⟨fun _ => rfl, fun settled => foldOperators_of_head ?_⟩
    have before := settled.of_parsed
    cases tokens with
    | nil => simp at before
    | cons t rest => exact ahead
  · intro used left operator rest right n outcome has next ih
    refine ⟨nofun, fun settled => ?_⟩
    rw [List.length_cons] at settled
    have inside : n < rest.length := by
      refine Classical.byContradiction fun past => ?_
      rw [ih.1 (List.drop_eq_nil_of_le (by omega))] at settled
      have before := settled.of_parsed
      omega
    have turn := stable rest more (by rw [next]; exact .inl inside)
    rw [List.cons_append, foldOperators_of_has has, turn, next]
    dsimp only
    rw [List.drop_append_of_le_length (Nat.le_of_lt inside)]
    refine ih.2 ?_
    have whole : used + 1 + n + (rest.length - n) = used + (rest.length + 1) := by omega
    rw [List.length_drop, whole]
    exact settled
  · intro used left operator rest error n has next
    refine ⟨nofun, fun settled => ?_⟩
    have whole : used + (rest.length + 1) = used + 1 + rest.length := by omega
    rw [List.length_cons, whole] at settled
    have turn := stable rest more (by rw [next]; exact settled.of_failed_add)
    rw [List.cons_append, foldOperators_of_has has, turn, next]

theorem leftAssociative (stable : Rule.Stable operand operand') (level : Level) :
    Rule.Stable (leftAssociative level operand) (leftAssociative level operand') := by
  intro tokens more settled
  unfold LoxSyntax.leftAssociative at settled ⊢
  cases first : operand tokens with
  | failed error n =>
    rw [first] at settled
    rw [stable tokens more (by rw [first]; exact settled), first]
  | parsed left n =>
    rw [first] at settled
    dsimp only at settled
    rw [foldOperators_eq, Nat.zero_add] at settled
    have inside : n < tokens.length := by
      refine Classical.byContradiction fun past => ?_
      have ends : tokens.drop n = [] := List.drop_eq_nil_of_le (Nat.le_of_not_lt past)
      rw [ends, foldOperators_of_head (fun t member => by cases member)] at settled
      exact past settled.of_parsed
    rw [stable tokens more (by rw [first]; exact .inl inside), first]
    dsimp only
    rw [foldOperators_eq, foldOperators_eq level operand, Nat.zero_add,
      List.drop_append_of_le_length (Nat.le_of_lt inside)]
    refine stable.foldOperators level n left (tokens.drop n) more ?_
    rw [List.length_drop, Nat.add_sub_cancel' (Nat.le_of_lt inside)]
    exact settled

theorem expressionOver (stable : Rule.Stable operand operand') :
    Rule.Stable (expressionOver operand) (expressionOver operand') :=
  (((stable.leftAssociative .factor).leftAssociative .term).leftAssociative
    .comparison).leftAssociative .equality

end Chain

section Operands

variable {around around' : Surroundings} {deeper deeper' : Option Rule}

/-- An operand that is missing at the end of the tokens may still come. -/
theorem not_settled_primaryOver_nil (around : Surroundings) (deeper : Option Rule) :
    ¬ (LoxSyntax.primaryOver around deeper []).Settled 0 := by
  intro settled
  rcases settled with before | cut
  · exact Nat.lt_irrefl 0 before
  · obtain ⟨_, _, _, cut⟩ := cut
    cases cut

/-- Where it is settled what becomes of a group, its contents end in front of a token. -/
theorem lt_of_settled_closeGroup {opener : Token} {inner : Expr} {n : Nat} {rest : List Token}
    (settled : (closeGroup around opener inner (n + 1) (rest.drop n)).Settled (rest.length + 1)) :
    n < rest.length := by
  refine Classical.byContradiction fun past => ?_
  rw [List.drop_eq_nil_of_le (by omega)] at settled
  rcases settled with before | cut
  · exact past (Nat.lt_of_succ_lt_succ before)
  · obtain ⟨_, _, _, cut⟩ := cut
    cases cut

/-- In front of a token it does not matter where the tokens end. -/
theorem closeGroup_append {opener : Token} {inner : Expr} {n : Nat} {rest : List Token}
    (some : rest ≠ []) (more : List Token) :
    closeGroup around' opener inner n (rest ++ more) = closeGroup around opener inner n rest := by
  cases rest with
  | nil => exact absurd rfl some
  | cons t behind => rfl

/-- A rule that is settled in front of the tokens behind another one is settled without that
one. -/
theorem of_failed_succ {error : SyntaxError} {n : Nat} {rest : List Token}
    (settled : (Outcome.failed error (n + 1)).Settled (rest.length + 1)) :
    (Outcome.failed error n).Settled rest.length := by
  rw [Nat.add_comm n, Nat.add_comm rest.length] at settled
  exact settled.of_failed_add

/-- A group comes out the same where it is settled. -/
theorem groupOver {inner inner' : Rule} (stable : Rule.Stable inner inner') {opener : Token}
    {rest more : List Token}
    (settled : (groupOver around opener inner rest).Settled (rest.length + 1)) :
    LoxSyntax.groupOver around' opener inner' (rest ++ more) =
      LoxSyntax.groupOver around opener inner rest := by
  unfold LoxSyntax.groupOver at settled ⊢
  cases inside : inner rest with
  | failed error n =>
    rw [inside] at settled
    rw [stable rest more (by rw [inside]; exact of_failed_succ settled), inside]
  | parsed e n =>
    rw [inside] at settled
    have before := lt_of_settled_closeGroup settled
    rw [stable rest more (by rw [inside]; exact .inl before), inside]
    dsimp only
    rw [List.drop_append_of_le_length (Nat.le_of_lt before)]
    refine closeGroup_append (fun ends => ?_) more
    have past := List.drop_eq_nil_iff.mp ends
    omega

/-- A unary tree comes out the same where it is settled. -/
theorem operatorOver {unary unary' : Rule} (stable : Rule.Stable unary unary')
    {operator : Token} {rest more : List Token}
    (settled : (operatorOver operator unary rest).Settled (rest.length + 1)) :
    LoxSyntax.operatorOver operator unary' (rest ++ more) =
      LoxSyntax.operatorOver operator unary rest := by
  unfold LoxSyntax.operatorOver at settled ⊢
  cases inside : unary rest with
  | failed error n =>
    rw [inside] at settled
    rw [stable rest more (by rw [inside]; exact of_failed_succ settled), inside]
  | parsed operand n =>
    rw [inside] at settled
    have before : n < rest.length := Nat.lt_of_succ_lt_succ settled.of_parsed
    rw [stable rest more (by rw [inside]; exact .inl before), inside]

theorem primaryOver (limit : around'.limit = around.limit)
    (stable : Option.Rel Rule.Stable deeper deeper') :
    Rule.Stable (primaryOver around deeper) (primaryOver around' deeper') := by
  intro tokens more settled
  cases tokens with
  | nil => exact absurd settled (not_settled_primaryOver_nil around deeper)
  | cons t rest =>
    rw [List.cons_append]
    by_cases literal : t.isLiteral = true
    · rw [primaryOver_of_isLiteral literal, primaryOver_of_isLiteral literal]
    by_cases opens : t.kind = .leftParen
    · cases stable with
      | none => rw [primaryOver_of_leftParen_none opens, primaryOver_of_leftParen_none opens, limit]
      | some within =>
        rw [primaryOver_of_leftParen_some opens] at settled
        rw [primaryOver_of_leftParen_some opens, primaryOver_of_leftParen_some opens]
        exact within.expressionOver.groupOver settled
    · rw [primaryOver_of_other literal opens, primaryOver_of_other literal opens]

theorem unaryOver (limit : around'.limit = around.limit)
    (stable : Option.Rel Rule.Stable deeper deeper') :
    Rule.Stable (unaryOver around deeper) (unaryOver around' deeper') := by
  intro tokens more settled
  cases tokens with
  | nil => exact absurd settled (not_settled_primaryOver_nil around deeper)
  | cons t rest =>
    cases opens : t.kind.isUnaryOperator with
    | true =>
      rw [List.cons_append]
      cases stable with
      | none => rw [unaryOver_of_operator_none opens, unaryOver_of_operator_none opens, limit]
      | some within =>
        rw [unaryOver_of_operator_some opens] at settled
        rw [unaryOver_of_operator_some opens, unaryOver_of_operator_some opens]
        exact within.operatorOver settled
    | false =>
      rw [primaryOver_of_not_unaryOperator opens] at settled
      rw [List.cons_append, primaryOver_of_not_unaryOperator opens,
        primaryOver_of_not_unaryOperator opens]
      exact primaryOver limit stable (t :: rest) more settled

end Operands

theorem unaryWithin {around around' : Surroundings} (limit : around'.limit = around.limit)
    (levels : Nat) : Rule.Stable (unaryWithin around levels) (unaryWithin around' levels) := by
  induction levels with
  | zero =>
    rw [unaryWithin_eq, unaryWithin_eq]
    exact unaryOver limit .none
  | succ levels ih =>
    rw [unaryWithin_eq, unaryWithin_eq]
    exact unaryOver limit (.some ih)

end Rule.Stable

/-! ## Errors in front of a token and at the end -/

/-- Where the limit does not cut a reading off, its error is about the token ahead, and without
one it is that something is missing at the end of the tokens. -/
theorem Fault.reports {around : Surroundings} {levels : Nat} {ts rest : List Token}
    {f : Frontier} {error : SyntaxError} (fault : Fault around levels ts f rest error)
    (within : error.diagnostic.code ≠ some "P014") :
    (∀ t ∈ rest.head?,
      error.Reports "P001" (some t) t.line ∨ error.Reports "P004" (some t) t.line) ∧
    (rest = [] →
      error.Reports "P010" none around.endLine ∨ error.Reports "P004" none around.endLine) := by
  cases fault with
  | @unexpectedToken opened behind t stuck =>
    refine ⟨fun u member => ?_, nofun⟩
    cases member
    exact .inl (SyntaxError.reports_unexpectedToken t)
  | unexpectedEnd =>
    refine ⟨fun t member => ?_, fun _ => .inl (SyntaxError.reports_unexpectedEnd _ _)⟩
    cases member
  | @unclosed outer behind opener t stuck =>
    refine ⟨fun u member => ?_, nofun⟩
    cases member
    exact .inr (SyntaxError.reports_unclosedDelimiter _ _ _)
  | unclosedEnd =>
    refine ⟨fun t member => ?_, fun _ => .inr (SyntaxError.reports_unclosedDelimiter _ _ _)⟩
    cases member
  | tooDeep last depth => exact absurd (SyntaxError.reports_nestedTooDeeply _ _).code within

/-! ## Parses -/

namespace Cursor

/-- How a parse from the cursor `c` ends in front of the token `t`: with an expression and a
warning about the token, or with an error about it. -/
def StopsAt (c : Cursor) (t : Token) (run : Cursor × Except Failure Expr) : Prop :=
  (∃ e, run.2 = .ok e ∧ run.1.warnings = c.warnings.push ⟨t⟩) ∨
    ∃ error, run.2 = .error (.grammatical error) ∧
      (error.Reports "P001" (some t) t.line ∨ error.Reports "P004" (some t) t.line)

/-- How a parse from the cursor `c` ends behind the last token: with an expression, or with
the error that an operand or a closing parenthesis is missing. -/
def StopsAtEnd (c : Cursor) (s : TokenStream) (run : Cursor × Except Failure Expr) : Prop :=
  run.1.position = s.count ∧ run.1.warnings = c.warnings ∧
    ((∃ e, run.2 = .ok e) ∨ ∃ error, run.2 = .error (.grammatical error) ∧
      (error.Reports "P010" none s.lastLine ∨ error.Reports "P004" none s.lastLine))

variable {c : Cursor} {s later : TokenStream}

/-- Tokens added to a stream come behind those ahead of a cursor within the tokens. -/
theorem ahead_append {more : List Token} (h : c.Within s)
    (grown : later.tokens.toList = s.tokens.toList ++ more) :
    c.ahead later = c.ahead s ++ more := by
  unfold Within TokenStream.count at h
  unfold ahead
  rw [grown, List.drop_append_of_le_length (by rw [Array.length_toList]; omega)]

/-- A parse that has read an expression up to a token warns of that token, whatever is behind
it. -/
theorem warnOfRest_append {more : List Token} (h : c.Within s) (before : c.position < s.count)
    (grown : later.tokens.toList = s.tokens.toList ++ more) :
    c.warnOfRest later = c.warnOfRest s := by
  have length := c.length_ahead s
  unfold Within at h
  rw [warnOfRest_eq h.1, warnOfRest_eq h.1, ahead_append h grown]
  cases row : c.ahead s with
  | nil =>
    rw [row, List.length_nil] at length
    omega
  | cons t rest => rfl

/-- What a parse makes of the tokens is settled where the rule of expressions settles it. -/
theorem settled_of_parse (h : c.Within s)
    (ends : (c.parse s).1.position < s.count ∨ Overnested (c.parse s).2) :
    (Nonterminal.expression.rule (c.surroundings s) c.levels (c.ahead s)).Settled
      (c.ahead s).length := by
  rw [length_ahead]
  unfold Within at h
  cases result : Nonterminal.expression.rule (c.surroundings s) c.levels (c.ahead s) with
  | parsed e used =>
    rw [parse_of_parsed h result, position_warnOfRest] at ends
    rcases ends with before | overnested
    · dsimp only at before
      exact .inl (by rw [Outcome.used_parsed]; omega)
    · obtain ⟨error, failed, -⟩ := overnested
      cases failed
  | failed error used =>
    rw [parse_of_failed h result] at ends
    rcases ends with before | overnested
    · dsimp only at before
      exact .inl (by rw [Outcome.used_failed]; omega)
    · obtain ⟨error', failed, code⟩ := overnested
      cases failed
      obtain ⟨line, limit, rfl⟩ := SyntaxError.eq_nestedTooDeeply_of_code code
      exact .inr ⟨line, limit, used, rfl⟩

/-- A parse that is settled comes out the same with more tokens behind the others. -/
theorem parse_append {more : List Token} (h : c.Within s)
    (grown : later.tokens.toList = s.tokens.toList ++ more)
    (ends : (c.parse s).1.position < s.count ∨ Overnested (c.parse s).2) :
    c.parse later = c.parse s := by
  have limit : (c.surroundings later).limit = (c.surroundings s).limit := rfl
  have stable := Rule.Stable.unaryWithin limit c.levels
  have same := stable.expressionOver (c.ahead s) more (settled_of_parse h ends)
  have within : c.Within later := h.grow (grown ▸ List.prefix_append _ _)
  rw [← ahead_append h grown] at same
  unfold Within at h within
  cases result : Nonterminal.expression.rule (c.surroundings s) c.levels (c.ahead s) with
  | parsed e used =>
    rw [parse_of_parsed h result, position_warnOfRest] at ends
    rw [parse_of_parsed h result, parse_of_parsed within (same.trans result)]
    rcases ends with before | overnested
    · rw [warnOfRest_append ⟨by dsimp only; omega, Int.le_of_lt before⟩ before grown]
    · obtain ⟨error, failed, -⟩ := overnested
      cases failed
  | failed error used =>
    rw [parse_of_failed h result, parse_of_failed within (same.trans result)]

/-- A parse that no limit cuts off stops in front of a token or behind the last one. -/
theorem parse_stops (h : c.Within s) (within : ¬ Overnested (c.parse s).2) :
    (∃ t, s.tokens[(c.parse s).1.position.toNat]? = some t ∧ c.StopsAt t (c.parse s)) ∨
      c.StopsAtEnd s (c.parse s) := by
  have advances := (parse_advances h).1
  unfold Within at h
  cases result : Nonterminal.expression.rule (c.surroundings s) c.levels (c.ahead s) with
  | parsed e used =>
    rw [parse_of_parsed h result] at advances ⊢
    have stop := advances.within
    have forward : 0 ≤ c.position + used := by omega
    rw [position_warnOfRest] at stop ⊢
    rw [warnOfRest_eq forward, ahead, List.head?_drop, Array.getElem?_toList]
    dsimp only at stop ⊢
    cases found : s.tokens[(c.position + used).toNat]? with
    | some t => exact .inl ⟨t, rfl, .inl ⟨e, rfl, by simp⟩⟩
    | none =>
      have past := Array.getElem?_eq_none_iff.mp found
      unfold TokenStream.count at stop
      refine .inr ⟨?_, by simp, .inl ⟨e, rfl⟩⟩
      dsimp only [TokenStream.count]
      omega
  | failed error used =>
    obtain ⟨ts, rest, f, split, rfl, reached, fault⟩ := expression_faults _ _ _ error used result
    rw [parse_of_failed h result] at advances within ⊢
    have stop := advances.within
    have ahead : rest = s.tokens.toList.drop (c.position + ts.length).toNat := by
      rw [show (c.position + ts.length).toNat = c.position.toNat + ts.length by omega,
        ← List.drop_drop, ← Cursor.ahead, split, List.drop_left]
    have head : rest.head? = s.tokens[(c.position + ts.length).toNat]? := by
      rw [ahead, List.head?_drop, Array.getElem?_toList]
    obtain ⟨stands, ends⟩ := fault.reports fun code => within ⟨error, rfl, code⟩
    dsimp only at stop ⊢
    rw [← head]
    cases rest with
    | cons t behind => exact .inl ⟨t, rfl, .inr ⟨error, rfl, stands t rfl⟩⟩
    | nil =>
      have past := Array.getElem?_eq_none_iff.mp head.symm
      unfold TokenStream.count at stop
      refine .inr ⟨?_, rfl, .inr ⟨error, rfl, ends rfl⟩⟩
      dsimp only [TokenStream.count]
      omega

/-- Tokens that come behind those of a stream change nothing of a parse that has stopped in
front of a token or that the limit has cut off. A parse that is not cut off reads an
expression up to a token, of which it warns, or reports the token; and whatever later tokens
change has stopped behind the last token. -/
theorem parse_of_later_tokens {c : Cursor} {s later : TokenStream} (h : c.Within s)
    (grown : s.tokens.toList <+: later.tokens.toList) :
    ((c.parse s).1.position < s.count ∨ Overnested (c.parse s).2 → c.parse later = c.parse s) ∧
      ((c.parse s).1.position < s.count → Overnested (c.parse s).2 ∨
        ∃ t, s.tokens[(c.parse s).1.position.toNat]? = some t ∧ c.StopsAt t (c.parse s)) ∧
      (c.parse later ≠ c.parse s → c.StopsAtEnd s (c.parse s)) := by
  obtain ⟨more, grown⟩ := grown
  have settled := parse_append h grown.symm
  refine ⟨settled, fun before => ?_, fun changed => ?_⟩
  · by_cases overnested : Overnested (c.parse s).2
    · exact .inl overnested
    · rcases parse_stops h overnested with stops | ends
      · exact .inr stops
      · exact absurd ends.1 (Int.ne_of_lt before)
  · have within : ¬ Overnested (c.parse s).2 :=
      fun overnested => changed (settled (.inr overnested))
    rcases parse_stops h within with stops | ends
    · obtain ⟨t, found, -⟩ := stops
      obtain ⟨inside, -⟩ := Array.getElem?_eq_some_iff.mp found
      have forward := (parse_advances h).1.forward
      unfold Within at h
      exact absurd (settled (.inl (by unfold TokenStream.count; omega))) changed
    · exact ends

/-- A scan of `(nil nil#)` stops at the letter in error; the second literal is where the group
should be closed, and stays so when the parenthesis behind the letter is found. -/
theorem parse_of_later_tokens_resumed :
    let s := (TokenStream.ofSource "(nil nil#)").scan.1
    let later := s.scan.1
    let c : Cursor := {}
    later.count = 4 ∧ c.Within s ∧ s.tokens.toList <+: later.tokens.toList ∧
      (c.parse s).1.position = 2 ∧ (c.parse s).1.position < s.count ∧
      ((c.parse s).1.position < s.count ∨ Overnested (c.parse s).2 →
        c.parse later = c.parse s) ∧
      ((c.parse s).1.position < s.count → Overnested (c.parse s).2 ∨
        ∃ t, s.tokens[(c.parse s).1.position.toNat]? = some t ∧ c.StopsAt t (c.parse s)) ∧
      (c.parse later ≠ c.parse s → c.StopsAtEnd s (c.parse s)) := by
  intro s later c
  have within : c.Within s := ⟨Int.le_refl 0, Int.natCast_nonneg _⟩
  have grown : s.tokens.toList <+: later.tokens.toList := s.prefix_tokens_readAll s.pending
  exact ⟨by rfl, within, grown, by rfl, by decide, parse_of_later_tokens within grown⟩

end Cursor

end LoxSyntax
