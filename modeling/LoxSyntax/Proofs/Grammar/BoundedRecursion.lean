import LoxSyntax.Proofs.Grammar.CallStack
import LoxSyntax.Proofs.Grammar.Soundness

/-!
# The limit bounds the recursion

A descent carries the rules of the grammar out. Whoever waits for it, the reading of a
nonterminal that a reader begins ends where the rule ends, with the tree or the error of the
rule (`Moment.ComesTo`). That is carried through the loops of the operators
(`Moment.Carries.leftAssociative`) and from one level of nesting to the next
(`Moment.carries_unary`) to all nonterminals (`Moment.carries_rule`), with a limit and without
one: without one the rule just has room for as many levels as there are tokens.

So every descent ends, under a limit no more readings of a nonterminal are under way at once than
the limit allows levels and one, and a budget of so many calls is never exhausted and changes
nothing (`Cursor.recursion_bounded`). A budget of one call less is exhausted by some parse
(`Cursor.budget_exhausted`).
-/

namespace LoxSyntax

namespace Moment

/-- The end of the reading that the reader began: its tree or its error is handed on. -/
def ended (callers : List Caller) (c : Reader) : Outcome → Moment
  | .parsed e used => ⟨.returned e, callers, c.moved used⟩
  | .failed error used => ⟨.raised (.grammatical error), callers, c.moved used⟩

/-- A reading of the nonterminal that the reader begins comes to the outcome, whoever waits for
it. -/
def ComesTo (s : TokenStream) (checks : Checks) (n : Nonterminal) (c : Reader)
    (outcome : Outcome) : Prop :=
  ∀ callers, Leads s checks ⟨.call n, callers, c⟩ (ended callers c outcome)

/-- The descent carries the rule out for the nonterminal, from any reader with this limit and
count in front of no more than `size` tokens. -/
def Carries (s : TokenStream) (limited : Bool) (limit depth : Int) (size : Nat) (n : Nonterminal)
    (rule : Rule) : Prop :=
  ∀ c : Reader, c.Within s → c.limit = limit → c.depth = depth → (c.ahead s).length ≤ size →
    ComesTo s { limited } n c (rule (c.ahead s))

variable {s : TokenStream} {checks : Checks} {limited : Bool} {limit depth : Int} {size : Nat}
  {callers : List Caller} {c : Reader} {t : Token} {rest : List Token}

/-! ## Step by step -/

/-- A reading that the budget allows begins with its first step. -/
theorem leads_of_begin {n : Nonterminal} {after : Moment}
    (fits : overspent checks ⟨.call n, callers, c⟩ = false)
    (run : (begin s ⟨.call n, callers, c⟩ n).Leads s checks after) :
    Leads s checks ⟨.call n, callers, c⟩ after := by
  refine .head (congrArg some (if_neg ?_)) run
  rw [fits]
  exact Bool.false_ne_true

/-- What is all that a caller is comes to the same for the caller. -/
theorem ended_leads {caller : Caller} (passes : caller = .expression ∨ caller = .unary)
    (outcome : Outcome) :
    Leads s checks (ended (caller :: callers) c outcome) (ended callers c outcome) := by
  rcases passes with rfl | rfl <;> cases outcome <;> exact .single rfl

theorem begin_level (m : Moment) (level : Level) :
    m.begin s level.nonterminal = m.calls (.first level) := by
  cases level <;> rfl

theorem turn_of_head {m : Moment} {level : Level} (left : Expr)
    (stops : ∀ t ∈ (m.reader.ahead s).head?, level.has t.kind = false) :
    m.turn s level left = m.returns left := by
  unfold turn
  cases ahead : m.reader.ahead s with
  | nil => rfl
  | cons t rest =>
    have other := stops t (by rw [ahead]; rfl)
    exact if_neg (by simp [other])

theorem turn_of_has {m : Moment} {level : Level} (left : Expr)
    (ahead : m.reader.ahead s = t :: rest) (has : level.has t.kind = true) :
    m.turn s level left = m.advance.calls (.next level left t) := by
  unfold turn
  rw [ahead]
  exact if_pos has

section Chain

variable {level : Level} {rule : Rule}

/-- Behind an operator of the level its operand is read. -/
theorem leads_of_has (carries : Carries s limited limit depth size level.operand rule)
    (h : c.Within s) (limits : c.limit = limit) (depths : c.depth = depth)
    (ahead : c.ahead s = t :: rest) (has : level.has t.kind = true) (short : rest.length ≤ size)
    (left : Expr) (callers : List Caller) :
    Leads s { limited } ⟨.loop level left, callers, c⟩
      (ended (.next level left t :: callers) (c.moved 1) (rule rest)) := by
  obtain ⟨behind, remain⟩ := Reader.ahead_moved_one h ahead
  have operand := carries _ behind limits depths (by rw [remain]; exact short)
    (.next level left t :: callers)
  rw [remain] at operand
  exact .head (congrArg some (turn_of_has left ahead has)) operand

/-- The loop of a level, entered behind a tree that used `used` tokens, goes on as the loop of
the rule. -/
theorem leads_of_loop (carries : Carries s limited limit depth size level.operand rule)
    (within : rule.WithinTokens) (callers : List Caller) (c : Reader) (limits : c.limit = limit)
    (depths : c.depth = depth) (used : Nat) (left : Expr) (inside : (c.moved used).Within s)
    (short : ((c.moved used).ahead s).length ≤ size) :
    Leads s { limited } ⟨.loop level left, callers, c.moved used⟩
      (ended callers c (foldOperators level rule used 0 left ((c.moved used).ahead s))) := by
  -- the reader where the loop began stays; the tokens used since then move along
  refine @foldOperators_induction level rule
    (fun used left tokens outcome => (c.moved used).Within s →
      (c.moved used).ahead s = tokens → tokens.length ≤ size →
      Leads s { limited } ⟨.loop level left, callers, c.moved used⟩ (ended callers c outcome))
    ?_ ?_ ?_ used left ((c.moved used).ahead s) inside rfl short
  · intro used left tokens stops inside ahead short
    have stop := turn_of_head (m := ⟨.loop level left, callers, c.moved used⟩) left (ahead ▸ stops)
    exact .single (congrArg some stop)
  · intro used left operator rest right n outcome has next ih inside ahead short
    rw [List.length_cons] at short
    have turn := leads_of_has carries inside limits depths ahead has (by omega) left callers
    have extent := within rest
    rw [next, Outcome.used_parsed] at extent
    obtain ⟨behind, remain⟩ := Reader.ahead_moved_one inside ahead
    have after := Reader.within_moved behind (remain.symm ▸ extent)
    have row := Reader.ahead_moved behind n
    rw [remain] at row
    rw [next] at turn
    simp only [ended, Reader.moved_moved] at turn after row
    refine turn.trans (.head rfl ?_)
    exact ih after row (by rw [List.length_drop]; omega)
  · intro used left operator rest error n has next inside ahead short
    rw [List.length_cons] at short
    have turn := leads_of_has carries inside limits depths ahead has (by omega) left callers
    rw [next] at turn
    simp only [ended, Reader.moved_moved] at turn
    exact turn.tail rfl

theorem Carries.leftAssociative (level : Level)
    (carries : Carries s limited limit depth size level.operand rule)
    (within : rule.WithinTokens) :
    Carries s limited limit depth size level.nonterminal
      (LoxSyntax.leftAssociative level rule) := by
  intro c inside limits depths short callers
  have first := carries c inside limits depths short (.first level :: callers)
  refine leads_of_begin rfl ?_
  rw [begin_level]
  refine first.trans ?_
  unfold LoxSyntax.leftAssociative
  cases read : rule (c.ahead s) with
  | failed error n => exact .single rfl
  | parsed left n =>
    have extent := within (c.ahead s)
    rw [read, Outcome.used_parsed] at extent
    have row := Reader.ahead_moved inside n
    have fewer : ((c.moved n).ahead s).length ≤ size := by
      rw [row, List.length_drop]
      omega
    have loop := leads_of_loop carries within callers c limits depths n left
      (Reader.within_moved inside extent) fewer
    dsimp only
    rw [foldOperators_eq level rule 0, Nat.zero_add, ← row]
    exact .head rfl loop

/-- The descent goes down the levels to the reading of operands. -/
theorem Carries.equalityOver (carries : Carries s limited limit depth size .unary rule)
    (within : rule.WithinTokens) :
    Carries s limited limit depth size .equality (LoxSyntax.expressionOver rule) := by
  have factor := carries.leftAssociative .factor within
  have withinFactor := within.leftAssociative .factor
  have term := factor.leftAssociative .term withinFactor
  have withinTerm := withinFactor.leftAssociative .term
  have comparison := term.leftAssociative .comparison withinTerm
  exact comparison.leftAssociative .equality (withinTerm.leftAssociative .comparison)

theorem Carries.expressionOver (carries : Carries s limited limit depth size .unary rule)
    (within : rule.WithinTokens) :
    Carries s limited limit depth size .expression (LoxSyntax.expressionOver rule) := by
  intro c inside limits depths short callers
  have equality := carries.equalityOver within c inside limits depths short
    (.expression :: callers)
  exact leads_of_begin rfl (equality.trans (ended_leads (.inl rfl) _))

end Chain

section Operands

/-- A group is closed, or not, as the rule says. -/
theorem leads_of_close (limited : Bool) (s : TokenStream) (callers : List Caller) (c : Reader)
    (used : Nat) (opener : Token) (inner : Expr) :
    Leads s { limited } ⟨.close opener inner, callers, c.moved used⟩
      (ended callers c
        (closeGroup ⟨c.limit, s.lastLine⟩ opener inner used ((c.moved used).ahead s))) := by
  refine .single (congrArg some ?_)
  rw [close]
  cases ahead : (c.moved used).ahead s with
  | nil => rfl
  | cons t rest =>
    by_cases closes : t.kind = .rightParen
    · simp only [closes, if_true, closeGroup, ended, ← Reader.moved_moved]
      rfl
    · simp only [closes, if_false, closeGroup, ended]
      rfl

/-- A failure within a level is a failure behind the token that opened it. -/
theorem next?_ended_failed (callers : List Caller) (opening : Opening) (c : Reader)
    (error : SyntaxError) (n : Nat) :
    (ended (.opened opening :: callers) (c.moved 1).deeper (.failed error n)).next? s checks =
      some (ended callers c (.failed error (n + 1))) := by
  rw [ended, ended, ← c.shallower_moved_deeper n]
  rfl

/-- A unary operator is joined with its operand. -/
theorem operator_leads (operator : Token) (unary : Rule) (c : Reader) (rest : List Token) :
    Leads s { limited }
      (ended (.opened (.operator operator) :: callers) (c.moved 1).deeper (unary rest))
      (ended callers c (operatorOver operator unary rest)) := by
  unfold operatorOver
  refine .single ?_
  cases unary rest with
  | parsed operand n =>
    rw [ended, ended, ← c.shallower_moved_deeper n]
    rfl
  | failed error n => exact next?_ended_failed _ _ _ _ _

/-- A group is joined with its parenthesis. -/
theorem group_leads (opener : Token) {contents : Rule} (h : c.Within s)
    (ahead : c.ahead s = opener :: rest) :
    Leads s { limited }
      (ended (.opened (.paren opener) :: callers) (c.moved 1).deeper (contents rest))
      (ended callers c (groupOver ⟨c.limit, s.lastLine⟩ opener contents rest)) := by
  unfold groupOver
  cases contents rest with
  | parsed inner n =>
    have remain := Reader.ahead_moved h (n + 1)
    rw [ahead, List.drop_succ_cons] at remain
    have closing := leads_of_close limited s callers c (n + 1) opener inner
    rw [remain] at closing
    refine .head ?_ closing
    rw [ended, ← c.shallower_moved_deeper n]
    rfl
  | failed error n => exact .single (next?_ended_failed _ _ _ _ _)

/-- The levels that a rule needs room for to do what a descent does: those that the count leaves
under the limit, or without a limit one for each token ahead. -/
def Room : (limited : Bool) → (limit depth : Int) → (size levels : Nat) → Prop
  | true, limit, depth, _, levels => levels = (limit - depth).toNat
  | false, _, _, size, levels => size ≤ levels

/-- Either the limit allows no further level and there is no room for one, or there is room for
one, and from within it for what is left. -/
theorem Room.deeper {fewer levels : Nat} (room : Room limited limit depth (fewer + 1) levels) :
    ((limited = true ∧ limit < depth + 1) ∧ levels = 0) ∨
      (¬ (limited = true ∧ limit < depth + 1) ∧
        ∃ lower, levels = lower + 1 ∧ Room limited limit (depth + 1) fewer lower) := by
  cases limited with
  | true =>
    have left : levels = (limit - depth).toNat := room
    by_cases full : limit < depth + 1
    · exact .inl ⟨⟨rfl, full⟩, by omega⟩
    · exact .inr ⟨fun refused => full refused.2, (limit - (depth + 1)).toNat, by omega, rfl⟩
  | false =>
    have enough : fewer + 1 ≤ levels := room
    have lower : fewer ≤ levels - 1 := by omega
    exact .inr ⟨nofun, levels - 1, by omega, lower⟩

theorem exists_room (limited : Bool) (limit depth : Int) (size : Nat) :
    ∃ levels, Room limited limit depth size levels := by
  cases limited with
  | true => exact ⟨_, rfl⟩
  | false => exact ⟨size, Nat.le_refl size⟩

/-- In front of fewer tokens, one level deeper, the descent carries the unary rule out. -/
def CarriesBelow (s : TokenStream) (limited : Bool) (limit depth : Int) (size : Nat) : Prop :=
  ∀ fewer lower, size = fewer + 1 → Room limited limit (depth + 1) fewer lower →
    Carries s limited limit (depth + 1) fewer .unary (unaryWithin ⟨limit, s.lastLine⟩ lower)

/-- A level that the limit does not allow is left at once. -/
theorem leads_of_refused {opening : Opening} (full : limited = true ∧ c.limit < c.depth + 1) :
    Leads s { limited } ⟨.enter opening, callers, (c.moved 1).deeper⟩
      (ended callers c (.failed (.nestedTooDeeply opening.token.line c.limit) 1)) := by
  refine .single (congrArg some ((if_pos full).trans ?_))
  rw [ended, Reader.shallower_deeper]
  rfl

/-- A level that is allowed is read by what is called for within it. -/
theorem leads_of_allowed {opening : Opening} {rule : Rule}
    (carries : Carries s limited c.limit (c.depth + 1) size opening.inside rule)
    (allowed : ¬ (limited = true ∧ c.limit < c.depth + 1)) (h : c.Within s)
    (ahead : c.ahead s = t :: rest) (short : rest.length ≤ size) :
    Leads s { limited } ⟨.enter opening, callers, (c.moved 1).deeper⟩
      (ended (.opened opening :: callers) (c.moved 1).deeper (rule rest)) := by
  obtain ⟨behind, row⟩ := Reader.ahead_moved_one h ahead
  have read := carries (c.moved 1).deeper behind rfl rfl (by
    show ((c.moved 1).ahead s).length ≤ size
    rw [row]
    exact short) (.opened opening :: callers)
  have same : (c.moved 1).deeper.ahead s = rest := row
  rw [same] at read
  refine .head (congrArg some ?_) read
  exact if_neg allowed

variable {levels : Nat}

/-- A primary is read as its rule says. -/
theorem Carries.primaryOver (room : Room limited limit depth size levels)
    (below : CarriesBelow s limited limit depth size) :
    Carries s limited limit depth size .primary
      (LoxSyntax.primaryOver ⟨limit, s.lastLine⟩
        (deeperWithin ⟨limit, s.lastLine⟩ levels)) := by
  intro c inside limits depths short callers
  subst limits depths
  refine leads_of_begin rfl ?_
  unfold begin
  dsimp only
  cases ahead : c.ahead s with
  | nil =>
    rw [LoxSyntax.primaryOver, ended, Reader.moved_zero]
    exact .refl
  | cons t rest =>
    dsimp only
    by_cases literal : t.isLiteral = true
    · rw [primaryOver_of_isLiteral literal, if_pos literal]
      exact .refl
    rw [if_neg literal]
    by_cases opens : t.kind = .leftParen
    · rw [if_pos opens]
      obtain ⟨fewer, rfl, shorter⟩ := Reading.exists_fewer ahead short
      rcases room.deeper with ⟨full, rfl⟩ | ⟨allowed, lower, rfl, further⟩
      · rw [deeperWithin, primaryOver_of_leftParen_none opens]
        exact leads_of_refused full
      · have within := Rule.WithinTokens.unaryWithin ⟨c.limit, s.lastLine⟩ lower
        have contents := (below fewer lower rfl further).expressionOver within
        rw [deeperWithin, primaryOver_of_leftParen_some opens]
        exact (leads_of_allowed contents allowed inside ahead shorter).trans
          (group_leads t inside ahead)
    · rw [primaryOver_of_other literal opens, if_neg opens, ended, Reader.moved_zero]
      exact .refl

/-- An operand is read as the unary rule says. -/
theorem Carries.unaryOver (room : Room limited limit depth size levels)
    (below : CarriesBelow s limited limit depth size) :
    Carries s limited limit depth size .unary
      (LoxSyntax.unaryOver ⟨limit, s.lastLine⟩ (deeperWithin ⟨limit, s.lastLine⟩ levels)) := by
  intro c inside limits depths short callers
  have primary := (Carries.primaryOver room below c inside limits depths short
    (.unary :: callers)).trans (ended_leads (.inr rfl) _)
  subst limits depths
  refine leads_of_begin rfl ?_
  unfold begin
  dsimp only
  cases ahead : c.ahead s with
  | nil =>
    rw [ahead] at primary
    exact primary
  | cons t rest =>
    dsimp only
    cases opens : t.kind.isUnaryOperator with
    | false =>
      rw [ahead] at primary
      rw [primaryOver_of_not_unaryOperator opens]
      exact primary
    | true =>
      obtain ⟨fewer, rfl, shorter⟩ := Reading.exists_fewer ahead short
      rcases room.deeper with ⟨full, rfl⟩ | ⟨allowed, lower, rfl, further⟩
      · rw [deeperWithin, unaryOver_of_operator_none opens]
        exact leads_of_refused full
      · rw [deeperWithin, unaryOver_of_operator_some opens]
        exact (leads_of_allowed (below fewer lower rfl further) allowed inside ahead shorter).trans
          (operator_leads t _ c rest)

end Operands

/-- The descent carries the unary rule out. -/
theorem carries_unary (s : TokenStream) (limited : Bool) (limit depth : Int) {size levels : Nat}
    (room : Room limited limit depth size levels) :
    Carries s limited limit depth size .unary (unaryWithin ⟨limit, s.lastLine⟩ levels) := by
  induction size generalizing depth levels with
  | zero =>
    rw [unaryWithin_eq]
    exact Carries.unaryOver room nofun
  | succ size ih =>
    rw [unaryWithin_eq]
    refine Carries.unaryOver room fun fewer lower more room => ?_
    cases more
    exact ih (depth + 1) room

/-- The descent carries the rule of every nonterminal out. -/
theorem carries_rule (s : TokenStream) (limited : Bool) (limit depth : Int) {size levels : Nat}
    (room : Room limited limit depth size levels) (n : Nonterminal) :
    Carries s limited limit depth size n (n.rule ⟨limit, s.lastLine⟩ levels) := by
  have within := Rule.WithinTokens.unaryWithin ⟨limit, s.lastLine⟩ levels
  have unary := carries_unary s limited limit depth room
  have factor := unary.leftAssociative .factor within
  have withinFactor := within.leftAssociative .factor
  have term := factor.leftAssociative .term withinFactor
  cases n with
  | expression => exact unary.expressionOver within
  | equality => exact unary.equalityOver within
  | comparison => exact term.leftAssociative .comparison (withinFactor.leftAssociative .term)
  | term => exact term
  | factor => exact factor
  | unary => exact unary
  | primary =>
    refine Carries.primaryOver room fun fewer lower more room => ?_
    exact carries_unary s limited limit (depth + 1) room

/-! ## The end of a descent -/

/-- A tree or a failure is left, and nobody waits for it. -/
def stopped : Cursor × Except Failure Expr → Moment
  | (after, .ok e) => ⟨.returned e, [], ⟨after, 0⟩⟩
  | (after, .error failure) => ⟨.raised failure, [], ⟨after, 0⟩⟩

theorem next?_stopped (result : Cursor × Except Failure Expr) :
    (stopped result).next? s checks = none := by
  obtain ⟨after, e | failure⟩ := result <;> rfl

/-- The descent comes to an end: every moment that it goes through leads on to the one with this
result, and there is none behind that. -/
structure EndsIn (s : TokenStream) (checks : Checks) (m : Moment)
    (result : Cursor × Except Failure Expr) : Prop where
  ahead : ∀ after, m.Leads s checks after → after.Leads s checks (stopped result)
  last : (stopped result).next? s checks = none

/-- As no moment has two next ones, it is enough that one moment leads to the end. -/
theorem EndsIn.of_leads {m : Moment} {result : Cursor × Except Failure Expr}
    (run : m.Leads s checks (stopped result)) : m.EndsIn s checks result where
  ahead := by
    intro after before
    have unique : Relator.RightUnique fun m after : Moment => m.next? s checks = some after :=
      fun _ _ _ step step' => Option.some.inj (step.symm.trans step')
    rcases Relation.ReflTransGen.total_of_right_unique unique before run with on | back
    · exact on
    · rcases Relation.ReflTransGen.cases_head back with same | ⟨beyond, step, -⟩
      · rw [same]
      · rw [next?_stopped] at step
        cases step
  last := next?_stopped result

end Moment

/-! ## Descents from a cursor -/

/-- What a descent is begun for. -/
inductive Entry
  | parse
  | read (n : Nonterminal)
deriving DecidableEq, Repr

namespace Entry

/-- The first moment of a descent from a cursor. No level is open: a parse sets the count back
to zero, and every reading leaves it there. -/
def start (c : Cursor) : Entry → Moment
  | parse => ⟨.call .expression, [.parse], ⟨c, 0⟩⟩
  | read n => ⟨.call n, [], ⟨c, 0⟩⟩

/-- What the cursor gives under its own limit, and where it stands then. -/
def answer (c : Cursor) (s : TokenStream) : Entry → Cursor × Except Failure Expr
  | parse => c.parse s
  | read n => c.read s n

/-- What the cursor gives with room for a number of levels of nesting. -/
def answerWithin (c : Cursor) (s : TokenStream) (levels : Nat) :
    Entry → Cursor × Except Failure Expr
  | parse => c.parseWithin s levels
  | read n => c.readWithin s levels n

variable {c : Cursor} {s : TokenStream}

/-- A descent begins with no level open. -/
theorem regular_start (h : c.Within s) (checks : Checks) (entry : Entry) :
    (entry.start c).Regular s checks c.limit := by
  have allowed (_ : checks.limited = true) : (0 : Int) ≤ max c.limit 0 := Int.le_max_right _ _
  cases entry with
  | parse =>
    have awaited : ∃ n, Awaits [.parse] n ∧ ∀ o ∈ some Nonterminal.expression, o = n :=
      ⟨.expression, .parse, fun o member => (Option.some.inj member).symm⟩
    exact ⟨h, rfl, rfl, allowed, awaited, nofun⟩
  | read n =>
    have awaited : ∃ n', Awaits [] n' ∧ ∀ o ∈ some n, o = n' :=
      ⟨n, .nobody n, fun o member => (Option.some.inj member).symm⟩
    exact ⟨h, rfl, rfl, allowed, awaited, nofun⟩

/-- A reading that nobody waits for ends with its result. -/
theorem ended_eq_stopped (h : c.Within s) (levels : Nat) (n : Nonterminal) :
    Moment.ended [] ⟨c, 0⟩ (n.rule (c.surroundings s) levels (c.ahead s)) =
      .stopped (c.readWithin s levels n) := by
  rw [Cursor.readWithin_of_inside levels n h]
  cases n.rule (c.surroundings s) levels (c.ahead s) <;> rfl

/-- Behind the expression a parse warns of the tokens left over. -/
theorem next?_ended_parse (h : c.Within s) (checks : Checks) (levels : Nat) :
    (Moment.ended [.parse] ⟨c, 0⟩
      (Nonterminal.expression.rule (c.surroundings s) levels (c.ahead s))).next? s checks =
      some (.stopped (c.parseWithin s levels)) := by
  rw [Cursor.parseWithin, Cursor.readWithin_of_inside levels .expression h]
  cases Nonterminal.expression.rule (c.surroundings s) levels (c.ahead s) <;> rfl

/-- A descent comes to what the cursor gives. -/
theorem endsIn (h : c.Within s) (entry : Entry) {limited : Bool} {levels : Nat}
    (room : Moment.Room limited c.limit 0 (c.ahead s).length levels) :
    (entry.start c).EndsIn s { limited } (entry.answerWithin c s levels) := by
  have comes (n : Nonterminal) (callers : List Caller) :=
    Moment.carries_rule s limited c.limit 0 room n ⟨c, 0⟩ h rfl rfl (Nat.le_refl _) callers
  refine .of_leads ?_
  cases entry with
  | parse => exact (comes .expression [.parse]).tail (next?_ended_parse h _ levels)
  | read n =>
    rw [answerWithin, ← ended_eq_stopped h]
    exact comes n []

end Entry

/-- Whatever a rule reads uses a token at least. -/
theorem Nonterminal.used_pos {around : Surroundings} {levels : Nat} {n : Nonterminal}
    {tokens : List Token} {e : Expr} {used : Nat}
    (parsed : n.rule around levels tokens = .parsed e used) : 1 ≤ used := by
  obtain ⟨ts, rest, -, rfl, phrase, -⟩ := n.sound _ _ _ _ _ parsed
  exact List.length_pos_iff.mpr phrase.spells.ne_nil

namespace Cursor

/-- The nesting limit bounds the recursion of a descent, and every descent ends. Under the limit
no more readings of a nonterminal are under way at any moment than levels are allowed and one;
the descent ends with what the cursor gives; and if no more readings of the unary rule than that
may be under way, the budget is never exhausted and the end is the same. Without a limit it ends
as well, with what the cursor gives where there is room for a level for each token. Either way
the count is the number of levels open at every moment, and every reading that is begun on the
way ends, never behind the last token, and behind one token at least if it gives a tree. -/
theorem recursion_bounded {c : Cursor} {s : TokenStream} (h : c.Within s) (entry : Entry) :
    let start := entry.start c
    let bound := max c.limit 0 + 1
    (∀ m, start.Leads s .underLimit m → ∀ n, (m.live n : Int) ≤ bound) ∧
      start.EndsIn s .underLimit (entry.answer c s) ∧
      (∀ m, start.Leads s (.budgeted bound.toNat) m → m.doing ≠ .exhausted) ∧
      start.EndsIn s (.budgeted bound.toNat) (entry.answer c s) ∧
      (∀ levels, (c.ahead s).length ≤ levels →
        start.EndsIn s .unlimited (entry.answerWithin c s levels)) ∧
      ∀ limited m, start.Leads s { limited } m →
        m.reader.depth = m.openLevels ∧
          ∀ n, m.doing = .call n → ∃ outcome, Moment.ComesTo s { limited } n m.reader outcome ∧
            outcome.used ≤ (m.reader.ahead s).length ∧
            ∀ e used, outcome = .parsed e used → 1 ≤ used := by
  intro start bound
  have regular := entry.regular_start h
  have enough : bound ≤ bound.toNat := Int.self_le_toNat bound
  have budgeted (m : Moment) :
      start.Leads s (.budgeted bound.toNat) m ↔ start.Leads s .underLimit m :=
    (regular .underLimit).leads_budgeted_iff enough
  have ends : start.EndsIn s .underLimit (entry.answer c s) := by
    have room : Moment.Room true c.limit 0 (c.ahead s).length c.levels := by
      rw [Moment.Room, Int.sub_zero, Cursor.levels]
    cases entry <;> exact Entry.endsIn h _ room
  refine ⟨fun m run n => ((regular _).leads run).live_le rfl n, ends, fun m run => ?_, ?_,
    fun levels enough => entry.endsIn h enough, fun limited m run => ?_⟩
  · exact ((regular _).leads ((budgeted m).mp run)).unspent rfl
  · exact .of_leads ((budgeted _).mpr (ends.ahead start .refl))
  · have now := (regular _).leads run
    refine ⟨now.counted, fun n _ => ?_⟩
    obtain ⟨levels, room⟩ := Moment.exists_room limited m.reader.limit m.reader.depth
      (m.reader.ahead s).length
    refine ⟨_, Moment.carries_rule s limited _ _ room n m.reader now.within rfl rfl
      (Nat.le_refl _), n.withinTokens _ _ _, fun e used parsed => ?_⟩
    exact n.used_pos parsed

/-- Under a limit of one `-(nil)` is refused at its parenthesis, with two readings of the unary
rule under way at most; two calls are budget enough, and without a limit it is read. -/
theorem recursion_bounded_refused :
    let minus : Token := ⟨.minus, "-", .absent, 1⟩
    let opener : Token := ⟨.leftParen, "(", .absent, 1⟩
    let operand : Token := ⟨.keyword .nilWord, "nil", .absent, 1⟩
    let closer : Token := ⟨.rightParen, ")", .absent, 1⟩
    let s : TokenStream := ⟨[], 0, 1, #[minus, opener, operand, closer], none⟩
    let c : Cursor := ⟨0, #[], 1⟩
    let start := Entry.parse.start c
    c.Within s ∧
      c.parse s = (⟨2, #[], 1⟩, .error (.grammatical (.nestedTooDeeply 1 1))) ∧
      (∀ m, start.Leads s .underLimit m → ∀ n, (m.live n : Int) ≤ 2) ∧
      (∀ m, start.Leads s (.budgeted 2) m → m.doing ≠ .exhausted) ∧
      start.EndsIn s (.budgeted 2) (c.parse s) ∧
      start.EndsIn s .unlimited
        (⟨4, #[], 1⟩, .ok (.unary minus (.grouping (.literal operand) (some opener)))) := by
  intro minus opener operand closer s c start
  have within : c.Within s := ⟨Int.le_refl 0, Int.natCast_nonneg _⟩
  obtain ⟨live, -, unspent, ends, free, -⟩ := recursion_bounded within .parse
  have read : Entry.parse.answerWithin c s 4 =
      (⟨4, #[], 1⟩, .ok (.unary minus (.grouping (.literal operand) (some opener)))) := by rfl
  exact ⟨within, by rfl, live, unspent, ends, read ▸ free 4 (Nat.le_refl 4)⟩

/-! ### The bound is the least -/

/-- Who waits for the first operand of a parse. -/
def parseCallers : List Caller :=
  [.first .factor, .first .term, .first .comparison, .first .equality, .expression, .parse]

/-- The moment of a parse at which the unary rule is about to be read behind so many operators,
each of which has opened a level. -/
def behindOperators (operator : Token) (limit : Int) (count : Nat) : Moment :=
  ⟨.call .unary, List.replicate count (.opened (.operator operator)) ++ parseCallers,
    ⟨⟨count, #[], limit⟩, count⟩⟩

theorem live_behindOperators (operator : Token) (limit : Int) (count : Nat) :
    (behindOperators operator limit count).live .unary = count + 1 := by
  have outside : (parseCallers.filterMap Caller.nonterminal?).count .unary = 0 := by decide
  have opened : (Caller.opened (.operator operator)).nonterminal? = some .unary := rfl
  rw [Moment.live, Moment.underWay, behindOperators, Doing.nonterminal?, Option.toList_some,
    List.filterMap_append, List.filterMap_replicate_of_some opened, List.count_append,
    List.count_append, outside, List.count_replicate_self, List.count_singleton_self]
  omega

/-- A parse comes to its first operand with no reading of the unary rule under way. -/
theorem start_leads_behindOperators (s : TokenStream) (operator : Token) (limit : Int)
    (calls : Nat) :
    (Entry.parse.start { limit }).Leads s (.budgeted calls) (behindOperators operator limit 0) :=
  Moment.leads_of_begin rfl (Moment.leads_of_begin rfl (Moment.leads_of_begin rfl
    (Moment.leads_of_begin rfl (Moment.leads_of_begin rfl .refl))))

/-- As long as neither the budget nor the limit is spent, one operator more opens a level. -/
theorem behindOperators_leads {s : TokenStream} {operator : Token} {limit : Int}
    {count calls : Nat} (has : operator.kind.isUnaryOperator = true)
    (ahead : ∃ rest, (behindOperators operator limit count).reader.ahead s = operator :: rest)
    (unspent : count + 1 ≤ calls) (allowed : (count : Int) + 1 ≤ limit) :
    (behindOperators operator limit count).Leads s (.budgeted calls)
      (behindOperators operator limit (count + 1)) := by
  obtain ⟨rest, ahead⟩ := ahead
  have fits : (behindOperators operator limit count).overspent (.budgeted calls) = false := by
    rw [Moment.overspent, Checks.budgeted, Option.any_some, live_behindOperators,
      decide_eq_false_iff_not]
    omega
  have begins : (behindOperators operator limit count).begin s .unary =
      (behindOperators operator limit count).advance.opens (.operator operator) := by
    rw [Moment.begin, ahead]
    exact if_pos has
  refine Moment.leads_of_begin fits ?_
  show ((behindOperators operator limit count).begin s .unary).Leads s _ _
  rw [begins]
  refine .single (congrArg some (if_neg fun refused => ?_))
  have full : limit < (count : Int) + 1 := refused.2
  omega

/-- With a call less than there may be readings of the unary rule under the limit, some parse
exhausts the budget. -/
theorem budget_exhausted (limit : Int) :
    ∃ s m, (Entry.parse.start { limit }).Leads s (.budgeted (max limit 0).toNat) m ∧
      m.doing = .exhausted := by
  let minus : Token := ⟨.minus, "-", .absent, 1⟩
  let s : TokenStream := ⟨[], 0, 1, Array.replicate limit.toNat minus, none⟩
  have reached (count : Nat) (le : count ≤ limit.toNat) :
      (Entry.parse.start { limit }).Leads s (.budgeted (max limit 0).toNat)
        (behindOperators minus limit count) := by
    induction count with
    | zero => exact start_leads_behindOperators s minus limit _
    | succ count ih =>
      refine (ih (by omega)).trans
        (behindOperators_leads (by rfl) ⟨List.replicate (limit.toNat - (count + 1)) minus, ?_⟩
          (by omega) (by omega))
      have more : limit.toNat - count = limit.toNat - (count + 1) + 1 := by omega
      show (Array.replicate limit.toNat minus).toList.drop (count : Int).toNat = _
      rw [Array.toList_replicate, Int.toNat_natCast, List.drop_replicate, more, List.replicate_succ]
  have spent : (behindOperators minus limit limit.toNat).overspent
      (.budgeted (max limit 0).toNat) = true := by
    rw [Moment.overspent, Checks.budgeted, Option.any_some, live_behindOperators,
      decide_eq_true_iff]
    omega
  exact ⟨s, _, (reached limit.toNat (Nat.le_refl _)).tail (congrArg some (if_pos spent)), rfl⟩

end Cursor

end LoxSyntax
