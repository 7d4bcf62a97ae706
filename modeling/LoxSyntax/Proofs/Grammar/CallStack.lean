import Mathlib.Logic.Relation
import LoxSyntax.Proofs.Grammar.Derivation
import LoxSyntax.Proofs.Grammar.Descent

/-!
# The calls of a descent

A recursive descent seen moment by moment. At each moment something is being done on behalf of
a stack of callers: readings that have called for another reading and wait for it. A `Moment` is
what is being done, the callers, the innermost first, and the reader with its count of the
levels of nesting; `Moment.next?` is the moment after it, and `Moment.Leads` any later one.

* `Awaits` is the shape of the stacks: every caller waits for the reading it calls for. From one
  open level to the next the callers go down the grammar, so there is one caller more of each
  nonterminal at most for every level that is open (`Awaits.count_add_le`).
* `Moment.Regular` is what every moment of a descent keeps: the count is the number of levels
  open, and under a limit no more levels are opened than it allows (`Moment.Regular.next`,
  `Moment.Regular.leads`).
* So the limit bounds how many readings of a nonterminal are under way at once
  (`Moment.Regular.live_le`), and a descent that may not have more readings of the unary rule
  under way than that goes on as one that may (`Moment.Regular.leads_budgeted_iff`).
-/

namespace LoxSyntax

/-! ## Callers -/

/-- What opens a level of nesting: an operator in front of its operand, or a parenthesis in
front of the contents of a group. -/
inductive Opening
  | operator (operator : Token)
  | paren (opener : Token)
deriving DecidableEq, Repr

namespace Opening

/-- The token that opens the level. -/
def token : Opening → Token
  | operator t => t
  | paren t => t

/-- The nonterminal whose reading opens the level. -/
def outside : Opening → Nonterminal
  | operator _ => .unary
  | paren _ => .primary

/-- The nonterminal that is read within the level. -/
def inside : Opening → Nonterminal
  | operator _ => .unary
  | paren _ => .expression

end Opening

/-- A reading that has called for another one and waits for it, with what it has read so far. -/
inductive Caller
  /-- A parse waits for the expression. -/
  | parse
  /-- An expression is all that an equality is. -/
  | expression
  /-- A level waits for its first operand. -/
  | first (level : Level)
  /-- A level waits for the operand behind an operator. -/
  | next (level : Level) (left : Expr) (operator : Token)
  /-- An operand without an operator in front waits for the primary that it is. -/
  | unary
  /-- A level of nesting is open around what is called for. -/
  | opened (opening : Opening)
deriving DecidableEq, Repr

namespace Caller

/-- The nonterminal that the caller reads; a parse reads none of its own. -/
def nonterminal? : Caller → Option Nonterminal
  | parse => none
  | expression => some .expression
  | first level => some level.nonterminal
  | next level _ _ => some level.nonterminal
  | unary => some .unary
  | opened opening => some opening.outside

/-- The nonterminal that the caller calls for. -/
def callee : Caller → Nonterminal
  | parse => .expression
  | expression => .equality
  | first level => level.operand
  | next level _ _ => level.operand
  | unary => .primary
  | opened opening => opening.inside

/-- Whether the caller has a level of nesting open. -/
def opens : Caller → Bool
  | opened _ => true
  | _ => false

theorem countP_opens_cons (c : Caller) (callers : List Caller) :
    (c :: callers).countP opens = c.opens.toNat + callers.countP opens := by
  rw [List.countP_cons, Nat.add_comm]
  cases c.opens <;> rfl

end Caller

/-! ## Moments -/

/-- What is being done at a moment. -/
inductive Doing
  /-- A nonterminal is about to be read. -/
  | call (n : Nonterminal)
  /-- An operator of the level is looked for behind the tree read so far. -/
  | loop (level : Level) (left : Expr)
  /-- The count has been raised for a level of nesting and is about to be checked. -/
  | enter (opening : Opening)
  /-- The parenthesis that closes a group is looked for behind its contents. -/
  | close (opener : Token) (inner : Expr)
  /-- A tree is handed to the caller. -/
  | returned (e : Expr)
  /-- A failure is handed to the caller. -/
  | raised (failure : Failure)
  /-- There is no budget for one more call. -/
  | exhausted
deriving DecidableEq

namespace Doing

/-- The nonterminal that is being read, unless its reading is over. -/
def nonterminal? : Doing → Option Nonterminal
  | call n => some n
  | loop level _ => some level.nonterminal
  | enter opening => some opening.outside
  | close _ _ => some .primary
  | _ => none

/-- Whether a level of nesting is being opened. -/
def opens : Doing → Bool
  | enter _ => true
  | _ => false

end Doing

namespace Reader

/-- The reader with its count raised. -/
def deeper (c : Reader) : Reader :=
  { c with depth := c.depth + 1 }

/-- The reader with its count lowered. -/
def shallower (c : Reader) : Reader :=
  { c with depth := c.depth - 1 }

theorem shallower_deeper (c : Reader) : c.deeper.shallower = c := by
  simp [deeper, shallower]

/-- The reader behind a level of nesting, which the token at it opened. -/
theorem shallower_moved_deeper (c : Reader) (n : Nat) :
    ((c.moved 1).deeper.moved n).shallower = c.moved (n + 1) := by
  simp [moved, deeper, shallower, Int.add_assoc, Int.add_comm 1]

end Reader

/-- What a descent is held to: whether it checks its count against the limit, and how many
readings of the unary rule may be under way at once, if that is bounded. -/
structure Checks where
  limited : Bool := true
  budget : Option Nat := none
deriving DecidableEq, Repr

namespace Checks

/-- The limit alone is checked. -/
def underLimit : Checks :=
  {}

/-- Nothing is checked. -/
def unlimited : Checks :=
  { limited := false }

/-- The limit is checked, and no more than `calls` readings of the unary rule may be under way
at once. -/
def budgeted (calls : Nat) : Checks :=
  { budget := some calls }

end Checks

/-- A moment of a descent. -/
structure Moment where
  doing : Doing
  /-- Who waits for what is being done, the innermost caller first. -/
  callers : List Caller
  reader : Reader
deriving DecidableEq

namespace Moment

/-- The readings under way, the innermost first. -/
def underWay (m : Moment) : List Nonterminal :=
  m.doing.nonterminal?.toList ++ m.callers.filterMap Caller.nonterminal?

/-- The number of readings of a nonterminal that are under way. -/
def live (m : Moment) (n : Nonterminal) : Nat :=
  m.underWay.count n

/-- The number of levels of nesting that are open. -/
def openLevels (m : Moment) : Nat :=
  m.doing.opens.toNat + m.callers.countP Caller.opens

/-! ### One step -/

/-- The caller calls for its nonterminal and waits. -/
def calls (m : Moment) (caller : Caller) : Moment :=
  { m with doing := .call caller.callee, callers := caller :: m.callers }

/-- The reader passes over a token. -/
def advance (m : Moment) : Moment :=
  { m with reader := m.reader.moved 1 }

/-- The token just passed over opens a level of nesting. -/
def opens (m : Moment) (opening : Opening) : Moment :=
  { m with doing := .enter opening, reader := m.reader.deeper }

/-- The reading ends with a tree. -/
def returns (m : Moment) (e : Expr) : Moment :=
  { m with doing := .returned e }

/-- The reading fails. -/
def fails (m : Moment) (error : SyntaxError) : Moment :=
  { m with doing := .raised (.grammatical error) }

variable (s : TokenStream)

/-- The first step of the reading of a nonterminal. -/
def begin (m : Moment) : Nonterminal → Moment
  | .expression => m.calls .expression
  | .equality => m.calls (.first .equality)
  | .comparison => m.calls (.first .comparison)
  | .term => m.calls (.first .term)
  | .factor => m.calls (.first .factor)
  | .unary =>
    match m.reader.ahead s with
    | [] => m.calls .unary
    | t :: _ => if t.kind.isUnaryOperator then m.advance.opens (.operator t) else m.calls .unary
  | .primary =>
    match m.reader.ahead s with
    | [] => m.fails (.unexpectedEnd "expression" s.lastLine)
    | t :: _ =>
      if t.isLiteral then m.advance.returns (.literal t)
      else if t.kind = .leftParen then m.advance.opens (.paren t)
      else m.fails (.unexpectedToken t)

/-- One turn of the loop of a level. -/
def turn (m : Moment) (level : Level) (left : Expr) : Moment :=
  match m.reader.ahead s with
  | [] => m.returns left
  | t :: _ => if level.has t.kind then m.advance.calls (.next level left t) else m.returns left

/-- The count is checked, and lowered at once where it is too high. -/
def enter (m : Moment) (limited : Bool) (opening : Opening) : Moment :=
  if limited = true ∧ m.reader.limit < m.reader.depth then
    { m with
      doing := .raised (.grammatical (.nestedTooDeeply opening.token.line m.reader.limit))
      reader := m.reader.shallower }
  else m.calls (.opened opening)

/-- A group is closed, or not. -/
def close (m : Moment) (opener : Token) (inner : Expr) : Moment :=
  match m.reader.ahead s with
  | [] => m.fails (.unclosedDelimiter opener none s.lastLine)
  | t :: _ =>
    if t.kind = .rightParen then m.advance.returns (.grouping inner (some opener))
    else m.fails (.unclosedDelimiter opener (some t) t.line)

/-- The caller goes on with the tree that it waited for. -/
def resume (m : Moment) (e : Expr) : Caller → Moment
  | .parse =>
    { m with
      doing := .returned e
      reader := { m.reader with toCursor := m.reader.toCursor.warnOfRest s } }
  | .expression => m.returns e
  | .first level => { m with doing := .loop level e }
  | .next level left operator => { m with doing := .loop level (.binary left operator e) }
  | .unary => m.returns e
  | .opened (.operator operator) =>
    { m with doing := .returned (.unary operator e), reader := m.reader.shallower }
  | .opened (.paren opener) =>
    { m with doing := .close opener e, reader := m.reader.shallower }

/-- The failure goes on to the next caller; a level that is open is left. -/
def unwind (m : Moment) (failure : Failure) (caller : Caller) : Moment :=
  { m with
    doing := .raised failure
    reader := if caller.opens then m.reader.shallower else m.reader }

/-- Whether more readings of the unary rule are under way than the budget has. -/
def overspent (checks : Checks) (m : Moment) : Bool :=
  checks.budget.any fun calls => calls < m.live .unary

/-- The next moment, unless a tree or a failure is left for nobody or the budget is exhausted. -/
def next? (checks : Checks) (m : Moment) : Option Moment :=
  match m.doing, m.callers with
  | .call n, _ =>
    some (if m.overspent checks then { m with doing := .exhausted } else m.begin s n)
  | .loop level left, _ => some (m.turn s level left)
  | .enter opening, _ => some (m.enter checks.limited opening)
  | .close opener inner, _ => some (m.close s opener inner)
  | .returned e, caller :: callers => some (({ m with callers } : Moment).resume s e caller)
  | .raised failure, caller :: callers => some (({ m with callers } : Moment).unwind failure caller)
  | .returned _, [] => none
  | .raised _, [] => none
  | .exhausted, _ => none

/-- One moment leads to another by any number of steps. -/
abbrev Leads (checks : Checks) : Moment → Moment → Prop :=
  Relation.ReflTransGen fun m after => m.next? s checks = some after

end Moment

namespace Cursor

theorem limit_warnOfRest (c : Cursor) (s : TokenStream) : (c.warnOfRest s).limit = c.limit := by
  unfold warnOfRest
  split <;> rfl

theorem Within.warnOfRest {c : Cursor} {s : TokenStream} (h : c.Within s) :
    (c.warnOfRest s).Within s := by
  unfold Within at h ⊢
  rwa [position_warnOfRest]

end Cursor

/-! ## Stacks of callers -/

/-- The place of a nonterminal in the grammar: every rule but those that open a level of nesting
calls for the next one. -/
def Nonterminal.rank : Nonterminal → Nat
  | expression => 0
  | equality => 1
  | comparison => 2
  | term => 3
  | factor => 4
  | unary => 5
  | primary => 6

/-- `Awaits callers n`: the callers wait for a reading of the nonterminal, each one for the
reading of the one in front of it. -/
inductive Awaits : List Caller → Nonterminal → Prop
  | nobody (n : Nonterminal) : Awaits [] n
  | parse : Awaits [.parse] .expression
  | caller {callers : List Caller} {n : Nonterminal} (c : Caller) :
    c.nonterminal? = some n → Awaits callers n → Awaits (c :: callers) c.callee

/-- A caller that has no level open calls for the next nonterminal. -/
theorem Caller.rank_callee {c : Caller} {n : Nonterminal} (own : c.nonterminal? = some n)
    (closed : c.opens = false) : c.callee.rank = n.rank + 1 := by
  cases c with
  | parse => cases own
  | expression => cases own; rfl
  | first level => cases own; cases level <;> rfl
  | next level left operator => cases own; cases level <;> rfl
  | unary => cases own; rfl
  | opened opening => cases closed

/-- A caller takes the place of its own nonterminal on the way down, and only an open level leads
up the grammar again. -/
theorem Caller.place_le {c : Caller} {n : Nonterminal} (own : c.nonterminal? = some n)
    (o : Nonterminal) :
    (if n == o then 1 else 0) + (if c.callee.rank ≤ o.rank then 1 else 0) ≤
      (if n.rank ≤ o.rank then 1 else 0) + (if c.opens then 1 else 0) := by
  cases opens : c.opens with
  | true =>
    by_cases same : n = o
    · subst same
      simp only [beq_self_eq_true, Nat.le_refl, if_true]
      split <;> omega
    · simp only [beq_iff_eq, same, if_false, if_true]
      split <;> omega
  | false =>
    have below := Caller.rank_callee own opens
    by_cases same : n = o
    · subst same
      simp only [beq_self_eq_true, Nat.le_refl, if_true]
      rw [if_neg (by omega)]
      omega
    · simp only [beq_iff_eq, same, if_false]
      split <;> split <;> omega

/-- There is one caller more of each nonterminal at most than levels are open, and no caller
more of those that may still be called for on the way down to the next level. -/
theorem Awaits.count_add_le {callers : List Caller} {n : Nonterminal} (h : Awaits callers n)
    (o : Nonterminal) :
    (callers.filterMap Caller.nonterminal?).count o + (if n.rank ≤ o.rank then 1 else 0) ≤
      callers.countP Caller.opens + 1 := by
  induction h with
  | nobody n =>
    rw [List.filterMap_nil, List.count_nil, List.countP_nil]
    split <;> omega
  | parse => cases o <;> decide
  | @caller callers n c own _ ih =>
    have place := c.place_le own o
    rw [List.filterMap_cons_some own, List.count_cons, List.countP_cons]
    omega

/-- Behind the innermost caller the others wait for its reading. -/
theorem Awaits.tail {c : Caller} {callers : List Caller} {n : Nonterminal}
    (h : Awaits (c :: callers) n) : ∃ o, Awaits callers o ∧ ∀ own ∈ c.nonterminal?, own = o := by
  cases h with
  | parse => exact ⟨.expression, .nobody _, nofun⟩
  | @caller _ o _ own awaits =>
    refine ⟨o, awaits, fun other member => ?_⟩
    rw [own] at member
    exact (Option.some.inj member).symm

/-! ## What every moment of a descent keeps -/

namespace Moment

/-- What every moment of a descent keeps that started with this limit: the reader stays within
the tokens and its limit is what it was, the count is the number of levels open, and under the
limit no more levels are open around a call than it allows; the callers wait for what is being
read; and without a budget none is exhausted. -/
structure Regular (s : TokenStream) (checks : Checks) (limit : Int) (m : Moment) : Prop where
  within : m.reader.Within s
  limits : m.reader.limit = limit
  counted : m.reader.depth = m.openLevels
  allowed : checks.limited = true → (m.callers.countP Caller.opens : Int) ≤ max limit 0
  awaited : ∃ n, Awaits m.callers n ∧ ∀ o ∈ m.doing.nonterminal?, o = n
  unspent : checks.budget = none → m.doing ≠ .exhausted

namespace Regular

variable {s : TokenStream} {checks : Checks} {limit : Int} {m after : Moment}

/-! ### What a step keeps -/

/-- A reading that is under way calls for another one. What opens a level has raised the count
before, and been let in. -/
theorem calls (h : m.Regular s checks limit) {caller : Caller} {n : Nonterminal}
    (own : caller.nonterminal? = some n) (read : m.doing.nonterminal? = some n)
    (opens : m.doing.opens = caller.opens)
    (room : caller.opens = true → checks.limited = true → m.reader.depth ≤ limit) :
    (m.calls caller).Regular s checks limit where
  within := h.within
  limits := h.limits
  counted := by
    have counted := h.counted
    rw [openLevels, opens] at counted
    simp [Moment.calls, openLevels, Doing.opens, Caller.countP_opens_cons, counted]
  allowed := by
    intro limited
    have allowed := h.allowed limited
    have counted := h.counted
    rw [openLevels, opens] at counted
    rw [Moment.calls, Caller.countP_opens_cons]
    cases out : caller.opens with
    | true =>
      have room := room out limited
      rw [out] at counted
      omega
    | false =>
      rw [Bool.toNat_false, Nat.zero_add]
      exact allowed
  awaited := by
    obtain ⟨o, awaits, same⟩ := h.awaited
    obtain rfl := same n read
    refine ⟨caller.callee, .caller caller own awaits, fun o member => ?_⟩
    cases member
    rfl
  unspent := nofun

/-- What is done next goes on with the same reading, or ends it, at a reader that has its count
where the levels are. -/
theorem goes_on (h : m.Regular s checks limit) {doing : Doing} {c : Reader}
    (read : doing.nonterminal? = none ∨ doing.nonterminal? = m.doing.nonterminal?)
    (within : c.Within s) (limits : c.limit = m.reader.limit)
    (counted : c.depth - doing.opens.toNat = m.reader.depth - m.doing.opens.toNat)
    (unspent : checks.budget = none → doing ≠ .exhausted) :
    Regular s checks limit { m with doing, reader := c } where
  within := within
  limits := limits.trans h.limits
  counted := by
    have before := h.counted
    rw [openLevels] at before ⊢
    dsimp only
    omega
  allowed := h.allowed
  awaited := by
    obtain ⟨o, awaits, same⟩ := h.awaited
    refine ⟨o, awaits, fun n member => ?_⟩
    rcases read with ended | on
    · rw [ended] at member
      cases member
    · exact same n (on ▸ member)
  unspent := unspent

/-- The innermost caller goes on with what it waited for, at a reader that has its count where
the levels of the other callers are. -/
theorem resumes (h : m.Regular s checks limit) {caller : Caller} {callers : List Caller}
    (stack : m.callers = caller :: callers) (closed : m.doing.opens = false) {doing : Doing}
    {c : Reader}
    (read : doing.nonterminal? = none ∨ doing.nonterminal? = caller.nonterminal?)
    (within : c.Within s) (limits : c.limit = m.reader.limit)
    (counted : c.depth - doing.opens.toNat = m.reader.depth - caller.opens.toNat)
    (unspent : checks.budget = none → doing ≠ .exhausted) :
    Regular s checks limit ⟨doing, callers, c⟩ where
  within := within
  limits := limits.trans h.limits
  counted := by
    have before := h.counted
    rw [openLevels, stack, closed, Caller.countP_opens_cons, Bool.toNat_false] at before
    rw [openLevels]
    dsimp only
    omega
  allowed := by
    intro limited
    have allowed := h.allowed limited
    rw [stack, Caller.countP_opens_cons] at allowed
    dsimp only
    omega
  awaited := by
    obtain ⟨o, awaits, -⟩ := h.awaited
    rw [stack] at awaits
    obtain ⟨n, rest, own⟩ := awaits.tail
    refine ⟨n, rest, fun read' member => ?_⟩
    rcases read with ended | on
    · rw [ended] at member
      cases member
    · exact own read' (on ▸ member)
  unspent := unspent

/-- A token is passed over. -/
theorem advances (h : m.Regular s checks limit) {t : Token} {rest : List Token}
    (ahead : m.reader.ahead s = t :: rest) : m.advance.Regular s checks limit :=
  h.goes_on (.inr rfl) (Reader.ahead_moved_one h.within ahead).1 rfl rfl h.unspent

theorem returns (h : m.Regular s checks limit) (closed : m.doing.opens = false) (e : Expr) :
    (m.returns e).Regular s checks limit := by
  refine h.goes_on (.inl rfl) h.within rfl ?_ nofun
  rw [closed]
  rfl

theorem fails (h : m.Regular s checks limit) (closed : m.doing.opens = false)
    (error : SyntaxError) : (m.fails error).Regular s checks limit := by
  refine h.goes_on (.inl rfl) h.within rfl ?_ nofun
  rw [closed]
  rfl

/-- The token just passed over opens a level of nesting. -/
theorem opens (h : m.Regular s checks limit) (closed : m.doing.opens = false) {opening : Opening}
    (read : m.doing.nonterminal? = some opening.outside) :
    (m.opens opening).Regular s checks limit := by
  refine h.goes_on (.inr read.symm) h.within rfl ?_ nofun
  rw [closed]
  simp [Reader.deeper, Doing.opens]

theorem begins (h : m.Regular s checks limit) {n : Nonterminal} (doing : m.doing = .call n) :
    (m.begin s n).Regular s checks limit := by
  have read : m.doing.nonterminal? = some n := by rw [doing]; rfl
  have closed : m.doing.opens = false := by rw [doing]; rfl
  cases n with
  | expression => exact h.calls rfl read closed nofun
  | equality => exact h.calls rfl read closed nofun
  | comparison => exact h.calls rfl read closed nofun
  | term => exact h.calls rfl read closed nofun
  | factor => exact h.calls rfl read closed nofun
  | unary =>
    cases ahead : m.reader.ahead s with
    | nil =>
      rw [begin, ahead]
      exact h.calls rfl read closed nofun
    | cons t rest =>
      rw [begin, ahead]
      dsimp only
      split
      · exact (h.advances ahead).opens closed read
      · exact h.calls rfl read closed nofun
  | primary =>
    cases ahead : m.reader.ahead s with
    | nil =>
      rw [begin, ahead]
      exact h.fails closed _
    | cons t rest =>
      rw [begin, ahead]
      dsimp only
      split
      · exact (h.advances ahead).returns closed _
      split
      · exact (h.advances ahead).opens closed read
      · exact h.fails closed _

theorem turns (h : m.Regular s checks limit) {level : Level} {left : Expr}
    (doing : m.doing = .loop level left) : (m.turn s level left).Regular s checks limit := by
  have closed : m.doing.opens = false := by rw [doing]; rfl
  cases ahead : m.reader.ahead s with
  | nil =>
    rw [turn, ahead]
    exact h.returns closed left
  | cons t rest =>
    rw [turn, ahead]
    dsimp only
    split
    · exact (h.advances ahead).calls (n := level.nonterminal) rfl
        (by rw [advance, doing]; rfl) closed nofun
    · exact h.returns closed left

theorem enters (h : m.Regular s checks limit) {opening : Opening}
    (doing : m.doing = .enter opening) :
    (m.enter checks.limited opening).Regular s checks limit := by
  unfold enter
  split
  · refine h.goes_on (.inl rfl) h.within rfl ?_ nofun
    rw [doing]
    simp [Reader.shallower, Doing.opens]
  · rename_i allowed
    refine h.calls (n := opening.outside) rfl (by rw [doing]; rfl) (by rw [doing]; rfl) ?_
    intro _ limited
    have limits := h.limits
    rw [not_and] at allowed
    have room := allowed limited
    omega

theorem closes (h : m.Regular s checks limit) {opener : Token} {inner : Expr}
    (doing : m.doing = .close opener inner) :
    (m.close s opener inner).Regular s checks limit := by
  have closed : m.doing.opens = false := by rw [doing]; rfl
  cases ahead : m.reader.ahead s with
  | nil =>
    rw [close, ahead]
    exact h.fails closed _
  | cons t rest =>
    rw [close, ahead]
    dsimp only
    split
    · exact (h.advances ahead).returns closed _
    · exact h.fails closed _

/-- A reader that leaves a level has its count where the levels of the other callers are. -/
theorem depth_shallower (c : Reader) (doing : Doing) (closed : doing.opens = false)
    (opening : Opening) :
    c.shallower.depth - (doing.opens.toNat : Int) =
      c.depth - ((Caller.opened opening).opens.toNat : Int) := by
  rw [closed]
  simp [Reader.shallower, Caller.opens]

/-- The innermost caller is handed a tree. -/
theorem handed (h : m.Regular s checks limit) {e : Expr} {caller : Caller}
    {callers : List Caller} (doing : m.doing = .returned e)
    (stack : m.callers = caller :: callers) :
    (({ m with callers } : Moment).resume s e caller).Regular s checks limit := by
  have closed : m.doing.opens = false := by rw [doing]; rfl
  cases caller with
  | parse =>
    exact h.resumes stack closed (.inl rfl) h.within.warnOfRest
      (m.reader.limit_warnOfRest s) rfl nofun
  | expression => exact h.resumes stack closed (.inl rfl) h.within rfl rfl nofun
  | first level => exact h.resumes stack closed (.inr rfl) h.within rfl rfl nofun
  | next level left operator => exact h.resumes stack closed (.inr rfl) h.within rfl rfl nofun
  | unary => exact h.resumes stack closed (.inl rfl) h.within rfl rfl nofun
  | opened opening =>
    have left (doing : Doing) (closed : doing.opens = false) :=
      depth_shallower m.reader doing closed opening
    cases opening with
    | operator operator =>
      exact h.resumes stack closed (.inl rfl) h.within rfl (left _ rfl) nofun
    | paren opener => exact h.resumes stack closed (.inr rfl) h.within rfl (left _ rfl) nofun

/-- The innermost caller is handed a failure. -/
theorem unwinds (h : m.Regular s checks limit) {failure : Failure} {caller : Caller}
    {callers : List Caller} (doing : m.doing = .raised failure)
    (stack : m.callers = caller :: callers) :
    (({ m with callers } : Moment).unwind failure caller).Regular s checks limit := by
  have closed : m.doing.opens = false := by rw [doing]; rfl
  cases caller with
  | opened opening =>
    exact h.resumes stack closed (.inl rfl) h.within rfl
      (depth_shallower m.reader (.raised failure) rfl opening) nofun
  | _ => exact h.resumes stack closed (.inl rfl) h.within rfl rfl nofun

/-- Every step keeps what a moment keeps. -/
theorem next (h : m.Regular s checks limit) (step : m.next? s checks = some after) :
    after.Regular s checks limit := by
  unfold next? at step
  split at step
  · rename_i n callers doing
    cases step
    split
    · rename_i spent
      refine h.goes_on (.inl rfl) h.within rfl ?_ fun unbounded => ?_
      · rw [doing]
        rfl
      · rw [overspent, unbounded] at spent
        cases spent
    · exact h.begins doing
  · rename_i level left callers doing
    cases step
    exact h.turns doing
  · rename_i opening callers doing
    cases step
    exact h.enters doing
  · rename_i opener inner callers doing
    cases step
    exact h.closes doing
  · rename_i e caller callers doing stack
    cases step
    exact h.handed doing stack
  · rename_i failure caller callers doing stack
    cases step
    exact h.unwinds doing stack
  all_goals cases step

/-- Every moment that a regular moment leads to is regular. -/
theorem leads (h : m.Regular s checks limit) (run : m.Leads s checks after) :
    after.Regular s checks limit := by
  induction run with
  | refl => exact h
  | tail _ step ih => exact ih.next step

/-! ### What the limit bounds -/

/-- Under a limit one reading of each nonterminal more is under way at most than levels are
allowed. -/
theorem live_le (h : m.Regular s checks limit) (limited : checks.limited = true)
    (n : Nonterminal) : (m.live n : Int) ≤ max limit 0 + 1 := by
  obtain ⟨o, awaits, own⟩ := h.awaited
  have allowed := h.allowed limited
  have bound := awaits.count_add_le n
  have live : m.live n = m.doing.nonterminal?.toList.count n +
      (m.callers.filterMap Caller.nonterminal?).count n := List.count_append
  cases doing : m.doing.nonterminal? with
  | none =>
    rw [doing, Option.toList_none, List.count_nil] at live
    omega
  | some read =>
    obtain rfl := own read doing
    rw [doing, Option.toList_some, List.count_singleton] at live
    by_cases same : (read == n) = true
    · obtain rfl := beq_iff_eq.mp same
      rw [if_pos (Nat.le_refl _)] at bound
      rw [if_pos same] at live
      omega
    · rw [if_neg same] at live
      omega

/-- With a budget of one reading of the unary rule more than levels are allowed, no step is
refused. -/
theorem next?_budgeted (h : m.Regular s .underLimit limit) {calls : Nat}
    (enough : max limit 0 + 1 ≤ calls) :
    m.next? s (.budgeted calls) = m.next? s .underLimit := by
  have live := h.live_le rfl .unary
  have spent : m.overspent (.budgeted calls) = false := by
    rw [overspent, Checks.budgeted, Option.any_some, decide_eq_false_iff_not]
    omega
  unfold next?
  rw [spent]
  rfl

/-- With such a budget a descent goes through the same moments as without. -/
theorem leads_budgeted_iff (h : m.Regular s .underLimit limit) {calls : Nat}
    (enough : max limit 0 + 1 ≤ calls) :
    m.Leads s (.budgeted calls) after ↔ m.Leads s .underLimit after := by
  constructor
  · intro run
    induction run with
    | refl => exact .refl
    | tail _ step ih => exact ih.tail ((h.leads ih).next?_budgeted enough ▸ step)
  · intro run
    induction run with
    | refl => exact .refl
    | tail before step ih => exact ih.tail ((h.leads before).next?_budgeted enough ▸ step)

end Regular

end Moment

end LoxSyntax
