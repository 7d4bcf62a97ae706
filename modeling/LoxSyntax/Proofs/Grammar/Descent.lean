import LoxSyntax.Descent
import LoxSyntax.Proofs.Grammar.Extent

/-!
# The descent follows the rules

A reading follows a rule when it gives what the rule gives, moves the cursor as far as the rule
used the tokens, and changes nothing else of its reader: the count is the same again however the
reading ends (`Reading.Follows`). That is carried through the loops of the operators
(`Reading.Follows.operands`) and from one level of nesting to the next
(`Reading.Follows.unaryOver`) to all nonterminals (`Reading.follows_rule`), on every stack that
has room for as many levels as the limit or the tokens allow (`Reading.Suffices`).
-/

namespace LoxSyntax

/-! ## Readers on the move -/

namespace Cursor

variable {c : Cursor} {s : TokenStream} {t : Token} {rest : List Token}

theorem peek_of_ahead (h : c.Within s) (ahead : c.ahead s = t :: rest) : c.peek s = .ok t := by
  have first : s.tokens[c.position.toNat]? = some t := by
    rw [← Array.getElem?_toList, ← List.head?_drop, ← Cursor.ahead, ahead]
    rfl
  unfold Within at h
  unfold peek TokenStream.tokenAt
  rw [if_neg (by omega), first]
  rfl

theorem atEnd_eq_isEmpty (h : c.Within s) : c.atEnd s = (c.ahead s).isEmpty := by
  have length := c.length_ahead s
  unfold Within at h
  rw [Bool.eq_iff_iff, atEnd, beq_iff_eq, List.isEmpty_iff_length_eq_zero]
  omega

theorem atEnd_of_outside (h : ¬ c.Within s) : c.atEnd s = false := by
  unfold Within at h
  rw [atEnd, beq_eq_false_iff_ne]
  omega

theorem peek_of_outside (h : ¬ c.Within s) :
    c.peek s = .error (.outOfRange ⟨c.position, s.count⟩) := by
  unfold Within at h
  rw [peek, TokenStream.tokenAt_of_outside (by omega)]
  rfl

end Cursor

namespace Reader

variable {c : Reader} {s : TokenStream}

/-- The reader behind so many further tokens. -/
def moved (c : Reader) (n : Nat) : Reader :=
  { c with position := c.position + n }

@[simp]
theorem position_moved (c : Reader) (n : Nat) : (c.moved n).position = c.position + n := rfl

@[simp]
theorem depth_moved (c : Reader) (n : Nat) : (c.moved n).depth = c.depth := rfl

@[simp]
theorem moved_zero (c : Reader) : c.moved 0 = c := by
  simp [moved]

theorem moved_moved (c : Reader) (m n : Nat) : (c.moved m).moved n = c.moved (m + n) := by
  simp [moved, Int.add_assoc]

theorem ahead_moved (h : c.Within s) (n : Nat) : (c.moved n).ahead s = (c.ahead s).drop n := by
  have place : (c.position + n).toNat = c.position.toNat + n := by
    unfold Cursor.Within at h
    omega
  rw [Cursor.ahead, Cursor.ahead, position_moved, place, List.drop_drop]

theorem within_moved {n : Nat} (h : c.Within s) (inside : n ≤ (c.ahead s).length) :
    (c.moved n).Within s := by
  rw [c.length_ahead] at inside
  unfold Cursor.Within at h ⊢
  rw [position_moved]
  omega

theorem ahead_moved_one {t : Token} {rest : List Token} (h : c.Within s)
    (ahead : c.ahead s = t :: rest) : (c.moved 1).Within s ∧ (c.moved 1).ahead s = rest :=
  ⟨within_moved h (by simp [ahead]), by rw [ahead_moved h, ahead]; rfl⟩

/-- Behind a token stands that token. -/
theorem previous_moved_one {t : Token} {rest : List Token} (h : c.Within s)
    (ahead : c.ahead s = t :: rest) : (c.moved 1).previous s = .ok t := by
  have same : (c.moved 1).previous s = c.peek s := by
    simp [Cursor.previous, Cursor.peek]
  rw [same, Cursor.peek_of_ahead h ahead]

/-- What a reading from the reader comes to by the outcome of a rule. -/
def report (c : Reader) : Outcome → EStateM.Result Failure Reader Expr
  | .parsed e used => .ok e (c.moved used)
  | .failed error used => .error (.grammatical error) (c.moved used)

end Reader

/-! ## Readings step by step -/

namespace Reading

variable {α β : Type} {s : TokenStream} {c : Reader} {t : Token} {rest : List Token}

@[simp]
theorem run_map (f : α → β) (reading : Reading α) (c : Reader) :
    (f <$> reading).run c =
      match reading.run c with
      | .ok a after => .ok (f a) after
      | .error e after => .error e after := by
  simp only [EStateM.run, Functor.map, EStateM.map]
  cases reading c <;> rfl

theorem run_finally (body : Reading α) (f : Reader → Reader) (c : Reader) :
    (tryFinally body (modify f) : Reading α).run c =
      match body.run c with
      | .ok a after => .ok a (f after)
      | .error e after => .error e (f after) := by
  rw [tryFinally, run_map]
  simp only [EStateM.run, tryFinally']
  cases body c <;> rfl

@[simp]
theorem run_fail (failure : Failure) (c : Reader) :
    (throw failure : Reading α).run c = .error failure c := rfl

@[simp]
theorem run_atEnd (s : TokenStream) (c : Reader) :
    (atEnd s).run c = .ok (c.toCursor.atEnd s) c := rfl

theorem run_peek_of_ahead (h : c.Within s) (ahead : c.ahead s = t :: rest) :
    (peek s).run c = .ok t c := by
  simp [peek, ofExcept, Cursor.peek_of_ahead h ahead]

theorem run_peek_of_outside (h : ¬ c.Within s) :
    (peek s).run c = .error (.outOfRange ⟨c.position, s.count⟩) c := by
  simp [peek, ofExcept, Cursor.peek_of_outside h]

theorem run_previous_of_ahead (h : c.Within s) (ahead : c.ahead s = t :: rest) :
    (previous s).run (c.moved 1) = .ok t (c.moved 1) := by
  simp [previous, ofExcept, Reader.previous_moved_one h ahead]

theorem run_advance_of_ahead (h : c.Within s) (ahead : c.ahead s = t :: rest) :
    (advance s).run c = .ok t (c.moved 1) := by
  simp [advance, run_peek_of_ahead h ahead, Reader.moved]

theorem run_check (h : c.Within s) (kind : Kind) :
    (check s kind).run c = .ok ((c.ahead s).head?.any fun t => t.kind == kind) c := by
  have ends := Cursor.atEnd_eq_isEmpty h
  cases ahead : c.ahead s with
  | nil => simp [check, ends, ahead]
  | cons t rest => simp [check, ends, ahead, run_peek_of_ahead h ahead]

theorem run_accept_of_mem (h : c.Within s) (ahead : c.ahead s = t :: rest) {kinds : List Kind}
    (member : t.kind ∈ kinds) : (accept s kinds).run c = .ok true (c.moved 1) := by
  induction kinds with
  | nil => cases member
  | cons kind kinds ih =>
    rw [accept, EStateM.run_bind, run_check h, ahead]
    by_cases same : t.kind = kind
    · simp [same, run_advance_of_ahead h ahead]
    · simp [same, ih (List.mem_of_ne_of_mem same member)]

theorem run_accept_of_not_mem (h : c.Within s) {kinds : List Kind}
    (other : ∀ t ∈ (c.ahead s).head?, t.kind ∉ kinds) :
    (accept s kinds).run c = .ok false c := by
  induction kinds with
  | nil => rfl
  | cons kind kinds ih =>
    have differs : ((c.ahead s).head?.any fun t => t.kind == kind) = false := by
      rw [← Bool.not_eq_true, Option.any_eq_true]
      intro found
      obtain ⟨t, member, same⟩ := found
      exact other t member (by simp [beq_iff_eq.mp same])
    rw [accept, EStateM.run_bind, run_check h, differs]
    exact ih fun t member inside => other t member (List.mem_cons_of_mem kind inside)

/-- Outside the tokens there is nothing to accept. -/
theorem run_accept_of_outside (h : ¬ c.Within s) {kinds : List Kind} (some : kinds ≠ []) :
    (accept s kinds).run c = .error (.outOfRange ⟨c.position, s.count⟩) c := by
  cases kinds with
  | nil => exact absurd rfl some
  | cons kind kinds =>
    simp [accept, check, Cursor.atEnd_of_outside h, run_peek_of_outside h]

/-- The count is raised, checked and lowered again. -/
theorem run_nested (opener : Token) (body : Reading α) (c : Reader) :
    (nested opener body).run c =
      if c.limit < c.depth + 1 then
        .error (.grammatical (.nestedTooDeeply opener.line c.limit)) c
      else
        match body.run { c with depth := c.depth + 1 } with
        | .ok a after => .ok a { after with depth := after.depth - 1 }
        | .error e after => .error e { after with depth := after.depth - 1 } := by
  have back : c.depth + 1 - 1 = c.depth := by omega
  simp only [nested, EStateM.run_bind, EStateM.run_modify, run_finally, EStateM.run_get]
  by_cases full : c.limit < c.depth + 1
  · simp [full, back]
  · simp [full]

/-! ## Readings that follow a rule -/

/-- The reading does what the rule does, from any reader with this limit and count in front of
no more than `size` tokens; outside the tokens it fails and leaves the reader as it is. -/
structure Follows (s : TokenStream) (limit depth : Int) (size : Nat) (reading : Reading Expr)
    (rule : Rule) : Prop where
  inside : ∀ c : Reader, c.Within s → c.limit = limit → c.depth = depth →
    (c.ahead s).length ≤ size → reading.run c = c.report (rule (c.ahead s))
  outside : ∀ c : Reader, ¬ c.Within s →
    reading.run c = .error (.outOfRange ⟨c.position, s.count⟩) c

section Chain

variable {limit depth : Int} {size : Nat} {operand : Reading Expr} {rule : Rule}

/-- One turn of the loop of a level: behind an operator stands the operand, and the loop goes on
behind that. -/
theorem run_chain_of_has (follows : Follows s limit depth size operand rule) {level : Level}
    (h : c.Within s) (limits : c.limit = limit) (depths : c.depth = depth)
    (ahead : c.ahead s = t :: rest) (has : level.has t.kind = true) (short : rest.length ≤ size)
    (turns : Nat) (left : Expr) :
    (chain s level operand (turns + 1) left).run c =
      match rule rest with
      | .parsed right n =>
        (chain s level operand turns (.binary left t right)).run (c.moved (1 + n))
      | .failed error n => .error (.grammatical error) (c.moved (1 + n)) := by
  have member : t.kind ∈ level.operators := by simpa [Level.has] using has
  obtain ⟨behind, remain⟩ := Reader.ahead_moved_one h ahead
  have turn := follows.inside _ behind limits depths (by rw [remain]; exact short)
  rw [remain] at turn
  simp only [chain, EStateM.run_bind, run_accept_of_mem h ahead member, if_true,
    run_previous_of_ahead h ahead, turn]
  cases rule rest <;> simp only [Reader.report, Reader.moved_moved]

/-- The loop of a level, entered behind a tree that used `used` tokens, does what the loop of
the rule does, if it has a turn for each token ahead. -/
theorem run_chain (follows : Follows s limit depth size operand rule) (within : rule.WithinTokens)
    (level : Level) (c : Reader) (limits : c.limit = limit) (depths : c.depth = depth)
    (used turns : Nat) (left : Expr) (inside : (c.moved used).Within s)
    (short : ((c.moved used).ahead s).length ≤ size)
    (enough : ((c.moved used).ahead s).length ≤ turns) :
    (chain s level operand turns left).run (c.moved used) =
      c.report (foldOperators level rule used 0 left ((c.moved used).ahead s)) := by
  -- the reader where the loop began stays; the tokens used since then move along
  refine @foldOperators_induction level rule
    (fun used left tokens outcome => ∀ turns, (c.moved used).Within s →
      (c.moved used).ahead s = tokens → tokens.length ≤ size → tokens.length ≤ turns →
      (chain s level operand turns left).run (c.moved used) = c.report outcome)
    ?_ ?_ ?_ used left ((c.moved used).ahead s) turns inside rfl short enough
  · intro used left tokens stops turns inside ahead short enough
    cases turns with
    | zero => rfl
    | succ turns =>
      have other : ∀ t ∈ ((c.moved used).ahead s).head?, t.kind ∉ level.operators := by
        intro t member
        have stop := stops t (ahead ▸ member)
        simpa [Level.has] using stop
      simp [chain, run_accept_of_not_mem inside other, Reader.report]
  · intro used left operator rest right n outcome has next ih turns inside ahead short enough
    cases turns with
    | zero => cases enough
    | succ turns =>
      have extent := within rest
      rw [next, Outcome.used_parsed] at extent
      obtain ⟨behind, remain⟩ := Reader.ahead_moved_one inside ahead
      have after := Reader.within_moved behind (remain.symm ▸ extent)
      have row := Reader.ahead_moved behind n
      rw [remain] at row
      rw [run_chain_of_has follows inside limits depths ahead has (Nat.le_of_succ_le short), next]
      simp only [Reader.moved_moved, ← Nat.add_assoc] at after row ⊢
      rw [List.length_cons] at short enough
      exact ih turns after row (by rw [List.length_drop]; omega) (by rw [List.length_drop]; omega)
  · intro used left operator rest error n has next turns inside ahead short enough
    cases turns with
    | zero => cases enough
    | succ turns =>
      rw [run_chain_of_has follows inside limits depths ahead has (Nat.le_of_succ_le short), next]
      simp only [Reader.moved_moved, Reader.report, ← Nat.add_assoc]

theorem Follows.operands (follows : Follows s limit depth size operand rule)
    (within : rule.WithinTokens) (level : Level) :
    Follows s limit depth size (operands s level operand) (leftAssociative level rule) where
  inside c inside limits depths short := by
    have first := follows.inside c inside limits depths short
    unfold Reading.operands leftAssociative
    rw [EStateM.run_bind, first]
    cases read : rule (c.ahead s) with
    | failed error n => rfl
    | parsed left n =>
      have extent := within (c.ahead s)
      rw [read, Outcome.used_parsed] at extent
      have row := Reader.ahead_moved inside n
      have fewer : ((c.moved n).ahead s).length ≤ (c.ahead s).length := by
        rw [row, List.length_drop]
        exact Nat.sub_le _ _
      have count : (c.ahead s).length ≤ s.count := by
        rw [c.length_ahead]
        exact Nat.sub_le _ _
      show (chain s level operand s.count left).run (c.moved n) = c.report _
      rw [run_chain follows within level c limits depths n s.count left
        (Reader.within_moved inside extent) (Nat.le_trans fewer short) (Nat.le_trans fewer count),
        row]
      dsimp only
      rw [foldOperators_eq level rule 0, Nat.zero_add]
  outside c outside := by
    unfold Reading.operands
    rw [EStateM.run_bind, follows.outside c outside]

theorem Follows.expressionOver (follows : Follows s limit depth size operand rule)
    (within : rule.WithinTokens) :
    Follows s limit depth size (expressionOver s operand) (LoxSyntax.expressionOver rule) := by
  have factor := follows.operands within .factor
  have withinFactor := within.leftAssociative .factor
  have term := factor.operands withinFactor .term
  have withinTerm := withinFactor.leftAssociative .term
  have comparison := term.operands withinTerm .comparison
  exact comparison.operands (withinTerm.leftAssociative .comparison) .equality

end Chain

section Operands

variable {limit depth : Int} {size : Nat} {inner : Reading Expr}

/-- Outside the tokens the reading of a literal or a group fails at once. -/
theorem run_primaryOver_of_outside (h : ¬ c.Within s) (unary : Reading Expr) :
    (primaryOver s unary).run c = .error (.outOfRange ⟨c.position, s.count⟩) c := by
  simp [primaryOver, Cursor.atEnd_of_outside h, run_peek_of_outside h]

/-- Outside the tokens the reading of an operand fails at once. -/
theorem run_unaryOver_of_outside (h : ¬ c.Within s) (unary : Reading Expr) :
    (unaryOver s unary).run c = .error (.outOfRange ⟨c.position, s.count⟩) c := by
  unfold unaryOver
  rw [EStateM.run_bind, run_accept_of_outside h (by decide)]

/-- A group is closed, or not, as the rule says. -/
theorem run_close (c : Reader) (used : Nat) (h : (c.moved used).Within s) (opener : Token)
    (inner : Expr) :
    (do close s opener; return .grouping inner (some opener) : Reading Expr).run (c.moved used) =
      c.report (closeGroup ⟨c.limit, s.lastLine⟩ opener inner used ((c.moved used).ahead s)) := by
  have ends := Cursor.atEnd_eq_isEmpty h
  have missing (other : ∀ t ∈ ((c.moved used).ahead s).head?, t.kind ∉ [Kind.rightParen]) :
      (accept s [.rightParen]).run (c.moved used) = .ok false (c.moved used) :=
    run_accept_of_not_mem h other
  cases ahead : (c.moved used).ahead s with
  | nil => simp [close, missing (by simp [ahead]), ends, ahead, closeGroup, Reader.report]
  | cons t rest =>
    by_cases closes : t.kind = .rightParen
    · have found : (accept s [.rightParen]).run (c.moved used) =
          .ok true ((c.moved used).moved 1) :=
        run_accept_of_mem h ahead (by simp [closes])
      simp [close, found, closeGroup, closes, Reader.report, Reader.moved_moved]
    · simp [close, missing (by simp [ahead, closes]), ends, ahead, run_peek_of_ahead h ahead,
        closeGroup, closes, Reader.report]

/-- Behind the token that opens a level, the reading of that level does what its rule does, if
there is room for it; either way the count is what it was. -/
theorem run_nested_of_follows {body : Reading Expr} {rule : Rule}
    (follows : c.depth + 1 ≤ c.limit → Follows s c.limit (c.depth + 1) size body rule)
    (h : c.Within s) (ahead : c.ahead s = t :: rest) (short : rest.length ≤ size) :
    (nested t body).run (c.moved 1) =
      if c.limit < c.depth + 1 then
        c.report (.failed (.nestedTooDeeply t.line c.limit) 1)
      else (c.moved 1).report (rule rest) := by
  have back : c.depth + 1 - 1 = c.depth := by omega
  rw [run_nested]
  by_cases full : c.limit < c.depth + 1
  · rw [if_pos full]
    exact if_pos full
  rw [if_neg full]
  obtain ⟨behind, row⟩ := Reader.ahead_moved_one h ahead
  have read := (follows (Int.not_lt.mp full)).inside { c.moved 1 with depth := c.depth + 1 } behind
    rfl rfl (by rw [row]; exact short)
  rw [row] at read
  rw [Reader.depth_moved, read]
  refine (if_neg full).trans ?_
  cases rule rest <;> simp [Reader.report, Reader.moved, back]

/-- Behind a parenthesis the contents are read one level deeper, and the group is closed. -/
theorem run_group {body : Reading Expr} {rule : Rule}
    (follows : c.depth + 1 ≤ c.limit → Follows s c.limit (c.depth + 1) size body rule)
    (within : rule.WithinTokens) (h : c.Within s) (ahead : c.ahead s = t :: rest)
    (short : rest.length ≤ size) :
    (do
      let inner ← nested t body
      close s t
      return .grouping inner (some t) : Reading Expr).run (c.moved 1) =
      if c.limit < c.depth + 1 then
        c.report (.failed (.nestedTooDeeply t.line c.limit) 1)
      else
        c.report (groupOver ⟨c.limit, s.lastLine⟩ t rule rest) := by
  rw [EStateM.run_bind, run_nested_of_follows follows h ahead short]
  by_cases full : c.limit < c.depth + 1
  · simp [full, Reader.report]
  simp only [full, if_false, groupOver]
  have extent := within rest
  cases read : rule rest with
  | failed error n => simp only [Reader.report, Reader.moved_moved, Nat.add_comm 1 n]
  | parsed inner n =>
    rw [read, Outcome.used_parsed] at extent
    have closing : (c.moved (n + 1)).Within s :=
      Reader.within_moved h (by rw [ahead]; exact Nat.succ_le_succ extent)
    have remain := Reader.ahead_moved h (n + 1)
    rw [ahead, List.drop_succ_cons] at remain
    have closed := run_close c (n + 1) closing t inner
    rw [remain] at closed
    simp only [Reader.report, Reader.moved_moved, Nat.add_comm 1 n]
    exact closed

/-- Behind a unary operator the operand is read one level deeper. -/
theorem run_operator {body : Reading Expr} {rule : Rule}
    (follows : c.depth + 1 ≤ c.limit → Follows s c.limit (c.depth + 1) size body rule)
    (h : c.Within s) (ahead : c.ahead s = t :: rest) (short : rest.length ≤ size) :
    (do
      let operand ← nested t body
      return .unary t operand : Reading Expr).run (c.moved 1) =
      if c.limit < c.depth + 1 then
        c.report (.failed (.nestedTooDeeply t.line c.limit) 1)
      else
        c.report (operatorOver t rule rest) := by
  rw [EStateM.run_bind, run_nested_of_follows follows h ahead short]
  by_cases full : c.limit < c.depth + 1
  · simp [full, Reader.report]
  simp only [full, if_false, operatorOver]
  cases rule rest with
  | failed error n => simp only [Reader.report, Reader.moved_moved, Nat.add_comm 1 n]
  | parsed operand n =>
    simp only [Reader.report, Reader.moved_moved, Nat.add_comm 1 n, EStateM.run_pure]

/-- The room that the count leaves, seen from one level deeper. -/
theorem deeperWithin_toNat (around : Surroundings) (limit depth : Int) :
    deeperWithin around (limit - depth).toNat =
      if limit < depth + 1 then none
      else some (unaryWithin around (limit - (depth + 1)).toNat) := by
  split
  · have none : (limit - depth).toNat = 0 := by omega
    rw [none]
    rfl
  · have one : (limit - depth).toNat = (limit - (depth + 1)).toNat + 1 := by omega
    rw [one]
    rfl

/-- The reading of the next level, where the limit allows one, does in front of fewer tokens what
its rule does. -/
def FollowsBelow (s : TokenStream) (limit depth : Int) (size : Nat) (inner : Reading Expr) : Prop :=
  ∀ fewer, size = fewer + 1 → depth + 1 ≤ limit → Follows s limit (depth + 1) fewer inner
    (unaryWithin ⟨limit, s.lastLine⟩ (limit - (depth + 1)).toNat)

/-- Where there is a token, there is a smaller size for what is behind it. -/
theorem exists_fewer (ahead : c.ahead s = t :: rest) (short : (c.ahead s).length ≤ size) :
    ∃ fewer, size = fewer + 1 ∧ rest.length ≤ fewer := by
  rw [ahead, List.length_cons] at short
  exact ⟨size - 1, by omega, by omega⟩

theorem Follows.primaryOver (below : FollowsBelow s limit depth size inner) :
    Follows s limit depth size (primaryOver s inner)
      (LoxSyntax.primaryOver ⟨limit, s.lastLine⟩
        (deeperWithin ⟨limit, s.lastLine⟩ (limit - depth).toNat)) where
  inside c inside limits depths short := by
    have ends := Cursor.atEnd_eq_isEmpty inside
    subst limits depths
    cases ahead : c.ahead s with
    | nil => simp [Reading.primaryOver, ends, ahead, LoxSyntax.primaryOver, Reader.report]
    | cons t rest =>
      unfold Reading.primaryOver
      simp only [EStateM.run_bind, run_atEnd, ends, ahead, List.isEmpty_cons, Bool.false_eq_true,
        if_false, run_peek_of_ahead inside ahead]
      by_cases literal : t.isLiteral = true
      · rw [primaryOver_of_isLiteral literal]
        simp [literal, run_advance_of_ahead inside ahead, Reader.report]
      by_cases opens : t.kind = .leftParen
      · obtain ⟨fewer, rfl, shorter⟩ := exists_fewer ahead short
        have within := Rule.WithinTokens.unaryWithin ⟨c.limit, s.lastLine⟩
          (c.limit - (c.depth + 1)).toNat
        have group := run_group (fun allowed => (below fewer rfl allowed).expressionOver within)
          within.expressionOver inside ahead shorter
        simp only [literal, opens, Bool.false_eq_true, if_false, if_true]
        rw [EStateM.run_bind, run_advance_of_ahead inside ahead, deeperWithin_toNat]
        dsimp only
        rw [group]
        split
        · rw [primaryOver_of_leftParen_none opens]
        · rw [primaryOver_of_leftParen_some opens]
      · rw [primaryOver_of_other literal opens]
        simp [literal, opens, Reader.report]
  outside c outside := run_primaryOver_of_outside outside inner

theorem Follows.unaryOver (below : FollowsBelow s limit depth size inner) :
    Follows s limit depth size (unaryOver s inner)
      (LoxSyntax.unaryOver ⟨limit, s.lastLine⟩
        (deeperWithin ⟨limit, s.lastLine⟩ (limit - depth).toNat)) where
  inside c inside limits depths short := by
    have primary := (Follows.primaryOver below).inside c inside limits depths short
    subst limits depths
    unfold Reading.unaryOver
    rw [EStateM.run_bind]
    cases ahead : c.ahead s with
    | nil =>
      rw [run_accept_of_not_mem inside (by simp [ahead])]
      rw [ahead] at primary
      exact primary
    | cons t rest =>
      rw [ahead] at primary
      cases opens : t.kind.isUnaryOperator with
      | true =>
        obtain ⟨fewer, rfl, shorter⟩ := exists_fewer ahead short
        have member : t.kind ∈ unaryOperators := by simpa [Kind.isUnaryOperator] using opens
        rw [run_accept_of_mem inside ahead member]
        simp only [if_true]
        rw [EStateM.run_bind, run_previous_of_ahead inside ahead]
        dsimp only
        rw [run_operator (below fewer rfl) inside ahead shorter, deeperWithin_toNat]
        split
        · rw [unaryOver_of_operator_none opens]
        · rw [unaryOver_of_operator_some opens]
      | false =>
        have other : ∀ u ∈ (c.ahead s).head?, u.kind ∉ unaryOperators := by
          simpa [ahead, Kind.isUnaryOperator] using opens
        rw [run_accept_of_not_mem inside other, primaryOver_of_not_unaryOperator opens]
        exact primary
  outside c outside := run_unaryOver_of_outside outside inner

end Operands

/-- Whether a stack has room for more calls than there are tokens ahead, or for more than the
limit leaves levels. -/
def Suffices (frames : Nat) (limit depth : Int) (size : Nat) : Prop :=
  size < frames ∨ (limit - depth).toNat < frames

/-- On a stack that suffices, a level further in has a stack that suffices. -/
theorem Suffices.deeper {frames fewer : Nat} {limit depth : Int}
    (h : Suffices (frames + 1) limit depth (fewer + 1)) (allowed : depth + 1 ≤ limit) :
    Suffices frames limit (depth + 1) fewer := by
  unfold Suffices at h ⊢
  omega

/-- On a stack that suffices the descent follows the unary rule. -/
theorem follows_unary (s : TokenStream) {frames : Nat} {limit depth : Int} {size : Nat}
    (enough : Suffices frames limit depth size) :
    Follows s limit depth size (unary s frames)
      (unaryWithin ⟨limit, s.lastLine⟩ (limit - depth).toNat) := by
  induction frames generalizing depth size with
  | zero =>
    rcases enough with few | few <;> cases few
  | succ frames ih =>
    rw [unaryWithin_eq]
    refine Follows.unaryOver fun fewer more allowed => ?_
    cases more
    exact ih (enough.deeper allowed)

/-- On a stack that suffices the descent follows the rule of every nonterminal. -/
theorem follows_rule (s : TokenStream) {frames : Nat} {limit depth : Int} {size : Nat}
    (enough : Suffices frames limit depth size) (n : Nonterminal) :
    Follows s limit depth size (nonterminal s frames n)
      (n.rule ⟨limit, s.lastLine⟩ (limit - depth).toNat) := by
  have within := Rule.WithinTokens.unaryWithin ⟨limit, s.lastLine⟩ (limit - depth).toNat
  have unary := follows_unary s enough
  have factor := unary.operands within .factor
  have withinFactor := within.leftAssociative .factor
  have term := factor.operands withinFactor .term
  have comparison := term.operands (withinFactor.leftAssociative .term) .comparison
  cases n with
  | expression => exact unary.expressionOver within
  | equality => exact unary.expressionOver within
  | comparison => exact comparison
  | term => exact term
  | factor => exact factor
  | unary => exact unary
  | primary =>
    refine Follows.primaryOver fun fewer more allowed => follows_unary s ?_
    unfold Suffices at enough ⊢
    omega

/-- On a stack with room for more calls than there are tokens, or than the count leaves levels
under the limit, reading a nonterminal comes to what its rule comes to within that room, and
outside the tokens to nothing. -/
theorem run_nonterminal {frames : Nat} (c : Reader)
    (enough : Suffices frames c.limit c.depth s.count) (n : Nonterminal) :
    (c.Within s → (nonterminal s frames n).run c =
      c.report (n.rule (c.surroundings s) (c.limit - c.depth).toNat (c.ahead s))) ∧
    (¬ c.Within s → (nonterminal s frames n).run c =
      .error (.outOfRange ⟨c.position, s.count⟩) c) := by
  have follows := follows_rule s enough n
  refine ⟨fun inside => follows.inside c inside rfl rfl ?_, follows.outside c⟩
  rw [c.length_ahead]
  exact Nat.sub_le _ _

end Reading

end LoxSyntax
