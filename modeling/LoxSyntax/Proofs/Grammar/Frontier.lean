import LoxSyntax.Proofs.Grammar.Derivation

/-!
# How far a row of tokens has come

The grammar read from left to right, without building a tree. A frontier says whether an
operand or an operator comes next and which groupings and unary operators are still open.
Each token moves the frontier or gets it stuck; an operand closes the unary operators in
front of it at once, so that an operator stands directly within the innermost group.

* `Frontier.after_of_derives`: a derivable row leads from wanting an operand to having
  one, whatever is open around it.
* `Frontier.exists_completion`: every frontier can be led to the end of a sentence.
* `Frontier.unclosed_of_after`: the parentheses open at a frontier are those that a
  count of parentheses leaves unclosed.
-/

namespace LoxSyntax

/-- Where a row of tokens leads: whether an operand comes next, and the groupings and
unary operators still open, each as the token that opened it, the innermost first. -/
structure Frontier where
  operandNext : Bool
  opened : List Token
deriving DecidableEq, Repr

namespace Frontier

/-- Before the first token. -/
abbrev start : Frontier :=
  ⟨true, []⟩

/-- What is still open once an operand is complete. -/
def settle (opened : List Token) : List Token :=
  opened.dropWhile fun t => t.kind.isUnaryOperator

/-- `Step f t g`: the token `t` may stand at the frontier `f` and moves it to `g`. -/
inductive Step : Frontier → Token → Frontier → Prop
  | literal {opened : List Token} {t : Token} :
    t.isLiteral = true → Step ⟨true, opened⟩ t ⟨false, settle opened⟩
  | opener {opened : List Token} {t : Token} :
    t.kind = .leftParen ∨ t.kind.isUnaryOperator = true →
    Step ⟨true, opened⟩ t ⟨true, t :: opened⟩
  | closer {outer : List Token} {opener t : Token} :
    t.kind = .rightParen → Step ⟨false, opener :: outer⟩ t ⟨false, settle outer⟩
  | operator {opened : List Token} {t : Token} (level : Level) :
    level.has t.kind = true → Step ⟨false, opened⟩ t ⟨true, opened⟩

/-- The frontier behind one more token, if the token may stand there. -/
def step : Frontier → Token → Option Frontier
  | ⟨true, opened⟩, t =>
    if t.isLiteral then some ⟨false, settle opened⟩
    else if t.kind = .leftParen ∨ t.kind.isUnaryOperator = true then some ⟨true, t :: opened⟩
    else none
  | ⟨false, opened⟩, t =>
    if t.kind = .rightParen then
      match opened with
      | _ :: outer => some ⟨false, settle outer⟩
      | [] => none
    else if (Level.of? t.kind).isSome then some ⟨true, opened⟩
    else none

/-- The frontier behind a row of tokens, if it does not get stuck. -/
def after (f : Frontier) : List Token → Option Frontier
  | [] => some f
  | t :: rest =>
    match f.step t with
    | some g => g.after rest
    | none => none

/-! ## Single steps -/

theorem not_isLiteral_of_opens {t : Token}
    (h : t.kind = .leftParen ∨ t.kind.isUnaryOperator = true) : t.isLiteral = false := by
  cases literal : t.isLiteral with
  | false => rfl
  | true =>
    rcases h with paren | unary
    · exact absurd paren (Kind.not_paren_of_isLiteral literal).1
    · rw [Kind.isUnaryOperator_of_isLiteral literal] at unary
      cases unary

theorem Step.step_eq {f g : Frontier} {t : Token} (h : Step f t g) : f.step t = some g := by
  cases h with
  | literal kind => exact if_pos kind
  | opener opens =>
    simp only [step, not_isLiteral_of_opens opens]
    exact if_pos opens
  | closer closes => exact if_pos closes
  | operator level has =>
    simp [step, (Kind.not_paren_of_has has).2, Level.of?_of_has has]

/-- The function takes exactly the steps of the relation. -/
theorem step_eq_some_iff {f g : Frontier} {t : Token} : f.step t = some g ↔ Step f t g := by
  refine ⟨fun h => ?_, Step.step_eq⟩
  unfold step at h
  split at h
  · split at h
    · rename_i literal
      cases h
      exact .literal literal
    split at h
    · rename_i opens
      cases h
      exact .opener opens
    · cases h
  · split at h
    · rename_i closes
      split at h
      · cases h
        exact .closer closes
      · cases h
    split at h
    · rename_i found
      cases h
      rcases Option.isSome_iff_exists.mp found with ⟨level, found⟩
      exact .operator level (Level.has_of_of? found)
    · cases h

/-- Where no step of the relation leads on, the function is stuck. -/
theorem step_eq_none {f : Frontier} {t : Token} (h : ∀ g, ¬ Step f t g) : f.step t = none := by
  cases stepped : f.step t with
  | none => rfl
  | some g => exact absurd (step_eq_some_iff.mp stepped) (h g)

theorem settle_cons_unary {t : Token} (h : t.kind.isUnaryOperator = true) (opened : List Token) :
    settle (t :: opened) = settle opened := by
  simp [settle, h]

theorem settle_cons_paren {t : Token} (h : t.kind = .leftParen) (opened : List Token) :
    settle (t :: opened) = t :: opened := by
  simp [settle, h, Kind.isUnaryOperator, unaryOperators]

theorem settle_settle (opened : List Token) : settle (settle opened) = settle opened := by
  induction opened with
  | nil => rfl
  | cons t opened ih =>
    by_cases unary : t.kind.isUnaryOperator = true
    · rw [settle_cons_unary unary, ih]
    · simp [settle, unary]

theorem length_settle_le (opened : List Token) : (settle opened).length ≤ opened.length :=
  (List.dropWhile_sublist _).length_le

/-- A step opens one level at most. -/
theorem Step.length_opened_le {f g : Frontier} {t : Token} (h : Step f t g) :
    g.opened.length ≤ f.opened.length + 1 := by
  cases h with
  | @literal opened t _ => exact Nat.le_succ_of_le (length_settle_le opened)
  | opener _ => exact Nat.le_refl _
  | @closer outer opener t _ =>
    have settled := length_settle_le outer
    simp only [List.length_cons]
    omega
  | operator _ _ => exact Nat.le_succ _

/-! ## Rows of tokens -/

theorem after_cons {f g : Frontier} {t : Token} (h : Step f t g) (rest : List Token) :
    f.after (t :: rest) = g.after rest := by
  rw [after, h.step_eq]

/-- The first token of a row that leads somewhere takes a step. -/
theorem exists_step_of_after {f g : Frontier} {t : Token} {rest : List Token}
    (h : f.after (t :: rest) = some g) : ∃ next, Step f t next ∧ next.after rest = some g := by
  unfold after at h
  split at h
  · rename_i next stepped
    exact ⟨next, step_eq_some_iff.mp stepped, h⟩
  · cases h

theorem after_append (f : Frontier) (ts us : List Token) :
    f.after (ts ++ us) = (f.after ts).bind fun g => g.after us := by
  induction ts generalizing f with
  | nil => rfl
  | cons t ts ih =>
    rw [List.cons_append, after, after]
    cases f.step t with
    | none => rfl
    | some g => exact ih g

theorem after_append_of_some {f g : Frontier} {ts : List Token} (h : f.after ts = some g)
    (us : List Token) : f.after (ts ++ us) = g.after us := by
  rw [after_append, h]
  rfl

/-- A row that leads into a stuck step leads nowhere. -/
theorem after_eq_none_of_stuck {f g : Frontier} {ts : List Token} {t : Token}
    (h : f.after ts = some g) (stuck : ∀ next, ¬ Step g t next) (rest : List Token) :
    f.after (ts ++ t :: rest) = none := by
  rw [after_append_of_some h, after, step_eq_none stuck]

/-- What is derived is an operand, whatever is open around it. -/
theorem after_of_derives {n : Nonterminal} {ts : List Token} (h : Derives n ts)
    (opened : List Token) : after ⟨true, opened⟩ ts = some ⟨false, settle opened⟩ := by
  induction h generalizing opened with
  | expression _ ih => exact ih opened
  | single level _ ih => exact ih opened
  | chain level operator _ has _ ihLeft ihRight =>
    rw [after_append_of_some (ihLeft opened), after_cons (.operator level has), ihRight,
      settle_settle]
  | unary operator has _ ih =>
    rw [after_cons (.opener (.inr has)), ih, settle_cons_unary has]
  | primary _ ih => exact ih opened
  | literal token kind => exact after_cons (.literal kind) []
  | group opener closer opens _ closes ih =>
    rw [after_cons (.opener (.inl opens)), after_append_of_some (ih _),
      settle_cons_paren opens, after_cons (.closer closes)]
    rfl

/-- No more levels are open than tokens were read. -/
theorem length_opened_le {f g : Frontier} {ts : List Token} (h : f.after ts = some g) :
    g.opened.length ≤ f.opened.length + ts.length := by
  induction ts generalizing f with
  | nil =>
    cases h
    exact Nat.le_refl _
  | cons t ts ih =>
    rcases exists_step_of_after h with ⟨next, step, led⟩
    have opens := step.length_opened_le
    have bound := ih led
    simp only [List.length_cons]
    omega

/-! ## The way to the end of a sentence -/

/-- Closing parentheses end whatever is open. -/
theorem exists_closers (opened : List Token) :
    ∃ closers, after ⟨false, opened⟩ closers = some ⟨false, []⟩ := by
  induction size : opened.length using Nat.strongRecOn generalizing opened with
  | ind n ih =>
    cases opened with
    | nil => exact ⟨[], rfl⟩
    | cons opener outer =>
      have shorter : (settle outer).length < n := by
        have settled := length_settle_le outer
        simp only [List.length_cons] at size
        omega
      obtain ⟨closers, closed⟩ := ih _ shorter (settle outer) rfl
      exact ⟨⟨.rightParen, ")", .absent, 1⟩ :: closers, (after_cons (.closer rfl) _).trans closed⟩

/-- From every frontier some row of tokens leads to the end of a sentence. -/
theorem exists_completion (f : Frontier) : ∃ more, f.after more = some ⟨false, []⟩ := by
  rcases f with ⟨operandNext, opened⟩
  cases operandNext with
  | false => exact exists_closers opened
  | true =>
    obtain ⟨closers, closed⟩ := exists_closers (settle opened)
    have operand : Step ⟨true, opened⟩ ⟨.keyword .nilWord, "nil", .absent, 1⟩
        ⟨false, settle opened⟩ := .literal rfl
    exact ⟨_ :: closers, (after_cons operand closers).trans closed⟩

/-! ## Open parentheses -/

/-- What a token does to the parentheses left open before it. -/
def countParen (opened : List Token) (t : Token) : List Token :=
  if t.kind = .leftParen then t :: opened
  else if t.kind = .rightParen then opened.tail
  else opened

/-- The parentheses that a row of tokens leaves open, the innermost first: each closing
parenthesis closes the last one open before it. -/
def unclosed (ts : List Token) : List Token :=
  ts.foldl countParen []

/-- The parentheses among the levels open. -/
def parens (opened : List Token) : List Token :=
  opened.filter fun t => t.kind = .leftParen

/-- Only parentheses and unary operators are open, and none of the latter in front of an
operand that is complete. -/
structure Proper (f : Frontier) : Prop where
  opens : ∀ t ∈ f.opened, t.kind = .leftParen ∨ t.kind.isUnaryOperator = true
  settled : f.operandNext = false → settle f.opened = f.opened

theorem parens_settle (opened : List Token) : parens (settle opened) = parens opened := by
  induction opened with
  | nil => rfl
  | cons t opened ih =>
    by_cases unary : t.kind.isUnaryOperator = true
    · rw [settle_cons_unary unary, ih]
      simp [parens, (Kind.not_paren_of_isUnaryOperator unary).1]
    · simp [settle, unary]

/-- Behind a complete operand the innermost level open is a parenthesis. -/
theorem Proper.head_paren {opener : Token} {outer : List Token}
    (h : Proper ⟨false, opener :: outer⟩) : opener.kind = .leftParen := by
  rcases h.opens opener List.mem_cons_self with paren | unary
  · exact paren
  · have settled := h.settled rfl
    rw [settle_cons_unary unary] at settled
    have shorter := length_settle_le outer
    dsimp only at settled
    rw [settled, List.length_cons] at shorter
    omega

theorem Proper.of_settle {opened : List Token}
    (h : ∀ t ∈ opened, t.kind = .leftParen ∨ t.kind.isUnaryOperator = true) :
    Proper ⟨false, settle opened⟩ where
  opens t member := h t ((List.dropWhile_sublist _).subset member)
  settled _ := settle_settle opened

theorem countParen_eq_self {t : Token} (h : t.kind ≠ .leftParen ∧ t.kind ≠ .rightParen)
    (opened : List Token) : countParen opened t = opened := by
  simp [countParen, h.1, h.2]

/-- A step keeps a frontier proper and counts parentheses. -/
theorem Proper.step {f g : Frontier} {t : Token} (h : Proper f) (step : Step f t g) :
    Proper g ∧ parens g.opened = countParen (parens f.opened) t := by
  cases step with
  | literal kind =>
    rw [countParen_eq_self (Kind.not_paren_of_isLiteral kind), parens_settle]
    exact ⟨.of_settle h.opens, rfl⟩
  | @opener opened t opens =>
    refine ⟨⟨fun u member => ?_, nofun⟩, ?_⟩
    · rcases List.mem_cons.mp member with rfl | earlier
      · exact opens
      · exact h.opens u earlier
    · rcases opens with paren | unary
      · simp [countParen, parens, paren]
      · have other := Kind.not_paren_of_isUnaryOperator unary
        rw [countParen_eq_self other]
        simp [parens, other.1]
  | @closer outer opener t closes =>
    have paren := h.head_paren
    refine ⟨.of_settle fun u member => h.opens u (List.mem_cons_of_mem _ member), ?_⟩
    rw [parens_settle]
    simp [countParen, parens, closes, paren]
  | operator level has =>
    rw [countParen_eq_self (Kind.not_paren_of_has has)]
    exact ⟨⟨h.opens, nofun⟩, rfl⟩

theorem Proper.after {f g : Frontier} {ts : List Token} (h : Proper f)
    (led : f.after ts = some g) :
    Proper g ∧ parens g.opened = ts.foldl countParen (parens f.opened) := by
  induction ts generalizing f with
  | nil =>
    cases led
    exact ⟨h, rfl⟩
  | cons t ts ih =>
    rcases exists_step_of_after led with ⟨next, step, rest⟩
    rcases h.step step with ⟨proper, counted⟩
    rw [List.foldl_cons, ← counted]
    exact ih proper rest

theorem proper_start : Proper start :=
  ⟨fun _ member => absurd member List.not_mem_nil, fun _ => rfl⟩

theorem proper_of_after {ts : List Token} {f : Frontier} (h : start.after ts = some f) :
    Proper f :=
  (proper_start.after h).1

/-- Behind a complete operand within a group, the innermost level open is the innermost
parenthesis that the row leaves open. -/
theorem unclosed_of_after {ts outer : List Token} {opener : Token}
    (h : start.after ts = some ⟨false, opener :: outer⟩) :
    (unclosed ts).head? = some opener := by
  rcases proper_start.after h with ⟨reached, counted⟩
  have counted : unclosed ts = parens (opener :: outer) := counted.symm
  rw [counted]
  simp [parens, reached.head_paren]

end Frontier

end LoxSyntax
