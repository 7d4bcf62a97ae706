import LoxSyntax.Proofs.Grammar.Frontier
import LoxSyntax.Proofs.Grammar.Soundness

/-!
# A reading stops at the first impossible token

Where a rule fails, the tokens it used lead to a frontier that explains the error: the
error asks for what comes next there, and the token ahead cannot be it
(`Fault`, `unaryWithin_faults`). Since a row of tokens that reaches the end of a sentence
can neither fail nor be read in part, the frontier decides sentences
(`sentence_iff_after`) and, because every frontier can be completed, viability
(`viable_iff_after`).

So a parse stops behind the longest viable row of tokens ahead of it, gives a tree just
when that row is a sentence, and otherwise reports the first impossible token or the
missing one. Only a reading cut off by the nesting limit stops earlier.
-/

namespace LoxSyntax

open Frontier (Step start)

/-- `Fault around levels ts f rest error`: at the frontier `f`, reached by the tokens
`ts`, the error is what the tokens `rest` ahead call for, or the last token opened one
level more than there may be. -/
inductive Fault (around : Surroundings) (levels : Nat) (ts : List Token) :
    Frontier → List Token → SyntaxError → Prop
  | unexpectedToken {opened rest : List Token} {t : Token} :
    (∀ g, ¬ Step ⟨true, opened⟩ t g) →
    Fault around levels ts ⟨true, opened⟩ (t :: rest) (.unexpectedToken t)
  | unexpectedEnd {opened : List Token} :
    Fault around levels ts ⟨true, opened⟩ [] (.unexpectedEnd "expression" around.endLine)
  | unclosed {outer rest : List Token} {opener t : Token} :
    (∀ g, ¬ Step ⟨false, opener :: outer⟩ t g) →
    Fault around levels ts ⟨false, opener :: outer⟩ (t :: rest)
      (.unclosedDelimiter opener (some t) t.line)
  | unclosedEnd {outer : List Token} {opener : Token} :
    Fault around levels ts ⟨false, opener :: outer⟩ []
      (.unclosedDelimiter opener none around.endLine)
  | tooDeep {outer rest : List Token} {opener : Token} :
    ts.getLast? = some opener → outer.length = levels →
    Fault around levels ts ⟨true, opener :: outer⟩ rest
      (.nestedTooDeeply opener.line around.limit)

/-- A reading of `tokens`, begun where an operand comes next within the levels `opened`,
goes wrong behind `used` tokens with a fault. -/
def FaultsOn (around : Surroundings) (levels : Nat) (opened tokens : List Token)
    (error : SyntaxError) (used : Nat) : Prop :=
  ∃ ts rest f, tokens = ts ++ rest ∧ used = ts.length ∧
    Frontier.after ⟨true, opened⟩ ts = some f ∧ Fault around levels ts f rest error

/-- Every failure of a rule within the levels `opened` is a fault. -/
def Rule.Faults (around : Surroundings) (levels : Nat) (opened : List Token) (rule : Rule) :
    Prop :=
  ∀ (tokens : List Token) (error : SyntaxError) (used : Nat), rule tokens = .failed error used →
    FaultsOn around levels opened tokens error used

section

variable {around : Surroundings} {levels : Nat}

theorem Fault.prepend {ts rest : List Token} {f : Frontier} {error : SyntaxError}
    (us : List Token) (h : Fault around levels ts f rest error) :
    Fault around levels (us ++ ts) f rest error := by
  cases h with
  | unexpectedToken stuck => exact .unexpectedToken stuck
  | unexpectedEnd => exact .unexpectedEnd
  | unclosed stuck => exact .unclosed stuck
  | unclosedEnd => exact .unclosedEnd
  | tooDeep last depth =>
    refine .tooDeep ?_ depth
    rw [List.getLast?_append, last]
    rfl

/-- A fault stays one behind tokens that lead to where its reading began. -/
theorem FaultsOn.prepend {opened inner us tokens : List Token} {error : SyntaxError} {used : Nat}
    (led : Frontier.after ⟨true, opened⟩ us = some ⟨true, inner⟩)
    (h : FaultsOn around levels inner tokens error used) :
    FaultsOn around levels opened (us ++ tokens) error (us.length + used) := by
  rcases h with ⟨ts, rest, f, rfl, rfl, reached, fault⟩
  refine ⟨us ++ ts, rest, f, by simp, by simp, ?_, fault.prepend us⟩
  rw [Frontier.after_append_of_some led, reached]

theorem Phrase.after {tightness room : Nat} {e : Expr} {ts : List Token}
    (phrase : Phrase tightness room e ts) (opened : List Token) :
    Frontier.after ⟨true, opened⟩ ts = some ⟨false, Frontier.settle opened⟩ :=
  Frontier.after_of_derives
    (Phrase.derives (n := .expression) (phrase.mono (Nat.zero_le _))) opened

/-! ## Levels of binary operators -/

theorem foldOperators_faults {level : Level} {operand : Rule} {room : Nat} {opened : List Token}
    (settled : Frontier.settle opened = opened)
    (sound : operand.Sound (level.tightness + 1) room)
    (faults : operand.Faults around levels opened) (left : Expr) (done tokens : List Token)
    (led : Frontier.after ⟨true, opened⟩ done = some ⟨false, opened⟩)
    {error : SyntaxError} {total : Nat}
    (result : foldOperators level operand done.length 0 left tokens = .failed error total) :
    FaultsOn around levels opened (done ++ tokens) error total := by
  refine foldOperators_induction
    (motive := fun used left tokens outcome => ∀ done : List Token, used = done.length →
      Frontier.after ⟨true, opened⟩ done = some ⟨false, opened⟩ →
      outcome = .failed error total → FaultsOn around levels opened (done ++ tokens) error total)
    ?_ ?_ ?_ done.length left tokens done rfl led result
  · intro used left tokens ahead done length led result
    cases result
  · intro used left operator rest right n outcome has next ih done length led result
    obtain ⟨vs, behind, rfl, rfl, phrase, -⟩ := sound rest right n next
    rw [List.drop_left] at ih
    have joined : Frontier.after ⟨true, opened⟩ (done ++ operator :: vs) =
        some ⟨false, opened⟩ := by
      rw [Frontier.after_append_of_some led, Frontier.after_cons (.operator level has),
        phrase.after, settled]
    have shown := ih (done ++ operator :: vs) (by simp [length]; omega) joined result
    simpa using shown
  · intro used left operator rest error' n has next done length led result
    cases result
    have reached : Frontier.after ⟨true, opened⟩ (done ++ [operator]) =
        some ⟨true, opened⟩ := by
      rw [Frontier.after_append_of_some led, Frontier.after_cons (.operator level has)]
      rfl
    have shown := (faults rest _ n next).prepend reached
    simpa [length] using shown

theorem Rule.Faults.leftAssociative {operand : Rule} {room : Nat} {opened : List Token}
    (level : Level) (settled : Frontier.settle opened = opened)
    (sound : operand.Sound (level.tightness + 1) room)
    (faults : operand.Faults around levels opened) :
    (leftAssociative level operand).Faults around levels opened := by
  intro tokens error used result
  unfold LoxSyntax.leftAssociative at result
  cases first : operand tokens with
  | failed error' n =>
    rw [first] at result
    cases result
    exact faults tokens error used first
  | parsed left n =>
    obtain ⟨ts, rest, rfl, rfl, phrase, -⟩ := sound tokens left n first
    rw [first] at result
    simp only at result
    rw [foldOperators_eq, Nat.zero_add, List.drop_left] at result
    refine foldOperators_faults settled sound faults left ts rest ?_ result
    rw [phrase.after, settled]

theorem Rule.Faults.expressionOver {unary : Rule} {room : Nat} {opened : List Token}
    (settled : Frontier.settle opened = opened) (sound : unary.Sound 4 room)
    (faults : unary.Faults around levels opened) :
    (expressionOver unary).Faults around levels opened := by
  have soundFactor := Rule.Sound.leftAssociative .factor sound
  have soundTerm := Rule.Sound.leftAssociative .term soundFactor
  have soundComparison := Rule.Sound.leftAssociative .comparison soundTerm
  have factor := Rule.Faults.leftAssociative .factor settled sound faults
  have term := Rule.Faults.leftAssociative .term settled soundFactor factor
  have comparison := Rule.Faults.leftAssociative .comparison settled soundTerm term
  exact Rule.Faults.leftAssociative .equality settled soundComparison comparison

/-! ## Operands -/

/-- The unary rule of the next level, if there is room for one, reads phrases and fails
with faults. -/
def FaultsBelow (around : Surroundings) (levels room : Nat) : Option Rule → Prop
  | none => room = 0
  | some unary => ∃ fewer, room = fewer + 1 ∧ Rule.Sound 4 fewer unary ∧
      ∀ opened, opened.length + fewer = levels → Rule.Faults around levels opened unary

/-- A group that is not closed fails at the token behind its contents. -/
theorem closeGroup_eq_failed {opener : Token} {inner : Expr} {n used : Nat}
    {rest : List Token} {error : SyntaxError}
    (result : closeGroup around opener inner n rest = .failed error used) :
    used = n ∧ ((rest = [] ∧ error = .unclosedDelimiter opener none around.endLine) ∨
      ∃ t behind, rest = t :: behind ∧ t.kind ≠ .rightParen ∧
        error = .unclosedDelimiter opener (some t) t.line) := by
  cases rest with
  | nil =>
    cases result
    exact ⟨rfl, .inl ⟨rfl, rfl⟩⟩
  | cons t behind =>
    rw [closeGroup] at result
    split at result
    · cases result
    · rename_i other
      cases result
      exact ⟨rfl, .inr ⟨t, behind, rfl, other, rfl⟩⟩

section Operands

variable {room : Nat} {opened : List Token} {deeper : Option Rule}

theorem primaryOver_faults (below : FaultsBelow around levels room deeper)
    (depth : opened.length + room = levels) {tokens : List Token}
    (plain : ∀ t ∈ tokens.head?, t.kind.isUnaryOperator = false) {error : SyntaxError}
    {used : Nat} (result : primaryOver around deeper tokens = .failed error used) :
    FaultsOn around levels opened tokens error used := by
  unfold primaryOver at result
  split at result
  · cases result
    exact ⟨[], [], _, rfl, rfl, rfl, .unexpectedEnd⟩
  rename_i t rest
  split at result
  · cases result
  rename_i notLiteral
  split at result
  · rename_i opens
    have opening : Frontier.after ⟨true, opened⟩ [t] = some ⟨true, t :: opened⟩ :=
      Frontier.after_cons (.opener (.inl opens)) []
    have settled := Frontier.settle_cons_paren opens opened
    split at result
    · cases result
      have none : room = 0 := below
      exact ⟨[t], rest, _, rfl, rfl, opening, .tooDeep rfl (by omega)⟩
    · rename_i unary
      rcases below with ⟨fewer, rfl, sound, faults⟩
      have inside := faults (t :: opened) (by simp only [List.length_cons]; omega)
      split at result
      · rename_i inner n parsed
        obtain ⟨us, behind, rfl, rfl, phrase, stops⟩ :=
          Rule.Sound.expressionOver sound _ inner n parsed
        rw [List.drop_left] at result
        have led : Frontier.after ⟨true, opened⟩ (t :: us) = some ⟨false, t :: opened⟩ := by
          rw [Frontier.after_cons (.opener (.inl opens)), phrase.after, settled]
        rcases closeGroup_eq_failed result with ⟨rfl, ⟨rfl, rfl⟩ | ⟨found, after, rfl, other, rfl⟩⟩
        · exact ⟨t :: us, [], _, rfl, rfl, led, .unclosedEnd⟩
        · refine ⟨t :: us, found :: after, _, rfl, rfl, led, .unclosed ?_⟩
          intro g step
          cases step with
          | closer closes => exact other closes
          | operator level has =>
            rw [stops found rfl level (Nat.zero_le _)] at has
            cases has
      · rename_i error' n failed
        cases result
        have within := Rule.Faults.expressionOver settled sound inside rest _ n failed
        have shown := within.prepend opening
        simpa [Nat.add_comm] using shown
  · rename_i notParen
    cases result
    refine ⟨[], t :: rest, _, rfl, rfl, rfl, .unexpectedToken ?_⟩
    intro g step
    cases step with
    | literal kind => exact notLiteral kind
    | opener opens =>
      rcases opens with paren | unary
      · exact notParen paren
      · rw [plain t rfl] at unary
        cases unary

theorem unaryOver_faults (below : FaultsBelow around levels room deeper)
    (depth : opened.length + room = levels) :
    Rule.Faults around levels opened (unaryOver around deeper) := by
  intro tokens error used result
  unfold unaryOver at result
  split at result
  · exact primaryOver_faults below depth (fun t member => by cases member) result
  rename_i t rest
  split at result
  · rename_i unaryOperator
    have opening : Frontier.after ⟨true, opened⟩ [t] = some ⟨true, t :: opened⟩ :=
      Frontier.after_cons (.opener (.inr unaryOperator)) []
    split at result
    · cases result
      have none : room = 0 := below
      exact ⟨[t], rest, _, rfl, rfl, opening, .tooDeep rfl (by omega)⟩
    · rename_i unary
      rcases below with ⟨fewer, rfl, sound, faults⟩
      have inside := faults (t :: opened) (by simp only [List.length_cons]; omega)
      split at result
      · cases result
      · rename_i error' n failed
        cases result
        have shown := (inside rest _ n failed).prepend opening
        simpa [Nat.add_comm] using shown
  · rename_i other
    refine primaryOver_faults below depth (fun u member => ?_) result
    obtain rfl : t = u := by simpa using member
    simpa using other

end Operands

/-! ## The grammar -/

theorem unaryWithin_faults (room : Nat) (opened : List Token)
    (depth : opened.length + room = levels) :
    Rule.Faults around levels opened (unaryWithin around room) := by
  induction room generalizing opened with
  | zero =>
    rw [unaryWithin_eq]
    exact unaryOver_faults rfl depth
  | succ room ih =>
    rw [unaryWithin_eq]
    exact unaryOver_faults ⟨room, rfl, unaryWithin_sound around room, fun opened => ih opened⟩
      depth

/-- The rule of expressions fails with faults. -/
theorem expression_faults (around : Surroundings) (levels : Nat) :
    Rule.Faults around levels [] (Nonterminal.expression.rule around levels) :=
  Rule.Faults.expressionOver rfl (unaryWithin_sound around levels)
    (unaryWithin_faults levels [] (by simp))

end

/-! ## Sentences and viable rows by their frontier -/

/-- A row that leads to the end of a sentence is one: the rule of expressions, given room
for as many levels as there are tokens, can neither fail on it nor stop short. -/
theorem sentence_of_after {ts : List Token} (led : start.after ts = some ⟨false, []⟩) :
    Sentence ts := by
  cases result : Nonterminal.expression.rule ⟨0, 1⟩ ts.length ts with
  | parsed e used =>
    obtain ⟨us, rest, rfl, rfl, phrase, stops⟩ :=
      Nonterminal.expression.sound _ _ ts e used result
    cases rest with
    | nil =>
      rw [List.append_nil]
      exact Phrase.derives phrase
    | cons t rest =>
      -- nothing but an operator can stand behind a sentence
      have stuck : ∀ g, ¬ Step ⟨false, []⟩ t g := by
        intro g step
        cases step with
        | operator level has =>
          rw [stops t rfl level (Nat.zero_le _)] at has
          cases has
      rw [Frontier.after_eq_none_of_stuck (phrase.after []) stuck] at led
      cases led
  | failed error used =>
    obtain ⟨us, rest, f, split, rfl, reached, fault⟩ := expression_faults _ _ ts error used result
    have deep := Frontier.length_opened_le reached
    have whole := congrArg List.length split
    rw [split] at led
    cases fault with
    | unexpectedToken stuck =>
      rw [Frontier.after_eq_none_of_stuck reached stuck] at led
      cases led
    | unexpectedEnd =>
      rw [List.append_nil] at led
      cases reached.symm.trans led
    | unclosed stuck =>
      rw [Frontier.after_eq_none_of_stuck reached stuck] at led
      cases led
    | unclosedEnd =>
      rw [List.append_nil] at led
      cases reached.symm.trans led
    | tooDeep last depth =>
      simp only [List.length_cons, List.length_nil, List.length_append] at deep whole
      omega

theorem sentence_iff_after {ts : List Token} :
    Sentence ts ↔ start.after ts = some ⟨false, []⟩ :=
  ⟨fun sentence => Frontier.after_of_derives sentence [], sentence_of_after⟩

theorem viable_iff_after {ts : List Token} : Viable ts ↔ ∃ f, start.after ts = some f := by
  constructor
  · intro viable
    rcases viable with ⟨more, sentence⟩
    have led := sentence_iff_after.mp sentence
    rw [Frontier.after_append] at led
    cases reached : start.after ts with
    | none =>
      rw [reached] at led
      cases led
    | some f => exact ⟨f, rfl⟩
  · intro leads
    rcases leads with ⟨f, reached⟩
    rcases Frontier.exists_completion f with ⟨more, completed⟩
    refine ⟨more, sentence_iff_after.mpr ?_⟩
    rw [Frontier.after_append_of_some reached, completed]

/-- A stuck token ends viability. -/
theorem not_viable_of_stuck {ts : List Token} {f : Frontier} {t : Token}
    (reached : start.after ts = some f) (stuck : ∀ g, ¬ Step f t g) : ¬ Viable (ts ++ [t]) := by
  intro viable
  rcases viable_iff_after.mp viable with ⟨g, led⟩
  rw [Frontier.after_eq_none_of_stuck reached stuck] at led
  cases led

theorem expectsOperand_iff_after {ts : List Token} :
    ExpectsOperand ts ↔ ∃ opened, start.after ts = some ⟨true, opened⟩ := by
  constructor
  · intro expects
    rcases expects with ⟨t, kind, viable⟩
    obtain ⟨⟨operandNext, opened⟩, reached⟩ :=
      viable_iff_after.mp (viable.of_prefix (List.prefix_append ts [t]))
    cases operandNext with
    | true => exact ⟨opened, reached⟩
    | false =>
      refine absurd viable (not_viable_of_stuck reached fun g step => ?_)
      cases step with
      | closer closes => exact (Kind.not_paren_of_isLiteral kind).2 closes
      | operator level has =>
        rw [Kind.not_has_of_isLiteral kind] at has
        cases has
  · intro leads
    rcases leads with ⟨opened, reached⟩
    let operand : Token := ⟨.keyword .nilWord, "nil", .absent, 1⟩
    have led : start.after (ts ++ [operand]) = some ⟨false, Frontier.settle opened⟩ := by
      rw [Frontier.after_append_of_some reached]
      exact Frontier.after_cons (.literal rfl) []
    exact ⟨operand, rfl, viable_iff_after.mpr ⟨_, led⟩⟩

/-! ## Parses -/

/-- What a syntax error reports: its code, the token it is about and the line. -/
structure SyntaxError.Reports (error : SyntaxError) (code : String) (token : Option Token)
    (line : Int) : Prop where
  code : error.diagnostic.code = some code
  token : error.token? = token
  line : error.diagnostic.line = line

namespace SyntaxError

theorem reports_unexpectedToken (found : Token) :
    (unexpectedToken found).Reports "P001" (some found) found.line :=
  ⟨rfl, rfl, rfl⟩

theorem reports_unexpectedEnd (expected : String) (line : Int) :
    (unexpectedEnd expected line).Reports "P010" none line :=
  ⟨rfl, rfl, rfl⟩

theorem reports_unclosedDelimiter (opener : Token) (found : Option Token) (line : Int) :
    (unclosedDelimiter opener found line).Reports "P004" found line :=
  ⟨rfl, rfl, rfl⟩

theorem reports_nestedTooDeeply (line limit : Int) :
    (nestedTooDeeply line limit).Reports "P014" none line :=
  ⟨rfl, rfl, rfl⟩

theorem help_unclosedDelimiter (opener : Token) (found : Option Token) (line : Int) :
    (unclosedDelimiter opener found line).diagnostic.help =
      some ("The '(' on line " ++ integerText opener.line ++ " was never closed.") :=
  rfl

/-- The code of the nesting limit is the code of no other error. -/
theorem eq_nestedTooDeeply_of_code {error : SyntaxError}
    (h : error.diagnostic.code = some "P014") :
    ∃ line limit, error = nestedTooDeeply line limit := by
  cases error with
  | nestedTooDeeply line limit => exact ⟨line, limit, rfl⟩
  | unexpectedToken found =>
    rw [(reports_unexpectedToken found).code] at h
    exact absurd h (by decide)
  | unexpectedEnd expected line =>
    rw [(reports_unexpectedEnd expected line).code] at h
    exact absurd h (by decide)
  | unclosedDelimiter opener found line =>
    rw [(reports_unclosedDelimiter opener found line).code] at h
    exact absurd h (by decide)

end SyntaxError

/-- How a reading ends that no limit cuts off, in terms of the longest viable row `ts`
ahead of it and the tokens `rest` behind that row. -/
structure EndsAt (endLine : Int) (ts rest : List Token) (result : Except Failure Expr) :
    Prop where
  longest : LongestViable ts (ts ++ rest)
  tree_iff : (∃ e, result = .ok e) ↔ Sentence ts
  /-- An operand is expected and another token found. -/
  unexpectedToken : ∀ t ∈ rest.head?, ExpectsOperand ts →
    ∃ error, result = .error (.grammatical error) ∧ error.Reports "P001" (some t) t.line
  /-- An operand is expected and the tokens end. -/
  unexpectedEnd : rest = [] → ExpectsOperand ts →
    ∃ error, result = .error (.grammatical error) ∧ error.Reports "P010" none endLine
  /-- A group is complete and is not closed. -/
  unclosed : ¬ ExpectsOperand ts → ¬ Sentence ts →
    ∃ error opener, result = .error (.grammatical error) ∧
      error.Reports "P004" rest.head? ((rest.head?.map Token.line).getD endLine) ∧
      (Frontier.unclosed ts).head? = some opener ∧
      error.diagnostic.help =
        some ("The '(' on line " ++ integerText opener.line ++ " was never closed.")

/-- A reading fails because of the nesting limit. -/
def Overnested (result : Except Failure Expr) : Prop :=
  ∃ error, result = .error (.grammatical error) ∧ error.diagnostic.code = some "P014"

/-- How a reading ends that the limit cuts off: behind a viable row whose last token opens
one level more than there may be, and with an error on that token's line. -/
structure CutOff (limit : Int) (ts : List Token) (result : Except Failure Expr) : Prop where
  viable : Viable ts
  opener : ∃ error opener outer, result = .error (.grammatical error) ∧
    error.Reports "P014" none opener.line ∧ ts.getLast? = some opener ∧
    (opener.kind = .leftParen ∨ opener.kind.isUnaryOperator = true) ∧
    start.after ts = some ⟨true, opener :: outer⟩ ∧ (outer.length : Int) = max limit 0

section Ends

variable {ts rest : List Token} {endLine : Int}

theorem EndsAt.of_sentence (e : Expr) (sentence : Sentence ts) (stops : NoOperatorAhead 0 rest) :
    EndsAt endLine ts rest (.ok e) where
  longest := by
    have reached := sentence_iff_after.mp sentence
    refine .of_next (viable_iff_after.mpr ⟨_, reached⟩) fun t member => ?_
    refine not_viable_of_stuck reached fun g step => ?_
    cases step with
    | operator level has =>
      rw [stops t member level (Nat.zero_le _)] at has
      cases has
  tree_iff := ⟨fun _ => sentence, fun _ => ⟨e, rfl⟩⟩
  unexpectedToken t member expects := by
    rcases expectsOperand_iff_after.mp expects with ⟨opened, reached⟩
    cases (sentence_iff_after.mp sentence).symm.trans reached
  unexpectedEnd ends expects := by
    rcases expectsOperand_iff_after.mp expects with ⟨opened, reached⟩
    cases (sentence_iff_after.mp sentence).symm.trans reached
  unclosed complete other := absurd sentence other

/-- Where an operand comes next, the reading ends with the error that asks for one. -/
theorem EndsAt.of_operandNext {opened : List Token} {error : SyntaxError}
    (reached : start.after ts = some ⟨true, opened⟩)
    (stuck : ∀ t ∈ rest.head?, ∀ g, ¬ Step ⟨true, opened⟩ t g)
    (found : ∀ t ∈ rest.head?, error.Reports "P001" (some t) t.line)
    (ended : rest = [] → error.Reports "P010" none endLine) :
    EndsAt endLine ts rest (.error (.grammatical error)) where
  longest := .of_next (viable_iff_after.mpr ⟨_, reached⟩)
    fun t member => not_viable_of_stuck reached (stuck t member)
  tree_iff := by
    refine ⟨fun ⟨e, tree⟩ => (nomatch tree), fun sentence => ?_⟩
    cases (sentence_iff_after.mp sentence).symm.trans reached
  unexpectedToken t member _ := ⟨error, rfl, found t member⟩
  unexpectedEnd ends _ := ⟨error, rfl, ended ends⟩
  unclosed complete _ := absurd (expectsOperand_iff_after.mpr ⟨opened, reached⟩) complete

/-- Where a group is complete, the reading ends with the error that asks to close it. -/
theorem EndsAt.of_unclosed {outer : List Token} {opener : Token}
    (reached : start.after ts = some ⟨false, opener :: outer⟩)
    (stuck : ∀ t ∈ rest.head?, ∀ g, ¬ Step ⟨false, opener :: outer⟩ t g) :
    EndsAt endLine ts rest (.error (.grammatical (.unclosedDelimiter opener rest.head?
      ((rest.head?.map Token.line).getD endLine)))) where
  longest := .of_next (viable_iff_after.mpr ⟨_, reached⟩)
    fun t member => not_viable_of_stuck reached (stuck t member)
  tree_iff := by
    refine ⟨fun ⟨e, tree⟩ => (nomatch tree), fun sentence => ?_⟩
    cases (sentence_iff_after.mp sentence).symm.trans reached
  unexpectedToken t member expects := by
    rcases expectsOperand_iff_after.mp expects with ⟨opened, other⟩
    cases reached.symm.trans other
  unexpectedEnd ends expects := by
    rcases expectsOperand_iff_after.mp expects with ⟨opened, other⟩
    cases reached.symm.trans other
  unclosed _ _ := ⟨_, opener, rfl, SyntaxError.reports_unclosedDelimiter _ _ _,
    Frontier.unclosed_of_after reached, SyntaxError.help_unclosedDelimiter _ _ _⟩

/-- A fault that is not the limit's ends the reading as the grammar demands. -/
theorem EndsAt.of_fault {around : Surroundings} {levels : Nat} {f : Frontier}
    {error : SyntaxError} (reached : start.after ts = some f)
    (fault : Fault around levels ts f rest error)
    (within : error.diagnostic.code ≠ some "P014") :
    EndsAt around.endLine ts rest (.error (.grammatical error)) := by
  cases fault with
  | @unexpectedToken opened behind t stuck =>
    refine .of_operandNext reached ?_ ?_ fun ends => (nomatch ends)
    · intro u member
      cases member
      exact stuck
    · intro u member
      cases member
      exact SyntaxError.reports_unexpectedToken t
  | unexpectedEnd =>
    refine .of_operandNext reached ?_ ?_ fun _ => SyntaxError.reports_unexpectedEnd _ _
    · intro u member
      cases member
    · intro u member
      cases member
  | @unclosed outer behind opener t stuck =>
    have next : ∀ u ∈ (t :: behind).head?, ∀ g, ¬ Step ⟨false, opener :: outer⟩ u g := by
      intro u member
      cases member
      exact stuck
    exact .of_unclosed reached next
  | @unclosedEnd outer opener =>
    have next : ∀ u ∈ ([] : List Token).head?, ∀ g, ¬ Step ⟨false, opener :: outer⟩ u g := by
      intro u member
      cases member
    exact .of_unclosed reached next
  | tooDeep last depth => exact absurd (SyntaxError.reports_nestedTooDeeply _ _).code within

/-- A fault of the limit cuts the reading off at the token that opens one level too many. -/
theorem CutOff.of_fault {around : Surroundings} {levels : Nat} {f : Frontier}
    {error : SyntaxError} (depth : (levels : Int) = max around.limit 0)
    (reached : start.after ts = some f) (fault : Fault around levels ts f rest error)
    (beyond : error.diagnostic.code = some "P014") :
    CutOff around.limit ts (.error (.grammatical error)) := by
  rcases SyntaxError.eq_nestedTooDeeply_of_code beyond with ⟨line, limit, rfl⟩
  cases fault with
  | @tooDeep outer rest opener last full =>
    refine ⟨viable_iff_after.mpr ⟨_, reached⟩, _, opener, outer, rfl,
      SyntaxError.reports_nestedTooDeeply _ _, last, ?_, reached, by omega⟩
    exact (Frontier.proper_of_after reached).opens opener List.mem_cons_self

end Ends

/-- A parse stops behind the longest viable row of tokens ahead of it; it gives a tree just
when that row is a sentence, and otherwise the error for what stands or is missing there.
A parse that the limit cuts off stops behind a viable row too. -/
theorem Cursor.parse_endsAt (s : TokenStream) (c : Cursor)
    (inside : 0 ≤ c.position ∧ c.position ≤ s.count) :
    ∃ ts rest, c.ahead s = ts ++ rest ∧ (c.parse s).1.position = c.position + ts.length ∧
      (¬ Overnested (c.parse s).2 → EndsAt s.lastLine ts rest (c.parse s).2) ∧
      (Overnested (c.parse s).2 → CutOff c.limit ts (c.parse s).2) := by
  cases result : Nonterminal.expression.rule (c.surroundings s) c.levels (c.ahead s) with
  | parsed e used =>
    obtain ⟨ts, rest, split, rfl, phrase, stops⟩ :=
      Nonterminal.expression.sound _ _ _ e used result
    rw [parse_of_parsed inside result, position_warnOfRest]
    refine ⟨ts, rest, split, rfl, fun _ => .of_sentence e (Phrase.derives phrase) stops, ?_⟩
    intro overnested
    rcases overnested with ⟨error, failed, -⟩
    cases failed
  | failed error used =>
    obtain ⟨ts, rest, f, split, rfl, reached, fault⟩ := expression_faults _ _ _ error used result
    have depth : (c.levels : Int) = max c.limit 0 := by
      unfold Cursor.levels
      omega
    rw [parse_of_failed inside result]
    refine ⟨ts, rest, split, rfl, fun within => ?_, ?_⟩
    · exact .of_fault reached fault fun code => within ⟨error, rfl, code⟩
    · intro overnested
      rcases overnested with ⟨error', same, code⟩
      cases same
      exact .of_fault depth reached fault code

/-- Behind the first token of `) (!(nil) nil` the longest viable row ends with the inner
group, and the last token stands where the outer one should be closed. -/
theorem Cursor.parse_endsAt_unclosed :
    let opener : Token := ⟨.leftParen, "(", .absent, 1⟩
    let bang : Token := ⟨.bang, "!", .absent, 1⟩
    let operand : Token := ⟨.keyword .nilWord, "nil", .absent, 2⟩
    let closer : Token := ⟨.rightParen, ")", .absent, 2⟩
    let s : TokenStream :=
      ⟨[], 0, 2, #[closer, opener, bang, opener, operand, closer, operand], none⟩
    let c : Cursor := ⟨1, #[], 3⟩
    c.parse s = (⟨6, #[], 3⟩, .error (.grammatical (.unclosedDelimiter opener (some operand) 2))) ∧
    ∃ ts rest, c.ahead s = ts ++ rest ∧ (c.parse s).1.position = c.position + ts.length ∧
      (¬ Overnested (c.parse s).2 → EndsAt s.lastLine ts rest (c.parse s).2) ∧
      (Overnested (c.parse s).2 → CutOff c.limit ts (c.parse s).2) := by
  refine ⟨by rfl, ?_⟩
  exact Cursor.parse_endsAt _ ⟨1, #[], 3⟩ (by decide)

end LoxSyntax
