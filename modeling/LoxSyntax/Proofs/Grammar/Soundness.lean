import LoxSyntax.Cursor
import LoxSyntax.Proofs.Grammar.Shape

/-!
# Readings are phrases

Whatever a rule reads is a phrase of its nonterminal, and no operator that would
prolong the phrase stands behind it. The statement follows the rules from the inside
out: `Rule.Sound` is carried through the loop of a level (`Rule.Sound.leftAssociative`),
through the operands of one level of nesting (`Rule.Sound.unaryOver`) and, by induction
on the levels of nesting, to all nonterminals (`Nonterminal.sound`).
-/

namespace LoxSyntax

/-- A rule reads nothing but phrases of this tightness, and reads them to their end. -/
def Rule.Sound (tightness levels : Nat) (rule : Rule) : Prop :=
  ∀ (tokens : List Token) (e : Expr) (used : Nat), rule tokens = .parsed e used →
    ∃ ts rest, tokens = ts ++ rest ∧ used = ts.length ∧ Phrase tightness levels e ts ∧
      NoOperatorAhead tightness rest

/-! ## Levels of binary operators -/

section Chain

variable {level : Level} {levels : Nat} {operand : Rule}

/-- The loop of a level, entered behind a phrase of that level, ends behind a phrase of
that level which continues it. -/
theorem foldOperators_sound (sound : operand.Sound (level.tightness + 1) levels)
    (left : Expr) (done tokens : List Token) (phrase : Phrase level.tightness levels left done)
    (stops : NoOperatorAhead (level.tightness + 1) tokens) {e : Expr} {total : Nat}
    (result : foldOperators level operand done.length 0 left tokens = .parsed e total) :
    ∃ ts rest, done ++ tokens = ts ++ rest ∧ total = ts.length ∧
      Phrase level.tightness levels e ts ∧ NoOperatorAhead level.tightness rest := by
  -- the tokens done belong to the invariant: each turn of the loop adds to them
  refine foldOperators_induction
    (motive := fun used left tokens outcome => ∀ done : List Token, used = done.length →
      Phrase level.tightness levels left done → NoOperatorAhead (level.tightness + 1) tokens →
      outcome = .parsed e total →
      ∃ ts rest, done ++ tokens = ts ++ rest ∧ total = ts.length ∧
        Phrase level.tightness levels e ts ∧ NoOperatorAhead level.tightness rest)
    ?_ ?_ ?_ done.length left tokens done rfl phrase stops result
  · intro used left tokens ahead done length phrase stops result
    cases result
    exact ⟨done, tokens, rfl, length, phrase, stops.of_level ahead⟩
  · intro used left operator rest right n outcome has next ih done length phrase stops result
    obtain ⟨vs, behind, rfl, rfl, rightPhrase, rightStops⟩ := sound rest right n next
    have joined := Phrase.binary has phrase rightPhrase
    rw [List.drop_left] at ih
    have shown := ih (done ++ operator :: vs) (by simp [length]; omega) joined rightStops result
    simpa using shown
  · intro used left operator rest error n has next done length phrase stops result
    cases result

/-- A level of operators reads phrases of the level from operands that are tighter. -/
theorem Rule.Sound.leftAssociative (level : Level)
    (sound : operand.Sound (level.tightness + 1) levels) :
    (leftAssociative level operand).Sound level.tightness levels := by
  intro tokens e used result
  unfold LoxSyntax.leftAssociative at result
  cases first : operand tokens with
  | failed error n => rw [first] at result; cases result
  | parsed left n =>
    obtain ⟨ts, rest, rfl, rfl, phrase, stops⟩ := sound tokens left n first
    rw [first] at result
    simp only at result
    rw [foldOperators_eq, Nat.zero_add, List.drop_left] at result
    exact foldOperators_sound sound left ts rest (phrase.mono (Nat.le_succ _)) stops result

end Chain

/-- All four levels of operators read phrases from sound operands. -/
theorem Rule.Sound.expressionOver {levels : Nat} {unary : Rule} (sound : unary.Sound 4 levels) :
    (expressionOver unary).Sound 0 levels :=
  Rule.Sound.leftAssociative .equality
    (Rule.Sound.leftAssociative .comparison
      (Rule.Sound.leftAssociative .term
        (Rule.Sound.leftAssociative .factor sound)))

/-! ## Operands -/

/-- A unary rule that is sound wherever there is room for a further level. -/
def SoundBelow (levels : Nat) (deeper : Option Rule) : Prop :=
  ∀ unary ∈ deeper, ∃ fewer, levels = fewer + 1 ∧ Rule.Sound 4 fewer unary

section Operands

variable {levels : Nat} {deeper : Option Rule} {around : Surroundings}

/-- A closed group is an expression between parentheses. -/
theorem closeGroup_eq_parsed {opener : Token} {inner e : Expr} {n used : Nat}
    {rest : List Token}
    (result : closeGroup around opener inner n rest = .parsed e used) :
    ∃ closer behind, rest = closer :: behind ∧ closer.kind = .rightParen ∧
      e = .grouping inner (some opener) ∧ used = n + 1 := by
  cases rest with
  | nil => cases result
  | cons closer behind =>
    rw [closeGroup] at result
    split at result
    · rename_i closes
      cases result
      exact ⟨closer, behind, rfl, closes, rfl, rfl⟩
    · cases result

/-- Literals and groups are phrases. -/
theorem primaryOver_sound (sound : SoundBelow levels deeper) :
    Rule.Sound 5 levels (primaryOver around deeper) := by
  intro tokens e used result
  unfold primaryOver at result
  split at result
  · cases result
  split at result
  · rename_i t rest literal
    cases result
    exact ⟨[t], rest, rfl, rfl, .literal literal, .of_four_le (by decide) rest⟩
  split at result
  · rename_i t rest _ opens
    split at result
    · cases result
    · rename_i unary
      obtain ⟨fewer, rfl, soundUnary⟩ := sound unary rfl
      split at result
      · rename_i inner n parsed
        obtain ⟨ts, behind, rfl, rfl, phrase, -⟩ :=
          Rule.Sound.expressionOver soundUnary _ inner n parsed
        rw [List.drop_left] at result
        obtain ⟨closer, after, rfl, closes, rfl, rfl⟩ := closeGroup_eq_parsed result
        exact ⟨t :: (ts ++ [closer]), after, by simp, by simp, phrase.grouping opens closes,
          .of_four_le (by decide) after⟩
      · cases result
  · cases result

/-- Operands with unary operators in front are phrases. -/
theorem Rule.Sound.unaryOver (sound : SoundBelow levels deeper) :
    Rule.Sound 4 levels (unaryOver around deeper) := by
  have primary : Rule.Sound 4 levels (primaryOver around deeper) := by
    intro tokens e used result
    obtain ⟨ts, rest, split, length, phrase, -⟩ := primaryOver_sound sound tokens e used result
    exact ⟨ts, rest, split, length, phrase.mono (by decide), .of_four_le (by decide) rest⟩
  intro tokens e used result
  unfold LoxSyntax.unaryOver at result
  split at result
  · exact primary [] e used result
  split at result
  · rename_i t rest has
    split at result
    · cases result
    · rename_i unary
      obtain ⟨fewer, rfl, soundUnary⟩ := sound unary rfl
      split at result
      · rename_i operand n parsed
        cases result
        obtain ⟨ts, behind, rfl, rfl, phrase, stops⟩ := soundUnary _ operand n parsed
        exact ⟨t :: ts, behind, rfl, rfl, phrase.unary has, stops⟩
      · cases result
  · exact primary _ e used result

end Operands

/-! ## The grammar -/

/-- The unary rule is sound with room for any number of levels. -/
theorem unaryWithin_sound (around : Surroundings) (levels : Nat) :
    Rule.Sound 4 levels (unaryWithin around levels) := by
  induction levels with
  | zero =>
    rw [unaryWithin_eq]
    exact Rule.Sound.unaryOver (fun unary member => by cases member)
  | succ levels ih =>
    rw [unaryWithin_eq]
    refine Rule.Sound.unaryOver (fun unary member => ⟨levels, rfl, ?_⟩)
    cases member
    exact ih

theorem soundBelow_deeperWithin (around : Surroundings) (levels : Nat) :
    SoundBelow levels (deeperWithin around levels) := by
  intro unary member
  cases levels with
  | zero => cases member
  | succ levels =>
    cases member
    exact ⟨levels, rfl, unaryWithin_sound around levels⟩

/-- The rule of every nonterminal reads phrases of that nonterminal. -/
theorem Nonterminal.sound (around : Surroundings) (levels : Nat) (n : Nonterminal) :
    Rule.Sound n.tightness levels (n.rule around levels) := by
  have unary := unaryWithin_sound around levels
  have factor := Rule.Sound.leftAssociative .factor unary
  have term := Rule.Sound.leftAssociative .term factor
  have comparison := Rule.Sound.leftAssociative .comparison term
  cases n with
  | expression => exact Rule.Sound.expressionOver unary
  | equality => exact Rule.Sound.expressionOver unary
  | comparison => exact comparison
  | term => exact term
  | factor => exact factor
  | unary => exact unary
  | primary => exact primaryOver_sound (soundBelow_deeperWithin around levels)

/-! ## Readings from a cursor -/

/-- The tokens of a stream from one place up to another. -/
def TokenStream.between (s : TokenStream) (start stop : Int) : List Token :=
  (s.tokens.toList.take stop.toNat).drop start.toNat

namespace Cursor

/-- `c.Reads s n e stop`: the tokens from the cursor up to the place `stop` spell the
tree `e`, which is shaped as the nonterminal demands and nested no deeper than the
cursor's limit, and no operator that the nonterminal could go on with stands there. -/
structure Reads (c : Cursor) (s : TokenStream) (n : Nonterminal) (e : Expr) (stop : Int) :
    Prop where
  starts : 0 ≤ c.position
  advances : c.position < stop
  within : stop ≤ s.count
  spells : e.Spells (s.between c.position stop)
  shaped : e.Shaped
  tight : n.tightness ≤ e.tightness
  nesting : (e.nesting : Int) ≤ max c.limit 0
  stops : NoOperatorAhead n.tightness (s.tokens.toList.drop stop.toNat)

/-- A reading of any nonterminal reads a phrase of it. -/
theorem reads_of_read {c after : Cursor} {s : TokenStream} {n : Nonterminal} {e : Expr}
    (result : c.read s n = (after, .ok e)) : c.Reads s n e after.position := by
  obtain ⟨starts, inside, used, parsed, rfl⟩ := readWithin_eq_ok result
  obtain ⟨ts, rest, split, rfl, phrase, stops⟩ := n.sound _ _ _ _ _ parsed
  unfold ahead at split
  have nonempty := List.length_pos_iff.mpr phrase.spells.ne_nil
  have length : s.count - c.position.toNat = ts.length + rest.length := by
    have counted := congrArg List.length split
    simpa [TokenStream.count] using counted
  have place : (c.position + ts.length).toNat = c.position.toNat + ts.length := by omega
  have segment : s.between c.position (c.position + ts.length) = ts := by
    unfold TokenStream.between
    rw [place, List.drop_take, split]
    simp
  have behind : s.tokens.toList.drop (c.position + ts.length).toNat = rest := by
    rw [place, ← List.drop_drop, split, List.drop_left]
  have levels : (e.nesting : Int) ≤ max c.limit 0 := by
    have room := phrase.room
    unfold Cursor.levels at room
    omega
  refine ⟨starts, by dsimp only; omega, by dsimp only; omega, ?_, phrase.shaped, phrase.tight,
    levels, ?_⟩
  · dsimp only
    rw [segment]
    exact phrase.spells
  · dsimp only
    rw [behind]
    exact stops

/-- Whatever is read, by a nonterminal or as a whole, is a phrase: its tree spells exactly
the tokens passed over, in order, is shaped by precedence and grouped to the left, keeps
to the nesting limit, and is complete where the reading stopped. -/
theorem reads_of_ok (s : TokenStream) (c after : Cursor) (e : Expr) :
    (∀ n, c.read s n = (after, .ok e) → c.Reads s n e after.position) ∧
      (c.parse s = (after, .ok e) → c.Reads s .expression e after.position) := by
  refine ⟨fun n result => reads_of_read result, fun result => ?_⟩
  obtain ⟨reached, read, rfl⟩ := parse_eq_ok result
  rw [position_warnOfRest]
  exact reads_of_read read

/-- Behind the first token of `nil -(nil) -` stands the factor `-(nil)`, which nests two
levels; the minus behind it belongs to a looser level. -/
theorem reads_of_ok_factor :
    let opener : Token := ⟨.leftParen, "(", .absent, 1⟩
    let minus : Token := ⟨.minus, "-", .absent, 1⟩
    let operand : Token := ⟨.keyword .nilWord, "nil", .absent, 1⟩
    let closer : Token := ⟨.rightParen, ")", .absent, 1⟩
    let s : TokenStream := ⟨[], 0, 1, #[operand, minus, opener, operand, closer, minus], none⟩
    let e : Expr := .unary minus (.grouping (.literal operand) (some opener))
    Cursor.read ⟨1, #[], 2⟩ s .factor = (⟨5, #[], 2⟩, .ok e) ∧
      Cursor.Reads ⟨1, #[], 2⟩ s .factor e 5 := by
  refine ⟨by rfl, ?_⟩
  exact (reads_of_ok _ ⟨1, #[], 2⟩ ⟨5, #[], 2⟩ _).1 .factor (by rfl)

end Cursor

end LoxSyntax
