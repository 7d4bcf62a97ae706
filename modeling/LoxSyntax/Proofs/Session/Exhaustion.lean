import LoxSyntax.Proofs.Session.Independence

/-!
# Exhausted stacks

On a small stack a reading does what it does on a larger one, until a call finds no room: then it
stops where it is, with the error of an exhausted stack, and the count is what it was
(`Reading.Curtails`). That is carried from the steps of a reading to the rules, and by induction
on the smaller stack to all nonterminals (`Reading.Curtails.nonterminal`).

So a parse gives on any stack what the cursor's parse gives, or refuses the expression as nested
too deeply where it stands, with no level left open (`Reader.run_parse_or_exhausted`).
-/

namespace LoxSyntax

/-- The line of the token at the cursor, or of the last one behind it. -/
def Cursor.lineAhead (c : Cursor) (s : TokenStream) : Int :=
  ((c.ahead s).head?.map Token.line).getD s.lastLine

/-- The reader at another place. -/
def Reader.placed (c : Reader) (position : Int) : Reader :=
  { c with position }

namespace Reading

variable {α β : Type} {s : TokenStream} {c : Reader}

theorem run_exhausted_of_within (h : c.Within s) :
    (exhausted s).run c =
      .error (.grammatical (.nestedTooDeeply (c.lineAhead s) c.limit)) c := by
  have ends := Cursor.atEnd_eq_isEmpty h
  unfold Cursor.lineAhead
  cases ahead : c.ahead s with
  | nil => simp [exhausted, ends, ahead]
  | cons t rest => simp [exhausted, ends, ahead, run_peek_of_ahead h ahead]

/-- Outside the tokens the reading of an operand fails at once, on any stack. -/
theorem run_unary_of_outside (h : ¬ c.Within s) (frames : Nat) :
    (unary s frames).run c = .error (.outOfRange ⟨c.position, s.count⟩) c := by
  cases frames with
  | zero => simp [unary, exhausted, Cursor.atEnd_of_outside h, run_peek_of_outside h]
  | succ frames => exact run_unaryOver_of_outside h (unary s frames)

/-! ## Small and large stacks -/

/-- What a reading from the reader comes to on a small stack, beside what it comes to on a larger
one: the same, or the small stack is exhausted. Of the reader only the place changes. -/
inductive Curtailed (s : TokenStream) (c : Reader) :
    EStateM.Result Failure Reader α → EStateM.Result Failure Reader α → Prop
  | ok (a : α) (stop : Int) : Curtailed s c (.ok a (c.placed stop)) (.ok a (c.placed stop))
  | error (failure : Failure) (stop : Int) :
    Curtailed s c (.error failure (c.placed stop)) (.error failure (c.placed stop))
  | exhausted (stop : Int) (larger : EStateM.Result Failure Reader α) :
    (c.placed stop).Within s →
    Curtailed s c (.error (.grammatical (.nestedTooDeeply ((c.placed stop).lineAhead s) c.limit))
      (c.placed stop)) larger

/-- What goes on from another place went on from here. -/
theorem Curtailed.of_placed {stop : Int} {small large : EStateM.Result Failure Reader α}
    (h : Curtailed s (c.placed stop) small large) : Curtailed s c small large := by
  cases h with
  | ok a last => exact .ok a last
  | error failure last => exact .error failure last
  | exhausted stop _ inside => exact .exhausted stop _ inside

/-- A reading on a small stack comes to what it comes to on a larger one, or exhausts it. -/
def Curtails (s : TokenStream) (small large : Reading α) : Prop :=
  ∀ c : Reader, Curtailed s c (small.run c) (large.run c)

namespace Curtails

/-! ### Steps -/

theorem pure (a : α) : Curtails s (pure a) (pure a) :=
  fun c => .ok a c.position

theorem fail (failure : Failure) : Curtails s (throw failure : Reading α) (throw failure) :=
  fun c => .error failure c.position

/-- Behind a failure nothing is read. -/
theorem fail_bind (failure : Failure) (next next' : α → Reading β) :
    Curtails s (throw failure >>= next) (throw failure >>= next') :=
  fun c => .error failure c.position

theorem bind {small large : Reading α} {next next' : α → Reading β}
    (h : Curtails s small large) (further : ∀ a, Curtails s (next a) (next' a)) :
    Curtails s (small >>= next) (large >>= next') := by
  intro c
  have first := h c
  rw [EStateM.run_bind, EStateM.run_bind]
  generalize small.run c = ends at first
  generalize large.run c = ends' at first
  cases first with
  | ok a stop => exact (further a _).of_placed
  | error failure stop => exact .error failure stop
  | exhausted stop _ inside => exact .exhausted stop _ inside

theorem atEnd (s : TokenStream) : Curtails s (Reading.atEnd s) (Reading.atEnd s) :=
  fun c => .ok _ c.position

/-- What is looked up in the tokens changes nothing. -/
theorem look (result : Reader → Except Failure α) :
    Curtails s (do ofExcept (result (← get))) (do ofExcept (result (← get))) := by
  intro c
  have run : (do ofExcept (result (← get)) : Reading α).run c =
      (ofExcept (result c) : Reading α).run c := rfl
  rw [run]
  cases result c with
  | ok a => exact .ok a c.position
  | error failure => exact .error failure c.position

theorem peek (s : TokenStream) : Curtails s (Reading.peek s) (Reading.peek s) :=
  look fun c => c.toCursor.peek s

theorem previous (s : TokenStream) : Curtails s (Reading.previous s) (Reading.previous s) :=
  look fun c => c.toCursor.previous s

theorem advance (s : TokenStream) : Curtails s (Reading.advance s) (Reading.advance s) :=
  (peek s).bind fun t => bind (fun c => .ok () (c.position + 1)) fun _ => pure t

theorem check (kind : Kind) : Curtails s (Reading.check s kind) (Reading.check s kind) := by
  refine (atEnd s).bind fun ends => ?_
  split
  · exact pure false
  · exact (peek s).bind fun t => pure _

theorem accept (kinds : List Kind) :
    Curtails s (Reading.accept s kinds) (Reading.accept s kinds) := by
  induction kinds with
  | nil => exact pure false
  | cons kind kinds ih =>
    refine (check kind).bind fun found => ?_
    split
    · exact (advance s).bind fun _ => pure true
    · exact ih

theorem close (opener : Token) :
    Curtails s (Reading.close s opener) (Reading.close s opener) := by
  refine (accept _).bind fun closes => ?_
  split
  · exact pure ()
  refine (atEnd s).bind fun ends => ?_
  split
  · exact fail_bind _ _ _
  · exact (peek s).bind fun found => fail _

/-! ### Rules -/

variable {small large : Reading Expr}

/-- Within a level the count is one higher, and behind it what it was. -/
theorem nested (h : Curtails s small large) (opener : Token) :
    Curtails s (Reading.nested opener small) (Reading.nested opener large) := by
  intro c
  have back : c.depth + 1 - 1 = c.depth := by omega
  rw [run_nested, run_nested]
  split
  · exact .error _ c.position
  have within := h { c with depth := c.depth + 1 }
  generalize small.run _ = ends at within
  generalize large.run _ = ends' at within
  cases within with
  | ok a stop =>
    simp only [Reader.placed, back]
    exact .ok a stop
  | error failure stop =>
    simp only [Reader.placed, back]
    exact .error failure stop
  | exhausted stop _ inside =>
    simp only [Reader.placed, back]
    exact .exhausted stop _ inside

theorem chain (h : Curtails s small large) (level : Level) (turns : Nat) (left : Expr) :
    Curtails s (Reading.chain s level small turns left)
      (Reading.chain s level large turns left) := by
  induction turns generalizing left with
  | zero => exact pure left
  | succ turns ih =>
    refine (accept _).bind fun found => ?_
    split
    · exact (previous s).bind fun operator => h.bind fun right => ih _
    · exact pure left

theorem operands (h : Curtails s small large) (level : Level) :
    Curtails s (Reading.operands s level small) (Reading.operands s level large) :=
  h.bind fun left => h.chain level s.count left

theorem expressionOver (h : Curtails s small large) :
    Curtails s (Reading.expressionOver s small) (Reading.expressionOver s large) :=
  (((h.operands .factor).operands .term).operands .comparison).operands .equality

theorem primaryOver (h : Curtails s small large) :
    Curtails s (Reading.primaryOver s small) (Reading.primaryOver s large) := by
  refine (atEnd s).bind fun ends => ?_
  split
  · exact fail_bind _ _ _
  refine (peek s).bind fun t => ?_
  split
  · exact (advance s).bind fun _ => pure _
  split
  · refine (advance s).bind fun _ => (h.expressionOver.nested t).bind fun inner => ?_
    exact (close t).bind fun _ => pure _
  · exact fail _

theorem unaryOver (h : Curtails s small large) :
    Curtails s (Reading.unaryOver s small) (Reading.unaryOver s large) := by
  refine (accept _).bind fun found => ?_
  split
  · exact (previous s).bind fun operator => (h.nested operator).bind fun operand => pure _
  · exact h.primaryOver

/-! ### Nonterminals -/

theorem unary {few many : Nat} (le : few ≤ many) :
    Curtails s (Reading.unary s few) (Reading.unary s many) := by
  induction few generalizing many with
  | zero =>
    intro c
    by_cases inside : c.Within s
    · rw [Reading.unary, run_exhausted_of_within inside]
      exact .exhausted c.position _ inside
    · rw [run_unary_of_outside inside, run_unary_of_outside inside]
      exact .error _ c.position
  | succ few ih =>
    cases many with
    | zero => cases le
    | succ many => exact (ih (Nat.le_of_succ_le_succ le)).unaryOver

theorem nonterminal {few many : Nat} (le : few ≤ many) (n : Nonterminal) :
    Curtails s (Reading.nonterminal s few n) (Reading.nonterminal s many n) := by
  have operand := unary (s := s) le
  have term := (operand.operands .factor).operands .term
  cases n with
  | expression => exact operand.expressionOver
  | equality => exact operand.expressionOver
  | comparison => exact term.operands .comparison
  | term => exact term
  | factor => exact operand.operands .factor
  | unary => exact operand
  | primary => exact operand.primaryOver

end Curtails

end Reading

/-! ## Parses -/

namespace Reader

/-- On any stack a parse comes to what the cursor's parse comes to, unless the stack is exhausted:
it has then room neither for a call more than the limit allows levels nor for a call more than
there are tokens. An exhausted parse fails within the tokens, as nested too deeply for the limit,
on the line of the token where it stopped; no level is left open, and nothing is warned of. -/
theorem run_parse_or_exhausted (s : TokenStream) (frames : Nat) (c : Reader) :
    (Reading.parse s frames).run c = ended (c.toCursor.parse s) ∨
      frames ≤ c.levels ∧ frames ≤ s.count ∧ ∃ stop : Int,
        let after : Cursor := { c.toCursor with position := stop }
        after.Within s ∧ (Reading.parse s frames).run c =
          .error (.grammatical (.nestedTooDeeply (after.lineAhead s) c.limit)) ⟨after, 0⟩ := by
  by_cases enough : s.count < frames ∨ c.levels < frames
  · exact .inl (run_parse_eq c enough)
  obtain ⟨tokens, levels⟩ := not_or.mp enough
  have larger : frames ≤ s.count + 1 := by omega
  have full := @run_parse_eq s (s.count + 1) c (.inl (Nat.lt_succ_self _))
  have read := Reading.Curtails.nonterminal (s := s) larger .expression ⟨c.toCursor, 0⟩
  unfold Reading.parse at full ⊢
  rw [EStateM.run_bind, EStateM.run_modify] at full ⊢
  dsimp only at full ⊢
  rw [EStateM.run_bind] at full ⊢
  generalize (Reading.nonterminal s frames .expression).run _ = ends at read
  generalize (Reading.nonterminal s (s.count + 1) .expression).run _ = ends' at read full
  cases read with
  | ok e stop => exact .inl full
  | error failure stop => exact .inl full
  | exhausted stop _ inside =>
    exact .inr ⟨Nat.not_lt.mp levels, Nat.not_lt.mp tokens, stop, inside, rfl⟩

-- the line is that of the operand ahead, where the limit would name that of the parenthesis
example :
    let opener : Token := ⟨.leftParen, "(", .absent, 1⟩
    let operand : Token := ⟨.keyword .nilWord, "nil", .absent, 2⟩
    (Reading.parse ⟨[], 0, 2, #[opener, operand], none⟩ 1).run {} =
      .error (.grammatical (.nestedTooDeeply 2 100)) ⟨⟨1, #[], 100⟩, 0⟩ := by
  rfl

end Reader

end LoxSyntax
