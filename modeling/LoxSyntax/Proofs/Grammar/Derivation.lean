import LoxSyntax.Proofs.Grammar.Shape

/-!
# The grammar and its sentences

`Derives n ts` says that the grammar derives the row of tokens `ts` from the nonterminal
`n`; a chain of operands is built up from the left, one operator and operand at a time.
`derives_iff_phrase` ties derivations to trees: the rows that a nonterminal derives are
those that its shaped trees spell.

A row of tokens is viable when some continuation makes it a sentence, and an operand is
expected behind it when a literal keeps it viable.
-/

namespace LoxSyntax

namespace Level

/-- The nonterminal of a level of operators. -/
def nonterminal : Level → Nonterminal
  | equality => .equality
  | comparison => .comparison
  | term => .term
  | factor => .factor

/-- The nonterminal of the operands that the operators of a level join. -/
def operand : Level → Nonterminal
  | equality => .comparison
  | comparison => .term
  | term => .factor
  | factor => .unary

theorem tightness_nonterminal (level : Level) : level.nonterminal.tightness = level.tightness := by
  cases level <;> rfl

theorem tightness_operand (level : Level) : level.operand.tightness = level.tightness + 1 := by
  cases level <;> rfl

end Level

/-- The grammar: what can be derived from each of its nonterminals. -/
inductive Derives : Nonterminal → List Token → Prop
  | expression {ts : List Token} : Derives .equality ts → Derives .expression ts
  | single (level : Level) {ts : List Token} :
    Derives level.operand ts → Derives level.nonterminal ts
  | chain (level : Level) {us vs : List Token} (operator : Token) :
    Derives level.nonterminal us → level.has operator.kind = true → Derives level.operand vs →
    Derives level.nonterminal (us ++ operator :: vs)
  | unary {ts : List Token} (operator : Token) :
    operator.kind.isUnaryOperator = true → Derives .unary ts → Derives .unary (operator :: ts)
  | primary {ts : List Token} : Derives .primary ts → Derives .unary ts
  | literal (token : Token) : token.isLiteral = true → Derives .primary [token]
  | group {ts : List Token} (opener closer : Token) :
    opener.kind = .leftParen → Derives .expression ts → closer.kind = .rightParen →
    Derives .primary (opener :: (ts ++ [closer]))

/-! ## Derivations and trees -/

/-- What a nonterminal derives is spelled by one of its trees. -/
theorem Derives.exists_phrase {n : Nonterminal} {ts : List Token} (h : Derives n ts) :
    ∃ levels e, Phrase n.tightness levels e ts := by
  induction h with
  | expression _ ih => exact ih
  | single level _ ih =>
    obtain ⟨levels, e, phrase⟩ := ih
    rw [level.tightness_operand] at phrase
    rw [level.tightness_nonterminal]
    exact ⟨levels, e, phrase.mono (Nat.le_succ _)⟩
  | chain level operator _ has _ ihLeft ihRight =>
    obtain ⟨levels, left, leftPhrase⟩ := ihLeft
    obtain ⟨levels', right, rightPhrase⟩ := ihRight
    rw [level.tightness_nonterminal] at leftPhrase ⊢
    rw [level.tightness_operand] at rightPhrase
    exact ⟨max levels levels', _, .binary has (leftPhrase.widen (Nat.le_max_left _ _))
      (rightPhrase.widen (Nat.le_max_right _ _))⟩
  | unary operator has _ ih =>
    obtain ⟨levels, e, phrase⟩ := ih
    exact ⟨levels + 1, _, phrase.unary has⟩
  | primary _ ih =>
    obtain ⟨levels, e, phrase⟩ := ih
    exact ⟨levels, e, phrase.mono (by decide)⟩
  | literal token kind => exact ⟨0, _, .literal kind⟩
  | group opener closer opens _ closes ih =>
    obtain ⟨levels, e, phrase⟩ := ih
    exact ⟨levels + 1, _, phrase.grouping opens closes⟩

theorem Level.nonterminal_of_tightness {level : Level} {n : Nonterminal}
    (proper : n ≠ .expression) (h : n.tightness = level.tightness) : n = level.nonterminal := by
  cases level <;> cases n <;> first | rfl | exact absurd rfl proper | cases h

/-- What is derived from a nonterminal is derived from every looser one. -/
theorem Derives.loosen {m n : Nonterminal} {ts : List Token} (h : Derives m ts)
    (proper : m ≠ .expression) (le : n.tightness ≤ m.tightness) : Derives n ts := by
  have level (l : Level) (tighter : l.tightness + 1 ≤ m.tightness → Derives l.operand ts)
      (le : l.tightness ≤ m.tightness) : Derives l.nonterminal ts := by
    rcases Nat.eq_or_lt_of_le le with same | lt
    · exact Level.nonterminal_of_tightness proper same.symm ▸ h
    · exact .single l (tighter lt)
  have unary (le : 4 ≤ m.tightness) : Derives .unary ts := by
    cases m with
    | primary => exact .primary h
    | unary => exact h
    | _ => exact absurd le (by decide)
  have factor := level .factor unary
  have term := level .term factor
  have comparison := level .comparison term
  have equality := level .equality comparison
  cases n with
  | expression => exact .expression (equality le)
  | equality => exact equality le
  | comparison => exact comparison le
  | term => exact term le
  | factor => exact factor le
  | unary => exact unary le
  | primary =>
    cases m with
    | primary => exact h
    | _ => exact absurd le (by decide)

/-- What a tree spells is derived from every nonterminal that the tree is tight enough
for. -/
theorem Phrase.derives {n : Nonterminal} {levels : Nat} {e : Expr} {ts : List Token}
    (phrase : Phrase n.tightness levels e ts) : Derives n ts := by
  have tight := phrase.tight
  induction e generalizing n levels ts with
  | literal token =>
    obtain ⟨kind, rfl⟩ := phrase.of_literal
    exact (Derives.literal token kind).loosen (by decide) tight
  | grouping inner paren ih =>
    obtain ⟨fewer, opener, closer, us, rfl, rfl, opens, closes, rfl, innerPhrase⟩ :=
      phrase.of_grouping
    have derived : Derives .expression us := ih innerPhrase innerPhrase.tight
    exact (Derives.group opener closer opens derived closes).loosen (by decide) tight
  | unary operator operand ih =>
    obtain ⟨fewer, us, rfl, has, rfl, operandPhrase⟩ := phrase.of_unary
    have derived : Derives .unary us := ih operandPhrase operandPhrase.tight
    exact (Derives.unary operator has derived).loosen (by decide) tight
  | binary left operator right ihLeft ihRight =>
    obtain ⟨level, us, vs, has, loose, rfl, leftPhrase, rightPhrase⟩ := phrase.of_binary
    rw [← level.tightness_nonterminal] at leftPhrase loose
    rw [← level.tightness_operand] at rightPhrase
    have derived := Derives.chain level operator (ihLeft leftPhrase leftPhrase.tight) has
      (ihRight rightPhrase rightPhrase.tight)
    exact derived.loosen (by cases level <;> decide) loose

/-- A nonterminal derives the rows of tokens that its trees spell, and no others. -/
theorem derives_iff_phrase {n : Nonterminal} {ts : List Token} :
    Derives n ts ↔ ∃ levels e, Phrase n.tightness levels e ts :=
  ⟨Derives.exists_phrase, fun ⟨_, _, phrase⟩ => phrase.derives⟩

/-! ## Sentences and their beginnings -/

/-- A sentence is what the grammar derives from an expression. -/
def Sentence (ts : List Token) : Prop :=
  Derives .expression ts

/-- A row of tokens is viable when some continuation of it is a sentence. -/
def Viable (ts : List Token) : Prop :=
  ∃ more, Sentence (ts ++ more)

/-- An operand is expected behind a row of tokens when a literal keeps it viable. -/
def ExpectsOperand (ts : List Token) : Prop :=
  ∃ t : Token, t.isLiteral = true ∧ Viable (ts ++ [t])

/-- The longest of the viable rows that a row of tokens starts with. -/
structure LongestViable (ts tokens : List Token) : Prop where
  starts : ts <+: tokens
  viable : Viable ts
  longest : ∀ us, us <+: tokens → Viable us → us.length ≤ ts.length

/-- What a viable row starts with is viable. -/
theorem Viable.of_prefix {us ts : List Token} (h : Viable ts) (starts : us <+: ts) :
    Viable us := by
  obtain ⟨more, sentence⟩ := h
  obtain ⟨between, rfl⟩ := starts
  exact ⟨between ++ more, by rw [← List.append_assoc]; exact sentence⟩

/-- A viable row is the longest where the next token, if there is one, ends viability. -/
theorem LongestViable.of_next {ts rest : List Token} (viable : Viable ts)
    (next : ∀ t ∈ rest.head?, ¬ Viable (ts ++ [t])) : LongestViable ts (ts ++ rest) := by
  refine ⟨List.prefix_append ts rest, viable, fun us starts usViable => ?_⟩
  apply Nat.le_of_not_lt
  intro longer
  cases rest with
  | nil =>
    have := starts.length_le
    simp at this
    omega
  | cons t rest =>
    -- a longer row would start with the next token
    have whole : ts ++ [t] <+: ts ++ t :: rest := ⟨rest, by simp⟩
    have inside : ts ++ [t] <+: us :=
      List.prefix_of_prefix_length_le whole starts (by simp; omega)
    exact next t rfl (usViable.of_prefix inside)

end LoxSyntax
