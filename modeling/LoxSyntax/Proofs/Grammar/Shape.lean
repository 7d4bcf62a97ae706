import LoxSyntax.Grammar.Rule

/-!
# What a tree spells and how it is shaped

The grammar seen from its trees. `Expr.Spells e ts` says that the row of tokens `ts`
is the tree `e` written in order; a grouping does not store its closing parenthesis,
so any token of that kind may stand there. `Expr.Shaped e` says that the operators of
`e` are nested by precedence and grouped to the left. Neither mentions the rules.

Both are measured by tightness: the levels of binary operators have tightness 0 to 3,
unary trees 4, literals and groupings 5. A nonterminal stands for the trees that are
at least as tight as itself.

* `Phrase` collects what makes a tree and the tokens it spells fit for being read with
  room for a number of levels of nesting.
* `NoOperatorAhead` is what must hold of the tokens behind a phrase for the phrase to
  end there.
-/

namespace LoxSyntax

/-! ## Levels by their tightness -/

namespace Level

/-- A kind of token is an operator of one level at most. -/
theorem eq_of_has {level other : Level} {kind : Kind} (h : level.has kind = true)
    (h' : other.has kind = true) : level = other :=
  Option.some.inj ((of?_of_has h).symm.trans (of?_of_has h'))

theorem tightness_injective {level other : Level} (h : level.tightness = other.tightness) :
    level = other := by
  cases level <;> cases other <;> first | rfl | cases h

theorem tightness_lt_four (level : Level) : level.tightness < 4 := by
  cases level <;> decide

end Level

namespace Kind

theorem isUnaryOperator_of_isLiteral {kind : Kind} (h : kind.isLiteral = true) :
    kind.isUnaryOperator = false := by
  simp only [isLiteral, literals, List.contains_iff_mem, List.mem_cons, List.not_mem_nil,
    or_false] at h
  rcases h with rfl | rfl | rfl | rfl | rfl <;> rfl

theorem not_has_of_isLiteral {kind : Kind} (h : kind.isLiteral = true) (level : Level) :
    level.has kind = false := by
  simp only [isLiteral, literals, List.contains_iff_mem, List.mem_cons, List.not_mem_nil,
    or_false] at h
  rcases h with rfl | rfl | rfl | rfl | rfl <;> cases level <;> rfl

theorem not_has_rightParen (level : Level) : level.has rightParen = false := by
  cases level <;> rfl

/-! Literals and operators are no parentheses. -/

theorem not_paren_of_isLiteral {kind : Kind} (h : kind.isLiteral = true) :
    kind ≠ .leftParen ∧ kind ≠ .rightParen := by
  constructor <;> intro paren <;> subst paren <;> cases h

theorem not_paren_of_isUnaryOperator {kind : Kind} (h : kind.isUnaryOperator = true) :
    kind ≠ .leftParen ∧ kind ≠ .rightParen := by
  constructor <;> intro paren <;> subst paren <;> cases h

theorem not_paren_of_has {kind : Kind} {level : Level} (h : level.has kind = true) :
    kind ≠ .leftParen ∧ kind ≠ .rightParen := by
  constructor <;> intro paren <;> subst paren <;> cases level <;> cases h

end Kind

/-! ## Trees -/

namespace Expr

/-- How tightly the root of a tree holds its parts together: the tightness of its
operator's level for a binary tree, more than any level for a unary tree, and most of
all for a literal or a grouping. A binary tree without a binary operator is loosest. -/
def tightness : Expr → Nat
  | literal _ => 5
  | grouping _ _ => 5
  | unary _ _ => 4
  | binary _ operator _ => ((Level.of? operator.kind).map Level.tightness).getD 0

/-- The greatest number of groupings and unary operators on a path from the root of a
tree to a leaf. -/
def nesting : Expr → Nat
  | literal _ => 0
  | grouping inner _ => inner.nesting + 1
  | unary _ operand => operand.nesting + 1
  | binary left _ right => max left.nesting right.nesting

/-- `Spells e ts`: written in order, the tree `e` is the row of tokens `ts`. -/
inductive Spells : Expr → List Token → Prop
  | literal (token : Token) : Spells (.literal token) [token]
  | grouping {inner : Expr} {ts : List Token} (opener closer : Token) :
    Spells inner ts → closer.kind = .rightParen →
    Spells (.grouping inner (some opener)) (opener :: (ts ++ [closer]))
  | unary {operand : Expr} {ts : List Token} (operator : Token) :
    Spells operand ts → Spells (.unary operator operand) (operator :: ts)
  | binary {left right : Expr} {us vs : List Token} (operator : Token) :
    Spells left us → Spells right vs →
    Spells (.binary left operator right) (us ++ operator :: vs)

/-- `Shaped e`: the tokens of `e` are of the right kinds, no left operand is looser
than its operator, every right operand is tighter than its operator, and no operand of
a unary operator is a binary tree. -/
inductive Shaped : Expr → Prop
  | literal {token : Token} : token.isLiteral = true → Shaped (.literal token)
  | grouping {inner : Expr} {opener : Token} :
    opener.kind = .leftParen → Shaped inner → Shaped (.grouping inner (some opener))
  | unary {operator : Token} {operand : Expr} :
    operator.kind.isUnaryOperator = true → 4 ≤ operand.tightness → Shaped operand →
    Shaped (.unary operator operand)
  | binary {left right : Expr} {operator : Token} (level : Level) :
    level.has operator.kind = true →
    level.tightness ≤ left.tightness → level.tightness < right.tightness →
    Shaped left → Shaped right → Shaped (.binary left operator right)

/-- A binary tree is as tight as the level of its operator. -/
theorem tightness_binary {level : Level} {operator : Token}
    (h : level.has operator.kind = true) (left right : Expr) :
    (binary left operator right).tightness = level.tightness := by
  simp [tightness, Level.of?_of_has h]

/-- A tree spells one token at least. -/
theorem Spells.ne_nil {e : Expr} {ts : List Token} (h : e.Spells ts) : ts ≠ [] := by
  cases h <;> simp

end Expr

/-- The tightness of the trees that a nonterminal stands for. -/
def Nonterminal.tightness : Nonterminal → Nat
  | expression => 0
  | equality => 0
  | comparison => 1
  | term => 2
  | factor => 3
  | unary => 4
  | primary => 5

/-! ## The tokens behind a phrase -/

/-- No binary operator of this tightness or more stands at the head of a row of
tokens. -/
def NoOperatorAhead (tightness : Nat) (rest : List Token) : Prop :=
  ∀ t ∈ rest.head?, ∀ level : Level, tightness ≤ level.tightness → level.has t.kind = false

namespace NoOperatorAhead

theorem nil (tightness : Nat) : NoOperatorAhead tightness [] := by
  intro t member
  cases member

theorem mono {tightness tighter : Nat} {rest : List Token} (h : NoOperatorAhead tightness rest)
    (le : tightness ≤ tighter) : NoOperatorAhead tighter rest :=
  fun t member level tight => h t member level (Nat.le_trans le tight)

/-- Where no tighter operator stands ahead and none of the level itself, none as tight
as the level does. -/
theorem of_level {level : Level} {rest : List Token}
    (h : NoOperatorAhead (level.tightness + 1) rest)
    (own : ∀ t ∈ rest.head?, level.has t.kind = false) :
    NoOperatorAhead level.tightness rest := by
  intro t member other tight
  rcases Nat.eq_or_lt_of_le tight with same | tighter
  · rw [← Level.tightness_injective same]
    exact own t member
  · exact h t member other tighter

/-- An operator of a level is no operator of a tighter one. -/
theorem of_has {level : Level} {operator : Token} (h : level.has operator.kind = true)
    (rest : List Token) : NoOperatorAhead (level.tightness + 1) (operator :: rest) := by
  intro t member other tight
  obtain rfl : operator = t := by simpa using member
  cases found : other.has operator.kind with
  | false => rfl
  | true =>
    have same := Level.eq_of_has h found
    subst same
    omega

/-- Past the levels of binary operators nothing is asked of the tokens ahead. -/
theorem of_four_le {tightness : Nat} (le : 4 ≤ tightness) (rest : List Token) :
    NoOperatorAhead tightness rest := by
  intro t _ level tight
  have := level.tightness_lt_four
  omega

/-- A token that is no binary operator at all ends every chain. -/
theorem of_not_has {t : Token} (h : ∀ level : Level, level.has t.kind = false)
    (tightness : Nat) (rest : List Token) : NoOperatorAhead tightness (t :: rest) := by
  intro u member level _
  obtain rfl : t = u := by simpa using member
  exact h level

end NoOperatorAhead

/-! ## Phrases -/

/-- `Phrase tightness levels e ts`: the tokens `ts` spell the well-shaped tree `e`, which
is at least of the given tightness and has at most `levels` levels of nesting. -/
structure Phrase (tightness levels : Nat) (e : Expr) (ts : List Token) : Prop where
  spells : e.Spells ts
  shaped : e.Shaped
  tight : tightness ≤ e.tightness
  room : e.nesting ≤ levels

namespace Phrase

variable {tightness levels : Nat} {e : Expr} {ts : List Token}

theorem mono {looser : Nat} (h : Phrase tightness levels e ts) (le : looser ≤ tightness) :
    Phrase looser levels e ts :=
  ⟨h.spells, h.shaped, Nat.le_trans le h.tight, h.room⟩

theorem widen {more : Nat} (h : Phrase tightness levels e ts) (le : levels ≤ more) :
    Phrase tightness more e ts :=
  ⟨h.spells, h.shaped, h.tight, Nat.le_trans h.room le⟩

/-- A phrase is one of any tightness that its tree has. -/
theorem tighten {tighter : Nat} (h : Phrase tightness levels e ts) (le : tighter ≤ e.tightness) :
    Phrase tighter levels e ts :=
  ⟨h.spells, h.shaped, le, h.room⟩

theorem literal {token : Token} (h : token.isLiteral = true) :
    Phrase 5 levels (.literal token) [token] :=
  ⟨.literal token, .literal h, Nat.le_refl 5, Nat.zero_le _⟩

theorem grouping {opener closer : Token} (opens : opener.kind = .leftParen)
    (closes : closer.kind = .rightParen) (h : Phrase 0 levels e ts) :
    Phrase 5 (levels + 1) (.grouping e (some opener)) (opener :: (ts ++ [closer])) :=
  ⟨.grouping opener closer h.spells closes, .grouping opens h.shaped, Nat.le_refl 5,
    Nat.succ_le_succ h.room⟩

theorem unary {operator : Token} (has : operator.kind.isUnaryOperator = true)
    (h : Phrase 4 levels e ts) :
    Phrase 4 (levels + 1) (.unary operator e) (operator :: ts) :=
  ⟨.unary operator h.spells, .unary has h.tight h.shaped, Nat.le_refl 4,
    Nat.succ_le_succ h.room⟩

/-- A phrase of a level, an operator of that level and a tighter phrase are a phrase of
the level. -/
theorem binary {level : Level} {operator : Token} {left right : Expr} {us vs : List Token}
    (has : level.has operator.kind = true) (hLeft : Phrase level.tightness levels left us)
    (hRight : Phrase (level.tightness + 1) levels right vs) :
    Phrase level.tightness levels (.binary left operator right) (us ++ operator :: vs) where
  spells := .binary operator hLeft.spells hRight.spells
  shaped := .binary level has hLeft.tight hRight.tight hLeft.shaped hRight.shaped
  tight := Nat.le_of_eq (Expr.tightness_binary has left right).symm
  room := Nat.max_le.mpr ⟨hLeft.room, hRight.room⟩

/-! ### Phrases by the form of their tree -/

theorem of_binary {operator : Token} {left right : Expr}
    (h : Phrase tightness levels (.binary left operator right) ts) :
    ∃ (level : Level) (us vs : List Token), level.has operator.kind = true ∧
      tightness ≤ level.tightness ∧ ts = us ++ operator :: vs ∧
      Phrase level.tightness levels left us ∧ Phrase (level.tightness + 1) levels right vs := by
  obtain ⟨spells, shaped, tight, room⟩ := h
  have rooms := Nat.max_le.mp room
  cases shaped with
  | binary level has tightLeft tightRight shapedLeft shapedRight =>
    rw [Expr.tightness_binary has] at tight
    cases spells with
    | binary operator spellsLeft spellsRight =>
      exact ⟨level, _, _, has, tight, rfl, ⟨spellsLeft, shapedLeft, tightLeft, rooms.1⟩,
        ⟨spellsRight, shapedRight, tightRight, rooms.2⟩⟩

/-- No binary tree is as tight as an operand. -/
theorem lt_four_of_binary {operator : Token} {left right : Expr}
    (h : Phrase tightness levels (.binary left operator right) ts) : tightness < 4 := by
  obtain ⟨level, us, vs, has, loose, _⟩ := h.of_binary
  exact Nat.lt_of_le_of_lt loose level.tightness_lt_four

theorem of_unary {operator : Token} {operand : Expr}
    (h : Phrase tightness levels (.unary operator operand) ts) :
    ∃ (fewer : Nat) (us : List Token), levels = fewer + 1 ∧
      operator.kind.isUnaryOperator = true ∧ ts = operator :: us ∧ Phrase 4 fewer operand us := by
  obtain ⟨spells, shaped, -, room⟩ := h
  cases levels with
  | zero => cases room
  | succ fewer =>
    have roomInner := Nat.le_of_succ_le_succ room
    cases shaped with
    | unary has tight shapedInner =>
      cases spells with
      | unary operator spellsInner =>
        exact ⟨fewer, _, rfl, has, rfl, spellsInner, shapedInner, tight, roomInner⟩

theorem of_grouping {inner : Expr} {paren : Option Token}
    (h : Phrase tightness levels (.grouping inner paren) ts) :
    ∃ (fewer : Nat) (opener closer : Token) (us : List Token), levels = fewer + 1 ∧
      paren = some opener ∧ opener.kind = .leftParen ∧ closer.kind = .rightParen ∧
      ts = opener :: (us ++ [closer]) ∧ Phrase 0 fewer inner us := by
  obtain ⟨spells, shaped, -, room⟩ := h
  cases levels with
  | zero => cases room
  | succ fewer =>
    have roomInner := Nat.le_of_succ_le_succ room
    cases shaped with
    | grouping opens shapedInner =>
      cases spells with
      | grouping opener closer spellsInner closes =>
        exact ⟨fewer, _, closer, _, rfl, rfl, opens, closes, rfl, spellsInner, shapedInner,
          Nat.zero_le _, roomInner⟩

theorem of_literal {token : Token} (h : Phrase tightness levels (.literal token) ts) :
    token.isLiteral = true ∧ ts = [token] := by
  obtain ⟨spells, shaped, -, -⟩ := h
  cases shaped with
  | literal kind =>
    cases spells with
    | literal token => exact ⟨kind, rfl⟩

end Phrase

end LoxSyntax
