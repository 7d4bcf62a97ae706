import LoxSyntax.Expr.Printed
import LoxSyntax.Proofs.Grammar.Completeness

/-!
# The height of a tree

Whoever visits a tree goes as deep as the tree is high, and `Expr.printedWithin` is the
printer with a limit on how deep it may go. The nesting limit alone says nothing about the
height, since it does not count binary operators: a chain of operators of one level is as
high as it is long.

The height is bounded by the limit and the length of the chains together. From the root of a
shaped tree down to the first grouping or unary operator a path runs through one chain of a
level at most, and the levels get tighter on the way (`Expr.Shaped.height_le`). So there are
no more than four chains for every level of nesting, and trees that have them all are as high
as the bound allows (`Phrase.exists_tallest`).
-/

namespace LoxSyntax

namespace Expr

/-! ## Height and chains -/

/-- The number of nodes on a longest path from the root of a tree to a leaf. -/
def height : Expr → Nat
  | literal _ => 1
  | grouping inner _ => inner.height + 1
  | unary _ operand => operand.height + 1
  | binary left _ right => max left.height right.height + 1

/-- The number of operators in the chain at the root of a tree: its own operator, if it is a
binary tree, and those of the same level that stand in a row on its left edge. -/
def chain : Expr → Nat
  | literal _ => 0
  | grouping _ _ => 0
  | unary _ _ => 0
  | binary left operator right =>
    if left.tightness = (binary left operator right).tightness then left.chain + 1 else 1

/-- The number of operators in the longest chain anywhere in a tree. -/
def longestChain : Expr → Nat
  | literal _ => 0
  | grouping inner _ => inner.longestChain
  | unary _ operand => operand.longestChain
  | binary left operator right =>
    max (binary left operator right).chain (max left.longestChain right.longestChain)

/-- The nodes of a chain of `most` operators for each of the four levels and of the operand that
they start from, on the outside and once more for every level of nesting. -/
def heightBound (most levels : Nat) : Nat :=
  (4 * most + 1) * (levels + 1)

theorem height_pos (e : Expr) : 0 < e.height := by
  cases e <;> exact Nat.succ_pos _

theorem chain_le_longestChain (e : Expr) : e.chain ≤ e.longestChain := by
  cases e with
  | literal token => exact Nat.le_refl 0
  | grouping inner paren => exact Nat.zero_le _
  | unary operator operand => exact Nat.zero_le _
  | binary left operator right => exact Nat.le_max_left _ _

theorem tightness_binary_lt_four (left : Expr) (operator : Token) (right : Expr) :
    (binary left operator right).tightness < 4 := by
  simp only [tightness]
  cases Level.of? operator.kind with
  | none => exact Nat.zero_lt_succ 3
  | some level => exact level.tightness_lt_four

/-- Only binary trees have a chain at the root. -/
theorem chain_eq_zero_of_four_le {e : Expr} (tight : 4 ≤ e.tightness) : e.chain = 0 := by
  cases e with
  | literal token => rfl
  | grouping inner paren => rfl
  | unary operator operand => rfl
  | binary left operator right =>
    exact absurd tight (Nat.not_le_of_lt (tightness_binary_lt_four left operator right))

/-! ## Printing with a limit -/

/-- The prefix form of a tree, written by a printer that visits a node from within the visit
of the node above it, but may have no more than a number of visits under way at once. -/
def printedWithin : Expr → Nat → Option String
  | _, 0 => none
  | literal token, _ + 1 => some token.text
  | grouping inner _, visits + 1 => do
    let text ← inner.printedWithin visits
    return "(group " ++ text ++ ")"
  | unary operator operand, visits + 1 => do
    let text ← operand.printedWithin visits
    return "(" ++ operator.text ++ " " ++ text ++ ")"
  | binary left operator right, visits + 1 => do
    let first ← left.printedWithin visits
    let second ← right.printedWithin visits
    return "(" ++ operator.text ++ " " ++ first ++ " " ++ second ++ ")"

/-- The printer needs as many visits at once as the tree is high. -/
theorem printedWithin_eq (e : Expr) (visits : Nat) :
    e.printedWithin visits = if e.height ≤ visits then some e.printed else none := by
  induction e generalizing visits with
  | literal token => cases visits <;> simp [printedWithin, height, printed]
  | grouping inner paren ih =>
    cases visits with
    | zero => simp [printedWithin, height]
    | succ visits =>
      simp only [printedWithin, height, printed, ih, Nat.add_le_add_iff_right]
      split <;> rfl
  | unary operator operand ih =>
    cases visits with
    | zero => simp [printedWithin, height]
    | succ visits =>
      simp only [printedWithin, height, printed, ih, Nat.add_le_add_iff_right]
      split <;> rfl
  | binary left operator right ihLeft ihRight =>
    cases visits with
    | zero => simp [printedWithin, height]
    | succ visits =>
      simp only [printedWithin, height, printed, ihLeft, ihRight, Nat.add_le_add_iff_right,
        Nat.max_le]
      by_cases lowLeft : left.height ≤ visits <;> by_cases lowRight : right.height ≤ visits <;>
        simp [lowLeft, lowRight]

/-! ## The height of shaped trees -/

variable {e : Expr} {most : Nat}

/-- The chain at the root of a tree and a full chain for every tighter level have room in full
chains for all levels that are tighter than a looser one. -/
theorem chain_add_le {tightness : Nat} (tight : tightness < e.tightness)
    (short : e.longestChain ≤ most) :
    e.chain + (3 - e.tightness) * most ≤ (3 - tightness) * most := by
  by_cases operand : 4 ≤ e.tightness
  · have none := chain_eq_zero_of_four_le operand
    have past : 3 - e.tightness = 0 := by omega
    simp [none, past]
  · have own := Nat.le_trans e.chain_le_longestChain short
    calc e.chain + (3 - e.tightness) * most
        ≤ (3 - e.tightness + 1) * most := by
          rw [Nat.succ_mul]
          omega
      _ ≤ (3 - tightness) * most := Nat.mul_le_mul_right most (by omega)

theorem chain_add_le_four (e : Expr) (short : e.longestChain ≤ most) :
    e.chain + (3 - e.tightness) * most ≤ 4 * most := by
  have own := Nat.le_trans e.chain_le_longestChain short
  have tighter : (3 - e.tightness) * most ≤ 3 * most := Nat.mul_le_mul_right most (Nat.sub_le _ _)
  omega

/-- A path down a shaped tree passes the chain at the root, a full chain of every tighter level,
and behind every grouping or unary operator four full chains at most. -/
theorem Shaped.height_le (h : e.Shaped) (short : e.longestChain ≤ most) :
    e.height ≤ e.chain + (3 - e.tightness) * most + (4 * most + 1) * e.nesting + 1 := by
  induction h with
  | literal kind => simp [height]
  | @grouping inner opener opens shaped ih =>
    have below := ih short
    have room := inner.chain_add_le_four short
    simp only [height, nesting, Nat.mul_succ]
    omega
  | @unary operator operand has tight shaped ih =>
    have below := ih short
    have room := operand.chain_add_le_four short
    simp only [height, nesting, Nat.mul_succ]
    omega
  | @binary left right operator level has tightLeft tightRight shapedLeft shapedRight ihLeft
      ihRight =>
    have shortBoth : left.longestChain ≤ most ∧ right.longestChain ≤ most := by
      simp only [longestChain, Nat.max_le] at short
      exact short.2
    have belowLeft := ihLeft shortBoth.1
    have belowRight := ihRight shortBoth.2
    have roomRight := chain_add_le tightRight shortBoth.2
    have deepLeft := Nat.mul_le_mul_left (4 * most + 1) (Nat.le_max_left left.nesting right.nesting)
    have deepRight :=
      Nat.mul_le_mul_left (4 * most + 1) (Nat.le_max_right left.nesting right.nesting)
    simp only [height, nesting, chain, tightness_binary has]
    -- the left operand carries on the chain, or it is tighter like the right one
    rcases Nat.eq_or_lt_of_le tightLeft with same | tighter
    · rw [if_pos same.symm]
      rw [← same] at belowLeft
      omega
    · have roomLeft := chain_add_le tighter shortBoth.1
      rw [if_neg (Nat.ne_of_gt tighter)]
      omega

/-- The nesting of a shaped tree and the length of its chains bound its height. -/
theorem Shaped.height_le_nesting (h : e.Shaped) (short : e.longestChain ≤ most) :
    e.height ≤ heightBound most e.nesting := by
  have bound := h.height_le short
  have room := e.chain_add_le_four short
  rw [heightBound, Nat.mul_succ]
  omega

end Expr

/-! ## The highest trees -/

/-- Every level has an operator. -/
theorem Level.exists_has (level : Level) : ∃ operator : Token, level.has operator.kind = true := by
  cases level with
  | equality => exact ⟨⟨.equalEqual, "==", .absent, 1⟩, rfl⟩
  | comparison => exact ⟨⟨.less, "<", .absent, 1⟩, rfl⟩
  | term => exact ⟨⟨.plus, "+", .absent, 1⟩, rfl⟩
  | factor => exact ⟨⟨.star, "*", .absent, 1⟩, rfl⟩

namespace Phrase

variable {levels most : Nat} {e : Expr} {ts : List Token}

theorem exists_literal (levels : Nat) :
    ∃ token : Token, Phrase 5 levels (.literal token) [token] :=
  ⟨⟨.keyword .nilWord, "nil", .absent, 1⟩, .literal rfl⟩

/-- A tighter phrase is the first operand of chains of any length, which make its tree higher
by their length. -/
theorem exists_chain (level : Level) (h : Phrase (level.tightness + 1) levels e ts) (n : Nat) :
    ∃ (e' : Expr) (us : List Token), Phrase level.tightness levels e' us ∧
      e'.height = e.height + n ∧ e'.longestChain ≤ max e.longestChain n ∧
      (e'.tightness = level.tightness → e'.chain ≤ n) := by
  obtain ⟨operator, has⟩ := level.exists_has
  obtain ⟨token, literal⟩ := exists_literal levels
  have loose := level.tightness_lt_four
  induction n with
  | zero =>
    have tight := h.tight
    exact ⟨e, ts, h.mono (Nat.le_succ _), rfl, Nat.le_max_left _ _, by omega⟩
  | succ n ih =>
    obtain ⟨e', us, phrase, height, longest, chain⟩ := ih
    have longer : (Expr.binary e' operator (.literal token)).chain ≤ n + 1 := by
      simp only [Expr.chain, Expr.tightness_binary has]
      split
      · next same => exact Nat.succ_le_succ (chain same)
      · exact Nat.succ_le_succ (Nat.zero_le n)
    refine ⟨_, _, phrase.binary has (literal.mono (by omega)), ?_, ?_, fun _ => longer⟩
    · have positive := e.height_pos
      simp only [Expr.height]
      omega
    · simp only [Expr.longestChain]
      omega

/-- An operand is the first one of four chains, one inside the other, of every length. -/
theorem exists_chains (h : Phrase 4 levels e ts) (short : e.longestChain ≤ most) :
    ∃ (e' : Expr) (us : List Token), Phrase 0 levels e' us ∧
      e'.height = e.height + 4 * most ∧ e'.longestChain ≤ most := by
  obtain ⟨factor, _, factorPhrase, factorHeight, factorShort, -⟩ := exists_chain .factor h most
  obtain ⟨term, _, termPhrase, termHeight, termShort, -⟩ := exists_chain .term factorPhrase most
  obtain ⟨comparison, _, comparisonPhrase, comparisonHeight, comparisonShort, -⟩ :=
    exists_chain .comparison termPhrase most
  obtain ⟨equality, us, equalityPhrase, equalityHeight, equalityShort, -⟩ :=
    exists_chain .equality comparisonPhrase most
  exact ⟨equality, us, equalityPhrase, by omega, by omega⟩

/-- Groups inside groups, each in front of four full chains, are as high as shaped trees get. -/
theorem exists_tallest (most levels : Nat) :
    ∃ (e : Expr) (ts : List Token), Phrase 0 levels e ts ∧
      e.height = Expr.heightBound most levels ∧ e.longestChain ≤ most := by
  induction levels with
  | zero =>
    obtain ⟨token, literal⟩ := exists_literal 0
    obtain ⟨e, ts, phrase, height, short⟩ :=
      (literal.mono (Nat.le_succ 4)).exists_chains (Nat.zero_le most)
    refine ⟨e, ts, phrase, ?_, short⟩
    rw [height, Expr.height, Expr.heightBound]
    omega
  | succ levels ih =>
    obtain ⟨inner, us, innerPhrase, innerHeight, innerShort⟩ := ih
    let opener : Token := ⟨.leftParen, "(", .absent, 1⟩
    let closer : Token := ⟨.rightParen, ")", .absent, 1⟩
    have group : Phrase 5 (levels + 1) (.grouping inner (some opener))
        (opener :: (us ++ [closer])) := innerPhrase.grouping rfl rfl
    have groupShort : (Expr.grouping inner (some opener)).longestChain ≤ most := innerShort
    obtain ⟨e, ts, phrase, height, short⟩ := (group.mono (Nat.le_succ 4)).exists_chains groupShort
    refine ⟨e, ts, phrase, ?_, short⟩
    rw [height, Expr.height, innerHeight, Expr.heightBound, Expr.heightBound,
      Nat.mul_succ _ (levels + 1)]
    omega

end Phrase

/-! ## Parsed trees -/

namespace Cursor

/-- The tokens of a phrase, on their own, are parsed to its tree under a limit that leaves room
for it. -/
theorem exists_parse {limit : Int} {e : Expr} {ts : List Token} (h : Phrase 0 limit.toNat e ts) :
    ∃ (s : TokenStream) (c after : Cursor), c.limit = limit ∧ c.parse s = (after, .ok e) := by
  let s : TokenStream := ⟨[], 0, 1, ts.toArray, none⟩
  let c : Cursor := ⟨0, #[], limit⟩
  have inside : 0 ≤ c.position ∧ c.position ≤ s.count := ⟨Int.le_refl 0, Int.natCast_nonneg _⟩
  have read := Nonterminal.expression.complete (c.surroundings s) c.levels e ts [] h (.nil 0)
  rw [List.append_nil] at read
  exact ⟨s, c, _, rfl, parse_of_parsed inside read⟩

/-- The nesting limit and the length of the longest chain bound the height of a parsed tree,
whatever the tokens, and with it how deep a printer goes. No bound is lower: some tokens are
parsed to a tree of just that height, with which a printer that may not go as deep gives up. The
parse of such tokens supposes a stack with room for as many levels as the limit allows and one
call more. -/
theorem parse_height_le (limit : Int) (most : Nat) :
    (∀ (s : TokenStream) (c after : Cursor) (e : Expr), c.limit = limit →
      c.parse s = (after, .ok e) → e.longestChain ≤ most →
      e.height ≤ Expr.heightBound most limit.toNat ∧
        ∀ visits, Expr.heightBound most limit.toNat ≤ visits →
          e.printedWithin visits = some e.printed) ∧
    ∃ (s : TokenStream) (c after : Cursor) (e : Expr), c.limit = limit ∧
      c.parse s = (after, .ok e) ∧ e.longestChain ≤ most ∧
      e.height = Expr.heightBound most limit.toNat ∧
        ∀ visits, visits < Expr.heightBound most limit.toNat → e.printedWithin visits = none := by
  constructor
  · intro s c after e under parsed short
    obtain ⟨reached, read, -⟩ := parse_eq_ok parsed
    have reads := reads_of_read read
    have levels : e.nesting ≤ limit.toNat := by
      have room := reads.nesting
      omega
    have low : e.height ≤ Expr.heightBound most limit.toNat :=
      Nat.le_trans (reads.shaped.height_le_nesting short)
        (Nat.mul_le_mul_left _ (Nat.succ_le_succ levels))
    refine ⟨low, fun visits enough => ?_⟩
    rw [Expr.printedWithin_eq, if_pos (Nat.le_trans low enough)]
  · obtain ⟨e, ts, phrase, height, short⟩ := Phrase.exists_tallest most limit.toNat
    obtain ⟨s, c, after, under, parsed⟩ := exists_parse phrase
    refine ⟨s, c, after, e, under, parsed, short, height, fun visits few => ?_⟩
    rw [Expr.printedWithin_eq, if_neg (by omega)]

/-- Under a limit of one `!nil - nil - (nil * nil)` has height four, well within the bound for
chains of two. -/
theorem parse_height_le_group :
    let bang : Token := ⟨.bang, "!", .absent, 1⟩
    let minus : Token := ⟨.minus, "-", .absent, 1⟩
    let star : Token := ⟨.star, "*", .absent, 1⟩
    let opener : Token := ⟨.leftParen, "(", .absent, 1⟩
    let closer : Token := ⟨.rightParen, ")", .absent, 1⟩
    let operand : Token := ⟨.keyword .nilWord, "nil", .absent, 1⟩
    let s : TokenStream := ⟨[], 0, 1, #[bang, operand, minus, operand, minus, opener, operand, star,
      operand, closer], none⟩
    let e : Expr :=
      .binary (.binary (.unary bang (.literal operand)) minus (.literal operand)) minus
        (.grouping (.binary (.literal operand) star (.literal operand)) (some opener))
    Cursor.parse ⟨0, #[], 1⟩ s = (⟨10, #[], 1⟩, .ok e) ∧ e.longestChain ≤ 2 ∧ e.height = 4 ∧
      e.height ≤ 18 ∧ e.printedWithin 18 = some e.printed := by
  intro bang minus star opener closer operand s e
  have parsed : Cursor.parse ⟨0, #[], 1⟩ s = (⟨10, #[], 1⟩, .ok e) := by rfl
  have short : e.longestChain ≤ 2 := by decide
  have bounded := (parse_height_le 1 2).1 s ⟨0, #[], 1⟩ ⟨10, #[], 1⟩ e rfl parsed short
  exact ⟨parsed, short, rfl, bounded.1, bounded.2 18 (Nat.le_refl 18)⟩

/-- The nesting limit alone bounds no height. -/
theorem parse_height_unbounded :
    ¬ ∀ limit : Int, ∃ bound : Nat, ∀ (s : TokenStream) (c after : Cursor) (e : Expr),
        c.limit = limit → c.parse s = (after, .ok e) → e.height ≤ bound := by
  intro bounded
  obtain ⟨bound, low⟩ := bounded 0
  -- with chains as long as the bound a tree is higher than the bound
  obtain ⟨e, ts, phrase, height, -⟩ := Phrase.exists_tallest bound 0
  rw [Expr.heightBound] at height
  have shallow : Phrase 0 (0 : Int).toNat e ts := phrase
  obtain ⟨s, c, after, under, parsed⟩ := exists_parse shallow
  have := low s c after e under parsed
  omega

end Cursor

end LoxSyntax
