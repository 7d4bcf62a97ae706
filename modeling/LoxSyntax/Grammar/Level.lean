import LoxSyntax.Token.Kind

/-!
# Operator levels

The binary operators stand on four levels of precedence, from the loosest to the
tightest; on each of them they associate to the left. Two operators stand in
front of a single operand.
-/

namespace LoxSyntax

/-- The levels of the binary operators, from the loosest to the tightest. -/
inductive Level
  | equality | comparison | term | factor
deriving DecidableEq, Repr

namespace Level

/-- The operators of a level. -/
def operators : Level → List Kind
  | equality => [.bangEqual, .equalEqual]
  | comparison => [.greater, .greaterEqual, .less, .lessEqual]
  | term => [.minus, .plus]
  | factor => [.slash, .star]

/-- Whether a kind is an operator of the level. -/
def has (level : Level) (kind : Kind) : Bool :=
  level.operators.contains kind

/-- How tightly a level binds. -/
def tightness : Level → Nat
  | equality => 0
  | comparison => 1
  | term => 2
  | factor => 3

/-- The level of a binary operator. -/
def of? (kind : Kind) : Option Level :=
  [equality, comparison, term, factor].find? fun level => level.has kind

/-- No operator stands on two levels. -/
theorem of?_of_has {level : Level} {kind : Kind} (h : level.has kind = true) :
    of? kind = some level := by
  simp only [has, List.contains_iff_mem] at h
  cases level <;> simp only [operators, List.mem_cons, List.not_mem_nil, or_false] at h
  · rcases h with rfl | rfl <;> decide
  · rcases h with rfl | rfl | rfl | rfl <;> decide
  · rcases h with rfl | rfl <;> decide
  · rcases h with rfl | rfl <;> decide

/-- The level of an operator has the operator. -/
theorem has_of_of? {level : Level} {kind : Kind} (h : of? kind = some level) :
    level.has kind = true := by
  unfold of? at h
  simpa using List.find?_some h

end Level

/-- The operators in front of a single operand. -/
def unaryOperators : List Kind :=
  [.bang, .minus]

/-- Whether a kind is an operator in front of a single operand. -/
def Kind.isUnaryOperator (kind : Kind) : Bool :=
  unaryOperators.contains kind

end LoxSyntax
