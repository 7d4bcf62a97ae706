import LoxSyntax.Number.Layout
import LoxSyntax.Text.Quoted

/-!
# Token values

What a token denotes besides its kind: nothing, a truth value, a text or a
number. Values compare by what they denote, and a truth value counts as the
number one or zero.
-/

namespace LoxSyntax

/-- What a token denotes. -/
inductive Value
  | absent
  | truth (b : Bool)
  | text (s : String)
  | number (x : Binary64)
deriving DecidableEq, Repr

namespace Value

/-- The name of a truth value in listings. -/
def truthName (b : Bool) : String :=
  if b then "True" else "False"

/-- The value as it stands in a sentence: text is written as it is. -/
def plain : Value → String
  | absent => "None"
  | truth b => truthName b
  | text s => s
  | number x => x.debugText

/-- The value as debug listings write it: text is quoted. -/
def debug : Value → String
  | text s => Text.quoted s
  | v => v.plain

/-- The value as a number. -/
def number? : Value → Option Binary64
  | truth b => some (if b then Binary64.one else Binary64.zero)
  | number x => some x
  | _ => none

/-- Equality by what is denoted. -/
def same (v w : Value) : Bool :=
  match v.number?, w.number? with
  | some x, some y => x.sameNumber y
  | none, none => v == w
  | _, _ => false

/-- A text is the same as itself only. -/
theorem same_text (s t : String) : (text s).same (text t) = (s == t) := by
  rw [Bool.eq_iff_iff]
  simp [same, number?]

end Value

end LoxSyntax
