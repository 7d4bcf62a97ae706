/-!
# Lines

A source file may end its lines with a line feed, a carriage return or both.
Reading a file makes every line end a line feed, so that all other modules count
line feeds only.
-/

namespace LoxSyntax.Text

/-- The text with every line end written as one line feed. -/
def normalizeLineEnds : List Char → List Char
  | [] => []
  | '\r' :: '\n' :: rest => '\n' :: normalizeLineEnds rest
  | c :: rest => (if c = '\r' then '\n' else c) :: normalizeLineEnds rest

/-- The number of line feeds in a text. -/
def lineFeeds (text : List Char) : Nat :=
  text.count '\n'

theorem lineFeeds_nil : lineFeeds [] = 0 := rfl

theorem lineFeeds_append (a b : List Char) :
    lineFeeds (a ++ b) = lineFeeds a + lineFeeds b :=
  List.count_append

/-- No carriage return is left. -/
theorem not_mem_normalizeLineEnds (text : List Char) : '\r' ∉ normalizeLineEnds text := by
  fun_induction normalizeLineEnds text with
  | case1 => simp
  | case2 rest ih => simp [ih]
  | case3 c rest _ ih =>
    by_cases carriage : c = '\r'
    · simp [carriage, ih]
    · simp [carriage, ih, eq_comm]

/-- A text without carriage returns is left alone. -/
theorem normalizeLineEnds_eq_self {text : List Char} (h : '\r' ∉ text) :
    normalizeLineEnds text = text := by
  fun_induction normalizeLineEnds text with
  | case1 => rfl
  | case2 rest ih => simp at h
  | case3 c rest _ ih =>
    have other : c ≠ '\r' := fun carriage => h (by simp [carriage])
    simp [other, ih fun later => h (List.mem_cons_of_mem _ later)]

end LoxSyntax.Text
