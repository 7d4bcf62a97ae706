import LoxSyntax.Proofs.TokenStream.GoodPrefix

/-!
# Sources put one below the other

A line feed prolongs no lexeme, so that a source without lexical errors is cut into the same
lexemes when a line feed and another source stand behind it (`Lexeme.cut_append_lineFeed`). A
scan of both has read the first source and the line feed at some point. From there on it does
what a scan of the second source alone does, but that it counts the lines and letters above
(`TokenStream.Below`), so that its tokens and its error are those of the second source, moved
down by the lines of the first (`scan_continues_below`).
-/

namespace LoxSyntax

open Text (lineAt lineFeeds)

/-! ## A line feed between two texts -/

namespace Lexeme

theorem fractionDigits_append_lineFeed {tail : List Char} (h : fractionDigits tail = [])
    (behind : List Char) : fractionDigits (tail ++ '\n' :: behind) = [] := by
  refine fractionDigits_eq_nil_of_prefix h fun d digit ahead => ?_
  -- neither the point nor the digit can be the line feed, so that both stand before it
  cases tail with
  | nil => cases (List.cons_prefix_cons.mp ahead).1
  | cons c tail =>
    obtain ⟨rfl, next⟩ := List.cons_prefix_cons.mp ahead
    cases tail with
    | nil =>
      obtain ⟨rfl, -⟩ := List.cons_prefix_cons.mp next
      cases digit
    | cons c tail =>
      obtain ⟨rfl, -⟩ := List.cons_prefix_cons.mp next
      exact ⟨tail, rfl⟩

/-- A lexeme without an error ends in front of a text just as well when a line feed stands
behind the text. -/
theorem EndsBefore.append_lineFeed {l : Lexeme} {k : Class} {tail : List Char}
    (h : l.EndsBefore tail) (sound : l.class? = some k) (behind : List Char) :
    l.EndsBefore (tail ++ '\n' :: behind) := by
  cases tail with
  | nil =>
    refine endsBefore_blank rfl (fun contents same => ?_) (fun _ _ => rfl) behind
    subst same
    cases sound
  | cons c tail =>
    cases l with
    | number whole fraction =>
      exact ⟨h.1, fun none => fractionDigits_append_lineFeed (h.2 none) behind⟩
    | unclosed contents => cases sound
    | _ => exact h

/-- A text without errors is cut in the same way when a line feed and another text stand
behind it. -/
theorem cut_append_lineFeed {text : List Char} (sound : ∀ l ∈ cut text, ∃ k, l.class? = some k)
    (behind : List Char) :
    cut (text ++ '\n' :: behind) = cut text ++ .blank '\n' :: cut behind := by
  refine cut_rows (motive := fun text row => (∀ l ∈ row, ∃ k, l.class? = some k) →
    cut (text ++ '\n' :: behind) = row ++ .blank '\n' :: cut behind) ?_ ?_ text sound
  · intro _
    exact cut_blank (by decide) behind
  · intro l tail readable ends ih sound
    obtain ⟨⟨k, sound⟩, later⟩ := List.forall_mem_cons.mp sound
    rw [List.append_assoc, readable.cut_append (ends.append_lineFeed sound behind), ih later,
      List.cons_append]

end Lexeme

/-! ## Lines below -/

/-- The token as it stands a number of lines further down. -/
def Token.movedBelow (lines : Nat) (t : Token) : Token :=
  { t with line := t.line + lines }

/-- The error as it is reported a number of lines further down. -/
def LexicalError.movedBelow (lines : Nat) : LexicalError → LexicalError
  | unrecognized letter line => unrecognized letter (line + lines)
  | unclosedString line => unclosedString (line + lines)

/-- Further down an error is reported in the same words. -/
theorem LexicalError.diagnostic_movedBelow (lines : Nat) (e : LexicalError) :
    (e.movedBelow lines).diagnostic =
      { e.diagnostic with line := e.diagnostic.line + lines } := by
  cases e <;> rfl

theorem Lexeme.token?_movedBelow (lines : Nat) (line : Int) (l : Lexeme) :
    l.token? (line + lines) = (l.token? line).map (Token.movedBelow lines) := by
  unfold token?
  rw [Option.map_map]
  rfl

theorem Lexeme.error?_movedBelow (lines : Nat) (line : Int) (l : Lexeme) :
    l.error? (line + lines) = (l.error? line).map (LexicalError.movedBelow lines) := by
  cases l <;> rfl

namespace TokenStream

/-- The stream `whole` stands where `alone` does, below a number of lines and behind a number
of letters that have given tokens of their own and no error. -/
structure Below (above : List Token) (lines letters : Nat) (alone whole : TokenStream) :
    Prop where
  position : whole.position = letters + alone.position
  line : whole.line = alone.line + lines
  tokens : whole.tokens.toList = above ++ alone.tokens.toList.map (Token.movedBelow lines)
  error : whole.error = alone.error.map (LexicalError.movedBelow lines)

variable {above : List Token} {lines letters : Nat} {alone whole : TokenStream}

/-- Both streams read a lexeme alike, whatever is still to be read behind it. -/
theorem Below.accept (h : Below above lines letters alone whole) (l : Lexeme)
    (rest rest' : List Lexeme) :
    Below above lines letters (alone.accept l rest) (whole.accept l rest') := by
  have line : whole.line + lineFeeds l.spelling =
      alone.line + lineFeeds l.spelling + lines := by
    rw [h.line]
    omega
  refine ⟨?_, line, ?_, ?_⟩
  · show whole.position + l.spelling.length = letters + (alone.position + l.spelling.length)
    rw [h.position, Nat.add_assoc]
  · rw [tokens_accept, tokens_accept, line, Lexeme.token?_movedBelow, h.tokens, List.map_append,
      List.append_assoc]
    cases l.token? (alone.line + lineFeeds l.spelling) <;> rfl
  · show (l.error? (whole.line + lineFeeds l.spelling)).or whole.error =
      ((l.error? (alone.line + lineFeeds l.spelling)).or alone.error).map _
    rw [line, Lexeme.error?_movedBelow, h.error]
    cases l.error? (alone.line + lineFeeds l.spelling) <;> rfl

/-- Both streams read a row of lexemes alike, up to the same error if there is one. -/
theorem Below.readAll (h : Below above lines letters alone whole) (lexemes : List Lexeme) :
    Below above lines letters (alone.readAll lexemes).1 (whole.readAll lexemes).1 ∧
      (whole.readAll lexemes).2 =
        (alone.readAll lexemes).2.mapError (LexicalError.movedBelow lines) := by
  induction lexemes generalizing alone whole with
  | nil => exact ⟨h, rfl⟩
  | cons l rest ih =>
    have next := h.accept l rest rest
    have moved := l.error?_movedBelow lines (alone.accept l rest).line
    rw [← next.line] at moved
    cases wrong : l.error? (alone.accept l rest).line with
    | none =>
      rw [wrong] at moved
      rw [readAll_of_no_error wrong, readAll_of_no_error moved]
      exact ih next
    | some e =>
      rw [wrong] at moved
      rw [readAll_of_error wrong, readAll_of_error moved]
      exact ⟨next, rfl⟩

/-- Where the lexemes to come have no error, the stream reads them and goes on with those
behind them. -/
theorem History.exists_readAll_append {source : String} {s : TokenStream}
    {read row behind : List Lexeme} (h : s.History source read)
    (pending : s.pending = row ++ behind) (sound : ∀ l ∈ row, ∃ k, l.class? = some k) :
    ∃ next : TokenStream, s.readAll (row ++ behind) = next.readAll behind ∧
      next.History source (read ++ row) ∧ next.error = s.error := by
  induction row generalizing s read with
  | nil => exact ⟨s, rfl, by rwa [List.append_nil], rfl⟩
  | cons l row ih =>
    obtain ⟨first, later⟩ := List.forall_mem_cons.mp sound
    have none {line : Int} : l.error? line = none := Lexeme.error?_eq_none_iff.mpr first
    rw [List.cons_append] at pending
    obtain ⟨next, reads, history, error⟩ := ih (h.accept pending) rfl later
    refine ⟨next, ?_, ?_, ?_⟩
    · rw [List.cons_append, readAll_of_no_error none, reads]
    · rwa [List.append_assoc, List.singleton_append] at history
    · rw [error]
      show (l.error? _).or s.error = s.error
      rw [none, Option.none_or]

/-- Behind the first source and its line feed a stream stands below all that it has read. -/
theorem History.below_of_joined {a b : String} {s : TokenStream}
    (h : s.History (a ++ "\n" ++ b) (Lexeme.cut a.toList ++ [.blank '\n']))
    (ended : (ofSource a).scan.2 = .ok ()) (quiet : s.error = none) :
    Below (ofSource a).scan.1.tokens.toList (lineFeeds a.toList + 1) (a.toList.length + 1)
      (ofSource b) s := by
  have letters : (a ++ "\n" ++ b).toList = a.toList ++ ['\n'] ++ b.toList := by simp
  have position : s.position = a.toList.length + 1 := by
    rw [h.position, List.flatMap_append, Lexeme.flatMap_spelling_cut, List.length_append]
    rfl
  refine ⟨position, ?_, ?_, quiet⟩
  · have read : (a ++ "\n" ++ b).toList.take (a.toList.length + 1) = a.toList ++ ['\n'] := by
      rw [letters]
      exact List.take_left' (List.length_append)
    rw [h.line, position, lineAt, read, Text.lineFeeds_append]
    rfl
  · have same := Lexeme.filterMap_token?_append (Lexeme.cut a.toList) (['\n'] ++ b.toList)
    rw [Lexeme.flatMap_spelling_cut, ← List.append_assoc, ← letters] at same
    rw [h.tokens, Lexeme.place_concat, List.filterMap_append, same, ← (of_scan_ok ended).tokens]
    rfl

end TokenStream

/-- A scan of a source without lexical errors, a line feed and another source finds the tokens
of the first source and those of the second, these as many lines further down as the first
source has. It ends as the scan of the second source alone does: without an error, or with the
same error that many lines further down, when it has kept the tokens before it. -/
theorem scan_continues_below (a b : String) {tokens : Array Token}
    (scanned : tokenize a = .ok tokens) :
    let lines := lineFeeds a.toList + 1
    let alone := (TokenStream.ofSource b).scan
    let whole := (TokenStream.ofSource (a ++ "\n" ++ b)).scan
    whole.1.tokens.toList =
        tokens.toList ++ alone.1.tokens.toList.map (Token.movedBelow lines) ∧
      (alone.2 = .ok () → whole.2 = .ok ()) ∧
      ∀ e, alone.2 = .error e → ∃ e', whole.2 = .error e' ∧
        e'.diagnostic = { e.diagnostic with line := e.diagnostic.line + lines } := by
  intro lines alone whole
  obtain ⟨ended, rfl⟩ := tokenize_eq_ok.mp scanned
  have sound := TokenStream.class?_of_readAll_ok ended
  have letters : (a ++ "\n" ++ b).toList = a.toList ++ '\n' :: b.toList := by simp
  have cut := Lexeme.cut_append_lineFeed sound b.toList
  rw [← letters, List.append_cons] at cut
  -- the lexemes of the first source and the line feed are read without an error
  have quiet : ∀ l ∈ Lexeme.cut a.toList ++ [.blank '\n'], ∃ k, l.class? = some k := by
    intro l member
    rcases List.mem_append.mp member with first | last
    · exact sound l first
    · exact ⟨.blank, by rw [List.mem_singleton.mp last]; rfl⟩
  have begun : (TokenStream.ofSource (a ++ "\n" ++ b)).History (a ++ "\n" ++ b) [] := .start
  obtain ⟨next, reads, history, error⟩ := begun.exists_readAll_append cut quiet
  have below : TokenStream.Below (TokenStream.ofSource a).scan.1.tokens.toList lines
      (a.toList.length + 1) (TokenStream.ofSource b) next :=
    history.below_of_joined ended error
  obtain ⟨after, outcome⟩ := below.readAll (Lexeme.cut b.toList)
  rw [← reads, ← cut] at after outcome
  have outcome : whole.2 = alone.2.mapError (LexicalError.movedBelow lines) := outcome
  refine ⟨after.tokens, fun ok => ?_, fun e failed => ?_⟩
  · rw [outcome, ok]
    rfl
  · rw [outcome, failed]
    exact ⟨_, rfl, e.diagnostic_movedBelow lines⟩

/-- The digits behind the point of the first source do not become its fraction, and the string
behind them is not closed on the third line. -/
theorem scan_continues_below_point :
    let alone := (TokenStream.ofSource "5 \"x\n").scan
    let whole := (TokenStream.ofSource ("1." ++ "\n" ++ "5 \"x\n")).scan
    tokenize "1." = .ok #[⟨.number, "1", .number .one, 1⟩, ⟨.dot, ".", .absent, 1⟩] ∧
      alone.2 = .error (.unclosedString 2) ∧
      whole.1.tokens.toList = [⟨.number, "1", .number .one, 1⟩, ⟨.dot, ".", .absent, 1⟩] ++
        alone.1.tokens.toList.map (Token.movedBelow 1) ∧
      ∃ e', whole.2 = .error e' ∧ e'.diagnostic =
        { (LexicalError.unclosedString 2).diagnostic with line := 2 + 1 } := by
  intro alone whole
  have scanned : tokenize "1." =
      .ok #[⟨.number, "1", .number .one, 1⟩, ⟨.dot, ".", .absent, 1⟩] := by decide +kernel
  have failed : alone.2 = .error (.unclosedString 2) := by rfl
  obtain ⟨tokens, -, error⟩ := scan_continues_below "1." "5 \"x\n" scanned
  exact ⟨scanned, failed, tokens, error _ failed⟩

end LoxSyntax
