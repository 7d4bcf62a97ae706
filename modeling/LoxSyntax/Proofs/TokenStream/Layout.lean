import LoxSyntax.Proofs.Grammar.ParallelReading
import LoxSyntax.Proofs.TokenStream.Lines
import LoxSyntax.Proofs.TokenStream.Rendering

/-!
# Layout

The lexemes of a source may be laid out anew: with blanks and comments between them, in front
of them and behind them, as long as a blank comes first in each gap (`Text.Layout`). Such a
blank ends the lexeme before it, so that every layout renders the same tokens
(`Text.Layout.renders`). A scan of it finds them on other lines, and since readings decide by
the kinds of tokens alone, a parse makes the same of them (`layout_independent`).
-/

namespace LoxSyntax

namespace Text

/-- Blanks and comments, each comment up to the end of its line. -/
inductive Filler : List Char → Prop
  | nil : Filler []
  | blank {c : Char} {rest : List Char} :
    c ∈ [' ', '\t', '\r', '\n'] → Filler rest → Filler (c :: rest)
  | comment {text rest : List Char} :
    '\n' ∉ text → Filler rest → Filler ('/' :: '/' :: (text ++ '\n' :: rest))

/-- What parts two lexemes: a filler that starts with a blank. -/
inductive Separator : List Char → Prop
  | blank {c : Char} {rest : List Char} :
    c ∈ [' ', '\t', '\r', '\n'] → Filler rest → Separator (c :: rest)

/-- What may stand behind all lexemes: nothing or a separator, which may end in a comment up
to the end of the text. -/
inductive Trailer : List Char → Prop
  | none : Trailer []
  | separator {gap : List Char} : Separator gap → Trailer gap
  | comment {gap text : List Char} :
    Separator gap → '\n' ∉ text → Trailer (gap ++ '/' :: '/' :: text)

/-- The words with a separator in front of each, and a trailer behind them. -/
inductive Follow : List (List Char) → List Char → Prop
  | ends {trailer : List Char} : Trailer trailer → Follow [] trailer
  | next {gap word tail : List Char} {words : List (List Char)} :
    Separator gap → Follow words tail → Follow (word :: words) (gap ++ (word ++ tail))

/-- The words laid out: a separator between any two of them, nothing or a separator in front
of them, and a trailer behind them. -/
inductive Layout : List (List Char) → List Char → Prop
  | empty {leader trailer : List Char} :
    leader = [] ∨ Separator leader → Trailer trailer → Layout [] (leader ++ trailer)
  | words {leader word tail : List Char} {words : List (List Char)} :
    leader = [] ∨ Separator leader → Follow words tail →
    Layout (word :: words) (leader ++ (word ++ tail))

/-! ## Layouts render -/

section

variable {gap tail text : List Char} {ts : List Token}

theorem Filler.renders (h : Filler gap) (behind : Renders tail ts) : Renders (gap ++ tail) ts := by
  induction h with
  | nil => exact behind
  | blank letter _ ih => exact ih.blank (Lexeme.isBlank_iff.mpr letter)
  | @comment text rest line _ ih =>
    have ended : Renders ('\n' :: (rest ++ tail)) ts := ih.blank rfl
    have commented := ended.comment line (by intro c head; cases head; rfl)
    simpa using commented

theorem Separator.renders (h : Separator gap) (behind : Renders tail ts) :
    Renders (gap ++ tail) ts := by
  cases h with
  | blank letter filler => exact (Filler.blank letter filler).renders behind

/-- A separator starts with a blank, whatever follows. -/
theorem Separator.closing (h : Separator gap) (tail : List Char) :
    ∀ c ∈ (gap ++ tail).head?, Lexeme.isBlank c = true ∨ c = ')' := by
  cases h with
  | blank letter _ =>
    intro c head
    cases head
    exact .inl (Lexeme.isBlank_iff.mpr letter)

theorem renders_leader (h : gap = [] ∨ Separator gap) (behind : Renders tail ts) :
    Renders (gap ++ tail) ts := by
  rcases h with rfl | separator
  · exact behind
  · exact separator.renders behind

theorem Trailer.renders (h : Trailer gap) : Renders gap [] := by
  cases h with
  | none => exact .nil
  | separator separator =>
    have rendered := separator.renders .nil
    rwa [List.append_nil] at rendered
  | @comment gap text separator line =>
    have ends : ∀ c ∈ ([] : List Char).head?, c = '\n' := nofun
    have last := Renders.nil.comment line ends
    rw [List.append_nil] at last
    exact separator.renders last

theorem Trailer.closing (h : Trailer gap) :
    ∀ c ∈ gap.head?, Lexeme.isBlank c = true ∨ c = ')' := by
  cases h with
  | none => exact nofun
  | separator separator =>
    have closing := separator.closing []
    rwa [List.append_nil] at closing
  | comment separator _ => exact separator.closing _

theorem Follow.closing {words : List (List Char)} (h : Follow words text) :
    ∀ c ∈ text.head?, Lexeme.isBlank c = true ∨ c = ')' := by
  cases h with
  | ends trailer => exact trailer.closing
  | next separator _ => exact separator.closing _

/-- The texts of scanned tokens render the tokens when each has a separator in front. -/
theorem Follow.renders (scanned : ∀ t ∈ ts, t.Scanned)
    (h : Follow (ts.map fun t => t.lexeme.toList) text) : Renders text ts := by
  induction ts generalizing text with
  | nil =>
    cases h with
    | ends trailer => exact trailer.renders
  | cons t ts ih =>
    obtain ⟨first, later⟩ := List.forall_mem_cons.mp scanned
    cases h with
    | next separator behind =>
      exact separator.renders (.token first behind.closing (ih later behind))

/-- However the texts of scanned tokens are laid out, they render the tokens. -/
theorem Layout.renders (scanned : ∀ t ∈ ts, t.Scanned)
    (h : Layout (ts.map fun t => t.lexeme.toList) text) : Renders text ts := by
  cases ts with
  | nil =>
    cases h with
    | empty leader trailer => exact renders_leader leader trailer.renders
  | cons t ts =>
    obtain ⟨first, later⟩ := List.forall_mem_cons.mp scanned
    cases h with
    | words leader behind =>
      exact renders_leader leader
        (.token first behind.closing (behind.renders later))

end

end Text

/-! ## Readings of layouts -/

/-- Tokens that are the same but for their lines. -/
structure Token.SameButLine (t u : Token) : Prop where
  kind : u.kind = t.kind
  lexeme : u.lexeme = t.lexeme
  value : u.value = t.value

/-- What readings of two streams from one cursor have in common when the tokens differ in
their lines only: the place, the index of the token warned of, and either the tree but for
lines, or the code and the message of the error. -/
structure Cursor.SameButLines (s s' : TokenStream) (c : Cursor)
    (run run' : Cursor × Except Failure Expr) : Prop where
  position : run'.1.position = run.1.position
  warnings : run.1.warnings = c.warnings ∧ run'.1.warnings = c.warnings ∨
    ∃ t u, s.tokens[run.1.position.toNat]? = some t ∧ s'.tokens[run.1.position.toNat]? = some u ∧
      t.SameButLine u ∧
      run.1.warnings = c.warnings.push ⟨t⟩ ∧ run'.1.warnings = c.warnings.push ⟨u⟩
  tree : ∀ e, run.2 = .ok e → ∃ e', run'.2 = .ok e' ∧ e.Parallel Token.SameButLine e'
  error : ∀ failure, run.2 = .error failure → ∃ error error' : SyntaxError,
    failure = .grammatical error ∧ run'.2 = .error (.grammatical error') ∧
    error'.diagnostic.code = error.diagnostic.code ∧
    error'.diagnostic.message = error.diagnostic.message

section

variable {s s' : TokenStream} {c : Cursor}

theorem Token.sameButLine_of_unlined {t u : Token} (h : u.unlined = t.unlined) :
    t.SameButLine u := by
  obtain ⟨kind, lexeme, value, -⟩ := Token.mk.inj h
  exact ⟨kind, lexeme, value⟩

/-- Lines are in no message. -/
theorem SyntaxError.Parallel.message {around around' : Surroundings} {row row' : List Token}
    {stop : Nat} {error error' : SyntaxError}
    (h : Parallel Token.SameButLine around around' row row' stop error error') :
    error'.diagnostic.code = error.diagnostic.code ∧
      error'.diagnostic.message = error.diagnostic.message := by
  have quoted {t u : Token} (same : t.SameButLine u) : inQuotes u = inQuotes t := by
    rw [inQuotes, inQuotes, same.lexeme]
  cases h with
  | unexpectedToken _ _ same =>
    exact ⟨rfl, congrArg (fun found => "Expected expression, found " ++ found) (quoted same)⟩
  | unexpectedEnd _ => exact ⟨rfl, rfl⟩
  | unclosed _ _ _ same =>
    exact ⟨rfl, congrArg (fun found => "Expected ')' after expression, found " ++ found)
      (quoted same)⟩
  | unclosedEnd _ _ => exact ⟨rfl, rfl⟩
  | tooDeep _ _ _ _ => exact ⟨rfl, rfl⟩

theorem Cursor.Parallel.sameButLines {run run' : Cursor × Except Failure Expr}
    (h : Cursor.Parallel Token.SameButLine s s' c run run') :
    Cursor.SameButLines s s' c run run' := by
  cases h with
  | tree abreast trees =>
    refine ⟨abreast.position, abreast.warnings, fun e same => ?_, fun _ failed => ?_⟩
    · cases same
      exact ⟨_, rfl, trees⟩
    · cases failed
  | error abreast errors =>
    refine ⟨abreast.position, abreast.warnings, fun e same => ?_, fun _ failed => ?_⟩
    · cases same
    · cases failed
      exact ⟨_, _, rfl, rfl, errors.message⟩

end

open TokenStream (ofSource)

/-- However the lexemes of a source are laid out anew, a scan finds the same tokens on the
lines of the new text, and a parse makes the same of them. -/
theorem layout_independent {source text : String} {tokens : Array Token}
    (found : tokenize source = .ok tokens)
    (layout : Text.Layout (tokens.toList.map fun t => t.lexeme.toList) text.toList) :
    ∃ tokens', tokenize text = .ok tokens' ∧
      List.Forall₂ Token.SameButLine tokens.toList tokens'.toList ∧
      (ofSource text).scan.1.LinesCounted text.toList ∧
      ∀ c : Cursor, 0 ≤ c.position ∧ c.position ≤ tokens.size →
        Cursor.SameButLines (ofSource source).scan.1 (ofSource text).scan.1 c
          (c.parse (ofSource source).scan.1) (c.parse (ofSource text).scan.1) := by
  have rendered := layout.renders (scanned_of_tokenize found)
  obtain ⟨tokens', found', same⟩ := tokenize_of_renders rendered
  have rows : List.Forall₂ Token.SameButLine tokens.toList tokens'.toList := by
    rw [← List.forall₂_eq_eq_eq, List.forall₂_map_left_iff, List.forall₂_map_right_iff] at same
    exact same.flip.imp fun _ _ unlined => Token.sameButLine_of_unlined unlined
  obtain ⟨-, rfl⟩ := tokenize_eq_ok.mp found
  obtain ⟨ended', rfl⟩ := tokenize_eq_ok.mp found'
  refine ⟨_, found', rows, (TokenStream.History.of_scan_ok ended').linesCounted, ?_⟩
  intro c inside
  exact (Cursor.parseWithin_parallel (fun _ _ same => same.kind) rows inside _).sameButLines

/-- With other blanks and comments `-nil!=2.` is read alike, up to the point that is left
over. -/
theorem layout_independent_leftover :
    let tokens : Array Token := #[⟨.minus, "-", .absent, 1⟩, ⟨.keyword .nilWord, "nil", .absent, 1⟩,
      ⟨.bangEqual, "!=", .absent, 1⟩, ⟨.number, "2", .number ⟨false, 1024, 0⟩, 1⟩,
      ⟨.dot, ".", .absent, 1⟩]
    let text := "\t- nil\n//\"\n!= 2\r. //"
    tokenize "-nil!=2." = .ok tokens ∧ ∃ tokens', tokenize text = .ok tokens' ∧
      List.Forall₂ Token.SameButLine tokens.toList tokens'.toList ∧
      (ofSource text).scan.1.LinesCounted text.toList ∧
      ∀ c : Cursor, 0 ≤ c.position ∧ c.position ≤ tokens.size →
        Cursor.SameButLines (ofSource "-nil!=2.").scan.1 (ofSource text).scan.1 c
          (c.parse (ofSource "-nil!=2.").scan.1) (c.parse (ofSource text).scan.1) := by
  intro tokens text
  have found : tokenize "-nil!=2." = .ok tokens := by decide +kernel
  have space : Text.Separator [' '] := .blank (by decide) .nil
  have spelled : text.toList = ['\t'] ++ ("-".toList ++ ([' '] ++ ("nil".toList ++
      ("\n//\"\n".toList ++ ("!=".toList ++ ([' '] ++ ("2".toList ++ (['\r'] ++ (".".toList ++
        ([' '] ++ '/' :: '/' :: [])))))))))) := by
    decide +kernel
  have layout : Text.Layout (tokens.toList.map fun t => t.lexeme.toList) text.toList := by
    rw [spelled]
    refine .words (.inr (.blank (by decide) .nil)) (.next space (.next ?_ (.next space
      (.next (.blank (by decide) .nil) (.ends (.comment space nofun))))))
    exact .blank (by decide) (@Text.Filler.comment ['"'] [] (by decide) .nil)
  exact ⟨found, layout_independent found layout⟩

end LoxSyntax
