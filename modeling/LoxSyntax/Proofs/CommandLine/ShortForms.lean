import LoxSyntax.Proofs.CommandLine.Listing
import LoxSyntax.Proofs.Grammar.CorrectPrefix
import LoxSyntax.Proofs.TokenStream.Lines

/-!
# Short forms over several lines

A message quotes the text of a token as it stands in the source, and of all tokens only
strings reach over the end of a line. The short form of a lexical error is always on one line
(`TokenStream.Reached.lineFeed_not_mem_short`). So is that of a syntax error, but for a string
that stands where a parenthesis should be closed: a string is an operand, so that it cannot be
the token that starts none (`Fault.exists_of_lineFeed_mem_short`). And so is that of a warning,
but for a string behind a complete expression (`Cursor.lineFeed_mem_short_iff_of_warned`).
Where the strings of a source keep to their lines, a run without `--verbose` therefore writes
one line for each thing that it says (`CommandLine.lineFeeds_stderr`).
-/

namespace LoxSyntax

/-! ## Messages -/

/-- The short form is on one line just when the message is. -/
theorem Diagnostic.lineFeed_mem_short_iff (d : Diagnostic) :
    '\n' ∈ d.short.toList ↔ '\n' ∈ d.message.toList := by
  have line := not_mem_integerText (c := '\n') (by decide) rfl d.line
  simp [short, line]

theorem SyntaxError.lineFeed_mem_inQuotes_iff (t : Token) :
    '\n' ∈ (inQuotes t).toList ↔ '\n' ∈ t.lexeme.toList := by
  simp [inQuotes]

theorem SyntaxError.lineFeed_mem_unclosed_iff (opener t : Token) (line : Int) :
    '\n' ∈ (unclosedDelimiter opener (some t) line).diagnostic.message.toList ↔
      '\n' ∈ t.lexeme.toList := by
  show '\n' ∈ ("Expected ')' after expression, found " ++ inQuotes t).toList ↔ _
  simp [lineFeed_mem_inQuotes_iff]

theorem TrailingTokens.lineFeed_mem_short_iff (w : TrailingTokens) :
    '\n' ∈ w.diagnostic.short.toList ↔ '\n' ∈ w.first.lexeme.toList := by
  have quoted : '\n' ∈ ("Ignoring tokens after complete expression, starting at " ++
      SyntaxError.inQuotes w.first).toList ↔ '\n' ∈ w.first.lexeme.toList := by
    simp [SyntaxError.lineFeed_mem_inQuotes_iff]
  exact w.diagnostic.lineFeed_mem_short_iff.trans quoted

theorem Token.Scanned.eq_string_of_lineFeed {t : Token} (h : t.Scanned)
    (feed : '\n' ∈ t.lexeme.toList) : t.kind = .string :=
  Decidable.byContradiction fun other => Lexeme.Denotes.lineFeed_not_mem h other feed

/-- A lexical error is reported on one line. -/
theorem TokenStream.Reached.lineFeed_not_mem_short {source : String} {s : TokenStream}
    {e : LexicalError} (h : Reached source s) (failed : s.scan.2 = .error e) :
    '\n' ∉ e.diagnostic.short.toList := by
  obtain ⟨before, l, rest, reached, pending, -, wrong⟩ := h.exists_of_scan_error failed
  rw [Diagnostic.lineFeed_mem_short_iff]
  cases l with
  | unrecognized letter =>
    cases wrong
    obtain ⟨read, history⟩ := reached.history
    have among : .unrecognized letter ∈ Lexeme.cut source.toList := by
      rw [history.cut, pending]
      exact List.mem_append_right _ List.mem_cons_self
    have other := Lexeme.ne_lineFeed_of_unrecognized_mem_cut among
    show '\n' ∉ ("Unrecognized character '" ++ letter.toString ++ "'").toList
    simp [other.symm]
  | unclosed contents =>
    cases wrong
    show '\n' ∉ "Unclosed string".toList
    decide
  | _ => cases wrong

/-- A syntax error that is reported on several lines names a string that stands where a
parenthesis should be closed. -/
theorem Fault.exists_of_lineFeed_mem_short {around : Surroundings} {levels : Nat}
    {ts rest : List Token} {f : Frontier} {e : SyntaxError}
    (h : Fault around levels ts f rest e) (scanned : ∀ t ∈ rest, t.Scanned)
    (feed : '\n' ∈ e.diagnostic.short.toList) :
    ∃ opener t line, e = .unclosedDelimiter opener (some t) line ∧ t ∈ rest ∧ t.kind = .string ∧
      '\n' ∈ t.lexeme.toList := by
  rw [Diagnostic.lineFeed_mem_short_iff] at feed
  cases h with
  | @unexpectedToken opened rest t stuck =>
    -- a string would be an operand
    have other : t.kind ≠ .string := fun string =>
      stuck _ (.literal (by rw [Token.isLiteral, string]; rfl))
    have line := Lexeme.Denotes.lineFeed_not_mem (scanned t List.mem_cons_self) other
    have message : '\n' ∉ ("Expected expression, found " ++ SyntaxError.inQuotes t).toList := by
      simp [SyntaxError.lineFeed_mem_inQuotes_iff, line]
    exact absurd feed message
  | unexpectedEnd =>
    have message : '\n' ∉ ("Unexpected end of input, expected " ++ "expression").toList := by
      decide
    exact absurd feed message
  | @unclosed outer rest opener t stuck =>
    have feed := (SyntaxError.lineFeed_mem_unclosed_iff opener t t.line).mp feed
    have string := (scanned t List.mem_cons_self).eq_string_of_lineFeed feed
    exact ⟨_, _, _, rfl, List.mem_cons_self, string, feed⟩
  | unclosedEnd =>
    have message : '\n' ∉ ("Expected ')' after expression, found " ++ "end of input").toList := by
      decide
    exact absurd feed message
  | tooDeep _ _ =>
    have message : '\n' ∉ "Expression nested too deeply".toList := by decide
    exact absurd feed message

namespace Cursor

variable {source : String} {s : TokenStream} {c after : Cursor} {levels : Nat}

/-- A parse that fails on the tokens of a source reports it on one line, unless a string over
several lines stands where a parenthesis should be closed. -/
theorem lineFeed_mem_short_iff_of_parseWithin (h : TokenStream.Reached source s) {e : SyntaxError}
    (failed : c.parseWithin s levels = (after, .error (.grammatical e))) :
    '\n' ∈ e.diagnostic.short.toList ↔ ∃ opener t line,
      e = .unclosedDelimiter opener (some t) line ∧ t ∈ s.tokens.toList ∧ t.kind = .string ∧
        '\n' ∈ t.lexeme.toList := by
  by_cases inside : 0 ≤ c.position ∧ c.position ≤ s.count
  · rw [parseWithin, readWithin_of_inside levels .expression inside] at failed
    split at failed
    · cases failed
    rename_i reached error result
    cases failed
    split at result
    · cases result
    rename_i error used ruled
    cases result
    obtain ⟨ts, rest, f, split, -, -, fault⟩ := expression_faults _ _ _ _ _ ruled
    have among {t : Token} (member : t ∈ rest) : t ∈ s.tokens.toList := by
      refine List.mem_of_mem_drop (i := c.position.toNat) ?_
      rw [← ahead, split]
      exact List.mem_append_right _ member
    constructor
    · intro feed
      obtain ⟨opener, t, line, same, member, string⟩ :=
        fault.exists_of_lineFeed_mem_short (fun t member => h.scanned t (among member)) feed
      exact ⟨opener, t, line, same, among member, string⟩
    · rintro ⟨opener, t, line, rfl, -, -, feed⟩
      rw [Diagnostic.lineFeed_mem_short_iff]
      exact (SyntaxError.lineFeed_mem_unclosed_iff opener t line).mpr feed
  · rw [parseWithin, readWithin_of_outside levels .expression (by omega)] at failed
    cases failed

theorem mem_of_peek {t : Token} (h : c.peek s = .ok t) : t ∈ s.tokens.toList := by
  unfold peek TokenStream.tokenAt at h
  split at h
  · cases h
  split at h
  · rename_i t' found
    cases h
    exact Array.mem_toList_iff.mpr (Array.mem_of_getElem? found)
  · cases h

/-- The token that a parse warns of is among the tokens of the stream. -/
theorem mem_of_warned {w : TrailingTokens}
    (h : w ∈ (c.parseWithin s levels).1.warnings.toList.drop c.warnings.size) :
    w.first ∈ s.tokens.toList := by
  have kept : (c.readWithin s levels .expression).1.warnings = c.warnings := by
    rw [readWithin_eq_position]
  unfold parseWithin at h
  split at h
  · rename_i reached e result
    rw [result] at kept
    dsimp only at kept
    unfold warnOfRest at h
    split at h
    · rename_i t peeked
      simp only [kept, Array.toList_push, Array.size_eq_length_toList, List.drop_left,
        List.mem_singleton] at h
      rw [h]
      exact mem_of_peek peeked
    · rw [kept, Array.size_eq_length_toList, List.drop_length] at h
      cases h
  · rename_i reached error result
    rw [result] at kept
    dsimp only at kept
    rw [kept, Array.size_eq_length_toList, List.drop_length] at h
    cases h

/-- A parse of the tokens of a source warns on one line, unless it is of a string over several
lines. -/
theorem lineFeed_mem_short_iff_of_warned (h : TokenStream.Reached source s) {w : TrailingTokens}
    (warned : w ∈ (c.parseWithin s levels).1.warnings.toList.drop c.warnings.size) :
    '\n' ∈ w.diagnostic.short.toList ↔
      w.first.kind = .string ∧ '\n' ∈ w.first.lexeme.toList := by
  refine w.lineFeed_mem_short_iff.trans ⟨fun feed => ⟨?_, feed⟩, And.right⟩
  exact (h.scanned _ (mem_of_warned warned)).eq_string_of_lineFeed feed

end Cursor

/-! ## Outputs -/

theorem LogRecord.lineFeed_mem_text_iff {r : LogRecord} (origin : '\n' ∉ r.origin.toList) :
    '\n' ∈ r.text.toList ↔ '\n' ∈ r.message.toList := by
  have level : '\n' ∉ r.level.name.toList := by
    cases r.level <;> decide
  simp [text, level, origin]

/-- Every string of a source is on one line, as far as its tokens are found. -/
def StringsOnOneLine (source : String) : Prop :=
  ∀ t ∈ (TokenStream.ofSource source).scan.1.tokens.toList, t.kind = .string →
    '\n' ∉ t.lexeme.toList

theorem scan_of_tokenize_error {source : String} {e : LexicalError}
    (h : tokenize source = .error e) : (TokenStream.ofSource source).scan.2 = .error e := by
  unfold tokenize at h
  split at h
  · cases h
  · rename_i s e' scanned
    cases h
    rw [scanned]

/-- A source that has no lexical error and no tree is read from the stream of its tokens. -/
theorem exists_parse_of_parseSource_grammatical {source : String} {e : SyntaxError}
    (h : parseSource source = .error (.grammatical e)) :
    ∃ after, Cursor.parse {} (TokenStream.ofSource source).scan.1 =
      (after, .error (.grammatical e)) := by
  unfold parseSource at h
  split at h
  · cases h
  · rename_i s scanned
    rw [scanned]
    exact ⟨_, Prod.ext rfl h⟩

namespace CommandLine

variable {source : String}

theorem lineFeed_not_mem_of_mem_stringRecords {r : LogRecord} (h : r ∈ stringRecords source) :
    '\n' ∉ r.text.toList := by
  obtain ⟨l, -, record⟩ := List.mem_filterMap.mp h
  cases l with
  | string contents =>
    cases record
    have scanner : '\n' ∉ "Scanner".toList := by decide
    have length := not_mem_integerText (c := '\n') (by decide) rfl contents.length
    rw [LogRecord.lineFeed_mem_text_iff scanner]
    show '\n' ∉ ("adding string with len " ++ integerText contents.length).toList
    simp [length]
  | _ => cases record

theorem lineFeed_not_mem_endRecord (tokens : Array Token) :
    '\n' ∉ (endRecord source tokens).text.toList := by
  have scanner : '\n' ∉ "Scanner".toList := by decide
  have number := not_mem_integerText (c := '\n') (by decide) rfl
  rw [LogRecord.lineFeed_mem_text_iff scanner]
  show '\n' ∉ ("scanned " ++ integerText tokens.size ++ " tokens over " ++
    integerText (1 + Text.lineFeeds source.toList) ++ " lines").toList
  simp [number]

/-- The records that reading a source leaves are on one line each where its strings are. -/
theorem lineFeed_not_mem_of_sourceLog {records : List LogRecord}
    (h : SourceLog source records) (strings : StringsOnOneLine source) :
    ∀ r ∈ records, '\n' ∉ r.text.toList := by
  cases h with
  | lexicalError _ => exact fun r member => lineFeed_not_mem_of_mem_stringRecords member
  | syntaxError _ _ =>
    refine List.forall_mem_append.mpr
      ⟨fun r member => lineFeed_not_mem_of_mem_stringRecords member, ?_⟩
    exact List.forall_mem_singleton.mpr (lineFeed_not_mem_endRecord _)
  | @tree tokens e ts rest scanned _ split _ =>
    refine List.forall_mem_append.mpr ⟨List.forall_mem_append.mpr
      ⟨fun r member => lineFeed_not_mem_of_mem_stringRecords member,
        List.forall_mem_singleton.mpr (lineFeed_not_mem_endRecord _)⟩, ?_⟩
    intro r member
    obtain ⟨t, head, rfl⟩ := Option.map_eq_some_iff.mp (Option.mem_toList.mp member)
    have found : t ∈ (TokenStream.ofSource source).scan.1.tokens.toList := by
      rw [(tokenize_eq_ok.mp scanned).2, split]
      exact List.mem_append_right _ (List.mem_of_mem_head? head)
    have begun : TokenStream.Reached source (TokenStream.ofSource source) := .start
    have parser : '\n' ∉ "Parser".toList := by decide
    rw [LogRecord.lineFeed_mem_text_iff parser]
    intro feed
    have feed := (TrailingTokens.mk t).lineFeed_mem_short_iff.mp feed
    exact strings t found ((begun.scan.scanned t found).eq_string_of_lineFeed feed) feed

/-- A complaint without `--verbose` is one line, where the strings of the source are, and there
is one just when the run fails. -/
theorem lineFeeds_complaint {text : String} (h : Complaint false source text)
    (strings : StringsOnOneLine source) : Text.lineFeeds text.toList = statusOf source := by
  have begun : TokenStream.Reached source (TokenStream.ofSource source) := .start
  have one {d : Diagnostic} (line : '\n' ∉ d.short.toList) :
      Text.lineFeeds (complain false d).toList = 1 :=
    lineFeeds_lines (List.forall_mem_singleton.mpr line)
  cases h with
  | none tree =>
    rw [statusOf, tree]
    rfl
  | lexical failed failure =>
    rw [statusOf, failure]
    exact one (begun.lineFeed_not_mem_short (scan_of_tokenize_error failed))
  | @grammatical tokens e scanned failure =>
    rw [statusOf, failure]
    refine one fun feed => ?_
    obtain ⟨after, failed⟩ := exists_parse_of_parseSource_grammatical failure
    obtain ⟨opener, t, line, -, member, string, feeds⟩ :=
      (Cursor.lineFeed_mem_short_iff_of_parseWithin begun.scan failed).mp feed
    exact strings t member string feeds

/-- Where the strings of a source are on one line each, a run without `--verbose` writes one
line for each record that it shows, and one more if it fails. -/
theorem lineFeeds_stderr {o : Options} {records : List LogRecord} {r : Report}
    (answers : r.Answers o source records) (log : SourceLog source records)
    (brief : o.verbose = false) (strings : StringsOnOneLine source) :
    Text.lineFeeds r.stderr.toList =
      (LogRecord.shownAt o.logLevel records).length + r.status := by
  obtain ⟨text, complaint, stderr⟩ := answers.stderr
  rw [brief] at complaint
  have shown : ∀ text ∈ (LogRecord.shownAt o.logLevel records).map LogRecord.text,
      '\n' ∉ text.toList := by
    intro text member
    obtain ⟨record, among, rfl⟩ := List.mem_map.mp member
    exact lineFeed_not_mem_of_sourceLog log strings record (List.mem_of_mem_filter among)
  rw [stderr, String.toList_append, Text.lineFeeds_append, lineFeeds_complaint complaint strings,
    logText, lineFeeds_lines shown, List.length_map, answers.status]

end CommandLine

/-- Short forms are on one line but for strings. Every lexical error of a source is reported on
one line. A syntax error is, unless it names a string over several lines that stands where a
parenthesis should be closed, and a warning is, unless it names such a string behind a complete
expression. Where the strings of the source keep to one line each, a run without `--verbose`
writes one line for each record that it shows and one more if it fails. -/
theorem short_form_lines (source : String) :
    (∀ (s : TokenStream) (e : LexicalError), TokenStream.Reached source s →
      s.scan.2 = .error e → '\n' ∉ e.diagnostic.short.toList) ∧
    (∀ (s : TokenStream) (c after : Cursor) (levels : Nat) (e : SyntaxError),
      TokenStream.Reached source s →
      c.parseWithin s levels = (after, .error (.grammatical e)) →
      ('\n' ∈ e.diagnostic.short.toList ↔ ∃ opener t line,
        e = .unclosedDelimiter opener (some t) line ∧ t ∈ s.tokens.toList ∧ t.kind = .string ∧
          '\n' ∈ t.lexeme.toList)) ∧
    (∀ (s : TokenStream) (c : Cursor) (levels : Nat) (w : TrailingTokens),
      TokenStream.Reached source s →
      w ∈ (c.parseWithin s levels).1.warnings.toList.drop c.warnings.size →
      ('\n' ∈ w.diagnostic.short.toList ↔
        w.first.kind = .string ∧ '\n' ∈ w.first.lexeme.toList)) ∧
    ∀ (d : CommandLine.Directory) (arguments : List String) (o : CommandLine.Options),
      d.Holds o.source source → CommandLine.Invocation.ofArguments arguments = .ok (.run o) →
      o.verbose = false → StringsOnOneLine source →
      ∃ records r, SourceLog source records ∧ CommandLine.run d arguments = .ok r ∧
        Text.lineFeeds r.stderr.toList =
          (LogRecord.shownAt o.logLevel records).length + r.status := by
  refine ⟨fun s e reached failed => reached.lineFeed_not_mem_short failed, ?_, ?_, ?_⟩
  · intro s c after levels e reached failed
    exact Cursor.lineFeed_mem_short_iff_of_parseWithin reached failed
  · intro s c levels w reached warned
    exact Cursor.lineFeed_mem_short_iff_of_warned reached warned
  · intro d arguments o held asked brief strings
    obtain ⟨records, log, answers⟩ := CommandLine.exists_sourceLog_answers source
    exact ⟨records, _, log, CommandLine.run_of_asked asked held,
      CommandLine.lineFeeds_stderr (answers o) log brief strings⟩

/-- A letter in error, a number where a parenthesis should be closed, and a number behind a
complete expression are each named on one line. -/
theorem short_form_lines_number :
    let paren : Token := ⟨.leftParen, "(", .absent, 1⟩
    let two : Token := ⟨.number, "2", .number (.ofDecimal ⟨2, 0⟩), 1⟩
    let d : CommandLine.Directory := [(["e.lox"], .file [0x31, 0x20, 0x32])]
    (TokenStream.ofSource "@").scan.2 = .error (.unrecognized '@' 1) ∧
      '\n' ∉ (LexicalError.unrecognized '@' 1).diagnostic.short.toList ∧
      (Cursor.parse {} (TokenStream.ofSource "(1 2").scan.1).2 =
        .error (.grammatical (.unclosedDelimiter paren (some two) 1)) ∧
      '\n' ∉ (SyntaxError.unclosedDelimiter paren (some two) 1).diagnostic.short.toList ∧
      (Cursor.parse {} (TokenStream.ofSource "1 2").scan.1).1.warnings = #[⟨two⟩] ∧
      '\n' ∉ (TrailingTokens.mk two).diagnostic.short.toList ∧
      ∃ records r, SourceLog "1 2" records ∧ CommandLine.run d ["e.lox"] = .ok r ∧
        Text.lineFeeds r.stderr.toList =
          (LogRecord.shownAt .warning records).length + r.status := by
  intro paren two d
  have begun (source : String) : TokenStream.Reached source (TokenStream.ofSource source) :=
    .start
  have lexical : (TokenStream.ofSource "@").scan.2 = .error (.unrecognized '@' 1) := by
    decide +kernel
  have failed : Cursor.parse {} (TokenStream.ofSource "(1 2").scan.1 =
      (⟨2, #[], 100⟩, .error (.grammatical (.unclosedDelimiter paren (some two) 1))) := by
    decide +kernel
  have warned : (Cursor.parse {} (TokenStream.ofSource "1 2").scan.1).1.warnings = #[⟨two⟩] := by
    decide +kernel
  have among : TrailingTokens.mk two ∈ ((Cursor.parse {}
      (TokenStream.ofSource "1 2").scan.1).1.warnings.toList.drop 0) := by
    rw [warned]
    exact List.mem_singleton_self _
  have held : d.Holds "e.lox" "1 2" := ⟨by simp, _, by rfl, by rfl⟩
  have strings : StringsOnOneLine "1 2" := by
    unfold StringsOnOneLine
    decide +kernel
  refine ⟨lexical, ?_, congrArg Prod.snd failed, ?_, warned, ?_, ?_⟩
  · exact (short_form_lines "@").1 _ _ (begun _) lexical
  · rw [(short_form_lines "(1 2").2.1 _ _ _ _ _ (begun _).scan failed]
    rintro ⟨_, _, _, same, -, string, -⟩
    cases same
    cases string
  · rw [(short_form_lines "1 2").2.2.1 _ {} (Cursor.levels {}) _ (begun _).scan among]
    rintro ⟨string, -⟩
    cases string
  · exact (short_form_lines "1 2").2.2.2 d ["e.lox"] { source := "e.lox" } held (by rfl) rfl strings

/-- Strings over two lines are named on two lines: one that stands where a parenthesis should be
closed, and one behind a complete expression. -/
theorem short_form_over_lines :
    let paren : Token := ⟨.leftParen, "(", .absent, 1⟩
    let string : Token := ⟨.string, "\"a\nb\"", .text "a\nb", 2⟩
    let e : SyntaxError := .unclosedDelimiter paren (some string) 2
    parseSource "(1 \"a\nb\"" = .error (.grammatical e) ∧
      e.diagnostic.short = "[Line 2] Expected ')' after expression, found '\"a\nb\"'" ∧
      (Cursor.parse {} (TokenStream.ofSource "1 \"a\nb\"").scan.1).1.warnings = #[⟨string⟩] ∧
      (TrailingTokens.mk string).diagnostic.short =
        "[Line 2] Ignoring tokens after complete expression, starting at '\"a\nb\"'" ∧
      ¬ ∀ (source : String) (error : SyntaxError),
        parseSource source = .error (.grammatical error) →
        '\n' ∉ error.diagnostic.short.toList := by
  intro paren string e
  have failed : parseSource "(1 \"a\nb\"" = .error (.grammatical e) := by decide +kernel
  have short : e.diagnostic.short =
      "[Line 2] Expected ')' after expression, found '\"a\nb\"'" := by decide +kernel
  refine ⟨failed, short, by decide +kernel, by decide +kernel, fun always => ?_⟩
  have line := always _ _ failed
  rw [short] at line
  exact line (by decide)

end LoxSyntax
