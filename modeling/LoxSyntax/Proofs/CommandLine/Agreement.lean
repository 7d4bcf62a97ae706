import LoxSyntax.CommandLine.Run
import LoxSyntax.Proofs.Grammar.Extent
import LoxSyntax.Proofs.Grammar.Soundness
import LoxSyntax.Proofs.TokenStream.History

/-!
# Runs agree with the reading of a source

A run scans and parses in steps of its own, with outputs between them. What it leaves is
settled by `tokenize` and `parseSource` of the source and by the log that reading it leaves
(`SourceLog`), and each option has a part of its own in that (`Report.Answers`): the listing
of the tokens depends on `--tokens` alone, the choice of the records on `--log-level`, the
form of the complaint on `--verbose`, and the status on none of them.

* `exists_sourceLog_answers`: every run on a source answers with one and the same log.
* `ofArguments_arguments`: every combination of options can be asked for.
* `run_agrees`: the runs of all command lines on a file that can be read.
-/

namespace LoxSyntax

/-! ## The log of a source -/

/-- The record that reading a lexeme leaves: that of a string, with its length. -/
def Lexeme.record? : Lexeme → Option LogRecord
  | .string contents =>
    some ⟨.debug, "Scanner", "adding string with len " ++ integerText contents.length⟩
  | _ => none

/-- The records of the strings that stand before the first lexical error of a source. -/
def stringRecords (source : String) : List LogRecord :=
  ((Lexeme.cut source.toList).takeWhile fun l => l.class?.isSome).filterMap Lexeme.record?

/-- The record of the end of a source that has these tokens. -/
def endRecord (source : String) (tokens : Array Token) : LogRecord :=
  ⟨.debug, "Scanner", "scanned " ++ integerText tokens.size ++ " tokens over " ++
    integerText (1 + Text.lineFeeds source.toList) ++ " lines"⟩

/-- `SourceLog source records`: reading the source leaves these records, in this order. The
strings come first; then, without a lexical error, the end of the source; and then, with
tokens left over behind a tree, the warning of the first of them. -/
inductive SourceLog (source : String) : List LogRecord → Prop
  | lexicalError {e : LexicalError} :
    tokenize source = .error e → SourceLog source (stringRecords source)
  | syntaxError {tokens : Array Token} {f : Failure} :
    tokenize source = .ok tokens → parseSource source = .error f →
    SourceLog source (stringRecords source ++ [endRecord source tokens])
  | tree {tokens : Array Token} {e : Expr} {ts rest : List Token} :
    tokenize source = .ok tokens → parseSource source = .ok e →
    tokens.toList = ts ++ rest → e.Spells ts →
    SourceLog source (stringRecords source ++ [endRecord source tokens] ++
      (rest.head?.map fun t => Cursor.recordOf ⟨t⟩).toList)

namespace TokenStream

/-- A token leaves the record of its lexeme. -/
theorem recordOf?_token? (l : Lexeme) (line : Int) :
    (l.token? line).bind recordOf? = l.record? := by
  cases l with
  | mark kind spelling => cases kind <;> rfl
  | string contents => simp [Lexeme.token?, Lexeme.meaning?, Lexeme.record?, recordOf?]
  | word letters =>
    rw [Lexeme.token?, Lexeme.meaning?, Lexeme.wordMeaning]
    split <;> rfl
  | _ => rfl

/-- The tokens that a scan finds leave the records of the lexemes before the first one in
error. -/
theorem exists_tokens_readAll (s : TokenStream) (lexemes : List Lexeme) :
    ∃ found, (s.readAll lexemes).1.tokens.toList = s.tokens.toList ++ found ∧
      found.filterMap recordOf? =
        (lexemes.takeWhile fun l => l.class?.isSome).filterMap Lexeme.record? := by
  induction lexemes generalizing s with
  | nil => exact ⟨[], by simp [readAll], rfl⟩
  | cons l rest ih =>
    have token := recordOf?_token? l (s.line + Text.lineFeeds l.spelling)
    cases wrong : l.error? (s.accept l rest).line with
    | some e =>
      rw [readAll_of_error wrong, tokens_accept]
      refine ⟨_, rfl, ?_⟩
      cases l with
      | unrecognized letter => rfl
      | unclosed contents => rfl
      | _ => cases wrong
    | none =>
      obtain ⟨k, sound⟩ := Lexeme.error?_eq_none_iff.mp wrong
      obtain ⟨found, tokens, records⟩ := ih (s.accept l rest)
      rw [readAll_of_no_error wrong, tokens, tokens_accept, List.append_assoc]
      refine ⟨_, rfl, ?_⟩
      rw [List.filterMap_append, records, List.takeWhile_cons_of_pos (by simp [sound]),
        ← List.singleton_append, List.filterMap_append]
      congr 1
      rw [List.filterMap_cons, List.filterMap_nil, ← token]
      cases l.token? (s.line + Text.lineFeeds l.spelling) with
      | none => rfl
      | some t => cases found : recordOf? t <;> simp [found]

/-- The tokens that the scan of a source finds leave the records of its strings. -/
theorem filterMap_recordOf?_scan (source : String) :
    (ofSource source).scan.1.tokens.toList.filterMap recordOf? = stringRecords source := by
  obtain ⟨found, tokens, records⟩ :=
    (ofSource source).exists_tokens_readAll (Lexeme.cut source.toList)
  rw [stringRecords, ← records]
  exact congrArg _ tokens

theorem scanLog_of_error {source : String} {s : TokenStream} {e : LexicalError}
    (h : (ofSource source).scan = (s, .error e)) :
    scanLog (ofSource source) (s, .error e) = stringRecords source := by
  rw [← filterMap_recordOf?_scan, h]
  rfl

/-- A scan without an error ends on the last line of the source. -/
theorem line_of_scan_ok {source : String} (h : (ofSource source).scan.2 = .ok ()) :
    (ofSource source).scan.1.line = 1 + Text.lineFeeds source.toList := by
  have history := History.of_scan_ok h
  rw [history.line, history.position, Lexeme.flatMap_spelling_cut, Text.lineAt_length]

theorem scanLog_of_ok {source : String} {s : TokenStream}
    (h : (ofSource source).scan = (s, .ok ())) :
    scanLog (ofSource source) (s, .ok ()) =
      stringRecords source ++ [endRecord source s.tokens] := by
  have strings := filterMap_recordOf?_scan source
  have line := line_of_scan_ok (congrArg Prod.snd h)
  rw [h] at strings line
  rw [← strings, endRecord, ← line]
  rfl

end TokenStream

namespace Cursor

variable {c after : Cursor} {s : TokenStream}

/-- A parse that fails leaves no record. -/
theorem parseLog_of_error {f : Failure} (h : c.parse s = (after, .error f)) :
    parseLog c after = [] := by
  have kept := c.readWithin_eq_position s c.levels .expression
  unfold parse parseWithin at h
  split at h
  · cases h
  · rename_i reached error result
    cases h
    rw [result] at kept
    have warnings := congrArg Cursor.warnings kept
    unfold parseLog
    rw [warnings, Array.size_eq_length_toList, List.drop_length]
    rfl

/-- A parse that gives a tree leaves the record of the first token behind it, if there is
one. -/
theorem parseLog_of_ok {e : Expr} (h : c.parse s = (after, .ok e)) :
    ∃ ts rest, c.ahead s = ts ++ rest ∧ e.Spells ts ∧
      parseLog c after = (rest.head?.map fun t => recordOf ⟨t⟩).toList := by
  obtain ⟨reached, read, rfl⟩ := parse_eq_ok h
  obtain ⟨starts, -, used, parsed, rfl⟩ := readWithin_eq_ok read
  obtain ⟨ts, rest, split, rfl, phrase, -⟩ := Nonterminal.sound _ _ _ _ _ _ parsed
  refine ⟨ts, rest, split, phrase.spells, ?_⟩
  have behind : ahead { c with position := c.position + ts.length } s = rest := by
    have place : (c.position + ts.length).toNat = c.position.toNat + ts.length := by omega
    unfold ahead at split ⊢
    rw [place, ← List.drop_drop, split, List.drop_left]
  rw [warnOfRest_eq (by dsimp only; omega), behind]
  unfold parseLog
  cases rest <;> simp

end Cursor

/-! ## What a run leaves -/

/-- A lexical error of a source takes precedence over any other failure. -/
theorem parseSource_of_tokenize_error {source : String} {e : LexicalError}
    (h : tokenize source = .error e) : parseSource source = .error (.lexical e) := by
  unfold tokenize at h
  unfold parseSource
  split at h
  · cases h
  · rename_i s e' scanned
    cases h
    rw [scanned]

/-- A source without a lexical error fails for its tokens, if it fails. -/
theorem eq_grammatical_of_parseSource {source : String} {tokens : Array Token} {f : Failure}
    (scanned : tokenize source = .ok tokens) (h : parseSource source = .error f) :
    ∃ e, f = .grammatical e := by
  unfold tokenize at scanned
  unfold parseSource at h
  split at h
  · rename_i s e scan
    rw [scan] at scanned
    cases scanned
  · rename_i s scan
    have start : Cursor.Within {} s := ⟨Int.le_refl 0, Int.natCast_nonneg _⟩
    rcases (Cursor.parse_advances start).2 with tree | failed
    · obtain ⟨e, tree⟩ := tree
      cases tree.symm.trans h
    · obtain ⟨e, failed⟩ := failed
      cases failed.symm.trans h
      exact ⟨e, rfl⟩

namespace CommandLine

/-- The status of a run: zero just when the source has a tree. -/
def statusOf (source : String) : Nat :=
  match parseSource source with
  | .ok _ => 0
  | .error _ => 1

/-- The listing of the tokens, if it is asked for and the source has tokens. -/
def listingOf (asked : Bool) (source : String) : String :=
  match tokenize source with
  | .ok tokens => if asked then lines (tokens.toList.map Token.listing) else ""
  | .error _ => ""

/-- The tree of a source in prefix form, if it has one. -/
def printedOf (source : String) : String :=
  match parseSource source with
  | .ok e => lines [e.printed]
  | .error _ => ""

/-- `Complaint verbose source text`: the text is all that is said about what is wrong with a
source. Nothing is said about a source that has a tree, and one error is reported of any
other: a lexical one where there is one. -/
inductive Complaint (verbose : Bool) (source : String) : String → Prop
  | none {e : Expr} : parseSource source = .ok e → Complaint verbose source ""
  | lexical {e : LexicalError} :
    tokenize source = .error e → parseSource source = .error (.lexical e) →
    Complaint verbose source (complain verbose e.diagnostic)
  | grammatical {tokens : Array Token} {e : SyntaxError} :
    tokenize source = .ok tokens → parseSource source = .error (.grammatical e) →
    Complaint verbose source (complain verbose e.diagnostic)

theorem Complaint.unique {verbose : Bool} {source text text' : String}
    (h : Complaint verbose source text) (h' : Complaint verbose source text') : text = text' := by
  cases h with
  | none tree =>
    cases h' with
    | none _ => rfl
    | lexical _ failed => cases tree.symm.trans failed
    | grammatical _ failed => cases tree.symm.trans failed
  | lexical _ failed =>
    cases h' with
    | none tree => cases tree.symm.trans failed
    | lexical _ failed' =>
      cases failed.symm.trans failed'
      rfl
    | grammatical _ failed' => cases failed.symm.trans failed'
  | grammatical _ failed =>
    cases h' with
    | none tree => cases tree.symm.trans failed
    | lexical _ failed' => cases failed.symm.trans failed'
    | grammatical _ failed' =>
      cases failed.symm.trans failed'
      rfl

/-- What a run with some options leaves for a source whose log has these records. -/
structure Report.Answers (o : Options) (source : String) (records : List LogRecord)
    (r : Report) : Prop where
  status : r.status = statusOf source
  stdout : r.stdout = listingOf o.tokens source ++ printedOf source
  stderr : ∃ text, Complaint o.verbose source text ∧ r.stderr = logText o records ++ text

theorem processSource_of_error {o : Options} {source : String} {s : TokenStream}
    {e : LexicalError} (scan : (TokenStream.ofSource source).scan = (s, .error e)) :
    processSource o source =
      { status := 1
        stderr := logText o (stringRecords source) ++ complain o.verbose e.diagnostic } := by
  unfold processSource
  simp only [scan, TokenStream.scanLog_of_error scan]

section Scanned

variable {o : Options} {source : String} {s : TokenStream} {after : Cursor}

theorem processSource_of_failed {e : SyntaxError}
    (scan : (TokenStream.ofSource source).scan = (s, .ok ()))
    (parse : Cursor.parse {} s = (after, .error (.grammatical e))) :
    processSource o source =
      { status := 1
        stdout := if o.tokens then lines s.listing else ""
        stderr := logText o (stringRecords source ++ [endRecord source s.tokens]) ++
          complain o.verbose e.diagnostic } := by
  have log := Cursor.parseLog_of_error parse
  unfold processSource
  simp only [scan, parse, log, TokenStream.scanLog_of_ok scan, List.append_nil, failureText]

theorem processSource_of_parsed {e : Expr}
    (scan : (TokenStream.ofSource source).scan = (s, .ok ()))
    (parse : Cursor.parse {} s = (after, .ok e)) :
    processSource o source =
      { status := 0
        stdout := (if o.tokens then lines s.listing else "") ++ lines [e.printed]
        stderr := logText o (stringRecords source ++ [endRecord source s.tokens] ++
          Cursor.parseLog {} after) } := by
  unfold processSource
  simp only [scan, parse, TokenStream.scanLog_of_ok scan]

end Scanned

/-- Every run on a source answers with one and the same log, which is that of the source. -/
theorem exists_sourceLog_answers (source : String) :
    ∃ records, SourceLog source records ∧
      ∀ o, (processSource o source).Answers o source records := by
  cases scan : (TokenStream.ofSource source).scan with
  | mk s scanned =>
  cases scanned with
  | error e =>
    have tokens : tokenize source = .error e := by rw [tokenize, scan]
    have failure := parseSource_of_tokenize_error tokens
    refine ⟨_, .lexicalError tokens, fun o => ?_⟩
    rw [processSource_of_error scan]
    refine ⟨?_, ?_, _, .lexical tokens failure, rfl⟩
    · rw [statusOf, failure]
    · rw [listingOf, tokens, printedOf, failure]
      rfl
  | ok done =>
    have tokens : tokenize source = .ok s.tokens := by rw [tokenize, scan]
    have listing (o : Options) : listingOf o.tokens source =
        if o.tokens then lines s.listing else "" := by
      rw [listingOf, tokens]
      rfl
    cases parse : Cursor.parse {} s with
    | mk after result =>
    have outcome : parseSource source = result := by
      rw [parseSource, scan]
      exact congrArg Prod.snd parse
    cases result with
    | error f =>
      obtain ⟨e, rfl⟩ := eq_grammatical_of_parseSource tokens outcome
      refine ⟨_, .syntaxError tokens outcome, fun o => ?_⟩
      rw [processSource_of_failed scan parse]
      refine ⟨?_, ?_, _, .grammatical tokens outcome, rfl⟩
      · rw [statusOf, outcome]
      · rw [printedOf, outcome, listing, String.append_empty]
    | ok e =>
      obtain ⟨ts, rest, split, spells, log⟩ := Cursor.parseLog_of_ok parse
      refine ⟨_, .tree tokens outcome split spells, fun o => ?_⟩
      rw [processSource_of_parsed scan parse, log]
      refine ⟨?_, ?_, _, .none outcome, String.append_empty.symm⟩
      · rw [statusOf, outcome]
      · rw [printedOf, outcome, listing]

theorem Report.Answers.congr {o o' : Options} {source : String} {records : List LogRecord}
    {r r' : Report} (h : r.Answers o source records) (h' : r'.Answers o' source records) :
    r.status = r'.status ∧ (o.tokens = o'.tokens → r.stdout = r'.stdout) ∧
      (o.logLevel = o'.logLevel → o.verbose = o'.verbose → r.stderr = r'.stderr) := by
  refine ⟨h.status.trans h'.status.symm, fun tokens => ?_, fun level verbose => ?_⟩
  · rw [h.stdout, h'.stdout, tokens]
  · obtain ⟨text, complaint, stderr⟩ := h.stderr
    obtain ⟨text', complaint', stderr'⟩ := h'.stderr
    rw [← verbose] at complaint'
    rw [stderr, stderr', complaint.unique complaint', logText, logText, level]

/-! ## Command lines -/

/-- A command line that asks for a run with these options. The source stands behind a
separator, so that it is no option whatever it starts with. -/
def Options.arguments (o : Options) : List String :=
  (if o.tokens then [Switch.tokens.longName] else []) ++
    ((if o.verbose then [Switch.verbose.longName] else []) ++
      [Switch.logLevel.longName, o.logLevel.name, "--", o.source])

theorem classifyAll_cons {argument : String} {sorted : Argument} {rest : List String}
    (h : Argument.classify argument = .ok sorted) (other : sorted ≠ .separator) :
    Argument.classifyAll (argument :: rest) =
      (Argument.classifyAll rest).map (sorted :: ·) := by
  rw [Argument.classifyAll, h]
  cases sorted with
  | separator => exact absurd rfl other
  | _ => rfl

theorem classify_level (level : LogLevel) :
    Argument.classify level.name = .ok (.operand level.name) := by
  cases level <;> rfl

/-- An option that may be left out is sorted where it stands. -/
theorem classifyAll_if {argument : String} {sorted : Argument} {rest : List String}
    {later : List Argument} (asked : Bool) (h : Argument.classify argument = .ok sorted)
    (other : sorted ≠ .separator) (behind : Argument.classifyAll rest = .ok later) :
    Argument.classifyAll ((if asked then [argument] else []) ++ rest) =
      .ok ((if asked then [sorted] else []) ++ later) := by
  cases asked with
  | false => exact behind
  | true =>
    simp only [if_true, List.singleton_append]
    rw [classifyAll_cons h other, behind]
    rfl

/-- Every combination of options can be asked for. -/
theorem ofArguments_arguments (o : Options) :
    Invocation.ofArguments o.arguments = .ok (.run o) := by
  have tokens : Argument.classify Switch.tokens.longName = .ok (.long .tokens none) := rfl
  have verbose : Argument.classify Switch.verbose.longName = .ok (.long .verbose none) := rfl
  have level : Argument.classify Switch.logLevel.longName = .ok (.long .logLevel none) := rfl
  have named : Argument.classifyAll ["--", o.source] = .ok [.separator, .operand o.source] := rfl
  have leveled : Argument.classifyAll [Switch.logLevel.longName, o.logLevel.name, "--", o.source] =
      .ok [.long .logLevel none, .operand o.logLevel.name, .separator, .operand o.source] := by
    rw [classifyAll_cons level nofun, classifyAll_cons (classify_level _) nofun, named]
    rfl
  have sorted := classifyAll_if o.tokens tokens nofun
    (classifyAll_if o.verbose verbose nofun leveled)
  have set (g : Gathered) :
      g.setLevel o.logLevel.name = .ok { g with logLevel := some o.logLevel } := by
    rw [Gathered.setLevel, LogLevel.ofName?_name]
  rw [Invocation.ofArguments, Options.arguments, sorted]
  obtain ⟨source, tokens, logLevel, verbose⟩ := o
  cases tokens <;> cases verbose <;> simp [take, set, Gathered.conclude]

/-! ## Runs -/

/-- The directory holds a file at the path, and the text of the file is the source. -/
structure Directory.Holds (d : Directory) (path source : String) : Prop where
  named : path.contains '\x00' = false
  decoded : ∃ bytes, d.read path = .ok bytes ∧ decodeSource bytes = .ok source

/-- The command line asks for a run with these options, on the file that they name, and the
run leaves the report. -/
structure Leaves (d : Directory) (arguments : List String) (o : Options) (r : Report) : Prop where
  asked : Invocation.ofArguments arguments = .ok (.run o)
  left : run d arguments = .ok r

theorem run_of_asked {d : Directory} {source : String} {arguments : List String} {o : Options}
    (asked : Invocation.ofArguments arguments = .ok (.run o)) (held : d.Holds o.source source) :
    run d arguments = .ok (processSource o source) := by
  obtain ⟨bytes, found, decoded⟩ := held.decoded
  have planned : plan arguments = .ok (.inr o) := by
    simp only [plan, asked, held.named, Bool.false_eq_true, if_false]
  have read : (d.read o.source).bind decodeSource = .ok source := by
    rw [found]
    exact decoded
  rw [run, planned]
  show Except.ok (process o (d.read o.source)) = _
  rw [process, read]

/-- The runs on a file that can be read, whatever command lines ask for them: each of them
finishes and leaves what the reading of the source gives, every combination of options has
such a run, and of two runs those parts agree whose options do. -/
theorem run_agrees (d : Directory) (path source : String) (held : d.Holds path source) :
    ∃ records, SourceLog source records ∧
      (∀ arguments o, Invocation.ofArguments arguments = .ok (.run o) → o.source = path →
        ∃ r, run d arguments = .ok r ∧ r.Answers o source records) ∧
      (∀ o : Options, o.source = path → ∃ arguments r, Leaves d arguments o r) ∧
      ∀ arguments arguments' o o' r r', Leaves d arguments o r → Leaves d arguments' o' r' →
        o.source = path → o'.source = path →
        r.status = r'.status ∧ (o.tokens = o'.tokens → r.stdout = r'.stdout) ∧
          (o.logLevel = o'.logLevel → o.verbose = o'.verbose → r.stderr = r'.stderr) := by
  obtain ⟨records, log, answers⟩ := exists_sourceLog_answers source
  have report {arguments : List String} {o : Options}
      (asked : Invocation.ofArguments arguments = .ok (.run o)) (named : o.source = path) :
      run d arguments = .ok (processSource o source) := by
    subst named
    exact run_of_asked asked held
  have answered {arguments : List String} {o : Options} {r : Report}
      (leaves : Leaves d arguments o r) (named : o.source = path) :
      r.Answers o source records := by
    cases (report leaves.asked named).symm.trans leaves.left
    exact answers o
  refine ⟨records, log, ?_, ?_, ?_⟩
  · intro arguments o asked named
    exact ⟨_, report asked named, answers o⟩
  · intro o named
    have asked := ofArguments_arguments o
    exact ⟨_, _, asked, report asked named⟩
  · intro arguments arguments' o o' r r' leaves leaves' named named'
    exact (answered leaves named).congr (answered leaves' named')

/-- A file with a line end of two letters; its run lists the tokens, prints the first one
and warns of the second. -/
theorem run_agrees_listing :
    let d : Directory := [(["e.lox"], .file [0x31, 0x0D, 0x0A, 0x32])]
    d.Holds "e.lox" "1\n2" ∧
      run d ["--tok", "e.lox"] = .ok ⟨0, "   1 NUMBER('1' -> 1.0)\n   2 NUMBER('2' -> 2.0)\n1\n",
        "WARNING Parser: [Line 2] Ignoring tokens after complete expression, starting at '2'\n"⟩ ∧
      ∃ records, SourceLog "1\n2" records ∧
        ∃ r, run d ["--tok", "e.lox"] = .ok r ∧
          r.Answers { source := "e.lox", tokens := true } "1\n2" records := by
  have held : Directory.Holds [(["e.lox"], .file [0x31, 0x0D, 0x0A, 0x32])] "e.lox" "1\n2" :=
    ⟨by simp, _, by rfl, by rfl⟩
  refine ⟨held, ?_, ?_⟩
  · rw [run_of_asked (by rfl) held]
    exact congrArg Except.ok (by decide +kernel)
  · obtain ⟨records, log, answers, -⟩ := run_agrees _ _ _ held
    exact ⟨records, log, answers ["--tok", "e.lox"] _ (by rfl) rfl⟩

end CommandLine

end LoxSyntax
