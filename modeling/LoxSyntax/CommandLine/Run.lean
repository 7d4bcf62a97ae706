import LoxSyntax.CommandLine.Arguments
import LoxSyntax.CommandLine.Directory
import LoxSyntax.Cursor
import LoxSyntax.Expr.Printed

/-!
# Runs of the command line

A run reads one source file and prints the tree of the expression in it. Errors
and log records go to the error output, and the exit status tells whether the
source was read. With `--tokens` the tokens are listed first, as soon as the
source has been scanned. A command line that is well formed may still ask for a
run that cannot start, and then there is no report.

* `StartError` is why a run cannot start.
* `process` is the run on a source that may or may not have been read.
* `run` is the whole run in a directory.
-/

namespace LoxSyntax.CommandLine

/-- What a run leaves: its exit status and its two outputs. -/
structure Report where
  status : Nat
  stdout : String := ""
  stderr : String := ""
deriving DecidableEq, Repr

/-- Why a run cannot start. -/
inductive StartError
  /-- The log has no level. -/
  | missingLevel
  /-- The path of the source holds the null character, which no path can hold. -/
  | nullInPath
deriving DecidableEq, Repr

/-- The wording of why a run cannot start. -/
def StartError.message : StartError → String
  | missingLevel => "attribute name must be string, not 'list'"
  | nullInPath => "embedded null byte"

/-- Lines as they stand in an output. -/
def lines (texts : List String) : String :=
  String.join (texts.map (· ++ "\n"))

theorem toList_lines_cons (text : String) (texts : List String) :
    (lines (text :: texts)).toList = text.toList ++ '\n' :: (lines texts).toList := by
  simp [lines, String.toList_join]

/-- Texts without line feeds take a line each. -/
theorem lineFeeds_lines {texts : List String} (h : ∀ text ∈ texts, '\n' ∉ text.toList) :
    Text.lineFeeds (lines texts).toList = texts.length := by
  induction texts with
  | nil => rfl
  | cons text texts ih =>
    obtain ⟨first, later⟩ := List.forall_mem_cons.mp h
    have none : Text.lineFeeds text.toList = 0 := List.count_eq_zero.mpr first
    have feed : Text.lineFeeds ['\n'] = 1 := rfl
    rw [toList_lines_cons, ← List.singleton_append, Text.lineFeeds_append, Text.lineFeeds_append,
      ih later, none, feed, List.length_cons]
    omega

/-- The complaint about a diagnostic: the whole report, or the short form. -/
def complain (verbose : Bool) (d : Diagnostic) : String :=
  if verbose then d.report else lines [d.short]

/-- The diagnostic of a failure to read a source. A cursor at the start of the
tokens is never out of range. -/
def failureText (verbose : Bool) : Failure → String
  | .lexical e => complain verbose e.diagnostic
  | .grammatical e => complain verbose e.diagnostic
  | .outOfRange e => lines [e.message]

/-- The part of a log that is shown. -/
def logText (o : Options) (records : List LogRecord) : String :=
  lines ((LogRecord.shownAt o.logLevel records).map LogRecord.text)

/-- The run on the text of a source file. -/
def processSource (o : Options) (source : String) : Report :=
  let start := TokenStream.ofSource source
  let (stream, scanned) := start.scan
  let scanLog := TokenStream.scanLog start (stream, scanned)
  match scanned with
  | .error e => { status := 1, stderr := logText o scanLog ++ complain o.verbose e.diagnostic }
  | .ok () =>
    let listing := if o.tokens then lines stream.listing else ""
    let cursor : Cursor := {}
    let (after, result) := cursor.parse stream
    let log := logText o (scanLog ++ Cursor.parseLog cursor after)
    match result with
    | .ok e => { status := 0, stdout := listing ++ lines [e.printed], stderr := log }
    | .error e => { status := 1, stdout := listing, stderr := log ++ failureText o.verbose e }

/-- The run on the bytes of a source file, or on the reason that there are none. A log at the
level `DEBUG` also tells that the reading failed, with the trace of the interpreter; that
record is left out. -/
def process (o : Options) (bytes : Except ReadError (List UInt8)) : Report :=
  match bytes.bind decodeSource with
  | .ok source => processSource o source
  | .error e =>
    { status := 1
      stderr := lines ["rlox: cannot read '" ++ o.source ++ "': " ++ e.message o.source] }

/-- What a command line asks for before any file is read: a finished report, or a
run on a source file. The level of the log is looked at before the path. -/
def plan (arguments : List String) : Except StartError (Report ⊕ Options) :=
  match Invocation.ofArguments arguments with
  | .error e => .ok (.inl { status := 2, stderr := complaint e })
  | .ok .help => .ok (.inl { status := 0, stdout := helpText })
  | .ok .withoutLevel => .error .missingLevel
  | .ok (.run o) => if o.source.contains '\x00' then .error .nullInPath else .ok (.inr o)

/-- The run of a command line in a directory. -/
def run (d : Directory) (arguments : List String) : Except StartError Report :=
  (plan arguments).map fun
    | .inl report => report
    | .inr o => process o (d.read o.source)

end LoxSyntax.CommandLine
