import LoxSyntax.Log
import LoxSyntax.Text.DecimalDigit
import LoxSyntax.Text.Quoted

/-!
# Command line arguments

The command line names one source file and may hold options anywhere. A long
option may be cut short to any beginning that fits no other option, and takes a
value after an equals sign or, where it needs one, from the next argument. Two
dashes end the options.

Every argument is first sorted by its form alone, and then the sorted arguments
are taken from left to right. The first mistake in a known option stops the
reading, and so does a request for help. Arguments that fit nowhere are collected
and refused at the end.

* `Argument.classify` sorts one argument.
* `Invocation.ofArguments` is what a command line asks for.
-/

namespace LoxSyntax.CommandLine

/-! ## Options and mistakes -/

/-- The options of the command line. -/
inductive Switch
  | help | tokens | logLevel | verbose
deriving DecidableEq, Repr

namespace Switch

/-- The long name of an option. -/
def longName : Switch → String
  | help => "--help"
  | tokens => "--tokens"
  | logLevel => "--log-level"
  | verbose => "--verbose"

/-- The options in the order of the help text. -/
def all : List Switch :=
  [help, tokens, logLevel, verbose]

/-- The names of an option in messages. -/
def names : Switch → String
  | help => "-h/--help"
  | option => option.longName

end Switch

/-- What is wrong with a command line. -/
inductive UsageError
  /-- A beginning that fits several options. -/
  | ambiguous (argument : String) (candidates : List Switch)
  /-- An option that needs a value stands without one. -/
  | missingValue (option : Switch)
  /-- An option that takes no value is given one. -/
  | unexpectedValue (option : Switch) (value : String)
  /-- The value is no level of a log. -/
  | unknownLevel (value : String)
  /-- No source file is named. -/
  | missingSource
  /-- Arguments that fit nowhere. -/
  | unrecognized (arguments : List String)
deriving DecidableEq, Repr

/-- The wording of a mistake. -/
def UsageError.message : UsageError → String
  | ambiguous argument candidates =>
    "ambiguous option: " ++ argument ++ " could match " ++
      ", ".intercalate (candidates.map Switch.longName)
  | missingValue option => "argument " ++ option.names ++ ": expected one argument"
  | unexpectedValue option value =>
    "argument " ++ option.names ++ ": ignored explicit argument " ++ Text.quoted value
  | unknownLevel value =>
    "argument " ++ Switch.logLevel.names ++ ": invalid choice: " ++ Text.quoted value ++
      " (choose from " ++
      ", ".intercalate (LogLevel.all.map fun level => Text.quoted level.name) ++ ")"
  | missingSource => "the following arguments are required: source"
  | unrecognized arguments => "unrecognized arguments: " ++ " ".intercalate arguments

/-! ## Sorting arguments -/

/-- An argument sorted by its form. -/
inductive Argument
  /-- A source file, or the value of an option before it. -/
  | operand (text : String)
  /-- The first two dashes that stand alone. -/
  | separator
  /-- A long option, with the value behind its equals sign if there is one. -/
  | long (option : Switch) (value : Option String)
  /-- The short form of the help option, with what stands behind it if anything
  does. -/
  | short (value : Option String)
  /-- Something that looks like an option and is none. -/
  | unknown (text : String)
deriving DecidableEq, Repr

/-- Whether a text is a minus sign and a number in decimal notation, in the digits
of any script. A line feed at its end makes no difference. Such an argument is no
option. -/
def isNegativeNumber (text : List Char) : Bool :=
  match text with
  | '-' :: behind =>
    let number := if behind.getLast? = some '\n' then behind.dropLast else behind
    match number.dropWhile Text.isDecimalDigit with
    | [] => !number.isEmpty
    | '.' :: fraction => !fraction.isEmpty && fraction.all Text.isDecimalDigit
    | _ => false
  | _ => false

/-- The text before the first equals sign, and the text behind it if there is
one. -/
def splitAtEquals (text : List Char) : List Char × Option (List Char) :=
  let before := text.takeWhile (· != '=')
  match text.dropWhile (· != '=') with
  | [] => (before, none)
  | _ :: behind => (before, some behind)

namespace Argument

/-- Sorts an argument that starts with two dashes and is longer. The text before
an equals sign must begin exactly one long option; a whole name is no beginning
of another. -/
def classifyLong (argument : String) : Except UsageError Argument :=
  let (name, value) := splitAtEquals argument.toList
  match Switch.all.filter fun option => name.isPrefixOf option.longName.toList with
  | [] =>
    if argument.contains ' ' then .ok (operand argument) else .ok (unknown argument)
  | [option] => .ok (long option (value.map String.ofList))
  | candidates => .error (.ambiguous argument candidates)

/-- Sorts an argument that starts with one dash and is longer. Only the help
option has a short form; what stands behind it is its value, less an equals sign
in front. -/
def classifyShort (argument : String) (letters : List Char) : Argument :=
  match letters with
  | ['h'] => short none
  | 'h' :: '=' :: behind => short (some (String.ofList behind))
  | 'h' :: behind => short (some (String.ofList behind))
  | _ =>
    if isNegativeNumber argument.toList || argument.contains ' ' then operand argument
    else unknown argument

/-- Sorts an argument by its form. -/
def classify (argument : String) : Except UsageError Argument :=
  match argument.toList with
  | ['-', '-'] => .ok separator
  | '-' :: '-' :: _ => classifyLong argument
  | '-' :: first :: rest => .ok (classifyShort argument (first :: rest))
  | _ => .ok (operand argument)

/-- Sorts the arguments of a command line. Behind a separator all are operands. -/
def classifyAll : List String → Except UsageError (List Argument)
  | [] => .ok []
  | argument :: rest =>
    match classify argument with
    | .error e => .error e
    | .ok separator => .ok (separator :: rest.map operand)
    | .ok sorted => (classifyAll rest).map (sorted :: ·)

end Argument

/-! ## Taking arguments -/

/-- What to do with a source file. -/
structure Options where
  source : String
  tokens : Bool := false
  logLevel : LogLevel := .warning
  verbose : Bool := false
deriving DecidableEq, Repr

/-- What a command line asks for. -/
inductive Invocation
  | help
  | run (options : Options)
  /-- A run whose log is left without a level. -/
  | withoutLevel
deriving DecidableEq, Repr

/-- What has been taken from a command line: the source once it is met, the
options, and the arguments that fit nowhere. The log may have lost its level. -/
structure Gathered where
  source : Option String := none
  tokens : Bool := false
  logLevel : Option LogLevel := some .warning
  verbose : Bool := false
  surplus : List String := []

namespace Gathered

/-- Sets the level of the log. -/
def setLevel (g : Gathered) (value : String) : Except UsageError Gathered :=
  match LogLevel.ofName? value with
  | some level => .ok { g with logLevel := some level }
  | none => .error (.unknownLevel value)

/-- Adds an argument that fits nowhere. -/
def refuse (g : Gathered) (argument : String) : Gathered :=
  { g with surplus := g.surplus ++ [argument] }

/-- What the gathered arguments ask for. -/
def conclude (g : Gathered) : Except UsageError Invocation :=
  match g.source with
  | none => .error .missingSource
  | some source =>
    if g.surplus.isEmpty then
      match g.logLevel with
      | some level => .ok (.run ⟨source, g.tokens, level, g.verbose⟩)
      | none => .ok .withoutLevel
    else .error (.unrecognized g.surplus)

end Gathered

/-- What the value of a short help option amounts to. It is read as further short
options, so that help is asked for when its letters are all those of help. Another
character is a value that does not belong there, and so is no letter at all. -/
def readHelpLetters : List Char → Except UsageError Invocation
  | ['h'] => .ok .help
  | 'h' :: rest => readHelpLetters rest
  | letters => .error (.unexpectedValue .help (String.ofList letters))

/-- Takes sorted arguments from left to right. A separator next to the source is
dropped; one that stands elsewhere fits nowhere. Two dashes behind the equals sign
of the level are dropped, too, so that the log has no level until another one
follows. -/
def take (g : Gathered) : List Argument → Except UsageError Invocation
  | [] => g.conclude
  | .long .help none :: _ => .ok .help
  | .short none :: _ => .ok .help
  | .short (some letters) :: _ => readHelpLetters letters.toList
  | .long .tokens none :: rest => take { g with tokens := true } rest
  | .long .verbose none :: rest => take { g with verbose := true } rest
  | .long .logLevel none :: .operand value :: rest =>
    match g.setLevel value with
    | .ok g => take g rest
    | .error e => .error e
  | .long .logLevel none :: _ => .error (.missingValue .logLevel)
  | .long .logLevel (some "--") :: rest => take { g with logLevel := none } rest
  | .long .logLevel (some value) :: rest =>
    match g.setLevel value with
    | .ok g => take g rest
    | .error e => .error e
  | .long option (some value) :: _ => .error (.unexpectedValue option value)
  | .unknown argument :: rest => take (g.refuse argument) rest
  | .operand argument :: .separator :: rest =>
    if g.source.isNone then take { g with source := some argument } rest
    else take ((g.refuse argument).refuse "--") rest
  | .separator :: .operand argument :: rest =>
    if g.source.isNone then take { g with source := some argument } rest
    else take ((g.refuse "--").refuse argument) rest
  | .operand argument :: rest =>
    if g.source.isNone then take { g with source := some argument } rest
    else take (g.refuse argument) rest
  | .separator :: rest => take (g.refuse "--") rest

/-- What a command line asks for, or what is wrong with it. -/
def Invocation.ofArguments (arguments : List String) : Except UsageError Invocation :=
  match Argument.classifyAll arguments with
  | .ok sorted => take {} sorted
  | .error e => .error e

/-! ## Usage and help -/

/-- The summary of the command line. -/
def usage : String :=
  "usage: rlox [-h] [--tokens] [--log-level \x7bDEBUG,INFO,WARNING,ERROR\x7d]\n" ++
  "            [--verbose]\n" ++
  "            source\n"

/-- The text that a request for help prints. -/
def helpText : String :=
  usage ++
  "\n" ++
  "Scan and parse a Lox expression, printing its syntax tree\n" ++
  "\n" ++
  "positional arguments:\n" ++
  "  source                Path of the Lox source file\n" ++
  "\n" ++
  "options:\n" ++
  "  -h, --help            show this help message and exit\n" ++
  "  --tokens              Dump the scanned tokens before parsing\n" ++
  "  --log-level \x7bDEBUG,INFO,WARNING,ERROR\x7d\n" ++
  "                        Logging level (default: WARNING)\n" ++
  "  --verbose             Print full diagnostics with help text\n" ++
  "\n" ++
  "Examples:\n" ++
  "    rlox expr.lox                     # Print the tree\n" ++
  "    rlox expr.lox --tokens            # Dump tokens, then print the tree\n" ++
  "    rlox expr.lox --log-level DEBUG   # Show scanner and parser logging\n" ++
  "        \n"

/-- The complaint about a mistake: the usage and the wording of the mistake. -/
def complaint (e : UsageError) : String :=
  usage ++ "rlox: error: " ++ e.message ++ "\n"

end LoxSyntax.CommandLine
