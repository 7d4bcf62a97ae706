/-!
# Log records

The scanner and the parser note what they do in records of different levels. A
log shows the records at or above the level it is kept at.
-/

namespace LoxSyntax

/-- The levels of log records, in increasing order. -/
inductive LogLevel
  | debug | info | warning | error
deriving DecidableEq, Repr

namespace LogLevel

/-- The levels in increasing order. -/
def all : List LogLevel :=
  [debug, info, warning, error]

/-- The name of a level. -/
def name : LogLevel → String
  | debug => "DEBUG"
  | info => "INFO"
  | warning => "WARNING"
  | error => "ERROR"

/-- The level of this name. -/
def ofName? (name : String) : Option LogLevel :=
  all.find? fun level => level.name == name

/-- The place of a level in the order. -/
def rank : LogLevel → Nat
  | debug => 0
  | info => 1
  | warning => 2
  | error => 3

/-- A level is found by its name. -/
theorem ofName?_name (level : LogLevel) : ofName? level.name = some level := by
  cases level <;> decide

end LogLevel

/-- One record: its level, the part of the program it comes from, and a
message. -/
structure LogRecord where
  level : LogLevel
  origin : String
  message : String
deriving DecidableEq, Repr

namespace LogRecord

/-- The line that a record takes in a log. -/
def text (r : LogRecord) : String :=
  r.level.name ++ " " ++ r.origin ++ ": " ++ r.message

/-- The records that a log kept at a level shows. -/
def shownAt (threshold : LogLevel) (records : List LogRecord) : List LogRecord :=
  records.filter fun r => threshold.rank ≤ r.level.rank

/-- A log at the lowest level shows every record. -/
theorem shownAt_debug (records : List LogRecord) : shownAt .debug records = records := by
  simp [shownAt, LogLevel.rank]

end LogRecord

end LoxSyntax
