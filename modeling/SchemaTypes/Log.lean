namespace SchemaTypes

inductive Level where
  | info
  | debug
  | trace
deriving DecidableEq

namespace Level

def text : Level → String
  | .info => "INFO"
  | .debug => "DEBUG"
  | .trace => "TRACE"

/-- How often the verbosity switch must be given for records of this level to be shown. -/
def verbosity : Level → Nat
  | .info => 1
  | .debug => 2
  | .trace => 3

end Level

/-- The part of the program that a log record comes from. -/
inductive Component where
  | commandLine
  | options
  | derivation
  | query
deriving DecidableEq

/-- The name under which a component logs. -/
def Component.text : Component → String
  | .commandLine => "schema_typeof::cli"
  | .options => "schema_typeof::config"
  | .derivation => "schema_typeof::derive"
  | .query => "schema_typeof::jq_exec"

structure LogRecord where
  level : Level
  component : Component
  message : String

namespace LogRecord

/-- The level and the message. -/
def short (record : LogRecord) : String := s!"{record.level.text} {record.message}"

/-- The record as a line of a log: the level in five columns, the component, and
    the message, whose further lines are set in by four columns. -/
def line (record : LogRecord) : String :=
  let level := record.level.text
  let padding := "".pushn ' ' (5 - level.length)
  let message := "\n    ".intercalate (record.message.splitOn "\n")
  s!"[{level}{padding} {record.component.text}] {message}\n"

end LogRecord

end SchemaTypes
