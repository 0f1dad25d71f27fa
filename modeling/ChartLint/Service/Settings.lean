import ChartLint.Text.Digit
import ChartLint.Text.Upper

/-!
# Settings of the service

The service takes its settings from named variables. A variable that is missing or that cannot be
read gives way to a default.
-/

namespace ChartLint.Service

/-- The variables of an environment. -/
abbrev Environment := List (String × String)

/-- The levels of log messages. -/
inductive LogLevel where
  | critical
  | error
  | warning
  | info
  | debug
  /-- No level of its own. -/
  | unset
deriving DecidableEq, Repr

namespace LogLevel

/-- The names by which a setting asks for a level. -/
def names : List (String × LogLevel) :=
  [("CRITICAL", .critical), ("FATAL", .critical), ("ERROR", .error), ("WARNING", .warning),
   ("WARN", .warning), ("INFO", .info), ("DEBUG", .debug), ("NOTSET", .unset)]

/-- The number of a level, greater for a more serious one. -/
def weight : LogLevel → Nat
  | .critical => 50
  | .error => 40
  | .warning => 30
  | .info => 20
  | .debug => 10
  | .unset => 0

/-- The name of a level in a log. -/
def label : LogLevel → String
  | .critical => "CRITICAL"
  | .error => "ERROR"
  | .warning => "WARNING"
  | .info => "INFO"
  | .debug => "DEBUG"
  | .unset => "NOTSET"

end LogLevel

/-- A message of the service's log. -/
structure LogEntry where
  level : LogLevel
  message : String
deriving DecidableEq, Repr

/-- The settings of the service. -/
structure Settings where
  host : String
  port : Int
  /-- The size in bytes up to which a script is accepted. -/
  maxCodeBytes : Int
  /-- Whether an audit is strict when the request does not say. -/
  strictDefault : Bool
  /-- The name of the log level, known or not. -/
  logLevel : String
deriving DecidableEq, Repr

namespace Settings

/-- The size limit when none is set: five mebibytes. -/
def defaultMaxCodeBytes : Int :=
  5 * 1024 * 1024

/-- An integer variable, or its default. -/
def intOr (env : Environment) (key : String) (fallback : Int) : Int :=
  match env.lookup key with
  | none => fallback
  | some s => (Text.numeral? s.toList).getD fallback

/-- A text variable without the blanks around it, or its default. -/
def trimmedOr (env : Environment) (key fallback : String) : Text :=
  Text.trim ((env.lookup key).getD fallback).toList

/-- The words that switch a setting on. Only an ASCII letter has one of their letters as its lower
case. -/
def onWords : List String :=
  ["1", "true", "yes", "on"]

/-- The settings that an environment gives. -/
def ofEnvironment (env : Environment) : Settings :=
  let limit := intOr env "MAX_CODE_BYTES" defaultMaxCodeBytes
  let level := Text.upper (trimmedOr env "LOG_LEVEL" "INFO")
  { host := String.ofList (trimmedOr env "HOST" "127.0.0.1")
    port := intOr env "PORT" 8921
    maxCodeBytes := if 0 < limit then limit else defaultMaxCodeBytes
    strictDefault :=
      onWords.contains (String.ofList ((trimmedOr env "STRICT_DEFAULT" "").map Char.toLower))
    logLevel := if level.isEmpty then "INFO" else String.ofList level }

/-- The level that the settings name, if they name one. -/
def level? (s : Settings) : Option LogLevel :=
  LogLevel.names.lookup s.logLevel

/-- The level of the log: the one the settings name, and the level of information when they name
none or the one that is no level of its own. -/
def rootLevel (s : Settings) : LogLevel :=
  match s.level? with
  | none | some .unset => .info
  | some level => level

/-- What the service logs when it starts. -/
def startupLog (s : Settings) : List LogEntry :=
  [⟨.info, ".env file not found; using environment and defaults"⟩]
    ++ (if s.level?.isNone then
        [⟨.warning, s!"LOG_LEVEL={s.logLevel} is not a logging level; using INFO"⟩]
      else
        [])
    ++ [⟨.info, s!"Serving on port {s.port}, max script size {s.maxCodeBytes} bytes"⟩]

end Settings

end ChartLint.Service
