/-!
Log lines. A session keeps every line it writes; whoever shows them chooses how many levels to show.
-/

namespace EntityScript

/-- How grave a log line is. -/
inductive Level where
  | error
  | warn
  | info
  | debug
  | trace
  deriving DecidableEq, Repr

namespace Level

/-- The name of a level. -/
def shown : Level → String
  | .error => "ERROR"
  | .warn => "WARN"
  | .info => "INFO"
  | .debug => "DEBUG"
  | .trace => "TRACE"

/-- The place of a level, the gravest first. -/
def rank : Level → Nat
  | .error => 0
  | .warn => 1
  | .info => 2
  | .debug => 3
  | .trace => 4

end Level

/-- The part of the program that a log line comes from. -/
inductive Topic where
  | script
  | timer
  | queue
  | registry
  | host
  | runner
  deriving DecidableEq, Repr

/-- The name of a topic. -/
def Topic.shown : Topic → String
  | .script => "ioscript"
  | .timer => "ioscript::timer"
  | .queue => "ioscript::queue"
  | .registry => "ioscript::registry"
  | .host => "ioscript::host"
  | .runner => "runner"

/-- A log line. -/
structure LogLine where
  level : Level
  topic : Topic
  message : String
  deriving DecidableEq, Repr

/-- A log line as it is shown. -/
def LogLine.shown (l : LogLine) : String :=
  l.level.shown ++ " " ++ l.topic.shown ++ ": " ++ l.message

end EntityScript
