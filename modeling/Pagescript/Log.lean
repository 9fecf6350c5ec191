import Pagescript.ActionError
/-!
# Log records

What the parts of the program report while it runs.
-/

namespace Pagescript

/-- How important a record is; records below `Level.debug` are not kept. -/
abbrev Level := Int

namespace Level

def debug : Level := 10
def info : Level := 20
def warning : Level := 30
def error : Level := 40
def critical : Level := 50

def name (level : Level) : String :=
  if level = debug then "DEBUG"
  else if level = info then "INFO"
  else if level = warning then "WARNING"
  else if level = error then "ERROR"
  else if level = critical then "CRITICAL"
  else "Level " ++ toString level

end Level

structure LogRecord where
  logger : String
  level : Level
  message : String

namespace LogRecord

/-- The loggers of the parts of the program. -/
def programLogger : String := "wayang.program"
def runnerLogger : String := "wayang.runner"
def interpreterLogger : String := "wayang.interpreter"
def cancellationLogger : String := "wayang.cancellation"
def surfaceLogger : String := "wayang.surface"

end LogRecord

/-- The records for an error: its summary, and its trace if one is wanted and there is one. -/
def ActionError.records (e : ActionError) (logger : String) (level : Level) (withStack : Bool) :
    List LogRecord :=
  if level < Level.debug then []
  else
    ⟨logger, level, e.summary⟩ ::
      (if withStack && !e.stack.isEmpty then [⟨logger, level, e.stack⟩] else [])

end Pagescript
