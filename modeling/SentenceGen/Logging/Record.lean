/-!
# Log records

A record has a level, the name of the logger it went through and a message.  Levels are numbers;
five of them and the unset level have names.
-/

namespace SentenceGen.Logging

structure Record where
  level : Int
  logger : String
  message : String
  deriving DecidableEq, Repr

def debug : Int := 10
def info : Int := 20
def warning : Int := 30
def error : Int := 40
def critical : Int := 50

def levels : List (String × Int) :=
  [("CRITICAL", critical), ("FATAL", critical), ("ERROR", error), ("WARN", warning),
    ("WARNING", warning), ("INFO", info), ("DEBUG", debug), ("NOTSET", 0)]

def levelName (level : Int) : String :=
  if level = critical then "CRITICAL"
  else if level = error then "ERROR"
  else if level = warning then "WARNING"
  else if level = info then "INFO"
  else if level = debug then "DEBUG"
  else if level = 0 then "NOTSET"
  else s!"Level {level}"

/-- The logger that all loggers of the library are below. -/
def rootName : String := "grammargen"

/-- The full name of a logger; names outside the library are placed under its root. -/
def loggerName (name : String) : String :=
  if name = rootName ∨ name.startsWith (rootName ++ ".") then name else s!"{rootName}.{name}"

/-- A logger whose level is unset takes the level of the outermost logger. -/
def effective (level : Int) : Int := if level = 0 then warning else level

/-- Whether a logger of the given level lets a record through.  Levels up to that of the unset one
are never let through. -/
def passes (threshold level : Int) : Bool := 0 < level && effective threshold ≤ level

end SentenceGen.Logging
