import SentenceGen.Decimal.Fixed
import SentenceGen.Fault.Message
import SentenceGen.Logging.Record

/-!
# Logged operations

An operation is logged when it starts and when it ends, with the time that it took.  A failure is
logged as a warning whatever the operation's own level is.
-/

namespace SentenceGen.Logging

structure Operation where
  logger : String
  name : String
  level : Int := info
  /-- What the first record tells about the operation. -/
  details : List (String × String) := []

namespace Operation

/-- Refuses details that are named after what every operation has. -/
def checkDetails (details : List (String × Datum)) : Except Fault Unit :=
  match details.find? fun detail => ["self", "logger", "operation"].contains detail.1 with
  | some detail => .error (.repeatedField "LogContext" detail.1)
  | none => .ok ()

/-- Details in words.  They are put into words only if their level is logged. -/
def spelled (threshold level : Int) (details : List (String × Datum)) :
    Except Fault (List (String × String)) :=
  if passes threshold level then details.mapM fun (key, value) => return (key, ← value.text)
  else .ok []

def opening (o : Operation) : List Record :=
  let joined := ", ".intercalate (o.details.map fun (key, value) => s!"{key}={value}")
  [{ level := o.level, logger := o.logger, message := s!"Starting: {o.name} ({joined})" }]

/-- What is logged at the end.  A fault whose message cannot be composed is not logged. -/
def ending {α : Type} (o : Operation) (elapsed : Float) (outcome : Except Fault α) : List Record :=
  let seconds := Decimal.fixed 3 elapsed
  match outcome with
  | .ok _ =>
    [{ level := o.level, logger := o.logger, message := s!"Completed: {o.name} ({seconds}s)" }]
  | .error fault =>
    fault.message.toOption.toList.map fun message =>
      { level := warning
        logger := o.logger
        message := s!"Failed: {o.name} after {seconds}s - {fault.kind.name}: {message}" }

def passing (threshold : Int) (records : List Record) : List Record :=
  records.filter fun record => passes threshold record.level

end Operation

end SentenceGen.Logging
