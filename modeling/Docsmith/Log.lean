import Docsmith.Text.Basic

/-!
# Log records

What is logged, and where records go: into a list until logging is configured, and then to
the console and perhaps a file.
-/

namespace Docsmith

inductive Level where
  | debug
  | info
  | warning
  | error
  | critical
deriving DecidableEq, Repr

namespace Level

def rank : Level → Nat
  | .debug => 10
  | .info => 20
  | .warning => 30
  | .error => 40
  | .critical => 50

def name : Level → Text
  | .debug => "DEBUG"
  | .info => "INFO"
  | .warning => "WARNING"
  | .error => "ERROR"
  | .critical => "CRITICAL"

end Level

structure LogRecord where
  logger : Text
  level : Level
  message : Text
deriving DecidableEq, Repr

def rootLogger : Text := "codox"

def loggerName (part : Text) : Text := if part.isEmpty then rootLogger else rootLogger ++ "." ++ part

/-! ## Where records go -/

inductive Destination where
  | console
  | file (place : List Text)
deriving DecidableEq, Repr

structure Handler where
  destination : Destination
  level : Level
deriving DecidableEq, Repr

structure Logging where
  level : Level
  handlers : List Handler
deriving DecidableEq, Repr

namespace Logging

def levelFor (verbose : Bool) : Level := if verbose then .debug else .info

def setLevel (level : Level) (l : Logging) : Logging := { l with level := level }

def removeHandler (l : Logging) (h : Handler) : Logging :=
  { l with handlers := l.handlers.erase h }

def removeHandlers (l : Logging) : Logging := l.handlers.foldl removeHandler l

def addHandler (l : Logging) (h : Handler) : Logging :=
  if h ∈ l.handlers then l else { l with handlers := l.handlers ++ [h] }

def addHandlers (level : Level) (destinations : List Destination) (l : Logging) : Logging :=
  destinations.foldl (fun l d => l.addHandler ⟨d, level⟩) l

def takers (l : Logging) (r : LogRecord) : List Handler :=
  if r.level.rank < l.level.rank then []
  else l.handlers.filter fun h => h.level.rank ≤ r.level.rank

end Logging

namespace LogRecord

def consoleLine (r : LogRecord) : Text :=
  "[codox] " ++ r.level.name ++ " " ++ r.message ++ [Text.newline]

def fileLine (time : Text) (r : LogRecord) : Text :=
  time ++ " " ++ r.level.name ++ " " ++ r.logger ++ ": " ++ r.message ++ [Text.newline]

end LogRecord

end Docsmith
