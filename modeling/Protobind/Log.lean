import Protobind.Dictionary

/-!
# Logs

`Logging.install` sets up how entries are shown: on the error stream, or in a file when one is
given, if their level reaches the one that was asked for.
-/

namespace Protobind

/-- How serious an entry is. -/
inductive Severity where
  | debug
  | info
  | warning
  | error
  deriving DecidableEq

/-- An entry of a log. -/
structure LogEntry where
  severity : Severity
  text : String
  deriving DecidableEq

def LogEntry.warning (text : String) : LogEntry := ⟨.warning, text⟩

/-- Where entries go, and what was shown. -/
structure Logging where
  installed : Bool := false
  streamLevel : Int := 0
  fileLevels : List Int := []
  stream : String := ""
  file : String := ""
  deriving DecidableEq

namespace Logging

def defaultLevel : Int := 20

def silent : Int := 51

def leastLevel : Int := 1

def shortNames : Dictionary Int String :=
  [(50, "CRT"), (40, "ERR"), (30, "WRN"), (20, "INF"), (10, "DBG"), (0, "NOTSET")]

def longNames : Dictionary Int String :=
  [(50, "CRITICAL"), (40, "ERROR"), (30, "WARNING"), (20, "INFO"), (10, "DEBUG"), (0, "NOTSET")]

def levelName (l : Logging) (level : Int) : String :=
  ((if l.installed then shortNames else longNames).get? level).getD s!"Level {level}"

/-- Sets up the outputs. The error stream is set up once and takes the latest level; every file is a
further output, and the error stream is silent from then on. -/
def install (l : Logging) (level? : Option Int) (toFile : Bool) : Logging :=
  let level := level?.getD defaultLevel
  { l with
    installed := true
    streamLevel := if toFile then silent else level
    fileLevels := if toFile then l.fileLevels ++ [level] else l.fileLevels }

def outputs (l : Logging) : Nat := (if l.installed then 1 else 0) + l.fileLevels.length

def record (l : Logging) (level : Int) (text : String) : Logging :=
  if l.installed && leastLevel ≤ level then
    let line := s!"{l.levelName level} {text}\n"
    let copies := (l.fileLevels.filter (· ≤ level)).map fun _ => line
    { l with
      stream := if l.streamLevel ≤ level then l.stream ++ line else l.stream
      file := l.file ++ String.join copies }
  else l

end Logging

end Protobind
