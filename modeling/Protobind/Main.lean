import Protobind.Compile.Exchange

/-!
# The command

Reads a request from the standard input and writes the modules to the standard output. The exit code
is 0 when there are modules and 1 otherwise.
-/

namespace Protobind

def Severity.level : Severity → Int
  | .debug => 10
  | .info => 20
  | .warning => 30
  | .error => 40

def shownLog (log : List LogEntry) : String :=
  (log.foldl (fun (l : Logging) e => l.record e.severity.level e.text)
    (Logging.install {} none false)).stream

def answer (data : Bytes) : Option Bytes × String :=
  match Request.deserialize data with
  | .error e => (none, e.message ++ "\n")
  | .ok r =>
    match r.run with
    | (.ok plans?, log) => (plans?.map serializeModules, shownLog log)
    | (.error e, log) => (none, shownLog log ++ e.message?.getD "" ++ "\n")

partial def readToEnd (input : IO.FS.Stream) (data : ByteArray) : IO ByteArray := do
  let more ← input.read 65536
  if more.isEmpty then return data
  readToEnd input (data ++ more)

end Protobind

def main : IO UInt32 := do
  let data ← Protobind.readToEnd (← IO.getStdin) ByteArray.empty
  let (output?, log) := Protobind.answer data.toList
  (← IO.getStderr).putStr log
  match output? with
  | none => return 1
  | some output =>
    let out ← IO.getStdout
    out.write ⟨output.toArray⟩
    out.flush
    return 0
