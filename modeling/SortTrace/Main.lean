import SortTrace.Command.Run

namespace SortTrace

open Command

def readText (file : Option String) : IO (Except ReadFault String) := do
  match file with
  | some name =>
    match ← (IO.FS.readFile name).toBaseIO with
    | .ok text => return .ok text
    | .error (.noFileOrDirectory ..) => return .error (.missing name)
    | .error e => return .error ⟨name, toString e⟩
  | none =>
    let input ← IO.getStdin
    match ← input.readToEnd.toBaseIO with
    | .ok text => return .ok text
    | .error e => return .error ⟨"<stdin>", toString e⟩

def runProgram (args : List String) : IO Report := do
  match CommandLine.read? (← IO.getEnv "SORTSCOPE_MAX_STEPS") args with
  | none => return usageReport
  | some c =>
    let input ← if c.invocation.readsInput then readText c.invocation.file? else pure (.ok "")
    return c.run input

end SortTrace

def main (args : List String) : IO UInt32 := do
  let report ← SortTrace.runProgram args
  IO.print report.output
  for message in report.messages do
    IO.eprintln message
  return report.exitCode.toUInt32
