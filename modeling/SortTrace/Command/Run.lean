import SortTrace.Command.Arguments
import SortTrace.Random.Values
import SortTrace.Synthesis.Synthesize
import SortTrace.Trace.Replay
import SortTrace.Wire.Message

namespace SortTrace.Command

open Synthesis Wire

/-- The outcome of a command. Each message is a line, unless it holds newlines of its own. -/
structure Report where
  exitCode : Nat
  output : String := ""
  messages : List String := []
deriving DecidableEq

structure ReadFault where
  name : String
  reason : String
deriving DecidableEq

def ReadFault.missing (name : String) : ReadFault :=
  ⟨name, "No such file or directory (os error 2)"⟩

def usageReport : Report := { exitCode := 2, messages := ["usage"] }

def Invocation.file? : Invocation → Option String
  | synth file _ _ => file
  | generate .. => none
  | replay file _ => file

def Invocation.readsInput : Invocation → Bool
  | generate .. => false
  | _ => true

/-- A trace as it is printed: one message with line breaks, or a line for each event. -/
def traceOutput (t : Trace) (stream : Bool) : String :=
  if stream then
    String.join ((Message.stream t).map fun m => m.toJson.compact ++ "\n")
  else (Message.whole t).toJson.pretty ++ "\n"

def noticeLines (verbosity : Nat) (notices : List Notice) : List String :=
  (notices.filter (·.shownAt verbosity)).map Notice.line

def synthReport (verbosity : Nat) (config : Config) (stream : Bool) (text : String) : Report :=
  let outcome := synthesize config text
  let told := noticeLines verbosity outcome.notices
  match outcome.result with
  | .ok t => ⟨0, traceOutput t stream, told⟩
  | .error (.syntaxError e) => ⟨2, "", told ++ [s!"Syntax error: {e.message}"]⟩
  | .error e => ⟨1, "", told ++ [s!"Synthesis failed: {e.message}"]⟩

def generateReport (verbosity : Nat) (name : String) (values : List Int64) (random : Option Nat)
    (seed : UInt64) (stream : Bool) : Report :=
  match Sorting.Algorithm.ofText? name with
  | none => ⟨1, "", [s!"Error: {Sorting.unknownAlgorithmMessage name}"]⟩
  | some a =>
    let values := match random with
      | some length => Random.values length seed
      | none => values
    let notices : List Notice :=
      [.generating a.name (valuesText values), .generatingTrace a.name values.length]
    ⟨0, traceOutput (a.trace values) stream, noticeLines verbosity notices⟩

/-- A message in a text. A trace that stands there bare counts as a whole message; the text is tried
as one and as the other, so its value is held. -/
def sentMessage? (text : String) : Option Message := do
  let x ← Json.ofText? text
  match Trace.ofJson? .held x with
  | some t => return .whole t
  | none => Message.ofJson? .held x

def replayReport (step : Option Nat) (text : String) : Report :=
  match sentMessage? text with
  | none => ⟨3, "", ["Error: invalid trace JSON"]⟩
  | some (.single _) => ⟨1, "", ["Error: expected a whole trace, found a single operation"]⟩
  | some (.whole t) =>
    let state := match step with
      | some k => t.stateAt k
      | none => t.replay
    match state with
    | .ok values => ⟨0, (ofInt64s values).compact ++ "\n", []⟩
    | .error e => ⟨1, "", [s!"Replay failed: {e.message}"]⟩

def faultReport (fault : ReadFault) : Report :=
  ⟨3, "", [s!"Error: failed to read '{fault.name}': {fault.reason}"]⟩

def CommandLine.run (c : CommandLine) (input : Except ReadFault String) : Report :=
  match c.invocation, input with
  | .generate algorithm values random seed stream, _ =>
    generateReport c.verbosity algorithm values random seed stream
  | .synth _ config stream, .ok text => synthReport c.verbosity config stream text
  | .replay _ step, .ok text => replayReport step text
  | _, .error fault => faultReport fault

end SortTrace.Command
