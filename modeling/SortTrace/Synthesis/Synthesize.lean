import SortTrace.Script.Grammar
import SortTrace.Sorting.Algorithm
import SortTrace.Synthesis.DryRun
import SortTrace.Synthesis.TrackedArray

/-!
Synthesis: from a script text to the trace of its array. The text is read, its array and its loops
are found, and the loops are run over a copy of the array.
-/

namespace SortTrace.Synthesis

open Script

inductive SynthesisError where
  | syntaxError (e : SyntaxError)
  | noArray (why : NoArray)
  | stepLimit (limit : Nat)
deriving DecidableEq

namespace SynthesisError

def isSyntax : SynthesisError → Bool
  | syntaxError _ => true
  | _ => false

def message : SynthesisError → String
  | syntaxError e => e.message
  | noArray why => s!"no array found: {why.reason}"
  | stepLimit limit => s!"step limit ({limit}) exceeded while replaying loops"

end SynthesisError

structure Outcome where
  result : Except SynthesisError Trace
  notices : List Notice

def traceOf (config : Config) (p : Program) (a : TrackedArray) : Outcome :=
  let w : Watch := ⟨a.name, config.indexPolicy⟩
  let plan := LoopPlan.ofProgram p w a.values.length
  let start : DryRun :=
    { recorder := .start a.values
      notices := #[.discoveredArray a.name a.values.length, .classifiedLoops plan.name] }
  match start.run config w p plan with
  | .ok s =>
    let t := s.recorder.finish
    let done := s.tell (.synthesized a.name t.length (t.count .compare) (t.count .swap))
    ⟨.ok t, done.notices.toList⟩
  | .error s => ⟨.error (.stepLimit config.maxSteps), s.notices.toList⟩

def synthesize (config : Config) (text : String) : Outcome :=
  match Program.ofText text with
  | .error e => ⟨.error (.syntaxError e), []⟩
  | .ok p =>
    match TrackedArray.ofProgram p with
    | .error why => ⟨.error (.noArray why), []⟩
    | .ok a => traceOf config p a

inductive Source where
  | code (text : String)
  | algorithm (a : Sorting.Algorithm) (values : List Int64)
deriving DecidableEq

def Source.trace (config : Config) : Source → Except SynthesisError Trace
  | code text => (synthesize config text).result
  | algorithm a values => .ok (a.trace values)

end SortTrace.Synthesis
