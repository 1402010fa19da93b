import SortTrace.Trace.Event

/-!
Traces: lists of events that open with the array, close with `complete` and name positions of that
array only. `Trace.ofEvents` accepts exactly those and reports the first offence of any other list.
-/

namespace SortTrace

inductive TraceError where
  | emptyTrace
  | missingInit
  | misplacedInit (step : Nat)
  | missingComplete
  | misplacedComplete (step : Nat)
  | indexOutOfRange (step index length : Nat)
  | replayMismatch (step : Nat) (recorded found : List Int64)
  | stepOutOfRange (step length : Nat)
deriving DecidableEq

def valuesText (values : List Int64) : String :=
  "[" ++ ", ".intercalate (values.map toString) ++ "]"

def TraceError.message : TraceError → String
  | emptyTrace => "trace is empty"
  | missingInit => "trace does not start with an init event"
  | misplacedInit step => s!"unexpected init event at step {step}"
  | missingComplete => "trace does not end with a complete event"
  | misplacedComplete step => s!"unexpected complete event at step {step}"
  | indexOutOfRange step index length =>
    s!"index {index} out of range at step {step} (array length {length})"
  | replayMismatch step recorded found =>
    s!"replay mismatch at step {step}: recorded {valuesText recorded}, "
      ++ s!"replayed {valuesText found}"
  | stepOutOfRange step length => s!"step {step} out of range (trace has {length} events)"

def offence? (last length step : Nat) (e : Event) : Option TraceError :=
  match e with
  | .init _ => if step ≠ 0 then some (.misplacedInit step) else none
  | .complete => if step ≠ last then some (.misplacedComplete step) else none
  | e => (e.indices.find? (length ≤ ·)).map fun index => .indexOutOfRange step index length

def firstOffence? (last length : Nat) : (step : Nat) → List Event → Option TraceError
  | _, [] => none
  | step, e :: rest =>
    match offence? last length step e with
    | some error => some error
    | none => firstOffence? last length (step + 1) rest

/-- The first thing that keeps a list of events from being a trace. The two ends come first. -/
def traceFault? (events : List Event) : Option TraceError :=
  match events.head? with
  | none => some .emptyTrace
  | some (.init array) =>
    match events.getLast? with
    | some .complete => firstOffence? (events.length - 1) array.length 0 events
    | _ => some .missingComplete
  | some _ => some .missingInit

/-- The events of one run. A trace comes from `Trace.ofEvents`, which checks it, or from a
recorder, whose events need no check. -/
structure Trace where
  events : List Event
deriving DecidableEq

namespace Trace

def ofEvents (events : List Event) : Except TraceError Trace :=
  match traceFault? events with
  | none => .ok ⟨events⟩
  | some error => .error error

def length (t : Trace) : Nat := t.events.length

def initial (t : Trace) : List Int64 :=
  match t.events with
  | .init array :: _ => array
  | _ => []

def count (t : Trace) (kind : EventKind) : Nat := t.events.countP (·.kind = kind)

end Trace

end SortTrace
