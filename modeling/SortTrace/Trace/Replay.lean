import SortTrace.Trace.Basic

/-!
Replay: the array after each event. An event is applied only when its recorded values are the ones
found in the array.
-/

namespace SortTrace

/-- The values at some positions; positions outside the array are left out. -/
def valuesAt (array : List Int64) (indices : List Nat) : List Int64 :=
  indices.filterMap (array[·]?)

def exchange (array : List Int64) (i j : Nat) : List Int64 :=
  match array[i]?, array[j]? with
  | some x, some y => (array.set i y).set j x
  | _, _ => array

namespace Event

def reads : Event → List Nat × List Int64
  | compare i j x y | swap i j x y => ([i, j], [x, y])
  | set i _ previous => ([i], [previous])
  | _ => ([], [])

/-- What an event does to the array, whatever it has recorded. -/
def effect (array : List Int64) : Event → List Int64
  | swap i j _ _ => exchange array i j
  | set i value _ => array.set i value
  | _ => array

def apply (array : List Int64) (step : Nat) (e : Event) : Except TraceError (List Int64) :=
  let found := valuesAt array e.reads.1
  if found = e.reads.2 then .ok (e.effect array)
  else .error (.replayMismatch step e.reads.2 found)

end Event

/-- Applies events in order; `step` is the number of the first one. -/
def replayFrom (array : List Int64) : (step : Nat) → List Event → Except TraceError (List Int64)
  | _, [] => .ok array
  | step, e :: rest =>
    match e.apply array step with
    | .ok next => replayFrom next (step + 1) rest
    | .error error => .error error

namespace Trace

/-- The array after the events up to and including the given step. -/
def stateAt (t : Trace) (step : Nat) : Except TraceError (List Int64) :=
  if t.length ≤ step then .error (.stepOutOfRange step t.length)
  else replayFrom t.initial 0 (t.events.take (step + 1))

def replay (t : Trace) : Except TraceError (List Int64) := t.stateAt (t.length - 1)

end Trace

end SortTrace
