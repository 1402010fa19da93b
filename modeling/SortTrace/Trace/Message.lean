import SortTrace.Trace.Basic

/-!
Messages: a trace is sent whole or one event at a time.
-/

namespace SortTrace

inductive Message where
  | single (event : Event)
  | whole (trace : Trace)
deriving DecidableEq

def Message.stream (t : Trace) : List Message := t.events.map .single

end SortTrace
