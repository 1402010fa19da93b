/-!
Notices: what the program tells about its work while it goes on, each with a level, the part of the
program that it comes from and a text.
-/

namespace SortTrace

inductive Level where
  | info | debug | trace
deriving DecidableEq

def Level.name : Level → String
  | info => "INFO"
  | debug => "DEBUG"
  | trace => "TRACE"

inductive Notice where
  | discoveredArray (name : String) (length : Nat)
  | classifiedLoops (shape : String)
  /-- An expression that looks like a known shape is not one. -/
  | unrecognized (expr reason : String)
  | rejectedIndex (index length : Nat)
  | skippedInnerLoop (i : Int64)
  | skippedIndex (j : Int64)
  | singleIteration (i : Int64)
  | nestedIteration (i j : Int64)
  | synthesized (name : String) (events compares swaps : Nat)
  | generating (algorithm values : String)
  | generatingTrace (algorithm : String) (length : Nat)
deriving DecidableEq

namespace Notice

def level : Notice → Level
  | singleIteration .. | nestedIteration .. => .trace
  | synthesized .. => .info
  | _ => .debug

def target : Notice → String
  | discoveredArray .. => "sortscope_engine::synth::discovery"
  | classifiedLoops .. | synthesized .. => "sortscope_engine::synth"
  | unrecognized .. => "sortscope_engine::synth::pattern"
  | rejectedIndex .. => "sortscope_core::recorder"
  | skippedInnerLoop .. | skippedIndex .. | singleIteration .. | nestedIteration .. =>
    "sortscope_engine::synth::engine"
  | generating .. => "sortscope"
  | generatingTrace .. => "sortscope_engine::canonical"

def text : Notice → String
  | discoveredArray name length => s!"discovered array name={name} len={length}"
  | classifiedLoops shape => "classified loop structure shape=\x22" ++ shape ++ "\x22"
  | unrecognized expr reason => s!"unrecognized pattern expr={expr} err={reason}"
  | rejectedIndex index length => s!"rejecting out-of-range index index={index} len={length}"
  | skippedInnerLoop i => s!"inner bound out of range; skipping inner loop i={i}"
  | skippedIndex j => s!"skipping negative inner index j={j}"
  | singleIteration i => s!"single loop iteration index={i}"
  | nestedIteration i j => s!"nested loop iteration i={i} j={j}"
  | synthesized name events compares swaps =>
    s!"synthesized trace array={name} operations={events} compares={compares} swaps={swaps}"
  | generating algorithm values => s!"generating algorithm={algorithm} values={values}"
  | generatingTrace algorithm length =>
    s!"generating canonical trace algorithm={algorithm} len={length}"

def line (n : Notice) : String := s!"{n.level.name} {n.target}: {n.text}"

/-- Shown when the given number of verbosity flags was given: none shows nothing, one leaves out
the single iterations, two or more show everything. -/
def shownAt (n : Notice) (verbosity : Nat) : Bool :=
  match n.level with
  | .trace => 2 ≤ verbosity
  | _ => 1 ≤ verbosity

end Notice

end SortTrace
