namespace SortTrace.Synthesis

/-- How a comparison is read whose index is no number: as position 0 on the left and 1 on the
right, or not at all. -/
inductive IndexPolicy where
  | placeholder | strict
deriving DecidableEq

structure Config where
  indexPolicy : IndexPolicy := .placeholder
  loopComments : Bool := false
  maxSteps : Nat := 1000000
deriving DecidableEq

end SortTrace.Synthesis
