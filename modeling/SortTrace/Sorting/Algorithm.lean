import SortTrace.Sorting.Bubble
import SortTrace.Sorting.Selection
import SortTrace.Sorting.Insertion

namespace SortTrace.Sorting

inductive Algorithm where
  | bubble | selection | insertion
deriving DecidableEq

namespace Algorithm

def name : Algorithm → String
  | bubble => "bubbleSort"
  | selection => "selectionSort"
  | insertion => "insertionSort"

def ofName? : String → Option Algorithm
  | "bubbleSort" => some bubble
  | "selectionSort" => some selection
  | "insertionSort" => some insertion
  | _ => none

/-- Reads a name in any letter case, with or without the word "sort", hyphens and underscores. -/
def ofText? (text : String) : Option Algorithm :=
  match String.ofList ((text.toList.filter fun c => c ≠ '-' && c ≠ '_').map Char.toLower) with
  | "bubblesort" | "bubble" => some bubble
  | "selectionsort" | "selection" => some selection
  | "insertionsort" | "insertion" => some insertion
  | _ => none

def sort : Algorithm → Recorder → Recorder
  | bubble => bubbleSort
  | selection => selectionSort
  | insertion => insertionSort

def trace (a : Algorithm) (values : List Int64) : Trace := (a.sort (.start values)).finish

end Algorithm

def unknownAlgorithmMessage (name : String) : String :=
  s!"unknown algorithm: '{name}' (expected bubbleSort, selectionSort or insertionSort)"

end SortTrace.Sorting
