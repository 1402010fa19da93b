import SortTrace.Synthesis.Synthesize
import SortTrace.Wire.Record

/-!
Configurations and sources in JSON. A part of a configuration that is missing takes its default.
-/

namespace SortTrace.Synthesis

open Wire

namespace IndexPolicy

def wireName : IndexPolicy → String
  | placeholder => "placeholder"
  | strict => "strict"

def ofWireName? : String → Option IndexPolicy
  | "placeholder" => some placeholder
  | "strict" => some strict
  | _ => none

def ofJson? (x : Json) : Option IndexPolicy := x.choice? ofWireName? .alone

end IndexPolicy

namespace Config

def toJson (c : Config) : Json :=
  .object
    [("index_policy", .str c.indexPolicy.wireName), ("loop_comments", .bool c.loopComments),
     ("max_steps", .int c.maxSteps)]

/-- A value that has a default when it is missing, but must have its form when it is there. -/
def orDefault? {α : Type} (default : α) (read? : Json → Option α) : Option Json → Option α
  | none => some default
  | some x => read? x

def ofJson? (x : Json) : Option Config := do
  let standard : Config := {}
  let [policy, comments, steps] ←
    (← x.record?).optionals? ["index_policy", "loop_comments", "max_steps"] | none
  return {
    indexPolicy := ← orDefault? standard.indexPolicy IndexPolicy.ofJson? policy
    loopComments := ← orDefault? standard.loopComments Json.bool? comments
    maxSteps := ← orDefault? standard.maxSteps Json.nat64? steps }

end Config

namespace Source

def toJson : Source → Json
  | .code text => .object [("source", .str "code"), ("code", .str text)]
  | .algorithm a values =>
    .object
      [("source", .str "algorithm"), ("algorithm", .str a.name),
       ("values", .list (values.map fun v => .int v.toInt))]

def ofJson? (x : Json) : Option Source := do
  let (form, data) ← (← x.record?).tagged? "source" ["code", "algorithm"] .alone
  match form with
  | "code" =>
    let [text] ← data.required? ["code"] | none
    return .code (← text.str?)
  | "algorithm" =>
    let [name, values] ← data.required? ["algorithm", "values"] | none
    let algorithm ← name.choice? Sorting.Algorithm.ofName? .held
    return .algorithm algorithm (← values.listOf? Json.int64?)
  | _ => none

end Source

end SortTrace.Synthesis
