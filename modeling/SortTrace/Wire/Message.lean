import SortTrace.Trace.Message
import SortTrace.Wire.Record

/-!
Events, traces and messages in JSON. Reading a trace includes checking it.
-/

namespace SortTrace

open Wire

namespace Wire

def ofNats (ns : List Nat) : Json := .list (ns.map fun (n : Nat) => .int n)

def ofInt64s (xs : List Int64) : Json := .list (xs.map fun x => .int x.toInt)

end Wire

def Relation.wireName : Relation → String
  | eq => "eq"
  | ne => "ne"
  | lt => "lt"
  | le => "le"
  | gt => "gt"
  | ge => "ge"

def Relation.ofWireName? : String → Option Relation
  | "eq" => some eq
  | "ne" => some ne
  | "lt" => some lt
  | "le" => some le
  | "gt" => some gt
  | "ge" => some ge
  | _ => none

def Color.wireName : Color → String
  | key => "key"
  | candidate => "candidate"
  | active => "active"

def Color.ofWireName? : String → Option Color
  | "key" => some key
  | "candidate" => some candidate
  | "active" => some active
  | _ => none

namespace Event

def toJson (e : Event) : Json :=
  let fields : List (String × Json) := match e with
    | init array => [("array", ofInt64s array)]
    | compare i j x y | swap i j x y => [("indices", ofNats [i, j]), ("values", ofInt64s [x, y])]
    | set i value previous =>
      [("index", .int i), ("value", .int value.toInt), ("previous", .int previous.toInt)]
    | highlight indices color =>
      [("indices", ofNats indices), ("color", .str color.wireName)]
    | sorted indices => [("indices", ofNats indices)]
    | complete => []
    | comment message => [("message", .str message)]
  .object (("type", .str e.kind.name) :: fields)

def ofRecord? (kind : String) (data : Record) : Option Event :=
  match kind with
  | "init" => do
    let [array] ← data.required? ["array"] | none
    return .init (← array.listOf? Json.int64?)
  | "compare" => do
    let [indices, values] ← data.required? ["indices", "values"] | none
    let (i, j) ← indices.pairOf? Json.nat64?
    let (x, y) ← values.pairOf? Json.int64?
    return .compare i j x y
  | "swap" => do
    let [indices, values] ← data.required? ["indices", "values"] | none
    let (i, j) ← indices.pairOf? Json.nat64?
    let (x, y) ← values.pairOf? Json.int64?
    return .swap i j x y
  | "set" => do
    let [index, value, previous] ← data.required? ["index", "value", "previous"] | none
    return .set (← index.nat64?) (← value.int64?) (← previous.int64?)
  | "highlight" => do
    let [indices, color] ← data.required? ["indices", "color"] | none
    return .highlight (← indices.listOf? Json.nat64?) (← color.choice? Color.ofWireName? .held)
  | "sorted" => do
    let [indices] ← data.required? ["indices"] | none
    return .sorted (← indices.listOf? Json.nat64?)
  | "complete" => do
    let [] ← data.required? [] | none
    return .complete
  | "comment" => do
    let [message] ← data.required? ["message"] | none
    return .comment (← message.str?)
  | _ => none

def ofJson? (place : Place) (x : Json) : Option Event := do
  let (kind, data) ← (← x.record?).tagged? "type" (EventKind.all.map EventKind.name) place
  ofRecord? kind data

end Event

namespace Trace

def toJson (t : Trace) : Json := .list (t.events.map Event.toJson)

def ofJson? (place : Place) (x : Json) : Option Trace := do
  let events ← x.listOf? (Event.ofJson? place)
  (ofEvents events).toOption

end Trace

namespace Message

def toJson : Message → Json
  | single e => .object [("type", .str "operation"), ("operation", e.toJson)]
  | whole t => .object [("type", .str "operations"), ("operations", t.toJson)]

def ofJson? (place : Place) (x : Json) : Option Message := do
  let (form, data) ← (← x.record?).tagged? "type" ["operation", "operations"] place
  match form with
  | "operation" =>
    let [event] ← data.required? ["operation"] | none
    return .single (← Event.ofJson? .held event)
  | "operations" =>
    let [events] ← data.required? ["operations"] | none
    return .whole (← Trace.ofJson? .held events)
  | _ => none

def ofText? (text : String) : Option Message := (Json.ofText? text).bind (ofJson? .alone)

end Message

end SortTrace
