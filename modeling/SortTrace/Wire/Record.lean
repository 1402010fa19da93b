import SortTrace.Wire.Json

/-!
Records in JSON. A record is an object, in which fields may come in any order and unknown fields do
not count, or the list of its values in order. A known field that comes twice is refused.

A record may have several forms. One of its fields, or the first of its values, names the form, and
the rest is held until the form is known. What is held is read more freely than what stands alone.
-/

namespace SortTrace.Wire

/-- Where a value stands. A held value may name its form by number, and an empty object in it may
stand for nothing. -/
inductive Place where
  /-- Not inside a record of several forms. -/
  | alone
  /-- Inside such a record, or tried against more than one kind of value. -/
  | held
deriving DecidableEq

namespace Json

def bool? : Json → Option Bool
  | bool b => some b
  | _ => none

def str? : Json → Option String
  | str s => some s
  | _ => none

def list? : Json → Option (List Json)
  | list xs => some xs
  | _ => none

def nat64? : Json → Option Nat
  | int n => if 0 ≤ n ∧ n < 2 ^ 64 then some n.toNat else none
  | _ => none

def int64? : Json → Option Int64
  | int n => if -2 ^ 63 ≤ n ∧ n < 2 ^ 63 then some (Int64.ofInt n) else none
  | _ => none

def listOf? {α : Type} (item? : Json → Option α) : Json → Option (List α)
  | list xs => xs.mapM item?
  | _ => none

def pairOf? {α : Type} (item? : Json → Option α) : Json → Option (α × α)
  | list [x, y] => do return (← item? x, ← item? y)
  | _ => none

/-- Null, or, where it is held, an object without fields. -/
def isNothing (place : Place) : Json → Bool
  | null => true
  | object [] => place = .held
  | _ => false

/-- One of some named choices: its name, or an object with nothing under that name alone. -/
def choice? {α : Type} (ofName? : String → Option α) (place : Place) : Json → Option α
  | str name => ofName? name
  | object [(name, x)] => if x.isNothing place then ofName? name else none
  | _ => none

/-- The name of a form, or, where it is held, its number in the order of the forms. -/
def formName? (forms : List String) (place : Place) : Json → Option String
  | str name => some name
  | int n => if place = .held ∧ 0 ≤ n then forms[n.toNat]? else none
  | _ => none

end Json

/-- The data of a record: named fields, or values in order. -/
inductive Record where
  | named (fields : List (String × Json))
  | listed (values : List Json)

def Json.record? : Json → Option Record
  | .object fields => some (.named fields)
  | .list values => some (.listed values)
  | _ => none

namespace Record

def valuesOf (fields : List (String × Json)) (name : String) : List Json :=
  (fields.filter (·.1 == name)).map (·.2)

/-- The value of a field that may be missing, but must not come twice. -/
def optional? (fields : List (String × Json)) (name : String) : Option (Option Json) :=
  match valuesOf fields name with
  | [] => some none
  | [x] => some (some x)
  | _ => none

/-- The values of fields that may be missing. Listed values may only be missing at the end. -/
def optionals? (names : List String) : Record → Option (List (Option Json))
  | named fields => names.mapM (optional? fields)
  | listed values =>
    if values.length ≤ names.length then
      some (values.map some ++ List.replicate (names.length - values.length) none)
    else none

def required? (names : List String) : Record → Option (List Json)
  | named fields => names.mapM fun name => (optional? fields name).join
  | listed values => if values.length = names.length then some values else none

def tagged? (tag : String) (forms : List String) (place : Place) :
    Record → Option (String × Record)
  | named fields => do
    let form ← (optional? fields tag).join
    return (← form.formName? forms place, named (fields.filter (·.1 != tag)))
  | listed (form :: values) => do return (← form.formName? forms place, listed values)
  | listed [] => none

end Record

end SortTrace.Wire
