import SortTrace.Numeral.Binary

/-!
Reading a command line into options and plain arguments.

A long option has its value in the next argument or behind `=`. Short options may share one
argument; the first that takes a value takes the rest of it, or the next argument. An argument that
starts with a hyphen is a value only of an option that allows it. Everything behind `--` is plain.
-/

namespace SortTrace.Command

inductive OptionKind where
  | flag
  /-- A value; `hyphens` allows it to start with a hyphen. -/
  | value (hyphens : Bool)
deriving DecidableEq

structure OptionForm where
  long : String
  short : Option Char := none
  kind : OptionKind := .flag
deriving DecidableEq

inductive Item where
  | flag (name : String)
  | value (name text : String)
  | plain (text : String)
deriving DecidableEq

/-- A hyphen alone does not start an option. -/
def looksLikeOption (arg : String) : Bool :=
  match arg.toList with
  | '-' :: _ :: _ => true
  | _ => false

def readShort (forms : List OptionForm) : List Char → Option (List Item × Option OptionForm)
  | [] => some ([], none)
  | c :: rest => do
    let form ← forms.find? (·.short == some c)
    match form.kind with
    | .flag =>
      let (items, pending) ← readShort forms rest
      return (.flag form.long :: items, pending)
    | .value _ =>
      match rest with
      | [] => return ([], some form)
      | '=' :: text => return ([.value form.long (String.ofList text)], none)
      | text => return ([.value form.long (String.ofList text)], none)

/-- A long argument without its hyphens: its name and the text behind the first `=`. -/
def splitLong (body : List Char) : String × Option String :=
  let name := String.ofList (body.takeWhile (· ≠ '='))
  match body.dropWhile (· ≠ '=') with
  | [] => (name, none)
  | _ :: text => (name, some (String.ofList text))

def readLong (forms : List OptionForm) (body : List Char) :
    Option (List Item × Option OptionForm) := do
  let (name, text) := splitLong body
  let form ← forms.find? (·.long == name)
  match form.kind, text with
  | .flag, none => return ([.flag form.long], none)
  | .flag, some _ => none
  | .value _, some text => return ([.value form.long text], none)
  | .value _, none => return ([], some form)

def readArgument (forms : List OptionForm) (arg : String) :
    Option (List Item × Option OptionForm) :=
  match arg.toList with
  | '-' :: '-' :: body => readLong forms body
  | '-' :: c :: rest => readShort forms (c :: rest)
  | _ => some ([.plain arg], none)

def OptionForm.accepts (form : OptionForm) (text : String) : Bool :=
  form.kind == .value true || !looksLikeOption text

def readItems (forms : List OptionForm) : List String → Option (List Item)
  | [] => some []
  | arg :: rest =>
    if arg = "--" then some (rest.map .plain)
    else
      match readArgument forms arg, rest with
      | none, _ => none
      | some (items, none), rest => (readItems forms rest).map (items ++ ·)
      | some (_, some _), [] => none
      | some (items, some form), text :: rest =>
        if form.accepts text then
          (readItems forms rest).map (items ++ .value form.long text :: ·)
        else none

def plainTexts (items : List Item) : List String :=
  items.filterMap fun
    | .plain text => some text
    | _ => none

def flagCount (items : List Item) (name : String) : Nat := items.count (.flag name)

def flag? (items : List Item) (name : String) : Option Bool :=
  match flagCount items name with
  | 0 => some false
  | 1 => some true
  | _ => none

def valueTexts (items : List Item) (name : String) : List String :=
  items.filterMap fun
    | .value n text => if n == name then some text else none
    | _ => none

def value? (items : List Item) (name : String) : Option (Option String) :=
  match valueTexts items name with
  | [] => some none
  | [text] => some (some text)
  | _ => none

/-- Decimal digits with nothing else; at least one. -/
def digits? (text : List Char) : Option Nat :=
  if text.isEmpty || !text.all Char.isDigit then none
  else some (text.foldl (fun n c => 10 * n + (c.toNat - '0'.toNat)) 0)

/-- A number from 0 to 2⁶⁴ - 1, with or without a plus. -/
def natOfText? (text : String) : Option Nat := do
  let n ← digits? (match text.toList with
    | '+' :: rest => rest
    | chars => chars)
  if n < 2 ^ 64 then some n else none

def int64OfText? (text : String) : Option Int64 := do
  let n : Int ← match text.toList with
    | '+' :: rest => (digits? rest).map Int.ofNat
    | '-' :: rest => (digits? rest).map fun n => -Int.ofNat n
    | chars => (digits? chars).map Int.ofNat
  if -2 ^ 63 ≤ n ∧ n < 2 ^ 63 then some (Int64.ofInt n) else none

/-- Reads an optional text: a missing one gives nothing, one that cannot be read fails. -/
def readOptional {α : Type} (read? : String → Option α) : Option String → Option (Option α)
  | none => some none
  | some text => (read? text).map some

end SortTrace.Command
