import SortTrace.Command.Options
import SortTrace.Synthesis.Config

namespace SortTrace.Command

open Synthesis

inductive Invocation where
  | synth (file : Option String) (config : Config) (stream : Bool)
  | generate (algorithm : String) (values : List Int64) (random : Option Nat) (seed : UInt64)
      (stream : Bool)
  | replay (file : Option String) (step : Option Nat)
deriving DecidableEq

structure CommandLine where
  verbosity : Nat
  invocation : Invocation
deriving DecidableEq

def verboseForm : OptionForm := { long := "verbose", short := some 'v' }

def fileForm : OptionForm := { long := "file", short := some 'f', kind := .value false }

def synthForms : List OptionForm :=
  [verboseForm, fileForm, { long := "comments" }, { long := "strict-indices" },
   { long := "max-steps", kind := .value false }, { long := "stream" }]

def generateForms : List OptionForm :=
  [verboseForm, { long := "values", kind := .value true },
   { long := "random", kind := .value false }, { long := "seed", kind := .value false },
   { long := "stream" }]

def replayForms : List OptionForm :=
  [verboseForm, fileForm, { long := "step", kind := .value false }]

/-- A file name must not be empty. -/
def fileOf? (items : List Item) : Option (Option String) := do
  let file ← value? items "file"
  if file = some "" then none else some file

/-- The step limit comes from its option, or else from the environment. -/
def synthOf? (environment : Option String) (items : List Item) : Option Invocation := do
  let [] := plainTexts items | none
  let file ← fileOf? items
  let comments ← flag? items "comments"
  let strict ← flag? items "strict-indices"
  let stream ← flag? items "stream"
  let given ← value? items "max-steps"
  let limit ← readOptional natOfText? (given.or environment)
  let standard : Config := {}
  return .synth file
    { indexPolicy := if strict then .strict else standard.indexPolicy
      loopComments := comments
      maxSteps := limit.getD standard.maxSteps }
    stream

/-- Values are given or drawn, not both. A seed is for drawn values; beside given ones it may stand
but has no use. -/
def generateOf? (items : List Item) : Option Invocation := do
  let [algorithm] := plainTexts items | none
  let lists := valueTexts items "values"
  let values ← (lists.flatMap (·.splitOn ",")).mapM int64OfText?
  let random ← readOptional natOfText? (← value? items "random")
  let seed ← readOptional natOfText? (← value? items "seed")
  let stream ← flag? items "stream"
  if !lists.isEmpty && random.isSome then none
  else if seed.isSome && random.isNone && lists.isEmpty then none
  else return .generate algorithm values random (seed.getD 0).toUInt64 stream

def replayOf? (items : List Item) : Option Invocation := do
  let [] := plainTexts items | none
  let file ← fileOf? items
  let step ← readOptional natOfText? (← value? items "step")
  return .replay file step

/-- Verbosity flags behind the command replace those in front of it. -/
def verbosityOf (before : Nat) (items : List Item) : Nat :=
  match flagCount items "verbose" with
  | 0 => before
  | n => n

def commandOf? (environment : Option String) (verbosity : Nat) (name : String)
    (args : List String) : Option CommandLine :=
  match name with
  | "synth" => do
    let items ← readItems synthForms args
    return ⟨verbosityOf verbosity items, ← synthOf? environment items⟩
  | "generate" => do
    let items ← readItems generateForms args
    return ⟨verbosityOf verbosity items, ← generateOf? items⟩
  | "replay" => do
    let items ← readItems replayForms args
    return ⟨verbosityOf verbosity items, ← replayOf? items⟩
  | _ => none

/-- Reads a command line; nothing, if it is not understood. Only verbosity flags may stand in front
of the command. -/
def readFrom (environment : Option String) : (verbosity : Nat) → List String → Option CommandLine
  | _, [] => none
  | verbosity, arg :: rest =>
    if looksLikeOption arg then
      match readArgument [verboseForm] arg with
      | some (items, none) => readFrom environment (verbosity + items.length) rest
      | _ => none
    else commandOf? environment verbosity arg rest

def CommandLine.read? (environment : Option String) (args : List String) : Option CommandLine :=
  readFrom environment 0 args

end SortTrace.Command
