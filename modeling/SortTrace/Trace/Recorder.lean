import SortTrace.Trace.Basic

/-!
The recorder keeps an array and the events that led to it. It is the only writer of its array, and
it records an event exactly when it performs it, so every recorded value is the true one. A request
that names a position outside the array is refused and changes nothing.
-/

namespace SortTrace

structure Recorder where
  array : List Int64
  log : Array Event

namespace Recorder

def start (array : List Int64) : Recorder := ⟨array, #[.init array]⟩

def size (r : Recorder) : Nat := r.array.length

def events (r : Recorder) : List Event := r.log.toList

def value? (r : Recorder) (i : Nat) : Option Int64 := r.array[i]?

def outside? (r : Recorder) (indices : List Nat) : Option Nat := indices.find? (r.size ≤ ·)

def note (r : Recorder) (e : Event) : Recorder := { r with log := r.log.push e }

def compare (r : Recorder) (i j : Nat) : Recorder × Option (Int64 × Int64) :=
  match r.array[i]?, r.array[j]? with
  | some x, some y => (r.note (.compare i j x y), some (x, y))
  | _, _ => (r, none)

def swap (r : Recorder) (i j : Nat) : Recorder × Bool :=
  match r.array[i]?, r.array[j]? with
  | some x, some y => (⟨(r.array.set i y).set j x, r.log.push (.swap i j x y)⟩, true)
  | _, _ => (r, false)

def set (r : Recorder) (i : Nat) (value : Int64) : Recorder × Bool :=
  match r.array[i]? with
  | some previous => (⟨r.array.set i value, r.log.push (.set i value previous)⟩, true)
  | none => (r, false)

def exchangeIf (r : Recorder) (asked : Int64 → Int64 → Bool) (i j : Nat) : Recorder :=
  match r.compare i j with
  | (r, some (x, y)) => if asked x y then (r.swap i j).1 else r
  | (r, none) => r

def highlight (r : Recorder) (indices : List Nat) (color : Color) : Recorder × Bool :=
  if (r.outside? indices).isNone then (r.note (.highlight indices color), true) else (r, false)

def sorted (r : Recorder) (indices : List Nat) : Recorder × Bool :=
  if (r.outside? indices).isNone then (r.note (.sorted indices), true) else (r, false)

def comment (r : Recorder) (message : String) : Recorder := r.note (.comment message)

def finish (r : Recorder) : Trace := ⟨r.events ++ [Event.complete]⟩

end Recorder

end SortTrace
