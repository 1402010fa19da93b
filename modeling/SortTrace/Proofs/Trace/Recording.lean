import SortTrace.Proofs.Trace.Mismatch
import SortTrace.Trace.Recorder

/-!
What a recorder has recorded. A request is either refused without a trace of it, or adds one event
that agrees with the array and does to it what the recorder does. So the events of any run make up a
valid trace, and its replay passes through the arrays that the recorder went through.
-/

namespace SortTrace

/-- A request to a recorder, with arbitrary positions. -/
inductive Request where
  | compare (i j : Nat)
  | swap (i j : Nat)
  | set (i : Nat) (value : Int64)
  | highlight (indices : List Nat) (color : Color)
  | sorted (indices : List Nat)
  | comment (message : String)

namespace Recorder

def handle (r : Recorder) : Request → Recorder × Bool
  | .compare i j => ((r.compare i j).1, (r.compare i j).2.isSome)
  | .swap i j => r.swap i j
  | .set i value => r.set i value
  | .highlight indices color => r.highlight indices color
  | .sorted indices => r.sorted indices
  | .comment message => (r.comment message, true)

def run (r : Recorder) (requests : List Request) : Recorder :=
  requests.foldl (fun r q => (r.handle q).1) r

/-- The array as it stood right after each event that some requests have added. -/
def arraysDuring (r : Recorder) : List Request → List (List Int64)
  | [] => []
  | q :: rest =>
    let (next, accepted) := r.handle q
    if accepted then next.array :: next.arraysDuring rest else next.arraysDuring rest

theorem outside?_eq_none (r : Recorder) (indices : List Nat) :
    (r.outside? indices).isNone = true ↔ ∀ i ∈ indices, i < r.size := by
  simp [outside?]

/-- What one request can do: it is refused and changes nothing, or it records one event that fits
the array and performs it. -/
theorem handle_cases (r : Recorder) (q : Request) :
    r.handle q = (r, false) ∨
      ∃ e : Event, e.Inner r.size ∧ e.Agrees r.array ∧
        r.handle q = (⟨e.effect r.array, r.log.push e⟩, true) := by
  cases q with
  | compare i j =>
    cases atI : r.array[i]? with
    | none => exact .inl (by simp [handle, compare, atI])
    | some x =>
      cases atJ : r.array[j]? with
      | none => exact .inl (by simp [handle, compare, atI, atJ])
      | some y =>
        have boundI := (List.getElem?_eq_some_iff.mp atI).1
        have boundJ := (List.getElem?_eq_some_iff.mp atJ).1
        refine .inr ⟨.compare i j x y, ⟨by simp [Event.kind], by simp [Event.kind], ?_⟩, ?_, ?_⟩
        · simp [Event.indices, size, boundI, boundJ]
        · simp [Event.Agrees, Event.reads, atI, atJ]
        · simp [handle, compare, atI, atJ, note, Event.effect]
  | swap i j =>
    cases atI : r.array[i]? with
    | none => exact .inl (by simp [handle, swap, atI])
    | some x =>
      cases atJ : r.array[j]? with
      | none => exact .inl (by simp [handle, swap, atI, atJ])
      | some y =>
        have boundI := (List.getElem?_eq_some_iff.mp atI).1
        have boundJ := (List.getElem?_eq_some_iff.mp atJ).1
        refine .inr ⟨.swap i j x y, ⟨by simp [Event.kind], by simp [Event.kind], ?_⟩, ?_, ?_⟩
        · simp [Event.indices, size, boundI, boundJ]
        · simp [Event.Agrees, Event.reads, atI, atJ]
        · simp [handle, swap, atI, atJ, Event.effect, exchange]
  | set i value =>
    cases atI : r.array[i]? with
    | none => exact .inl (by simp [handle, set, atI])
    | some previous =>
      have boundI := (List.getElem?_eq_some_iff.mp atI).1
      refine .inr ⟨.set i value previous, ⟨by simp [Event.kind], by simp [Event.kind], ?_⟩, ?_, ?_⟩
      · simp [Event.indices, size, boundI]
      · simp [Event.Agrees, Event.reads, atI]
      · simp [handle, set, atI, Event.effect]
  | highlight indices color =>
    by_cases inside : (r.outside? indices).isNone = true
    · refine .inr
        ⟨.highlight indices color, ⟨by simp [Event.kind], by simp [Event.kind], ?_⟩, rfl, ?_⟩
      · exact (r.outside?_eq_none indices).mp inside
      · simp [handle, highlight, inside, note, Event.effect]
    · exact .inl (by simp [handle, highlight, inside])
  | sorted indices =>
    by_cases inside : (r.outside? indices).isNone = true
    · refine .inr ⟨.sorted indices, ⟨by simp [Event.kind], by simp [Event.kind], ?_⟩, rfl, ?_⟩
      · exact (r.outside?_eq_none indices).mp inside
      · simp [handle, sorted, inside, note, Event.effect]
    · exact .inl (by simp [handle, sorted, inside])
  | comment message =>
    exact .inr ⟨.comment message,
      ⟨by simp [Event.kind], by simp [Event.kind], by simp [Event.indices]⟩, rfl, rfl⟩

/-- The events so far are a trace without its end, and their replay gives the array. -/
structure Faithful (array : List Int64) (inner : List Event) (r : Recorder) : Prop where
  events_eq : r.events = .init array :: inner
  fits : ∀ e ∈ inner, e.Inner array.length
  replays : Replays array inner
  array_eq : arrayAfter array inner = r.array

theorem Faithful.start (array : List Int64) : Faithful array [] (.start array) :=
  ⟨rfl, by simp, trivial, rfl⟩

theorem Faithful.size_eq {array : List Int64} {inner : List Event} {r : Recorder}
    (faithful : Faithful array inner r) : r.size = array.length := by
  rw [size, ← faithful.array_eq, arrayAfter_length]

theorem Faithful.push {array : List Int64} {inner : List Event} {r : Recorder}
    (faithful : Faithful array inner r) (e : Event) (fits : e.Inner r.size)
    (agrees : e.Agrees r.array) :
    Faithful array (inner ++ [e]) ⟨e.effect r.array, r.log.push e⟩ := by
  refine ⟨?_, ?_, ?_, ?_⟩
  · have before := faithful.events_eq
    unfold events at before ⊢
    simp [before]
  · intro x member
    rcases List.mem_append.mp member with old | new
    · exact faithful.fits x old
    · rw [List.mem_singleton.mp new, ← faithful.size_eq]
      exact fits
  · rw [Replays.append, faithful.array_eq]
    exact ⟨faithful.replays, agrees, trivial⟩
  · rw [arrayAfter_append, faithful.array_eq]
    rfl

theorem Faithful.handle {array : List Int64} {inner : List Event} {r : Recorder}
    (faithful : Faithful array inner r) (q : Request) :
    ∃ added, Faithful array (inner ++ added) (r.handle q).1 := by
  rcases r.handle_cases q with refused | ⟨e, fits, agrees, accepted⟩
  · exact ⟨[], by rw [refused, List.append_nil]; exact faithful⟩
  · exact ⟨[e], by rw [accepted]; exact faithful.push e fits agrees⟩

theorem Faithful.run {array : List Int64} {inner : List Event} {r : Recorder}
    (faithful : Faithful array inner r) (requests : List Request) :
    ∃ added, Faithful array (inner ++ added) (r.run requests) ∧
      (r.arraysDuring requests).length = added.length ∧
      ∀ k a, (r.arraysDuring requests)[k]? = some a →
        arrayAfter array (inner ++ added.take (k + 1)) = a := by
  induction requests generalizing inner r with
  | nil => exact ⟨[], by rw [List.append_nil]; exact faithful, rfl, nofun⟩
  | cons q rest ih =>
    rcases r.handle_cases q with refused | ⟨e, fits, agrees, accepted⟩
    · have same : (r.handle q).1 = r := by rw [refused]
      have skipped : r.arraysDuring (q :: rest) = r.arraysDuring rest := by
        simp [arraysDuring, refused]
      obtain ⟨later, last, counted, through⟩ := ih faithful
      rw [skipped]
      refine ⟨later, ?_, counted, through⟩
      show Faithful array _ ((r.handle q).1.run rest)
      rw [same]
      exact last
    · let next : Recorder := ⟨e.effect r.array, r.log.push e⟩
      have same : (r.handle q).1 = next := by rw [accepted]
      have entered : r.arraysDuring (q :: rest) = next.array :: next.arraysDuring rest := by
        simp [arraysDuring, accepted, next]
      have onward : Faithful array (inner ++ [e]) next := faithful.push e fits agrees
      obtain ⟨later, last, counted, through⟩ := ih onward
      rw [entered]
      refine ⟨e :: later, ?_, by simp [counted], ?_⟩
      · show Faithful array _ ((r.handle q).1.run rest)
        rw [same]
        simpa using last
      · intro k a here
        cases k with
        | zero => simpa [← onward.array_eq] using here
        | succ k =>
          have behind := through k a (by simpa using here)
          rw [← behind]
          simp

theorem Faithful.finish_eq {array : List Int64} {inner : List Event} {r : Recorder}
    (faithful : Faithful array inner r) : r.finish = ⟨framed array inner⟩ := by
  simp [finish, faithful.events_eq, framed]

theorem stateAt_framed (array : List Int64) (inner : List Event) (clean : Replays array inner)
    (k : Nat) (within : k ≤ inner.length + 1) :
    (⟨framed array inner⟩ : Trace).stateAt k = .ok (arrayAfter array (inner.take k)) := by
  have size : (⟨framed array inner⟩ : Trace).length = inner.length + 2 := by
    simp [Trace.length, framed]
  have upTo : (framed array inner).take (k + 1) =
      .init array :: (inner ++ [Event.complete]).take k := rfl
  have replays : Replays array (framed array inner) :=
    ⟨rfl, (Replays.append array inner [.complete]).mpr ⟨clean, rfl, trivial⟩⟩
  have shorter : Replays array ((framed array inner).take (k + 1)) := by
    rw [← List.take_append_drop (k + 1) (framed array inner)] at replays
    exact ((Replays.append array _ _).mp replays).1
  rw [Trace.stateAt, if_neg (by omega)]
  refine (replayFrom_ok array 0 _ shorter).trans ?_
  rw [upTo]
  rcases Nat.lt_or_ge inner.length k with past | inside
  · rw [List.take_of_length_le (by simp; omega), List.take_of_length_le (by omega)]
    exact congrArg Except.ok (arrayAfter_append array inner [.complete])
  · rw [List.take_append_of_le_length inside]
    rfl

theorem Faithful.accepted {array : List Int64} {inner : List Event} {r : Recorder}
    (faithful : Faithful array inner r) : Trace.ofEvents r.finish.events = .ok r.finish := by
  rw [faithful.finish_eq]
  exact ofEvents_framed array inner faithful.fits

theorem Faithful.replay_eq {array : List Int64} {inner : List Event} {r : Recorder}
    (faithful : Faithful array inner r) : r.finish.replay = .ok r.array := by
  rw [faithful.finish_eq, Trace.replay, stateAt_framed array inner faithful.replays]
  · rw [List.take_of_length_le (by simp [Trace.length, framed]), faithful.array_eq]
  · simp [Trace.length, framed]

/-- Any run of requests, with positions inside the array or outside: a refused request leaves no
mark and an accepted one adds one event; the finished trace passes validation, its replay gives the
final array, and the array after each of its steps is the one that stood there in the run. -/
theorem run_recorded (array : List Int64) (requests : List Request) :
    let r := (start array).run requests
    let arrays := array :: ((start array).arraysDuring requests ++ [r.array])
    (∀ (s : Recorder) (q : Request),
      if (s.handle q).2 then ∃ e, (s.handle q).1.events = s.events ++ [e] else (s.handle q).1 = s) ∧
    Trace.ofEvents r.finish.events = .ok r.finish ∧
    r.finish.replay = .ok r.array ∧
    arrays.length = r.finish.length ∧
    ∀ k a, arrays[k]? = some a → r.finish.stateAt k = .ok a := by
  intro r arrays
  obtain ⟨inner, faithful, counted, through⟩ := (Faithful.start array).run requests
  simp only [List.nil_append] at faithful through
  have size : arrays.length = inner.length + 2 := by simp [arrays, counted]
  refine ⟨?_, faithful.accepted, faithful.replay_eq, ?_, ?_⟩
  · intro s q
    rcases s.handle_cases q with refused | ⟨e, -, -, accepted⟩
    · simp [refused]
    · simp [accepted, events]
  · rw [size, faithful.finish_eq]
    simp [Trace.length, framed]
  · intro k a here
    obtain ⟨within, -⟩ := List.getElem?_eq_some_iff.mp here
    rw [faithful.finish_eq, stateAt_framed array inner faithful.replays k (by omega)]
    congr 1
    cases k with
    | zero => simpa [arrays, arrayAfter] using here
    | succ k =>
      rcases Nat.lt_or_ge k inner.length with during | final
      · simp only [arrays, List.getElem?_cons_succ] at here
        rw [List.getElem?_append_left (by omega)] at here
        exact through k a here
      · have atEnd : k = inner.length := by omega
        simp only [arrays, List.getElem?_cons_succ] at here
        rw [List.getElem?_append_right (by omega), counted, atEnd, Nat.sub_self] at here
        rw [List.take_of_length_le (by omega), faithful.array_eq]
        simpa using here

end Recorder

end SortTrace
