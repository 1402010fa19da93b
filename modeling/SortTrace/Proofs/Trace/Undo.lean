import SortTrace.Proofs.Trace.Mismatch

/-!
Stepping backwards. An event that agrees with the array in front of it has recorded what it overwrites,
so its effect can be taken back by its own fields, without the events before it.
-/

namespace SortTrace

/-- Writes back what an event has recorded: both values of an exchange, each at its position, and the
value that was overwritten. -/
def Event.undo (array : List Int64) : Event → List Int64
  | swap i j x y => (array.set i x).set j y
  | set i _ previous => array.set i previous
  | _ => array

def undoAll (array : List Int64) (events : List Event) : List Int64 :=
  events.foldr (fun e array => e.undo array) array

theorem set_present {array : List Int64} {i : Nat} {x : Int64} (found : array[i]? = some x) :
    array.set i x = array := by
  obtain ⟨inside, rfl⟩ := List.getElem?_eq_some_iff.mp found
  exact List.set_getElem_self inside

theorem exchange_undo {array : List Int64} {i j : Nat} {x y : Int64} (atI : array[i]? = some x)
    (atJ : array[j]? = some y) : ((exchange array i j).set i x).set j y = array := by
  have exchanged : exchange array i j = (array.set i y).set j x := by
    rw [exchange, atI, atJ]
  rw [exchanged]
  by_cases same : i = j
  · subst same
    simp only [List.set_set]
    exact set_present atJ
  · rw [List.set_comm y x same, List.set_set, List.set_comm x x (Ne.symm same), List.set_set,
      set_present atI]
    exact set_present atJ

theorem Event.undo_effect {array : List Int64} {e : Event} (agrees : e.Agrees array) :
    e.undo (e.effect array) = array := by
  cases e with
  | swap i j x y =>
    simp only [Agrees, reads, List.map_cons, List.map_nil, List.cons.injEq, and_true] at agrees
    exact exchange_undo agrees.1 agrees.2
  | set i value previous =>
    simp only [Agrees, reads, List.map_cons, List.map_nil, List.cons.injEq, and_true] at agrees
    rw [effect, undo, List.set_set]
    exact set_present agrees
  | _ => rfl

theorem undoAll_arrayAfter {array : List Int64} {events : List Event} (clean : Replays array events) :
    undoAll (arrayAfter array events) events = array := by
  induction events generalizing array with
  | nil => rfl
  | cons e rest ih =>
    have later : undoAll (arrayAfter array (e :: rest)) rest = e.effect array := ih clean.2
    rw [undoAll, List.foldr_cons, ← undoAll, later]
    exact e.undo_effect clean.1

theorem Trace.arrayBefore_succ {t : Trace} {step : Nat} {e : Event} (here : t.events[step]? = some e) :
    t.arrayBefore (step + 1) = e.effect (t.arrayBefore step) := by
  rw [arrayBefore, List.take_add_one, here, arrayAfter_append]
  rfl

/-- A step back needs the array and the event alone: the array before any event of a clean trace is the
one after it with the event's own record written back. So the events, taken back from the last one to
the first, lead from the final array to the initial one. -/
theorem stateAt_undo {events : List Event} {t : Trace} {final : List Int64}
    (accepted : Trace.ofEvents events = .ok t) (done : t.replay = .ok final) :
    (∀ step e, events[step + 1]? = some e → ∃ array, t.stateAt (step + 1) = .ok array ∧
      t.stateAt step = .ok (e.undo array)) ∧
    undoAll final events = t.initial := by
  obtain ⟨rfl, -⟩ := (ofEvents_eq_ok_iff events t).mp accepted
  have clean := t.clean_of_replay final done
  refine ⟨fun step e here => ?_, ?_⟩
  · have within : step + 1 < t.length := (List.getElem?_eq_some_iff.mp here).1
    have agrees : e.Agrees (t.arrayBefore (step + 1)) :=
      Classical.not_not.mp fun differs => clean (step + 1) within ⟨e, here, differs⟩
    refine ⟨_, t.stateAt_clean (step + 1) within fun s upTo => clean s (by omega), ?_⟩
    rw [t.stateAt_clean step (by omega) fun s upTo => clean s (by omega), Trace.arrayBefore_succ here,
      e.undo_effect agrees]
  · obtain ⟨replays, rfl⟩ := Trace.replays_of_replay done
    exact undoAll_arrayAfter replays

/-- Taking back an exchange of one position with itself and two changes of one position. -/
theorem stateAt_undo_repeated :
    Trace.ofEvents repeatedPositions = .ok ⟨repeatedPositions⟩ ∧
      (⟨repeatedPositions⟩ : Trace).replay = .ok [9, 5] ∧
      (∀ step e, repeatedPositions[step + 1]? = some e → ∃ array,
        (⟨repeatedPositions⟩ : Trace).stateAt (step + 1) = .ok array ∧
          (⟨repeatedPositions⟩ : Trace).stateAt step = .ok (e.undo array)) ∧
      undoAll [9, 5] repeatedPositions = [5, 3] := by
  have accepted : Trace.ofEvents repeatedPositions = .ok ⟨repeatedPositions⟩ := rfl
  have done : (⟨repeatedPositions⟩ : Trace).replay = .ok [9, 5] := rfl
  exact ⟨accepted, done, stateAt_undo accepted done⟩

end SortTrace
