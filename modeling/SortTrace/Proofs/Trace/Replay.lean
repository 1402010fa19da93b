import SortTrace.Proofs.Trace.Frame
import SortTrace.Trace.Replay

/-!
Replay of accepted traces. Events change the array in a way that does not depend on what they have
recorded, so the array before every step is known without replay; replay succeeds exactly as far as
the recorded values are the ones found there.
-/

namespace SortTrace

def arrayAfter (array : List Int64) (events : List Event) : List Int64 :=
  events.foldl Event.effect array

def Event.Agrees (array : List Int64) (e : Event) : Prop :=
  e.reads.1.map (array[·]?) = e.reads.2.map some

def Replays (array : List Int64) : List Event → Prop
  | [] => True
  | e :: rest => e.Agrees array ∧ Replays (e.effect array) rest

theorem exchange_length (array : List Int64) (i j : Nat) :
    (exchange array i j).length = array.length := by
  unfold exchange
  split <;> simp

theorem Event.effect_length (array : List Int64) (e : Event) :
    (e.effect array).length = array.length := by
  cases e <;> simp [Event.effect, exchange_length]

theorem arrayAfter_length (array : List Int64) (events : List Event) :
    (arrayAfter array events).length = array.length := by
  induction events generalizing array with
  | nil => rfl
  | cons e rest ih => exact (ih (e.effect array)).trans (e.effect_length array)

theorem arrayAfter_append (array : List Int64) (before after : List Event) :
    arrayAfter array (before ++ after) = arrayAfter (arrayAfter array before) after :=
  List.foldl_append

theorem filterMap_eq_iff (look : Nat → Option Int64) (indices : List Nat) (values : List Int64)
    (paired : indices.length = values.length) :
    indices.filterMap look = values ↔ indices.map look = values.map some := by
  induction indices generalizing values with
  | nil => cases values <;> simp at paired ⊢
  | cons i rest ih =>
    cases values with
    | nil => simp at paired
    | cons value values =>
      have tail := ih values (by simpa using paired)
      cases found : look i with
      | some x => simp [found, tail]
      | none =>
        have short := List.length_filterMap_le look rest
        simp only [List.filterMap_cons, found, List.map_cons, List.cons.injEq, reduceCtorEq,
          false_and, iff_false]
        intro same
        rw [same] at short
        simp only [List.length_cons] at paired short
        omega

theorem Event.reads_paired (e : Event) : e.reads.1.length = e.reads.2.length := by
  cases e <;> rfl

theorem Event.agrees_iff (array : List Int64) (e : Event) :
    e.Agrees array ↔ valuesAt array e.reads.1 = e.reads.2 :=
  (filterMap_eq_iff (array[·]?) e.reads.1 e.reads.2 e.reads_paired).symm

theorem Event.apply_ok (array : List Int64) (step : Nat) (e : Event) (agrees : e.Agrees array) :
    e.apply array step = .ok (e.effect array) := by
  simp [Event.apply, (e.agrees_iff array).mp agrees]

theorem Event.apply_error (array : List Int64) (step : Nat) (e : Event)
    (differs : ¬ e.Agrees array) :
    e.apply array step = .error (.replayMismatch step e.reads.2 (valuesAt array e.reads.1)) := by
  rw [e.agrees_iff] at differs
  simp [Event.apply, differs]

theorem Replays.append (array : List Int64) (before after : List Event) :
    Replays array (before ++ after) ↔
      Replays array before ∧ Replays (arrayAfter array before) after := by
  induction before generalizing array with
  | nil => simp [Replays, arrayAfter]
  | cons e rest ih => simp [Replays, ih, arrayAfter, and_assoc]

theorem replayFrom_ok (array : List Int64) (step : Nat) (events : List Event)
    (clean : Replays array events) : replayFrom array step events = .ok (arrayAfter array events) := by
  induction events generalizing array step with
  | nil => rfl
  | cons e rest ih =>
    simp only [replayFrom, e.apply_ok array step clean.1]
    exact ih (e.effect array) (step + 1) clean.2

theorem replayFrom_error (array : List Int64) (step : Nat) (before : List Event) (e : Event)
    (after : List Event) (clean : Replays array before)
    (differs : ¬ e.Agrees (arrayAfter array before)) :
    replayFrom array step (before ++ e :: after) =
      .error (.replayMismatch (step + before.length) e.reads.2
        (valuesAt (arrayAfter array before) e.reads.1)) := by
  induction before generalizing array step with
  | nil => simp [replayFrom, arrayAfter, e.apply_error array step differs]
  | cons first rest ih =>
    simp only [List.cons_append, replayFrom, first.apply_ok array step clean.1]
    rw [ih (first.effect array) (step + 1) clean.2 differs]
    simp only [arrayAfter, List.foldl_cons, List.length_cons, Nat.add_assoc, Nat.add_comm 1]

theorem replays_or_differs (array : List Int64) (events : List Event) :
    Replays array events ∨ ∃ before e after, events = before ++ e :: after ∧
      Replays array before ∧ ¬ e.Agrees (arrayAfter array before) := by
  induction events generalizing array with
  | nil => exact .inl trivial
  | cons e rest ih =>
    by_cases agrees : e.Agrees array
    · rcases ih (e.effect array) with clean | ⟨before, e', after, rfl, clean, differs⟩
      · exact .inl ⟨agrees, clean⟩
      · exact .inr ⟨e :: before, e', after, rfl, ⟨agrees, clean⟩, differs⟩
    · exact .inr ⟨[], e, rest, rfl, trivial, agrees⟩

theorem replayFrom_ok_iff (array final : List Int64) (step : Nat) (events : List Event) :
    replayFrom array step events = .ok final ↔
      Replays array events ∧ arrayAfter array events = final := by
  rcases replays_or_differs array events with clean | ⟨before, e, after, rfl, clean, differs⟩
  · simp [replayFrom_ok array step events clean, clean]
  · simp [replayFrom_error array step before e after clean differs, Replays.append, Replays, differs]

theorem Trace.replay_eq (t : Trace) (opened : t.events ≠ []) :
    t.replay = replayFrom t.initial 0 t.events := by
  have counted : 0 < t.length := List.length_pos_iff.mpr opened
  rw [replay, stateAt, if_neg (by omega), Nat.sub_add_cancel counted, length, List.take_length]

end SortTrace
