import SortTrace.Proofs.Trace.Recording

/-!
How the events of a recorder grow: requests only add to them and keep the size of the array. A row of
sets adds one event for each set in range.
-/

namespace SortTrace

def setEvents (array : List Int64) : List (Nat × Int64) → List Event
  | [] => []
  | (i, value) :: rest =>
    match array[i]? with
    | some previous => .set i value previous :: setEvents (array.set i value) rest
    | none => setEvents array rest

def Event.set? : Event → Option (Nat × Int64)
  | set i value _ => some (i, value)
  | _ => none

theorem setEvents_inRange (array : List Int64) (sets : List (Nat × Int64)) :
    (setEvents array sets).map Event.set? = (sets.filter (·.1 < array.length)).map some := by
  induction sets generalizing array with
  | nil => rfl
  | cons s rest ih =>
    obtain ⟨i, value⟩ := s
    cases found : array[i]? with
    | none =>
      have outside : ¬ i < array.length := by
        have bound := List.getElem?_eq_none_iff.mp found
        omega
      simp [setEvents, outside, ih]
    | some previous =>
      have inside := (List.getElem?_eq_some_iff.mp found).1
      simp [setEvents, inside, ih, Event.set?]

namespace Recorder

def setAll (r : Recorder) (sets : List (Nat × Int64)) : Recorder :=
  sets.foldl (fun r s => (r.set s.1 s.2).1) r

theorem events_setAll (r : Recorder) (sets : List (Nat × Int64)) :
    (r.setAll sets).events = r.events ++ setEvents r.array sets := by
  induction sets generalizing r with
  | nil => exact (List.append_nil _).symm
  | cons s rest ih =>
    obtain ⟨i, value⟩ := s
    have step : r.setAll ((i, value) :: rest) = (r.set i value).1.setAll rest := rfl
    rw [step, ih]
    cases found : r.array[i]? <;> simp [set, setEvents, found, events]

def Reaches (r r' : Recorder) : Prop := ∃ requests, r.run requests = r'

namespace Reaches

variable {r r' r'' : Recorder}

theorem refl (r : Recorder) : r.Reaches r := ⟨[], rfl⟩

theorem trans (first : r.Reaches r') (second : r'.Reaches r'') : r.Reaches r'' := by
  obtain ⟨requests, rfl⟩ := first
  obtain ⟨further, rfl⟩ := second
  exact ⟨requests ++ further, List.foldl_append⟩

theorem request (r : Recorder) (q : Request) : r.Reaches (r.handle q).1 := ⟨[q], rfl⟩

theorem grown (reaches : r.Reaches r') :
    ∃ added, r'.events = r.events ++ added ∧ r'.size = r.size := by
  obtain ⟨requests, rfl⟩ := reaches
  induction requests generalizing r with
  | nil => exact ⟨[], (List.append_nil _).symm, rfl⟩
  | cons q rest ih =>
    have step : r.run (q :: rest) = (r.handle q).1.run rest := rfl
    obtain ⟨added, events_eq, size_eq⟩ := @ih (r.handle q).1
    rw [step]
    rcases r.handle_cases q with refused | ⟨e, -, -, accepted⟩
    · rw [refused] at events_eq size_eq ⊢
      exact ⟨added, events_eq, size_eq⟩
    · rw [accepted] at events_eq size_eq ⊢
      refine ⟨e :: added, ?_, size_eq.trans (e.effect_length r.array)⟩
      rw [events_eq]
      simp [events]

end Reaches

theorem reaches_setAll (r : Recorder) (sets : List (Nat × Int64)) : r.Reaches (r.setAll sets) := by
  induction sets generalizing r with
  | nil => exact .refl r
  | cons s rest ih => exact (Reaches.request r (.set s.1 s.2)).trans (ih _)

/-- The second recorder comes from the first by sets. They add one event for each set in range, in
their order. -/
structure Overwrites (r : Recorder) (sets : List (Nat × Int64)) (added : List Event)
    (r' : Recorder) : Prop where
  recorder_eq : r' = r.setAll sets
  events_eq : r'.events = r.events ++ added
  inRange : added.map Event.set? = (sets.filter (·.1 < r.size)).map some
  size_eq : r'.size = r.size

theorem overwrites_setAll (r : Recorder) (sets : List (Nat × Int64)) :
    r.Overwrites sets (setEvents r.array sets) (r.setAll sets) := by
  obtain ⟨_, -, size_eq⟩ := (r.reaches_setAll sets).grown
  exact ⟨rfl, r.events_setAll sets, setEvents_inRange r.array sets, size_eq⟩

def Asks (P : Request → Prop) (r r' : Recorder) : Prop :=
  ∃ requests, r.run requests = r' ∧ ∀ q ∈ requests, P q

namespace Asks

variable {P Q : Request → Prop} {r r' r'' : Recorder}

theorem refl (r : Recorder) : r.Asks P r := ⟨[], rfl, by simp⟩

theorem trans (first : r.Asks P r') (second : r'.Asks P r'') : r.Asks P r'' := by
  obtain ⟨requests, rfl, fine⟩ := first
  obtain ⟨further, rfl, alsoFine⟩ := second
  exact ⟨requests ++ further, List.foldl_append,
    List.forall_mem_append.mpr ⟨fine, alsoFine⟩⟩

theorem request {q : Request} (fine : P q) (r : Recorder) : r.Asks P (r.handle q).1 :=
  ⟨[q], rfl, by simpa using fine⟩

theorem mono (asks : r.Asks P r') (weaker : ∀ q, P q → Q q) : r.Asks Q r' := by
  obtain ⟨requests, same, fine⟩ := asks
  exact ⟨requests, same, fun q member => weaker q (fine q member)⟩

theorem reaches (asks : r.Asks P r') : r.Reaches r' := by
  obtain ⟨requests, same, -⟩ := asks
  exact ⟨requests, same⟩

end Asks

theorem asks_exchangeIf {P : Request → Prop} {i j : Nat} (looks : P (.compare i j))
    (swaps : P (.swap i j)) (r : Recorder) (asked : Int64 → Int64 → Bool) :
    r.Asks P (r.exchangeIf asked i j) := by
  have looked := Asks.request looks r
  simp only [handle] at looked
  unfold exchangeIf
  split
  · rename_i next x y compared
    rw [compared] at looked
    split
    · exact looked.trans (.request swaps next)
    · exact looked
  · rename_i next compared
    rw [compared] at looked
    exact looked

theorem reaches_exchangeIf (r : Recorder) (asked : Int64 → Int64 → Bool) (i j : Nat) :
    r.Reaches (r.exchangeIf asked i j) :=
  (asks_exchangeIf (P := fun _ => True) trivial trivial r asked).reaches

end Recorder

end SortTrace
