import SortTrace.Proofs.Trace.Growth

/-!
What a request adds. That depends on the array alone, so recorders with one array answer alike,
whatever they have recorded before.
-/

namespace SortTrace

namespace Request

def positions : Request → List Nat
  | compare i j | swap i j => [i, j]
  | set i _ => [i]
  | highlight indices _ | sorted indices => indices
  | comment _ => []

def kind : Request → EventKind
  | compare .. => .compare
  | swap .. => .swap
  | set .. => .set
  | highlight .. => .highlight
  | sorted .. => .sorted
  | comment .. => .comment

/-- The event that a request adds over an array; none, if the request is refused. -/
def event? (array : List Int64) : Request → Option Event
  | compare i j => array[i]?.bind fun x => array[j]?.map fun y => .compare i j x y
  | swap i j => array[i]?.bind fun x => array[j]?.map fun y => .swap i j x y
  | set i value => array[i]?.map fun previous => .set i value previous
  | highlight indices color =>
    if ∀ i ∈ indices, i < array.length then some (.highlight indices color) else none
  | sorted indices => if ∀ i ∈ indices, i < array.length then some (.sorted indices) else none
  | comment message => some (.comment message)

theorem event?_names {array : List Int64} {q : Request} {e : Event}
    (added : q.event? array = some e) : e.kind = q.kind ∧ e.indices = q.positions := by
  cases q with
  | compare i j | swap i j =>
    obtain ⟨x, -, added⟩ := Option.bind_eq_some_iff.mp added
    obtain ⟨y, -, rfl⟩ := Option.map_eq_some_iff.mp added
    exact ⟨rfl, rfl⟩
  | set i value =>
    obtain ⟨previous, -, rfl⟩ := Option.map_eq_some_iff.mp added
    exact ⟨rfl, rfl⟩
  | highlight indices color | sorted indices =>
    rw [event?] at added
    split at added
    · cases added
      exact ⟨rfl, rfl⟩
    · cases added
  | comment message =>
    cases added
    exact ⟨rfl, rfl⟩

end Request

namespace Recorder

def extend (r : Recorder) : Option Event → Recorder
  | some e => ⟨e.effect r.array, r.log.push e⟩
  | none => r

@[simp] theorem extend_events (r : Recorder) (added : Option Event) :
    (r.extend added).events = r.events ++ added.toList := by
  cases added <;> simp [extend, events]

theorem extend_array {r r' : Recorder} (same : r'.array = r.array) (added : Option Event) :
    (r'.extend added).array = (r.extend added).array := by
  cases added <;> simp [extend, same]

theorem handle_eq (r : Recorder) (q : Request) : (r.handle q).1 = r.extend (q.event? r.array) := by
  cases q with
  | compare i j =>
    cases atI : r.array[i]? with
    | none => simp [handle, compare, Request.event?, extend, atI]
    | some x =>
      cases atJ : r.array[j]? <;>
        simp [handle, compare, Request.event?, extend, atI, atJ, note, Event.effect]
  | swap i j =>
    cases atI : r.array[i]? with
    | none => simp [handle, swap, Request.event?, extend, atI]
    | some x =>
      cases atJ : r.array[j]? <;>
        simp [handle, swap, Request.event?, extend, atI, atJ, Event.effect, exchange]
  | set i value =>
    cases atI : r.array[i]? <;> simp [handle, set, Request.event?, extend, atI, Event.effect]
  | highlight indices color =>
    have accepts := r.outside?_eq_none indices
    simp only [handle, highlight, Request.event?, size] at accepts ⊢
    simp only [accepts]
    split <;> rfl
  | sorted indices =>
    have accepts := r.outside?_eq_none indices
    simp only [handle, sorted, Request.event?, size] at accepts ⊢
    simp only [accepts]
    split <;> rfl
  | comment message => rfl

theorem run_cons (r : Recorder) (q : Request) (rest : List Request) :
    r.run (q :: rest) = (r.handle q).1.run rest := rfl

theorem run_append (r : Recorder) (first rest : List Request) :
    r.run (first ++ rest) = (r.run first).run rest := List.foldl_append

end Recorder

end SortTrace
