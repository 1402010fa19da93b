import SortTrace.Proofs.Trace.Frame

/-!
Validation is exact. The two ends of a list decide first; between them the earliest step that does not fit
is reported, with what is wrong there.
-/

namespace SortTrace

/-- What is wrong with an event at a step: a frame event that stands elsewhere, or the first of its
positions, as they were recorded, that lies outside the array. -/
inductive Event.Offence (last length step : Nat) : Event → TraceError → Prop
  | init {array : List Int64} : step ≠ 0 → Offence last length step (.init array) (.misplacedInit step)
  | complete : step ≠ last → Offence last length step .complete (.misplacedComplete step)
  | index {e : Event} {before after : List Nat} {i : Nat} : e.indices = before ++ i :: after →
      (∀ j ∈ before, j < length) → length ≤ i →
      Offence last length step e (.indexOutOfRange step i length)

def AllFit (last length step : Nat) (events : List Event) : Prop :=
  ∀ k e, events[k]? = some e → Event.Fits last length (step + k) e

structure Ends (array : List Int64) (events : List Event) : Prop where
  first : events.head? = some (.init array)
  last : events.getLast? = some .complete

section

variable {last length step : Nat} {e : Event} {error : TraceError} {array : List Int64}
  {events rest : List Event}

theorem offence?_eq_some :
    offence? last length step e = some error ↔ e.Offence last length step error := by
  constructor
  · intro found
    by_cases first : e.kind = .init
    · cases e with
      | init array =>
        rw [offence?] at found
        split at found <;> cases found
        exact .init ‹_›
      | _ => cases first
    by_cases closing : e.kind = .complete
    · cases e with
      | complete =>
        rw [offence?] at found
        split at found <;> cases found
        exact .complete ‹_›
      | _ => cases closing
    · rw [offence?_inside first closing] at found
      obtain ⟨i, outside, rfl⟩ := Option.map_eq_some_iff.mp found
      obtain ⟨outside, before, after, split, earlier⟩ := List.find?_eq_some_iff_append.mp outside
      simp only [decide_eq_true_eq, Bool.not_eq_true', decide_eq_false_iff_not, Nat.not_le] at *
      exact .index split earlier outside
  · intro offence
    cases offence with
    | init misplaced | complete misplaced => rw [offence?, if_pos misplaced]
    | @index _ before after i split earlier outside =>
      have first : e.kind ≠ .init := fun kind => by cases e <;> simp_all [Event.kind, Event.indices]
      have closing : e.kind ≠ .complete := fun kind => by cases e <;> simp_all [Event.kind, Event.indices]
      have found : e.indices.find? (length ≤ ·) = some i := by
        rw [List.find?_eq_some_iff_append]
        simp only [decide_eq_true_eq, Bool.not_eq_true', decide_eq_false_iff_not, Nat.not_le]
        exact ⟨outside, before, after, split, earlier⟩
      rw [offence?_inside first closing, found]
      rfl

theorem allFit_cons : AllFit last length step (e :: rest) ↔
    e.Fits last length step ∧ AllFit last length (step + 1) rest := by
  constructor
  · intro all
    refine ⟨all 0 e rfl, fun k e' here => ?_⟩
    rw [Nat.add_right_comm]
    exact all (k + 1) e' here
  · rintro ⟨first, others⟩ k e' here
    cases k with
    | zero =>
      cases here
      exact first
    | succ k =>
      have later := others k e' here
      rwa [Nat.add_right_comm] at later

theorem firstOffence?_eq_none :
    firstOffence? last length step events = none ↔ AllFit last length step events := by
  induction events generalizing step with
  | nil => simp [firstOffence?, AllFit]
  | cons e rest ih =>
    rw [firstOffence?, allFit_cons, ← ih, ← offence?_eq_none]
    cases offence? last length step e <;> simp

theorem firstOffence?_eq_some : firstOffence? last length step events = some error ↔
    ∃ before e after, events = before ++ e :: after ∧ AllFit last length step before ∧
      e.Offence last length (step + before.length) error := by
  induction events generalizing step with
  | nil => simp [firstOffence?]
  | cons e rest ih =>
    rw [firstOffence?]
    constructor
    · intro found
      cases here : offence? last length step e with
      | some error' =>
        rw [here] at found
        cases found
        exact ⟨[], e, rest, rfl, by simp [AllFit], offence?_eq_some.mp here⟩
      | none =>
        rw [here] at found
        obtain ⟨before, e', after, rfl, fit, offence⟩ := ih.mp found
        refine ⟨e :: before, e', after, rfl, allFit_cons.mpr ⟨offence?_eq_none.mp here, fit⟩, ?_⟩
        rwa [List.length_cons, ← Nat.add_assoc, Nat.add_right_comm]
    · rintro ⟨before, e', after, split, fit, offence⟩
      cases before with
      | nil =>
        cases split
        rw [offence?_eq_some.mpr (show e.Offence last length step error from offence)]
      | cons first before =>
        cases split
        obtain ⟨fits, others⟩ := allFit_cons.mp fit
        rw [offence?_eq_none.mpr fits]
        refine ih.mpr ⟨before, e', after, rfl, others, ?_⟩
        rwa [List.length_cons, ← Nat.add_assoc, Nat.add_right_comm] at offence

theorem ends_cases (events : List Event) : events = [] ∨
    (∃ e, events.head? = some e ∧ e.kind ≠ .init) ∨
    (∃ array e, events.head? = some (.init array) ∧ events.getLast? = some e ∧ e.kind ≠ .complete) ∨
    ∃ array, Ends array events := by
  cases first : events.head? with
  | none => exact .inl (List.head?_eq_none_iff.mp first)
  | some e =>
    by_cases opens : e.kind = .init
    · cases last : events.getLast? with
      | none => exact .inl (List.getLast?_eq_none_iff.mp last)
      | some e' =>
        cases e with
        | init array =>
          by_cases closes : e'.kind = .complete
          · cases e' with
            | complete => exact .inr (.inr (.inr ⟨array, first, last⟩))
            | _ => cases closes
          · exact .inr (.inr (.inl ⟨array, e', rfl, rfl, closes⟩))
        | _ => cases opens
    · exact .inr (.inl ⟨e, rfl, opens⟩)

theorem traceFault?_unopened (first : events.head? = some e) (other : e.kind ≠ .init) :
    traceFault? events = some .missingInit := by
  rw [traceFault?, first]
  cases e with
  | init array => exact absurd rfl other
  | _ => rfl

theorem traceFault?_unclosed (first : events.head? = some (.init array))
    (closing : events.getLast? = some e) (other : e.kind ≠ .complete) :
    traceFault? events = some .missingComplete := by
  rw [traceFault?, first, closing]
  cases e with
  | complete => exact absurd rfl other
  | _ => rfl

theorem traceFault?_ends (ends : Ends array events) :
    traceFault? events = firstOffence? (events.length - 1) array.length 0 events := by
  simp only [traceFault?, ends.first, ends.last]

theorem Event.Offence.inside (offence : e.Offence last length step error) :
    error ≠ .emptyTrace ∧ error ≠ .missingInit ∧ error ≠ .missingComplete := by
  cases offence <;> simp

theorem traceFault?_eq_some_of_ends (ends : Ends array events) : traceFault? events = some error ↔
    ∃ before e after, events = before ++ e :: after ∧
      AllFit (events.length - 1) array.length 0 before ∧
      e.Offence (events.length - 1) array.length before.length error := by
  rw [traceFault?_ends ends, firstOffence?_eq_some]
  simp only [Nat.zero_add]

theorem traceFault?_eq_none : traceFault? events = none ↔
    ∃ array, Ends array events ∧ AllFit (events.length - 1) array.length 0 events := by
  constructor
  · intro clean
    rcases ends_cases events with rfl | ⟨e, first, other⟩ | ⟨array, e, first, closing, other⟩ | ⟨array, ends⟩
    · cases clean
    · cases clean.symm.trans (traceFault?_unopened first other)
    · cases clean.symm.trans (traceFault?_unclosed first closing other)
    · rw [traceFault?_ends ends, firstOffence?_eq_none] at clean
      exact ⟨array, ends, clean⟩
  · rintro ⟨array, ends, fit⟩
    rw [traceFault?_ends ends, firstOffence?_eq_none]
    exact fit

theorem traceFault?_cases (fault : traceFault? events = some error) :
    (error = .emptyTrace ∧ events = []) ∨
    (error = .missingInit ∧ ∃ e, events.head? = some e ∧ e.kind ≠ .init) ∨
    (error = .missingComplete ∧ ∃ array e, events.head? = some (.init array) ∧
      events.getLast? = some e ∧ e.kind ≠ .complete) ∨
    (error ≠ .emptyTrace ∧ error ≠ .missingInit ∧ error ≠ .missingComplete) := by
  rcases ends_cases events with rfl | ⟨e, first, other⟩ | ⟨array, e, first, closing, other⟩ | ⟨array, ends⟩
  · cases fault
    exact .inl ⟨rfl, rfl⟩
  · cases fault.symm.trans (traceFault?_unopened first other)
    exact .inr (.inl ⟨rfl, e, first, other⟩)
  · cases fault.symm.trans (traceFault?_unclosed first closing other)
    exact .inr (.inr (.inl ⟨rfl, array, e, first, closing, other⟩))
  · obtain ⟨_, _, _, -, -, offence⟩ := (traceFault?_eq_some_of_ends ends).mp fault
    exact .inr (.inr (.inr offence.inside))

theorem ofEvents_eq_error_iff :
    Trace.ofEvents events = .error error ↔ traceFault? events = some error := by
  unfold Trace.ofEvents
  cases traceFault? events <;> simp

end

/-- Validation accepts exactly the lists that open with an array, close with `complete`, and hold only
events that fit. Of any other list it reports the ends first, in order, and else the earliest offence. -/
theorem ofEvents_exact (events : List Event) :
    (∀ t, Trace.ofEvents events = .ok t ↔ t.events = events ∧
      ∃ array, Ends array events ∧ AllFit (events.length - 1) array.length 0 events) ∧
    (Trace.ofEvents events = .error .emptyTrace ↔ events = []) ∧
    (Trace.ofEvents events = .error .missingInit ↔
      ∃ e, events.head? = some e ∧ e.kind ≠ .init) ∧
    (Trace.ofEvents events = .error .missingComplete ↔ ∃ array e,
      events.head? = some (.init array) ∧ events.getLast? = some e ∧ e.kind ≠ .complete) ∧
    ∀ array, Ends array events → ∀ error, Trace.ofEvents events = .error error ↔
      ∃ before e after, events = before ++ e :: after ∧
        AllFit (events.length - 1) array.length 0 before ∧
        e.Offence (events.length - 1) array.length before.length error := by
  simp only [ofEvents_eq_error_iff]
  refine ⟨fun t => (ofEvents_eq_ok_iff events t).trans (and_congr_right fun _ => traceFault?_eq_none),
    ⟨fun fault => ?_, fun empty => ?_⟩, ⟨fun fault => ?_, ?_⟩,
    ⟨fun fault => ?_, ?_⟩, fun array ends error => traceFault?_eq_some_of_ends ends⟩
  · rcases traceFault?_cases fault with ⟨-, empty⟩ | ⟨same, -⟩ | ⟨same, -⟩ | ⟨other, -, -⟩
    · exact empty
    · cases same
    · cases same
    · exact absurd rfl other
  · rw [empty]
    rfl
  · rcases traceFault?_cases fault with ⟨same, -⟩ | ⟨-, unopened⟩ | ⟨same, -⟩ | ⟨-, other, -⟩
    · cases same
    · exact unopened
    · cases same
    · exact absurd rfl other
  · rintro ⟨e, first, other⟩
    exact traceFault?_unopened first other
  · rcases traceFault?_cases fault with ⟨same, -⟩ | ⟨same, -⟩ | ⟨-, unclosed⟩ | ⟨-, -, other⟩
    · cases same
    · cases same
    · exact unclosed
    · exact absurd rfl other
  · rintro ⟨array, e, first, closing, other⟩
    exact traceFault?_unclosed first closing other

/-- The earlier of two offences, with the first bad position in recorded order. -/
example : Trace.ofEvents [.init [5, 3], .highlight [1, 7, 2] .key, .init [], .complete] =
    .error (.indexOutOfRange 1 7 2) := rfl

end SortTrace
