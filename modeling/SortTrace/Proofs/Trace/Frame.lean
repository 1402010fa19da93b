import SortTrace.Trace.Basic

/-!
The frame of a trace. A list of events is accepted exactly when an array opens it, `complete` closes
it, and every event in between is of another kind and names positions of that array only.
-/

namespace SortTrace

structure Event.Inner (length : Nat) (e : Event) : Prop where
  not_init : e.kind ≠ .init
  not_complete : e.kind ≠ .complete
  inside : ∀ i ∈ e.indices, i < length

def framed (array : List Int64) (inner : List Event) : List Event :=
  .init array :: (inner ++ [Event.complete])

structure Event.Fits (last length step : Nat) (e : Event) : Prop where
  opens : e.kind = .init → step = 0
  closes : e.kind = .complete → step = last
  inside : ∀ i ∈ e.indices, i < length

theorem offence?_inside {last length step : Nat} {e : Event} (first : e.kind ≠ .init)
    (closing : e.kind ≠ .complete) : offence? last length step e =
      (e.indices.find? (length ≤ ·)).map fun i => TraceError.indexOutOfRange step i length := by
  cases e with
  | init array => exact absurd rfl first
  | complete => exact absurd rfl closing
  | _ => rfl

theorem offence?_eq_none {last length step : Nat} {e : Event} :
    offence? last length step e = none ↔ e.Fits last length step := by
  by_cases first : e.kind = .init
  · cases e with
    | init array =>
      simp only [offence?, ite_eq_right_iff, reduceCtorEq, imp_false, ne_eq, Decidable.not_not]
      exact ⟨fun here => ⟨fun _ => here, by simp [Event.kind], by simp [Event.indices]⟩,
        fun fits => fits.opens first⟩
    | _ => cases first
  by_cases closing : e.kind = .complete
  · cases e with
    | complete =>
      simp only [offence?, ite_eq_right_iff, reduceCtorEq, imp_false, ne_eq, Decidable.not_not]
      exact ⟨fun here => ⟨by simp [Event.kind], fun _ => here, by simp [Event.indices]⟩,
        fun fits => fits.closes closing⟩
    | _ => cases closing
  · rw [offence?_inside first closing]
    simp only [Option.map_eq_none_iff, List.find?_eq_none, decide_eq_true_eq, Nat.not_le]
    exact ⟨fun inside => ⟨fun kind => absurd kind first, fun kind => absurd kind closing, inside⟩,
      Event.Fits.inside⟩

theorem Event.fits_iff_inner {last length step : Nat} {e : Event} (first : step ≠ 0)
    (before : step ≠ last) : e.Fits last length step ↔ e.Inner length :=
  ⟨fun fits => ⟨fun kind => first (fits.opens kind), fun kind => before (fits.closes kind),
      fits.inside⟩,
    fun inner => ⟨fun kind => absurd kind inner.not_init, fun kind => absurd kind inner.not_complete,
      inner.inside⟩⟩

theorem offence?_inner (last length step : Nat) (e : Event) (first : step ≠ 0)
    (before : step ≠ last) : offence? last length step e = none ↔ e.Inner length :=
  offence?_eq_none.trans (Event.fits_iff_inner first before)

theorem firstOffence?_closed (last length step : Nat) (inner : List Event) (first : step ≠ 0)
    (closing : step + inner.length = last) :
    firstOffence? last length step (inner ++ [Event.complete]) = none ↔
      ∀ e ∈ inner, e.Inner length := by
  induction inner generalizing step with
  | nil =>
    have atLast : step = last := by simpa using closing
    simp [firstOffence?, offence?, atLast]
  | cons e rest ih =>
    simp only [List.length_cons] at closing
    have here := offence?_inner last length step e first (by omega)
    have there := ih (step + 1) (by omega) (by omega)
    simp only [List.cons_append, firstOffence?, List.mem_cons, forall_eq_or_imp, ← here, ← there]
    cases offence? last length step e <;> simp

theorem traceFault?_framed (array : List Int64) (inner : List Event) :
    traceFault? (framed array inner) = none ↔ ∀ e ∈ inner, e.Inner array.length := by
  have closed := firstOffence?_closed (inner.length + 1) array.length 1 inner (by decide) (by omega)
  have last : (Event.init array :: (inner ++ [Event.complete])).getLast? = some .complete := by
    rw [← List.cons_append, List.getLast?_append]
    rfl
  simpa [traceFault?, framed, last, firstOffence?, offence?] using closed

theorem framed_of_traceFault? (events : List Event) (clean : traceFault? events = none) :
    ∃ array inner, events = framed array inner := by
  cases events with
  | nil => simp [traceFault?] at clean
  | cons first rest =>
    cases first with
    | init array =>
      rcases List.eq_nil_or_concat rest with rfl | ⟨inner, last, rfl⟩
      · simp [traceFault?] at clean
      · have closing : last = .complete := by
          simp only [traceFault?, List.concat_eq_append, ← List.cons_append,
            List.getLast?_append, List.getLast?_singleton, Option.some_or] at clean
          cases last <;> simp at clean
          rfl
        exact ⟨array, inner, by simp [framed, closing]⟩
    | _ => simp [traceFault?] at clean

theorem ofEvents_eq_ok_iff (events : List Event) (t : Trace) :
    Trace.ofEvents events = .ok t ↔ t.events = events ∧ traceFault? events = none := by
  unfold Trace.ofEvents
  cases traceFault? events with
  | none =>
    simp only [Except.ok.injEq, and_true]
    exact ⟨fun same => by rw [← same], fun same => by cases t; simp_all⟩
  | some error => simp

theorem ofEvents_framed (array : List Int64) (inner : List Event)
    (fits : ∀ e ∈ inner, e.Inner array.length) :
    Trace.ofEvents (framed array inner) = .ok ⟨framed array inner⟩ :=
  (ofEvents_eq_ok_iff _ _).mpr ⟨rfl, (traceFault?_framed array inner).mpr fits⟩

theorem framed_of_ofEvents (events : List Event) (t : Trace)
    (accepted : Trace.ofEvents events = .ok t) :
    t.events = events ∧
      ∃ array inner, events = framed array inner ∧ ∀ e ∈ inner, e.Inner array.length := by
  obtain ⟨same, clean⟩ := (ofEvents_eq_ok_iff events t).mp accepted
  obtain ⟨array, inner, rfl⟩ := framed_of_traceFault? events clean
  exact ⟨same, array, inner, rfl, (traceFault?_framed array inner).mp clean⟩

end SortTrace
