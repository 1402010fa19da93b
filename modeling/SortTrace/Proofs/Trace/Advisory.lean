import SortTrace.Proofs.Trace.Replay

/-!
Advisory events left out. They neither read nor change the array, so what is left is a trace with the
same replay; where replay fails, it fails for the same values, as many steps earlier as events were
left out in front.
-/

namespace SortTrace

/-- Some events without those at the chosen steps; `step` is the number of the first one. -/
def omitting (chosen : Nat → Bool) : (step : Nat) → List Event → List Event
  | _, [] => []
  | step, e :: rest =>
    if chosen step then omitting chosen (step + 1) rest else e :: omitting chosen (step + 1) rest

def chosenBefore (chosen : Nat → Bool) (step : Nat) : Nat := (List.range step).countP chosen

def OnlyAdvisory (chosen : Nat → Bool) (step : Nat) (events : List Event) : Prop :=
  ∀ k e, events[k]? = some e → chosen (step + k) = true → e.isAdvisory = true

def TraceError.omitting (chosen : Nat → Bool) : TraceError → TraceError
  | replayMismatch step recorded found =>
    replayMismatch (step - chosenBefore chosen step) recorded found
  | e => e

section

variable {chosen : Nat → Bool} {step : Nat} {e : Event} {before rest : List Event}

theorem OnlyAdvisory.head (only : OnlyAdvisory chosen step (e :: rest)) (here : chosen step = true) :
    e.isAdvisory = true := only 0 e rfl here

theorem OnlyAdvisory.tail (only : OnlyAdvisory chosen step (e :: rest)) :
    OnlyAdvisory chosen (step + 1) rest := by
  intro k e' there here
  rw [Nat.add_assoc, Nat.add_comm 1] at here
  exact only (k + 1) e' there here

theorem OnlyAdvisory.drop (only : OnlyAdvisory chosen step (before ++ rest)) :
    OnlyAdvisory chosen (step + before.length) rest := by
  induction before generalizing step with
  | nil => exact only
  | cons first before ih =>
    rw [List.length_cons, Nat.add_comm before.length, ← Nat.add_assoc]
    exact ih only.tail

theorem omitting_append (before rest : List Event) : omitting chosen step (before ++ rest) =
    omitting chosen step before ++ omitting chosen (step + before.length) rest := by
  induction before generalizing step with
  | nil => rfl
  | cons first before ih =>
    rw [List.cons_append, omitting, omitting, ih, List.length_cons, Nat.add_comm before.length,
      ← Nat.add_assoc]
    split <;> rfl

theorem omitting_sublist (events : List Event) : (omitting chosen step events).Sublist events := by
  induction events generalizing step with
  | nil => exact .slnil
  | cons e rest ih =>
    rw [omitting]
    split
    · exact .cons e ih
    · exact .cons_cons e ih

theorem omitting_fixed (only : OnlyAdvisory chosen step (e :: rest)) (fixed : e.isAdvisory = false) :
    omitting chosen step (e :: rest) = e :: omitting chosen (step + 1) rest := by
  rw [omitting, if_neg fun here => by simp [only.head here] at fixed]

theorem omitting_framed {array : List Int64} {inner : List Event}
    (only : OnlyAdvisory chosen 0 (framed array inner)) :
    omitting chosen 0 (framed array inner) = framed array (omitting chosen 1 inner) := by
  have closing : OnlyAdvisory chosen (1 + inner.length) [.complete] := only.tail.drop
  rw [framed, omitting_fixed only rfl, omitting_append, omitting_fixed closing rfl]
  rfl

theorem chosenBefore_le (step : Nat) : chosenBefore chosen step ≤ step := by
  have bound := List.countP_le_length (p := chosen) (l := List.range step)
  rwa [List.length_range] at bound

theorem chosenBefore_succ (step : Nat) :
    chosenBefore chosen (step + 1) = chosenBefore chosen step + if chosen step then 1 else 0 := by
  simp [chosenBefore, List.range_succ, List.countP_append, List.countP_cons]

theorem Event.apply_advisory (array : List Int64) (step : Nat) {e : Event}
    (advisory : e.isAdvisory = true) : e.apply array step = .ok array := by
  cases e with
  | highlight | sorted | comment => rfl
  | _ => cases advisory

theorem Event.apply_omitting (array : List Int64) (step : Nat) (e : Event) :
    e.apply array (step - chosenBefore chosen step) =
      (e.apply array step).mapError (TraceError.omitting chosen) := by
  by_cases agrees : e.Agrees array
  · rw [e.apply_ok _ _ agrees, e.apply_ok _ _ agrees]
    rfl
  · rw [e.apply_error _ _ agrees, e.apply_error _ _ agrees]
    rfl

theorem replayFrom_omitting {array : List Int64} {events : List Event}
    (only : OnlyAdvisory chosen step events) :
    replayFrom array (step - chosenBefore chosen step) (omitting chosen step events) =
      (replayFrom array step events).mapError (TraceError.omitting chosen) := by
  induction events generalizing array step with
  | nil => rfl
  | cons e rest ih =>
    have bound : chosenBefore chosen step ≤ step := chosenBefore_le step
    have next := @chosenBefore_succ chosen step
    cases here : chosen step with
    | true =>
      rw [here, if_pos rfl] at next
      rw [omitting, here, if_pos rfl, replayFrom, e.apply_advisory array step (only.head here),
        ← ih only.tail, next, Nat.add_sub_add_right]
    | false =>
      rw [here, if_neg (by decide), Nat.add_zero] at next
      have shifted : step + 1 - chosenBefore chosen (step + 1) = step - chosenBefore chosen step + 1 := by
        omega
      rw [omitting, here, if_neg (by decide), replayFrom, replayFrom, e.apply_omitting]
      cases e.apply array step with
      | error error => rfl
      | ok array =>
        rw [← shifted]
        exact ih only.tail

end

theorem replayFrom_mismatch {array : List Int64} {step : Nat} {events : List Event}
    {error : TraceError} (failed : replayFrom array step events = .error error) :
    ∃ s recorded found, error = .replayMismatch s recorded found := by
  rcases replays_or_differs array events with clean | ⟨before, e, after, rfl, clean, differs⟩
  · rw [replayFrom_ok array step events clean] at failed
    cases failed
  · rw [replayFrom_error array step before e after clean differs] at failed
    cases failed
    exact ⟨_, _, _, rfl⟩

/-- A trace without some of its advisory events is a trace. Its replay gives the same array, or fails
for the same values; the step of the failure counts no event that was left out. -/
theorem replay_omitting {events : List Event} {t : Trace} {chosen : Nat → Bool}
    (accepted : Trace.ofEvents events = .ok t)
    (advisory : ∀ step e, events[step]? = some e → chosen step = true → e.isAdvisory = true) :
    ∃ t', Trace.ofEvents (omitting chosen 0 events) = .ok t' ∧
      (∀ final, t'.replay = .ok final ↔ t.replay = .ok final) ∧
      ∀ error, t.replay = .error error → ∃ step recorded found,
        error = .replayMismatch step recorded found ∧
        t'.replay = .error (.replayMismatch (step - chosenBefore chosen step) recorded found) := by
  obtain ⟨same, array, inner, rfl, fits⟩ := framed_of_ofEvents events t accepted
  obtain ⟨rfl⟩ : t = ⟨framed array inner⟩ := by cases t; simpa using same
  have only : OnlyAdvisory chosen 0 (framed array inner) := fun k e here chosenHere =>
    advisory k e here (by rwa [Nat.zero_add] at chosenHere)
  have replayed : (⟨framed array (omitting chosen 1 inner)⟩ : Trace).replay =
      (⟨framed array inner⟩ : Trace).replay.mapError (TraceError.omitting chosen) := by
    rw [Trace.replay_eq _ (by simp [framed]), Trace.replay_eq _ (by simp [framed])]
    show replayFrom array 0 (framed array (omitting chosen 1 inner)) = _
    rw [← omitting_framed only]
    exact replayFrom_omitting only
  refine ⟨⟨framed array (omitting chosen 1 inner)⟩, ?_, fun final => ?_, fun error failed => ?_⟩
  · rw [omitting_framed only]
    exact ofEvents_framed array _ fun e member => fits e ((omitting_sublist inner).subset member)
  · rw [replayed]
    cases (⟨framed array inner⟩ : Trace).replay with
    | ok array => exact Iff.rfl
    | error error => exact iff_of_false (fun same => by cases same) (fun same => by cases same)
  · have original := failed
    rw [Trace.replay_eq _ (by simp [framed])] at original
    obtain ⟨step, recorded, found, rfl⟩ := replayFrom_mismatch original
    exact ⟨step, recorded, found, rfl, by rw [replayed, failed]; rfl⟩

def advisedEvents : List Event :=
  [.init [5, 3], .comment "loop", .swap 0 1 5 3, .sorted [1], .compare 0 1 5 3, .highlight [0] .key,
    .complete]

theorem replay_omitting_advised : ∃ t t',
    Trace.ofEvents advisedEvents = .ok t ∧
    Trace.ofEvents (omitting (fun step => step = 1 || step = 5) 0 advisedEvents) = .ok t' ∧
    t.replay = .error (.replayMismatch 4 [5, 3] [3, 5]) ∧
    t'.replay = .error (.replayMismatch 3 [5, 3] [3, 5]) := by
  have accepted : Trace.ofEvents advisedEvents = .ok ⟨advisedEvents⟩ := rfl
  have failed : (⟨advisedEvents⟩ : Trace).replay = .error (.replayMismatch 4 [5, 3] [3, 5]) := rfl
  have advisory : ∀ step e, advisedEvents[step]? = some e →
      (step = 1 || step = 5 : Bool) = true → e.isAdvisory = true := by
    intro step e here chosen
    simp only [Bool.or_eq_true, decide_eq_true_eq] at chosen
    rcases chosen with rfl | rfl <;> cases here <;> rfl
  obtain ⟨t', accepted', -, fails⟩ := replay_omitting accepted advisory
  obtain ⟨step, recorded, found, same, failed'⟩ := fails _ failed
  cases same
  exact ⟨_, t', accepted, accepted', failed, failed'⟩

end SortTrace
