import SortTrace.Proofs.Trace.Replay

/-!
Where replay fails. The array before a step is known without replay, so a step differs or it does
not; asking for the array after a step fails at the first step up to it that differs. Changing what
one event of a clean trace has recorded makes exactly that event the first one.
-/

namespace SortTrace

/-- The array before a step, whatever the events have recorded. -/
def Trace.arrayBefore (t : Trace) (step : Nat) : List Int64 :=
  arrayAfter t.initial (t.events.take step)

/-- The event at a step has recorded other values than those of the array before it. -/
def Trace.DiffersAt (t : Trace) (step : Nat) : Prop :=
  ∃ e, t.events[step]? = some e ∧ ¬ e.Agrees (t.arrayBefore step)

/-- Two events that differ in what they have recorded, but name the same positions and write the
same value. -/
inductive Event.Tampered : Event → Event → Prop where
  | compare (i j : Nat) (x y x' y' : Int64) (changed : (x', y') ≠ (x, y)) :
      Tampered (.compare i j x y) (.compare i j x' y')
  | swap (i j : Nat) (x y x' y' : Int64) (changed : (x', y') ≠ (x, y)) :
      Tampered (.swap i j x y) (.swap i j x' y')
  | set (i : Nat) (value previous previous' : Int64) (changed : previous' ≠ previous) :
      Tampered (.set i value previous) (.set i value previous')

theorem Event.Tampered.positions {e e' : Event} (tampered : e.Tampered e') :
    e'.reads.1 = e.reads.1 := by
  cases tampered <;> rfl

theorem Event.Tampered.recorded {e e' : Event} (tampered : e.Tampered e') :
    e'.reads.2 ≠ e.reads.2 := by
  cases tampered with
  | compare i j x y x' y' changed | swap i j x y x' y' changed =>
    intro same
    simp only [Event.reads, List.cons.injEq, and_true] at same
    exact changed (Prod.ext same.1 same.2)
  | set i value previous previous' changed => simpa [Event.reads] using changed

theorem Event.Tampered.inner {e e' : Event} {length : Nat} (tampered : e.Tampered e')
    (inner : e.Inner length) : e'.Inner length := by
  have inside := inner.inside
  cases tampered <;> exact ⟨nofun, nofun, inside⟩

theorem Event.Tampered.differs {e e' : Event} {array : List Int64} (tampered : e.Tampered e')
    (agrees : e.Agrees array) : ¬ e'.Agrees array := by
  intro agrees'
  unfold Event.Agrees at agrees agrees'
  rw [tampered.positions, agrees] at agrees'
  have same := List.map_inj_right (fun _ _ => Option.some.inj) |>.mp agrees'
  exact tampered.recorded same.symm

theorem Event.reads_indices (e : Event) : ∀ i ∈ e.reads.1, i ∈ e.indices := by
  cases e <;> simp [Event.reads, Event.indices]

theorem Trace.arrayBefore_length (t : Trace) (step : Nat) :
    (t.arrayBefore step).length = t.initial.length :=
  arrayAfter_length _ _

theorem Trace.initial_framed (array : List Int64) (inner : List Event) :
    (⟨framed array inner⟩ : Trace).initial = array := rfl

theorem Trace.replays_take (t : Trace) (count : Nat) :
    Replays t.initial (t.events.take count) ↔ ∀ s < count, ¬ t.DiffersAt s := by
  induction count with
  | zero => simp [Replays]
  | succ n ih =>
    rw [List.take_add_one, Replays.append, ih]
    have last : Replays (t.arrayBefore n) t.events[n]?.toList ↔ ¬ t.DiffersAt n := by
      unfold Trace.DiffersAt
      cases t.events[n]? <;> simp [Replays]
    unfold Trace.arrayBefore at last
    rw [last]
    constructor
    · rintro ⟨earlier, now⟩ s below
      rcases Nat.lt_succ_iff_lt_or_eq.mp below with below | rfl
      · exact earlier s below
      · exact now
    · intro clean
      exact ⟨fun s below => clean s (by omega), clean n (by omega)⟩

theorem Trace.stateAt_clean (t : Trace) (step : Nat) (within : step < t.length)
    (clean : ∀ s ≤ step, ¬ t.DiffersAt s) : t.stateAt step = .ok (t.arrayBefore (step + 1)) := by
  have replays := (t.replays_take (step + 1)).mpr fun s below => clean s (by omega)
  rw [Trace.stateAt, if_neg (by omega)]
  exact replayFrom_ok t.initial 0 _ replays

theorem Trace.stateAt_differs (t : Trace) (step s : Nat) (within : step < t.length)
    (upTo : s ≤ step) (e : Event) (here : t.events[s]? = some e)
    (differs : ¬ e.Agrees (t.arrayBefore s)) (clean : ∀ r < s, ¬ t.DiffersAt r) :
    t.stateAt step =
      .error (.replayMismatch s e.reads.2 (valuesAt (t.arrayBefore s) e.reads.1)) := by
  obtain ⟨inList, atStep⟩ := List.getElem?_eq_some_iff.mp here
  have split : t.events.take (step + 1) =
      t.events.take s ++ e :: (t.events.drop (s + 1)).take (step - s) := by
    rw [show step + 1 = s + (step - s + 1) by omega, List.take_add, List.drop_eq_getElem_cons inList,
      List.take_succ_cons, atStep]
  have counted : (t.events.take s).length = s := List.length_take_of_le (by omega)
  rw [Trace.stateAt, if_neg (by omega), split]
  rw [replayFrom_error t.initial 0 _ e _ ((t.replays_take s).mpr clean) differs, counted, Nat.zero_add]
  rfl

theorem Trace.stateAt_outside (t : Trace) (step : Nat) :
    t.stateAt step = .error (.stepOutOfRange step t.length) ↔ t.length ≤ step := by
  constructor
  · intro failed
    apply Nat.le_of_not_lt
    intro within
    rw [Trace.stateAt, if_neg (by omega)] at failed
    rcases replays_or_differs t.initial (t.events.take (step + 1)) with
      clean | ⟨before, e, after, same, clean, differs⟩
    · rw [replayFrom_ok _ _ _ clean] at failed
      cases failed
    · rw [same, replayFrom_error _ _ before e after clean differs] at failed
      cases failed
  · intro outside
    rw [Trace.stateAt, if_pos outside]

theorem framed_inside (array : List Int64) (inner : List Event)
    (fits : ∀ e ∈ inner, e.Inner array.length) (step : Nat) (e : Event)
    (here : (framed array inner)[step]? = some e) : ∀ i ∈ e.indices, i < array.length := by
  have member := List.mem_of_getElem? here
  simp only [framed, List.mem_cons, List.mem_append, List.not_mem_nil, or_false] at member
  rcases member with rfl | member | rfl
  · simp [Event.indices]
  · exact (fits e member).inside
  · simp [Event.indices]

theorem valuesAt_inside (array : List Int64) (indices : List Nat)
    (inside : ∀ i ∈ indices, i < array.length) :
    (valuesAt array indices).map some = indices.map (array[·]?) := by
  induction indices with
  | nil => rfl
  | cons i rest ih =>
    have bound : i < array.length := inside i (by simp)
    have here : array[i]? = some array[i] := List.getElem?_eq_getElem bound
    have there := ih fun i member => inside i (by simp [member])
    unfold valuesAt at there ⊢
    rw [List.filterMap_cons_some here, List.map_cons, List.map_cons, there, here]

theorem framed_set (array : List Int64) (inner : List Event) (step : Nat) (e : Event)
    (first : 0 < step) (last : step ≤ inner.length) :
    (framed array inner).set step e = framed array (inner.set (step - 1) e) := by
  obtain ⟨s, rfl⟩ : ∃ s, step = s + 1 := ⟨step - 1, by omega⟩
  simp [framed, show s < inner.length by omega]

theorem Event.Tampered.between {e e' : Event} {array : List Int64} {inner : List Event} {step : Nat}
    (tampered : e.Tampered e') (here : (framed array inner)[step]? = some e) :
    0 < step ∧ step ≤ inner.length ∧ e ∈ inner := by
  have notInit : e.kind ≠ .init := by cases tampered <;> nofun
  have notComplete : e.kind ≠ .complete := by cases tampered <;> nofun
  cases step with
  | zero =>
    simp only [framed, List.getElem?_cons_zero, Option.some.injEq] at here
    exact absurd (by rw [← here]; rfl) notInit
  | succ s =>
    simp only [framed, List.getElem?_cons_succ] at here
    by_cases within : s < inner.length
    · rw [List.getElem?_append_left within] at here
      exact ⟨by omega, by omega, List.mem_of_getElem? here⟩
    · rw [List.getElem?_append_right (by omega)] at here
      have closing := List.mem_of_getElem? here
      rw [List.mem_singleton] at closing
      exact absurd (by rw [closing]; rfl) notComplete

theorem Trace.arrayBefore_set (array : List Int64) (inner : List Event) (step s : Nat) (e : Event)
    (first : 0 < step) (last : step ≤ inner.length) (upTo : s ≤ step) :
    (⟨framed array (inner.set (step - 1) e)⟩ : Trace).arrayBefore s =
      (⟨framed array inner⟩ : Trace).arrayBefore s := by
  unfold Trace.arrayBefore
  rw [Trace.initial_framed, Trace.initial_framed, ← framed_set array inner step e first last,
    List.take_set_of_le upTo]

theorem Trace.differsAt_set (array : List Int64) (inner : List Event) (step s : Nat) (e : Event)
    (first : 0 < step) (last : step ≤ inner.length) (earlier : s < step) :
    (⟨framed array (inner.set (step - 1) e)⟩ : Trace).DiffersAt s ↔
      (⟨framed array inner⟩ : Trace).DiffersAt s := by
  unfold Trace.DiffersAt
  rw [Trace.arrayBefore_set array inner step s e first last (by omega)]
  simp only [← framed_set array inner step e first last,
    List.getElem?_set_ne (show step ≠ s by omega)]

theorem Trace.replays_of_replay {t : Trace} {final : List Int64} (done : t.replay = .ok final) :
    Replays t.initial t.events ∧ arrayAfter t.initial t.events = final := by
  have opened : t.events ≠ [] := fun empty => by
    simp [replay, stateAt, length, empty] at done
  rw [t.replay_eq opened] at done
  exact (replayFrom_ok_iff _ _ _ _).mp done

theorem Trace.clean_of_replay (t : Trace) (final : List Int64) (done : t.replay = .ok final) :
    ∀ s < t.length, ¬ t.DiffersAt s := by
  rw [← t.replays_take t.length, Trace.length, List.take_length]
  exact (Trace.replays_of_replay done).1

theorem replay_tampered (array final : List Int64) (inner : List Event)
    (fits : ∀ e ∈ inner, e.Inner array.length) (step : Nat) (e e' : Event)
    (done : (⟨framed array inner⟩ : Trace).replay = .ok final)
    (here : (framed array inner)[step]? = some e) (tampered : e.Tampered e') :
    ∃ t', Trace.ofEvents ((framed array inner).set step e') = .ok t' ∧
      t'.replay = .error (.replayMismatch step e'.reads.2 e.reads.2) := by
  obtain ⟨first, last, member⟩ := tampered.between here
  let t : Trace := ⟨framed array inner⟩
  let t' : Trace := ⟨framed array (inner.set (step - 1) e')⟩
  have fits' : ∀ x ∈ inner.set (step - 1) e', x.Inner array.length := by
    intro x inSet
    rcases List.mem_or_eq_of_mem_set inSet with old | rfl
    · exact fits x old
    · exact tampered.inner (fits e member)
  have size : t.length = inner.length + 2 := by simp [t, Trace.length, framed]
  have size' : t'.length = inner.length + 2 := by simp [t', Trace.length, framed]
  have clean := t.clean_of_replay final done
  have agrees : e.Agrees (t.arrayBefore step) := by
    have now := clean step (by omega)
    unfold Trace.DiffersAt at now
    exact Classical.byContradiction fun differs => now ⟨e, here, differs⟩
  have before : t'.arrayBefore step = t.arrayBefore step :=
    Trace.arrayBefore_set array inner step step e' first last (Nat.le_refl _)
  have here' : t'.events[step]? = some e' := by
    show (framed array (inner.set (step - 1) e'))[step]? = some e'
    rw [← framed_set array inner step e' first last]
    exact List.getElem?_set_self (by simp [framed]; omega)
  have earlier : ∀ r < step, ¬ t'.DiffersAt r := by
    intro r below
    rw [Trace.differsAt_set array inner step r e' first last below]
    exact clean r (by omega)
  have failed := t'.stateAt_differs (t'.length - 1) step (by omega) (by omega) e' here'
    (by rw [before]; exact tampered.differs agrees) earlier
  refine ⟨t', ?_, ?_⟩
  · rw [framed_set array inner step e' first last]
    exact ofEvents_framed array _ fits'
  · rw [before, tampered.positions, (e.agrees_iff _).mp agrees] at failed
    exact failed

/-- The array after a step of an accepted trace: no position outside the array is ever used; steps
behind the end are refused; up to the first step that differs, replay gives the array, and from
there on it reports that step. -/
theorem stateAt_accepted (events : List Event) (t : Trace)
    (accepted : Trace.ofEvents events = .ok t) (k : Nat) :
    (∀ s ≤ k, ∀ e, events[s]? = some e → ∀ i ∈ e.indices, i < (t.arrayBefore s).length) ∧
    (t.stateAt k = .error (.stepOutOfRange k events.length) ↔ events.length ≤ k) ∧
    (k < events.length → ∀ s ≤ k, ∀ e, events[s]? = some e → ¬ e.Agrees (t.arrayBefore s) →
      (∀ r < s, ¬ t.DiffersAt r) →
      ∃ found, found.map some = e.reads.1.map ((t.arrayBefore s)[·]?) ∧
        t.stateAt k = .error (.replayMismatch s e.reads.2 found)) ∧
    (k < events.length → (∀ s ≤ k, ¬ t.DiffersAt s) →
      t.stateAt k = .ok (t.arrayBefore (k + 1)) ∧
        (t.arrayBefore (k + 1)).length = t.initial.length) ∧
    (∀ final e e', t.replay = .ok final → events[k]? = some e → e.Tampered e' →
      ∃ t', Trace.ofEvents (events.set k e') = .ok t' ∧
        t'.replay = .error (.replayMismatch k e'.reads.2 e.reads.2)) := by
  obtain ⟨rfl, array, inner, same, fits⟩ := framed_of_ofEvents events t accepted
  obtain ⟨rfl⟩ : t = ⟨framed array inner⟩ := by cases t; simpa using same
  have inside : ∀ s e, (framed array inner)[s]? = some e → ∀ i ∈ e.indices,
      i < ((⟨framed array inner⟩ : Trace).arrayBefore s).length := by
    intro s e here
    rw [Trace.arrayBefore_length, Trace.initial_framed]
    exact framed_inside array inner fits s e here
  refine ⟨fun s _ => inside s, Trace.stateAt_outside _ k, ?_, ?_, ?_⟩
  · intro within s upTo e here differs clean
    refine ⟨_, ?_, Trace.stateAt_differs _ k s within upTo e here differs clean⟩
    apply valuesAt_inside
    intro i member
    exact inside s e here i (e.reads_indices i member)
  · intro within clean
    exact ⟨Trace.stateAt_clean _ k within clean, Trace.arrayBefore_length _ _⟩
  · intro final e e' done here tampered
    exact replay_tampered array final inner fits k e e' done here tampered

/-- A trace that looks at one position twice, exchanges a position with itself and overwrites one
that was exchanged before. -/
def repeatedPositions : List Event :=
  [.init [5, 3], .compare 0 0 5 5, .swap 1 1 3 3, .swap 0 1 5 3, .set 0 9 3, .complete]

theorem repeatedPositions_tampered :
    Trace.ofEvents repeatedPositions = .ok ⟨repeatedPositions⟩ ∧
      (⟨repeatedPositions⟩ : Trace).replay = .ok [9, 5] ∧
      ∃ t', Trace.ofEvents (repeatedPositions.set 3 (.swap 0 1 5 4)) = .ok t' ∧
        t'.replay = .error (.replayMismatch 3 [5, 4] [5, 3]) := by
  have accepted : Trace.ofEvents repeatedPositions = .ok ⟨repeatedPositions⟩ := rfl
  have done : (⟨repeatedPositions⟩ : Trace).replay = .ok [9, 5] := rfl
  have changed : Event.Tampered (.swap 0 1 5 3) (.swap 0 1 5 4) :=
    .swap 0 1 5 3 5 4 (by decide)
  obtain ⟨-, -, -, -, tampered⟩ := stateAt_accepted repeatedPositions _ accepted 3
  exact ⟨accepted, done, tampered _ _ _ done rfl changed⟩

end SortTrace
