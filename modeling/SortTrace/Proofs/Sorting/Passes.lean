import SortTrace.Proofs.Sorting.Rearrangement
import SortTrace.Proofs.Trace.Requests

/-!
Marks in a trace. A recorder that is taken through passes, each of which ends with one position marked
sorted, leaves one mark for each pass; the array at a mark is the one at the end of its pass, and a
position outside the regions in which later passes move values keeps its value from there on.
-/

namespace SortTrace

/-- The event at a step is the one of its kind with a given number, counted from 1. -/
def Trace.IsNth (t : Trace) (kind : EventKind) (number step : Nat) : Prop :=
  t.events[step]?.map Event.kind = some kind ∧
    (t.events.take step).countP (·.kind = kind) + 1 = number

/-- From a step on the value at a position is the given one, and no later event changes it. -/
structure Trace.KeepsFrom (t : Trace) (step p : Nat) (value : Int64) : Prop where
  held : ∀ later, step ≤ later → later < t.length →
    ∃ array, t.stateAt later = .ok array ∧ array[p]? = some value
  untouched : ∀ later e, step < later → t.events[later]? = some e → e.isMutation = true →
    p ∉ e.indices

def Request.Within (region : Nat → Prop) (q : Request) : Prop :=
  q.kind ≠ .sorted ∧ (q.kind = .swap ∨ q.kind = .set → ∀ i ∈ q.positions, region i)

theorem Event.isMutation_iff (e : Event) :
    e.isMutation = true ↔ e.kind = .swap ∨ e.kind = .set := by
  cases e <;> simp [isMutation, kind]

theorem Event.effect_kept {e : Event} {p : Nat} (kept : e.isMutation = true → p ∉ e.indices)
    (array : List Int64) : (e.effect array)[p]? = array[p]? := by
  cases e with
  | swap i j x y =>
    have apart := kept rfl
    simp only [indices, List.mem_cons, List.not_mem_nil, or_false, not_or] at apart
    simp only [effect, exchange]
    split
    · rw [List.getElem?_set_ne (Ne.symm apart.2), List.getElem?_set_ne (Ne.symm apart.1)]
    · rfl
  | set i value previous =>
    have apart := kept rfl
    simp only [indices, List.mem_singleton] at apart
    exact List.getElem?_set_ne (Ne.symm apart)
  | _ => rfl

theorem arrayAfter_kept {events : List Event} {p : Nat}
    (kept : ∀ e ∈ events, e.isMutation = true → p ∉ e.indices) (array : List Int64) :
    (arrayAfter array events)[p]? = array[p]? := by
  induction events generalizing array with
  | nil => rfl
  | cons e rest ih =>
    obtain ⟨first, others⟩ := List.forall_mem_cons.mp kept
    exact (ih others (e.effect array)).trans (e.effect_kept first array)

theorem stateAt_split {values : List Int64} {before after : List Event} {e : Event}
    (clean : Replays values (before ++ e :: after)) :
    (⟨framed values (before ++ e :: after)⟩ : Trace).stateAt (before.length + 1) =
      .ok (arrayAfter values (before ++ [e])) := by
  have upTo : (before ++ e :: after).take (before.length + 1) = before ++ [e] := by
    rw [List.take_length_add_append, List.take_succ_cons, List.take_zero]
  rw [Recorder.stateAt_framed values _ clean _ (by simp), upTo]

theorem keepsFrom_framed {values : List Int64} {before after : List Event} {e : Event} {p : Nat}
    {value : Int64} (clean : Replays values (before ++ e :: after))
    (held : (arrayAfter values (before ++ [e]))[p]? = some value)
    (kept : ∀ x ∈ after, x.isMutation = true → p ∉ x.indices) :
    (⟨framed values (before ++ e :: after)⟩ : Trace).KeepsFrom (before.length + 1) p value := by
  have split : before ++ e :: after = (before ++ [e]) ++ after := by simp
  have size : (before ++ [e]).length = before.length + 1 := by simp
  refine ⟨fun later low high => ?_, fun later x low here changes => ?_⟩
  all_goals obtain ⟨more, rfl⟩ := Nat.exists_eq_add_of_le low
  · have short : before.length + 1 + more ≤ (before ++ e :: after).length + 1 := by
      simp only [Trace.length, framed, List.length_cons, List.length_append, List.length_nil] at high ⊢
      omega
    refine ⟨_, Recorder.stateAt_framed values _ clean _ short, ?_⟩
    rw [split, ← size, List.take_length_add_append, arrayAfter_append,
      arrayAfter_kept (fun x member => kept x (List.mem_of_mem_take member)), held]
  · have behind : (after ++ [Event.complete])[more]? = some x := by
      rw [framed, split, show (before.length + 1).succ + more = (before ++ [e]).length + more + 1 by
        simp; omega, List.getElem?_cons_succ, List.append_assoc,
        List.getElem?_append_right (Nat.le_add_right ..), Nat.add_sub_cancel_left] at here
      exact here
    rcases List.mem_append.mp (List.mem_of_getElem? behind) with old | new
    · exact kept x old changes
    · rw [List.mem_singleton.mp new] at changes
      cases changes

namespace Recorder

namespace Asks

variable {P : Request → Prop} {r r' : Recorder}

theorem added (asks : r.Asks P r') :
    ∃ added, r'.events = r.events ++ added ∧ r'.array = arrayAfter r.array added ∧
      ∀ e ∈ added, ∃ q, P q ∧ e.kind = q.kind ∧ e.indices = q.positions := by
  obtain ⟨requests, rfl, fine⟩ := asks
  induction requests generalizing r with
  | nil => exact ⟨[], (List.append_nil _).symm, rfl, by simp⟩
  | cons q rest ih =>
    obtain ⟨first, others⟩ := List.forall_mem_cons.mp fine
    obtain ⟨added, events, array, names⟩ := @ih (r.handle q).1 others
    rw [run_cons]
    refine ⟨(q.event? r.array).toList ++ added, ?_, ?_, ?_⟩
    · rw [events, handle_eq, extend_events, List.append_assoc]
    · rw [array, handle_eq, arrayAfter_append]
      cases q.event? r.array <;> rfl
    · refine List.forall_mem_append.mpr ⟨fun e member => ?_, names⟩
      exact ⟨q, first, Request.event?_names (Option.mem_toList.mp member)⟩

end Asks

theorem Faithful.asks {values : List Int64} {inner : List Event} {r r' : Recorder}
    {P : Request → Prop} (faithful : Faithful values inner r) (asks : r.Asks P r') :
    ∃ added, Faithful values (inner ++ added) r' ∧
      ∀ e ∈ added, ∃ q, P q ∧ e.kind = q.kind ∧ e.indices = q.positions := by
  obtain ⟨added, events, -, names⟩ := asks.added
  obtain ⟨requests, rfl, -⟩ := asks
  obtain ⟨further, whole, -⟩ := faithful.run requests
  have same : inner ++ further = inner ++ added := by
    have both := whole.events_eq.symm.trans events
    rw [faithful.events_eq, List.cons_append] at both
    exact (List.cons.inj both).2
  exact ⟨added, same ▸ whole, names⟩

/-- Something that marks nothing and changes values in a region only, then a mark on one position. -/
def Passes (region : Nat → Prop) (mark : Nat) (r r' : Recorder) : Prop :=
  ∃ moved, r.Asks (Request.Within region) moved ∧ mark < moved.size ∧
    r' = (moved.sorted [mark]).1

structure PassesThrough (values : List Int64) (region : Nat → Nat → Prop) (mark : Nat → Nat)
    (count : Nat) (r : Nat → Recorder) : Prop where
  start : r 0 = .start values
  pass : ∀ k < count, Passes (region k) (mark k) (r k) (r (k + 1))

theorem sorted_events {r : Recorder} {mark : Nat} (inside : mark < r.size) :
    (r.sorted [mark]).1.events = r.events ++ [Event.sorted [mark]] := by
  simp [sorted, outside?, inside, note, events]

theorem Passes.events {region : Nat → Prop} {mark : Nat} {r r' : Recorder}
    (passes : Passes region mark r r') :
    ∃ added, r'.events = r.events ++ (added ++ [Event.sorted [mark]]) ∧
      r'.array = arrayAfter r.array added ∧
      ∀ e ∈ added, e.kind ≠ .sorted ∧ (e.isMutation = true → ∀ i ∈ e.indices, region i) := by
  obtain ⟨moved, asks, inside, rfl⟩ := passes
  obtain ⟨added, events, array, names⟩ := asks.added
  refine ⟨added, ?_, ?_, fun e member => ?_⟩
  · rw [sorted_events inside, events, List.append_assoc]
  · rw [sorted_array, array]
  · obtain ⟨q, within, kind, positions⟩ := names e member
    rw [e.isMutation_iff, kind, positions]
    exact within

theorem Passes.asks {region : Nat → Prop} {mark : Nat} {r r' : Recorder}
    (passes : Passes region mark r r') :
    r.Asks (fun q => q.kind = .sorted ∨ q.Within region) r' := by
  obtain ⟨moved, asks, -, rfl⟩ := passes
  exact (asks.mono fun q within => .inr within).trans (.request (q := .sorted [mark]) (.inl rfl) moved)

namespace PassesThrough

variable {values : List Int64} {region : Nat → Nat → Prop} {mark : Nat → Nat} {count k : Nat}
  {r : Nat → Recorder}

theorem onward (through : PassesThrough values region mark count r) (further : Nat)
    (bound : k + further ≤ count) :
    (r k).Asks (fun q => q.kind = .sorted ∨ ∃ j, k ≤ j ∧ j < count ∧ q.Within (region j))
      (r (k + further)) := by
  induction further with
  | zero => exact .refl (r k)
  | succ further ih =>
    refine (ih (by omega)).trans ((through.pass (k + further) (by omega)).asks.mono fun q asked => ?_)
    exact asked.imp_right fun within => ⟨k + further, by omega, by omega, within⟩

theorem faithful (through : PassesThrough values region mark count r) (bound : k ≤ count) :
    ∃ inner, Faithful values inner (r k) := by
  have asks := through.onward (k := 0) k (by omega)
  rw [through.start, Nat.zero_add] at asks
  obtain ⟨added, faithful, -⟩ := (Faithful.start values).asks asks
  exact ⟨_, faithful⟩

theorem countP_events (through : PassesThrough values region mark count r) (bound : k ≤ count) :
    (r k).events.countP (·.kind = .sorted) = k := by
  induction k with
  | zero => rw [through.start]; rfl
  | succ k ih =>
    obtain ⟨added, events, -, plain⟩ := (through.pass k (by omega)).events
    have none : added.countP (·.kind = .sorted) = 0 :=
      List.countP_eq_zero.mpr fun e member => by simpa using (plain e member).1
    have one : [Event.sorted [mark k]].countP (·.kind = .sorted) = 1 := rfl
    rw [events, List.countP_append, List.countP_append, ih (by omega), none, one]

theorem count_sorted (through : PassesThrough values region mark count r) :
    (r count).finish.count .sorted = count := by
  have closing : [Event.complete].countP (·.kind = .sorted) = 0 := rfl
  simp only [Trace.count, finish, List.countP_append, through.countP_events (Nat.le_refl count),
    closing, Nat.add_zero]

theorem cut (through : PassesThrough values region mark count r) (bound : k < count) :
    ∃ before added, Faithful values (before ++ Event.sorted [mark k] :: added) (r count) ∧
      arrayAfter values before = (r (k + 1)).array ∧ before.countP (·.kind = .sorted) = k ∧
      ∀ e ∈ added, e.isMutation = true → ∃ j, k < j ∧ j < count ∧ ∀ i ∈ e.indices, region j i := by
  obtain ⟨inner, faithful⟩ := through.faithful (k := k) (by omega)
  obtain ⟨whole, done⟩ := through.faithful (Nat.le_refl count)
  obtain ⟨moved, events, array, plain⟩ := (through.pass k (by omega)).events
  obtain ⟨added, grown, -, later⟩ :=
    (through.onward (k := k + 1) (count - (k + 1)) (by omega)).added
  rw [show k + 1 + (count - (k + 1)) = count by omega] at grown
  obtain rfl : whole = inner ++ moved ++ Event.sorted [mark k] :: added := by
    have both := done.events_eq.symm.trans grown
    rw [events, faithful.events_eq] at both
    simpa using both
  refine ⟨inner ++ moved, added, done, ?_, ?_, fun e member changes => ?_⟩
  · rw [array, arrayAfter_append, faithful.array_eq]
  · have first := through.countP_events (k := k) (by omega)
    have opening : [Event.init values].countP (·.kind = .sorted) = 0 := rfl
    have none : moved.countP (·.kind = .sorted) = 0 :=
      List.countP_eq_zero.mpr fun e member => by simpa using (plain e member).1
    rw [faithful.events_eq, ← List.singleton_append, List.countP_append, opening, Nat.zero_add] at first
    rw [List.countP_append, first, none, Nat.add_zero]
  · obtain ⟨q, asked, kind, positions⟩ := later e member
    rw [e.isMutation_iff, kind] at changes
    rcases asked with marks | ⟨j, low, high, within⟩
    · simp [marks] at changes
    · exact ⟨j, low, high, positions ▸ within.2 changes⟩

theorem marked (through : PassesThrough values region mark count r) (bound : k < count) :
    ∃ step, (r count).finish.IsNth .sorted (k + 1) step ∧
      (r count).finish.events[step]? = some (.sorted [mark k]) ∧
      (r count).finish.stateAt step = .ok (r (k + 1)).array ∧
      ∀ p value, (∀ j, k < j → j < count → ¬ region j p) →
        (r (k + 1)).array[p]? = some value → (r count).finish.KeepsFrom step p value := by
  obtain ⟨before, added, done, array, counted, later⟩ := through.cut bound
  have marking : arrayAfter values (before ++ [Event.sorted [mark k]]) = (r (k + 1)).array :=
    (arrayAfter_append values before _).trans array
  have here : (framed values (before ++ .sorted [mark k] :: added))[before.length + 1]? =
      some (.sorted [mark k]) := by
    simp [framed]
  rw [done.finish_eq]
  refine ⟨before.length + 1, ⟨by rw [here]; rfl, ?_⟩, here, ?_, fun p value outside held => ?_⟩
  · have opening : (Event.init values).kind ≠ .sorted := by simp [Event.kind]
    simp [framed, counted, opening]
  · rw [stateAt_split done.replays, marking]
  · refine keepsFrom_framed done.replays (by rw [marking, held]) fun e member changes named => ?_
    obtain ⟨j, low, high, moved⟩ := later e member changes
    exact outside j low high (moved p named)

end PassesThrough

end Recorder

end SortTrace
