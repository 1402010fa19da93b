import SortTrace.Proofs.Sorting.Passes

/-!
Marks behind a frontier. Values are changed in front of the frontier only, and the frontier moves forward
as positions are marked, so what is said of a marked position when it is marked stays true.
-/

namespace SortTrace

/-- Each mark is on one position, at the frontier or behind it, of which `good` held with the array at the
time; the value there has not been changed since. -/
def MarksLast (values : List Int64) (good : Nat → List Int64 → Prop) (frontier : Int)
    (events : List Event) : Prop :=
  ∀ before after indices, events = before ++ Event.sorted indices :: after →
    ∃ k : Nat, indices = [k] ∧ frontier ≤ k ∧ good k (arrayAfter values before) ∧
      ∀ e ∈ after, e.isMutation = true → k ∉ e.indices

namespace MarksLast

variable {values : List Int64} {good : Nat → List Int64 → Prop} {frontier other : Int}
  {events added : List Event}

theorem mono (marks : MarksLast values good frontier events) (below : other ≤ frontier) :
    MarksLast values good other events := by
  intro before after indices split
  obtain ⟨k, same, behind, held, kept⟩ := marks before after indices split
  exact ⟨k, same, Int.le_trans below behind, held, kept⟩

theorem none (unmarked : ∀ e ∈ events, e.kind ≠ .sorted) : MarksLast values good frontier events := by
  rintro before after indices rfl
  exact absurd rfl (unmarked (.sorted indices) (by simp))

theorem append (marks : MarksLast values good frontier events)
    (inFront : ∀ e ∈ added, e.kind ≠ .sorted ∧
      (e.isMutation = true → ∀ i ∈ e.indices, (i : Int) < frontier)) :
    MarksLast values good frontier (events ++ added) := by
  intro before after indices split
  -- None of the new events is a mark, so the mark stands among the old ones.
  rcases List.append_eq_append_iff.mp split with ⟨more, rfl, rest⟩ | ⟨more, rfl, rest⟩
  · exact absurd rfl (inFront (.sorted indices) (by simp [rest])).1
  · cases more with
    | nil =>
      rw [List.nil_append] at rest
      exact absurd rfl (inFront (.sorted indices) (by simp [← rest])).1
    | cons e more =>
      rw [List.cons_append, List.cons.injEq] at rest
      obtain ⟨rfl, rfl⟩ := rest
      obtain ⟨k, same, behind, held, kept⟩ := marks before more indices rfl
      refine ⟨k, same, behind, held, List.forall_mem_append.mpr ⟨kept, fun e member changes at_ => ?_⟩⟩
      have inFront := (inFront e member).2 changes k at_
      omega

theorem mark (marks : MarksLast values good frontier events) {k : Nat} (inFront : (k : Int) < frontier)
    (held : good k (arrayAfter values events)) :
    MarksLast values good k (events ++ [Event.sorted [k]]) := by
  intro before after indices split
  rcases List.eq_nil_or_concat after with rfl | ⟨more, e, rfl⟩
  · obtain ⟨rfl, rest⟩ := List.append_inj' split rfl
    cases rest
    exact ⟨k, rfl, Int.le_refl _, held, by simp⟩
  · rw [List.concat_eq_append, ← List.cons_append, ← List.append_assoc] at split
    obtain ⟨earlier, last⟩ := List.append_inj' split rfl
    cases last
    obtain ⟨l, same, behind, held, kept⟩ := marks before more indices earlier
    refine ⟨l, same, by omega, held, ?_⟩
    rw [List.concat_eq_append, List.forall_mem_append]
    exact ⟨kept, by simp [Event.isMutation]⟩

end MarksLast

namespace Recorder

theorem sorted_outside {r : Recorder} {k : Nat} (outside : r.size ≤ k) : (r.sorted [k]).1 = r := by
  simp [sorted, outside?, outside]

def Marked (values : List Int64) (good : Nat → List Int64 → Prop) (frontier : Int) (r : Recorder) : Prop :=
  ∃ inner, Faithful values inner r ∧ MarksLast values good frontier inner

namespace Marked

variable {values : List Int64} {good : Nat → List Int64 → Prop} {frontier other : Int}
  {r r' : Recorder}

theorem size_eq (marked : Marked values good frontier r) : r.size = values.length := by
  obtain ⟨inner, faithful, -⟩ := marked
  exact faithful.size_eq

theorem mono (marked : Marked values good frontier r) (below : other ≤ frontier) :
    Marked values good other r := by
  obtain ⟨inner, faithful, marks⟩ := marked
  exact ⟨inner, faithful, marks.mono below⟩

theorem of_asks (asks : (Recorder.start values).Asks (fun q => q.kind ≠ .sorted) r) :
    Marked values good frontier r := by
  obtain ⟨inner, faithful, names⟩ := (Faithful.start values).asks asks
  refine ⟨inner, faithful, .none fun e member => ?_⟩
  obtain ⟨q, other, kind, -⟩ := names e member
  rwa [kind]

theorem asks (marked : Marked values good frontier r)
    (asks : r.Asks (Request.Within fun i => (i : Int) < frontier) r') :
    Marked values good frontier r' := by
  obtain ⟨inner, faithful, marks⟩ := marked
  obtain ⟨added, further, names⟩ := faithful.asks asks
  refine ⟨inner ++ added, further, marks.append fun e member => ?_⟩
  obtain ⟨q, within, kind, positions⟩ := names e member
  rw [e.isMutation_iff, kind, positions]
  exact within

theorem mark (marked : Marked values good frontier r) {k : Nat} (inFront : (k : Int) < frontier)
    (inside : k < values.length) (held : good k r.array) :
    Marked values good k (r.sorted [k]).1 := by
  have size := marked.size_eq
  obtain ⟨inner, faithful, marks⟩ := marked
  obtain ⟨added, further, -⟩ := faithful.asks (.request (P := fun _ => True) (q := .sorted [k]) trivial r)
  have events := @sorted_events r k (by omega)
  have same : inner ++ added = inner ++ [Event.sorted [k]] := by
    have both := further.events_eq.symm.trans events
    rw [faithful.events_eq, List.cons_append] at both
    exact (List.cons.inj both).2
  rw [same] at further
  exact ⟨_, further, marks.mark inFront (faithful.array_eq ▸ held)⟩

end Marked

end Recorder

theorem framed_split {values : List Int64} {inner : List Event} {step : Nat} {e : Event}
    (notInit : e.kind ≠ .init) (notComplete : e.kind ≠ .complete)
    (here : (framed values inner)[step]? = some e) :
    ∃ before after, inner = before ++ e :: after ∧ step = before.length + 1 := by
  cases step with
  | zero =>
    cases here
    exact absurd rfl notInit
  | succ m =>
    rw [framed, List.getElem?_cons_succ] at here
    rcases Nat.lt_or_ge m inner.length with inside | outside
    · rw [List.getElem?_append_left inside] at here
      obtain ⟨_, rfl⟩ := List.getElem?_eq_some_iff.mp here
      refine ⟨inner.take m, inner.drop (m + 1), ?_, ?_⟩
      · rw [List.getElem_cons_drop, List.take_append_drop]
      · rw [List.length_take, Nat.min_eq_left (Nat.le_of_lt inside)]
    · rw [List.getElem?_append_right outside] at here
      have closing := List.mem_singleton.mp (List.mem_of_getElem? here)
      exact absurd (congrArg Event.kind closing) notComplete

theorem Recorder.Marked.finish {values : List Int64} {good : Nat → List Int64 → Prop} {frontier : Int}
    {r : Recorder} (marked : Marked values good frontier r) {step : Nat} {indices : List Nat}
    (here : r.finish.events[step]? = some (.sorted indices)) :
    ∃ k array value, indices = [k] ∧ r.finish.stateAt step = .ok array ∧ array[k]? = some value ∧
      good k array ∧ r.finish.KeepsFrom step k value := by
  obtain ⟨inner, faithful, marks⟩ := marked
  rw [faithful.finish_eq] at here ⊢
  obtain ⟨before, after, rfl, rfl⟩ := framed_split (by simp [Event.kind]) (by simp [Event.kind]) here
  obtain ⟨k, rfl, -, held, kept⟩ := marks _ _ _ rfl
  have inside : k < (arrayAfter values before).length := by
    rw [arrayAfter_length]
    exact (faithful.fits (.sorted [k]) (by simp)).inside k (by simp [Event.indices])
  have marking : arrayAfter values (before ++ [Event.sorted [k]]) = arrayAfter values before :=
    arrayAfter_append values before _
  have value := List.getElem?_eq_getElem inside
  refine ⟨k, arrayAfter values before, _, rfl, ?_, value, held,
    keepsFrom_framed faithful.replays (by rw [marking, value]) kept⟩
  rw [stateAt_split faithful.replays, marking]

end SortTrace
