import SortTrace.Proofs.Trace.Requests

/-!
Requests left out. A comparison changes no array, so a recorder that gets the same requests but for some
comparisons ends with the same array, and its events are the same but for some comparisons.
-/

namespace SortTrace

/-- The first list is the second one with some items left out, all of which may be. -/
inductive LeftOut {α : Type} (may : α → Prop) : List α → List α → Prop
  | nil : LeftOut may [] []
  | keep {a : α} {xs ys : List α} : LeftOut may xs ys → LeftOut may (a :: xs) (a :: ys)
  | skip {a : α} {xs ys : List α} : may a → LeftOut may xs ys → LeftOut may xs (a :: ys)

namespace LeftOut

variable {α : Type} {may : α → Prop} {xs ys xs' ys' : List α}

theorem refl (xs : List α) : LeftOut may xs xs := by
  induction xs with
  | nil => exact .nil
  | cons _ _ ih => exact .keep ih

theorem append (first : LeftOut may xs ys) (second : LeftOut may xs' ys') :
    LeftOut may (xs ++ xs') (ys ++ ys') := by
  induction first with
  | nil => exact second
  | keep _ ih => exact .keep ih
  | skip omitted _ ih => exact .skip omitted ih

theorem all (omitted : ∀ a ∈ ys, may a) : LeftOut may [] ys := by
  induction ys with
  | nil => exact .nil
  | cons a ys ih =>
    obtain ⟨first, others⟩ := List.forall_mem_cons.mp omitted
    exact .skip first (ih others)

end LeftOut

/-- Two lists of events that differ in comparisons only, some of which the first one lacks. -/
def FewerCompares (events events' : List Event) : Prop :=
  LeftOut (fun e => e.kind = .compare) events events'

namespace Recorder

variable {r r' : Recorder}

theorem handle_compare {q : Request} (compares : q.kind = .compare) (r : Recorder) :
    (r.handle q).1.array = r.array ∧ ∃ added, (r.handle q).1.events = r.events ++ added ∧
      ∀ e ∈ added, e.kind = .compare := by
  refine ⟨?_, (q.event? r.array).toList, by rw [handle_eq, extend_events], fun e member => ?_⟩
  · cases q with
    | compare i j =>
      show (r.compare i j).1.array = r.array
      unfold compare
      split <;> rfl
    | _ => cases compares
  · obtain ⟨kind, -⟩ := Request.event?_names (Option.mem_toList.mp member)
    exact kind.trans compares

theorem run_leftOut {qs qs' : List Request}
    (less : LeftOut (fun q : Request => q.kind = .compare) qs' qs) (same : r'.array = r.array) :
    (r'.run qs').array = (r.run qs).array ∧ ∃ added added',
      (r.run qs).events = r.events ++ added ∧ (r'.run qs').events = r'.events ++ added' ∧
      FewerCompares added' added := by
  induction less generalizing r r' with
  | nil => exact ⟨same, [], [], (List.append_nil _).symm, (List.append_nil _).symm, .nil⟩
  | @keep q qs' qs _ ih =>
    have arrays : (r'.handle q).1.array = (r.handle q).1.array := by
      rw [handle_eq, handle_eq, same]
      exact extend_array same _
    obtain ⟨array, added, added', events, events', fewer⟩ := ih arrays
    refine ⟨array, (q.event? r.array).toList ++ added, (q.event? r.array).toList ++ added', ?_, ?_,
      LeftOut.append (.refl _) fewer⟩
    · rw [run_cons, events, handle_eq, extend_events, List.append_assoc]
    · rw [run_cons, events', handle_eq, extend_events, same, List.append_assoc]
  | @skip q qs' qs compares _ ih =>
    obtain ⟨array, looked, grown, kinds⟩ := handle_compare compares r
    obtain ⟨arrays, added, added', events, events', fewer⟩ := @ih (r.handle q).1 r' (same.trans array.symm)
    refine ⟨arrays, looked ++ added, added', ?_, events', LeftOut.append (.all kinds) fewer⟩
    rw [run_cons, events, grown, List.append_assoc]

end Recorder

end SortTrace
