import SortTrace.Proofs.Synthesis.Lockstep
import SortTrace.Proofs.Synthesis.PatternCases
import SortTrace.Proofs.Wire.Messages

/-!
Positions in recorded events. Whatever a script says, a dry run asks only for positions that fit 64 bits,
so that every trace it records can be sent.
-/

namespace SortTrace

def Request.Addressable (q : Request) : Prop := ∀ i ∈ q.positions, i < 2 ^ 64

namespace Recorder

structure Printable (array : List Int64) (r : Recorder) : Prop where
  faithful : ∃ inner, Faithful array inner r
  addressable : ∀ e ∈ r.events, e.Addressable

namespace Printable

variable {array : List Int64} {r : Recorder}

theorem start (array : List Int64) : Printable array (.start array) := by
  refine ⟨⟨[], Faithful.start array⟩, fun e member => ?_⟩
  rw [List.mem_singleton.mp member]
  simp [Event.Addressable, Event.indices]

theorem handle (printable : Printable array r) {q : Request} (fits : q.Addressable) :
    Printable array (r.handle q).1 := by
  obtain ⟨inner, faithful⟩ := printable.faithful
  obtain ⟨added, onward⟩ := faithful.handle q
  refine ⟨⟨inner ++ added, onward⟩, ?_⟩
  rw [handle_eq, extend_events]
  refine List.forall_mem_append.mpr ⟨printable.addressable, fun e member => ?_⟩
  obtain ⟨-, positions⟩ := Request.event?_names (Option.mem_toList.mp member)
  rwa [Event.Addressable, positions]

theorem sendable (printable : Printable array r) : r.finish.Sendable := by
  obtain ⟨inner, faithful⟩ := printable.faithful
  refine ⟨faithful.accepted, List.forall_mem_append.mpr ⟨printable.addressable, ?_⟩⟩
  simp [Event.Addressable, Event.indices]

end Printable

theorem printable_of_length {array : List Int64} {r : Recorder} {inner : List Event}
    (faithful : Faithful array inner r) (small : array.length ≤ 2 ^ 64) : Printable array r := by
  refine ⟨⟨inner, faithful⟩, ?_⟩
  rw [faithful.events_eq]
  refine List.forall_mem_cons.mpr ⟨by simp [Event.Addressable, Event.indices], fun e member => ?_⟩
  intro i named
  exact Nat.lt_of_lt_of_le ((faithful.fits e member).inside i named) small

end Recorder

namespace Synthesis

open Script Watch

variable {w : Watch}

theorem toIndex?_lt {x : Numeral.Signed} {n : Nat} (index : x.toIndex? = some n) : n < 2 ^ 64 := by
  unfold Numeral.Signed.toIndex? at index
  split at index
  · cases index
    omega
  · cases index

theorem position_lt {e : Expr} {n : Nat} (at? : w.position e = .ok n) : n < 2 ^ 64 := by
  unfold Watch.position at at?
  split at at?
  · cases at?
  · split at at?
    · rename_i found
      cases at?
      obtain ⟨x, -, index⟩ := Option.bind_eq_some_iff.mp found
      exact toIndex?_lt index
    · cases at?

theorem comparedPosition_lt {e : Expr} {placeholder n : Nat} (small : placeholder < 2)
    (at? : w.comparedPosition e placeholder = .ok n) : n < 2 ^ 64 := by
  unfold Watch.comparedPosition at at?
  split at at?
  · rename_i found
    cases at?
    exact position_lt found
  · cases at?
    omega
  · cases at?

theorem recognize_addressable {e : Expr} {x : Pattern} (found : w.recognize e = .ok x) :
    ∀ q ∈ requests x.actions, q.Addressable := by
  have two {i j : Nat} (first : i < 2 ^ 64) (second : j < 2 ^ 64) : ∀ k ∈ [i, j], k < 2 ^ 64 := by
    simp [first, second]
  unfold Watch.recognize at found
  repeat' split at found
  any_goals cases found
  · simp [requests, Pattern.actions]
  · obtain ⟨l₁, l₂, i, j, first, second, rfl⟩ := swapPattern_ok found
    exact List.forall_mem_singleton.mpr (two (position_lt first) (position_lt second))
  · obtain ⟨i, v, first, rfl⟩ := setPattern_ok found
    exact List.forall_mem_singleton.mpr (List.forall_mem_singleton.mpr (position_lt first))
  · obtain ⟨r, i, j, first, second, rfl⟩ := comparisonPattern_ok found
    exact List.forall_mem_singleton.mpr
      (two (comparedPosition_lt (by decide) first) (comparedPosition_lt (by decide) second))

theorem pattern_addressable (e : Expr) : ∀ q ∈ requests (w.pattern e).actions, q.Addressable := by
  unfold Watch.pattern
  split
  · exact recognize_addressable ‹_›
  · simp [requests, Pattern.actions]

theorem simulation_printable (config : Config) (array : List Int64) :
    Simulation config config Request.Addressable fun r r' =>
      r' = r ∧ Recorder.Printable array r where
  limit := rfl
  array := fun ⟨same, _⟩ => same ▸ rfl
  handle := fun fits ⟨same, printable⟩ => ⟨same ▸ rfl, printable.handle fits⟩
  announced := by
    rintro r r' label range ⟨rfl, printable⟩
    refine ⟨rfl, ?_⟩
    rcases DryRun.announced_comments config label range r' with said | ⟨message, said⟩
    · rwa [said]
    · rw [said]
      have nothing : (Request.comment message).Addressable := by
        simp [Request.Addressable, Request.positions]
      exact printable.handle nothing
  loops := by
    intro k bound
    simp only [Request.Addressable, Request.positions, List.forall_mem_cons]
    refine ⟨⟨?_, ?_, ?_⟩, ⟨?_, ?_, ?_⟩, ⟨?_, ?_⟩⟩ <;> first | omega | simp

theorem dryRun_printable {config : Config} {p : Program} {a : TrackedArray} {s : DryRun}
    (ran : dryRun config p a = .ok s) : Recorder.Printable a.values s.recorder := by
  have both := @dryRun_alike _ _ _ _ p a (simulation_printable config a.values) rfl
    pattern_addressable ⟨rfl, .start a.values⟩
  exact (both.of_ok ran).recorder.2

end Synthesis

end SortTrace
