import SortTrace.Proofs.Synthesis.SetsAround

/-!
Where patterns come from: each shape that is recognised, with the positions and values in it.
-/

namespace SortTrace.Synthesis

open Script

namespace Watch

variable {w : Watch}

theorem swapPattern_ok {target value : Expr} {x : Pattern}
    (found : w.swapPattern target value = .ok x) : ∃ l₁ l₂ i j,
      w.position l₁ = .ok i ∧ w.position l₂ = .ok j ∧ x = .swap i j := by
  unfold swapPattern at found
  split at found
  · split at found
    · obtain ⟨i, first, found⟩ := ok_of_bind found
      obtain ⟨j, second, found⟩ := ok_of_bind found
      split at found
      · cases found
        exact ⟨_, _, i, j, first, second, rfl⟩
      · cases found
    · cases found
    · cases found
  · cases found

theorem setPattern_ok {target value : Expr} {x : Pattern}
    (found : w.setPattern target value = .ok x) : ∃ i v,
      w.position target = .ok i ∧ x = .set i v := by
  obtain ⟨i, first, found⟩ := ok_of_bind found
  split at found
  · cases found
    exact ⟨i, _, first, rfl⟩
  · cases found

theorem comparisonPattern_ok {lhs rhs : Expr} {op : BinOp} {x : Pattern}
    (found : w.comparisonPattern lhs op rhs = .ok x) : ∃ r i j,
      w.comparedPosition lhs 0 = .ok i ∧ w.comparedPosition rhs 1 = .ok j ∧
        x = .comparison r i j := by
  unfold comparisonPattern at found
  split at found
  · obtain ⟨i, first, found⟩ := ok_of_bind found
    obtain ⟨j, second, found⟩ := ok_of_bind found
    cases found
    exact ⟨_, i, j, first, second, rfl⟩
  · cases found

theorem exchangesElements_of_swap {e : Expr} {i j : Nat} (swap : w.pattern e = .swap i j) :
    w.exchangesElements e = true := by
  have recognized := recognize_of_pattern (by simp) swap
  unfold recognize at recognized
  split at recognized
  · split at recognized <;> cases recognized
  · split at recognized
    · split at recognized
      · assumption
      · cases recognized
    · split at recognized
      · obtain ⟨_, _, -, other⟩ := setPattern_ok recognized
        cases other
      · cases recognized
    · cases recognized
  · split at recognized
    · obtain ⟨_, _, _, -, -, other⟩ := comparisonPattern_ok recognized
      cases other
    · cases recognized
  · cases recognized

theorem comparesElements_of_comparison {e : Expr} {r : Relation} {i j : Nat}
    (found : w.pattern e = .comparison r i j) : w.comparesElements e = true := by
  have recognized := recognize_of_pattern (by simp) found
  unfold recognize at recognized
  repeat' split at recognized
  any_goals cases recognized
  · obtain ⟨_, _, _, _, -, -, other⟩ := swapPattern_ok recognized
    cases other
  · obtain ⟨_, _, -, other⟩ := setPattern_ok recognized
    cases other
  · assumption

end Watch

end SortTrace.Synthesis
