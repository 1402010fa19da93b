import SortTrace.Proofs.Numeral.Whole
import SortTrace.Proofs.Sorting.Bubble
import SortTrace.Proofs.Synthesis.BubbleScript
import SortTrace.Proofs.Synthesis.GuardedRun
import SortTrace.Sorting.Algorithm

/-!
The trace of the bubble sort script: without comments, its sweeps are the passes of the algorithm.
-/

namespace SortTrace.Synthesis

open Script Sorting Numeral

theorem elementValue_integer {v : Int64} (bound : v.toInt.natAbs ≤ 2 ^ 53) :
    TrackedArray.elementValue (.integer v.toInt) = v := by
  have back : Int64.ofInt v.toInt = v := Int64.ofInt_toInt v
  unfold TrackedArray.elementValue
  rcases sign : v.toInt with n | n
  · rw [sign] at bound back
    have small : n ≤ 2 ^ 53 := bound
    rw [← back]
    exact Signed.toInt64_ofWhole false small
  · rw [sign] at bound back
    have small : n + 1 ≤ 2 ^ 53 := bound
    rw [← back]
    exact Signed.toInt64_ofWhole true small

namespace BubbleScript

variable (b : BubbleScript)

theorem values_guarded (exact : ∀ v ∈ b.values, v.toInt.natAbs ≤ 2 ^ 53) :
    b.guarded.values = b.values := by
  have literals : b.guarded.literals = b.values.map fun v => .integer v.toInt := rfl
  rw [GuardedScript.values, literals, List.map_map]
  conv => rhs; rw [← List.map_id b.values]
  exact List.map_congr_left fun v member => elementValue_integer (exact v member)

theorem sorting_guarded {config : Config} (quiet : config.loopComments = false) (r : Recorder) :
    b.guarded.sorting config .gt r = bubbleSort r := by
  have inner (stop : Nat) : b.guarded.sayInner config stop = fun r => r :=
    funext fun r => DryRun.announced_quiet quiet _ _ r
  have outer (last : Nat) : b.guarded.sayOuter config last r = r :=
    DryRun.announced_quiet quiet _ _ r
  rw [GuardedScript.sorting, outer]
  simp only [inner]
  rfl

end BubbleScript

/-- A script with the tokens of the classic bubble sort, in any layout, has the trace of the
algorithm, if the limit lets its iterations through. Lengths fit 63 bits, as those of arrays in
memory do. -/
theorem synthesize_bubble (b : BubbleScript) (config : Config) (text : String)
    (layout : spelling text = spelling b.text) (nonempty : b.values ≠ [])
    (exact : ∀ v ∈ b.values, v.toInt.natAbs ≤ 2 ^ 53) (bound : b.values.length < 2 ^ 63)
    (quiet : config.loopComments = false)
    (room : (b.values.length - 1) + b.values.length * (b.values.length - 1) / 2 ≤
      config.maxSteps) :
    (synthesize config text).result = .ok (Algorithm.bubble.trace b.values) := by
  have count : b.guarded.literals.length = b.values.length := List.length_map _
  have steps : iterations (b.guarded.literals.length - 1) ≤ config.maxSteps := by
    rw [count]
    exact iterations_le (List.length_pos_iff.mpr nonempty) room
  have spelled : spelling text = .ok (b.guarded.tokens ++ [TokenKind.eof]) :=
    layout.trans b.spells_text.spelling_eq
  have literals : b.guarded.literals ≠ [] := by
    rw [← List.length_pos_iff, count]
    exact List.length_pos_iff.mpr nonempty
  have relation : b.guarded.relation = .gt := rfl
  rw [b.guarded.synthesize_tokens config spelled literals (by rw [count]; exact bound) steps,
    b.values_guarded exact, relation, b.sorting_guarded quiet]
  rfl

def threeValues : BubbleScript where
  array := ⟨"a", by decide⟩
  outer := ⟨"i", by decide⟩
  inner := ⟨"j", by decide⟩
  arrayWord := .letKind
  loopWord := .letKind
  exchange := .temporary (some .constKind) ⟨"t", by decide⟩
  values := [2, -7, 2]

def threeValuesOnOneLine : String :=
  "let a=[2,-7,2];for(let i=0;i<a.length-1;i++)\x7bfor(let j=0;j<a.length-i-1;j++)\x7b" ++
  "if(a[j]>a[j+1])\x7bconst t=a[j];a[j]=a[j+1];a[j+1]=t;\x7d\x7d\x7d"

theorem synthesize_bubble_oneLine :
    spelling threeValuesOnOneLine = spelling threeValues.text ∧
      (synthesize { indexPolicy := .strict, maxSteps := 5 } threeValuesOnOneLine).result =
        .ok (Algorithm.bubble.trace [2, -7, 2]) := by
  have scanned : (spelling threeValuesOnOneLine).toOption =
      some (threeValues.guarded.tokens ++ [TokenKind.eof]) := by
    decide +kernel
  have layout : spelling threeValuesOnOneLine = spelling threeValues.text := by
    rw [threeValues.spells_text.spelling_eq]
    cases found : spelling threeValuesOnOneLine with
    | ok ks =>
      rw [found] at scanned
      rw [Option.some.inj scanned]
    | error e =>
      rw [found] at scanned
      cases scanned
  have small : threeValues.values.all (fun v => v.toInt.natAbs ≤ 2 ^ 53) = true := by decide
  exact ⟨layout, synthesize_bubble threeValues { indexPolicy := .strict, maxSteps := 5 }
    threeValuesOnOneLine layout (by decide)
    (fun v member => of_decide_eq_true (List.all_eq_true.mp small v member)) (by decide) rfl
    (by decide)⟩

end SortTrace.Synthesis
