import SortTrace.Proofs.Sorting.LastingMarks
import SortTrace.Proofs.Sorting.Marks
import SortTrace.Proofs.Synthesis.ExchangeCount
import SortTrace.Proofs.Synthesis.NestedSorting

/-!
The marks of two loops whose passes get shorter: a pass marks the position where it ends, the passes
behind it end before that position, and by the relation of the guard no value that the pass has seen
belongs behind the one it leaves there.
-/

namespace SortTrace.Synthesis

open Script Sorting

/-- Whatever the guard sorts by, the value at a position is the last one among those that a pass up to
there goes over. -/
def NestedLoops.Tops (loops : NestedLoops) (k : Nat) (array : List Int64) : Prop :=
  ∀ rank, Ranks rank loops.guard.asks → HighestFrom rank array loops.inner.start.toInt.toNat k

theorem NestedLoops.tops_early (loops : NestedLoops) {k : Nat} (early : k ≤ loops.inner.start.toInt.toNat)
    (array : List Int64) : loops.Tops k array :=
  fun _ _ p behind below => by omega

theorem exactSub?_toInt {a b d : Int64} (found : exactSub? a b = some d) :
    d.toInt = a.toInt - b.toInt := by
  simp only [exactSub?] at found
  split at found
  · rename_i fits
    cases found
    exact Int64.toInt_ofInt_of_le fits.1 fits.2
  · cases found

theorem shrinks_toInt {length i stop : Int64} (found : InnerStop.shrinks.value? length i = some stop) :
    stop.toInt = length.toInt - (i.toInt + 1) := by
  obtain ⟨last, first, second⟩ := Option.bind_eq_some_iff.mp found
  have one : (1 : Int64).toInt = 1 := rfl
  have last := exactSub?_toInt first
  have stop := exactSub?_toInt second
  omega

/-- Once the outer one of two loops runs, only their guard changes the array: no statement of the inner body
is a swap or a set by itself, and nothing is set in the outer body around the inner loop or behind both
loops. -/
structure NestedLoops.RunAlone (loops : NestedLoops) (w : Watch) (p : Program) : Prop where
  direct : ∀ st ∈ loops.innerLoop.body.statements, (w.stmtPattern st).changes = []
  around : ∀ e ∈ loops.outerLoop.body.outline.exprsAround, (w.pattern e).isSet = false
  behind : ∀ e ∈ (p.outline.aroundLoop Node.isFunc).2.filterMap Node.expr?, (w.pattern e).isSet = false

instance (loops : NestedLoops) (w : Watch) (p : Program) : Decidable (loops.RunAlone w p) :=
  decidable_of_iff
    ((∀ st ∈ loops.innerLoop.body.statements, (w.stmtPattern st).changes = []) ∧
      (∀ e ∈ loops.outerLoop.body.outline.exprsAround, (w.pattern e).isSet = false) ∧
      ∀ e ∈ (p.outline.aroundLoop Node.isFunc).2.filterMap Node.expr?, (w.pattern e).isSet = false)
    ⟨fun all => ⟨all.1, all.2.1, all.2.2⟩, fun alone => ⟨alone.direct, alone.around, alone.behind⟩⟩

namespace DryRun

variable {s t : DryRun} {config : Config} {loops : NestedLoops} {body : List Action}
  {values : List Int64} {frontier : Int}

theorem announce_marked {good : Nat → List Int64 → Prop} (marked : s.recorder.Marked values good frontier)
    (config : Config) (label : String) (range : LoopRange) :
    (s.announce config label range).recorder.Marked values good frontier := by
  unfold announce
  split
  · exact marked.asks (.request (q := .comment _) ⟨by simp [Request.kind], by simp [Request.kind]⟩ _)
  · exact marked

/-- Inside a pass all marks last, and as far as the array goes the last of the values seen is at the
position that the pass has reached. -/
structure Passing (loops : NestedLoops) (values : List Int64) (frontier j : Int) (s : DryRun) : Prop where
  marked : s.recorder.Marked values loops.Tops frontier
  tops : j.toNat < values.length → loops.Tops j.toNat s.recorder.array

theorem Passing.visit (quiet : ∀ a ∈ body, ∃ n, a = .tell n) {i j : Int64}
    (passing : Passing loops values frontier j.toInt s) (inFront : j.toInt + 1 < frontier) :
    Passing loops values frontier (j.toInt + 1) (s.visit loops body i j) := by
  have size := passing.marked.size_eq
  have same : (s.visit loops body i j).recorder =
      ((s.tell (.nestedIteration i j)).visitPair loops.guard j).recorder := performAll_tells _ quiet
  rcases Int.lt_or_le j.toInt 0 with negative | natural
  · rw [visitPair_negative _ loops.guard negative] at same
    refine ⟨same ▸ passing.marked, fun _ => loops.tops_early (by omega) _⟩
  · rw [visitPair_natural _ loops.guard natural] at same
    -- The pair lies in front of the frontier, so no position that is marked is touched.
    have asks := s.recorder.asks_exchangeIf (P := Request.Within fun i => (i : Int) < frontier)
      (within_compare _ j.toInt.toNat (j.toInt.toNat + 1)) (within_swap (by omega) (by omega))
      loops.guard.asks
    refine ⟨same ▸ passing.marked.asks asks, fun inside rank ranks => ?_⟩
    have next : (j.toInt + 1).toNat = j.toInt.toNat + 1 := by omega
    rw [next] at inside ⊢
    rw [same]
    exact (passing.tops (by omega) rank ranks).exchangeIf ranks (by omega)

theorem runInner_passing (quiet : ∀ a ∈ body, ∃ n, a = .tell n) {i stop : Int64}
    (marked : s.recorder.Marked values loops.Tops frontier) (inFront : stop.toInt < frontier)
    (ran : s.runInner config loops body i stop = .ok t) :
    Passing loops values frontier (max loops.inner.start.toInt stop.toInt) t := by
  rw [runInner_eq] at ran
  have first : Passing loops values frontier loops.inner.start.toInt
      (s.announce config "inner" { loops.inner with stop := stop }) :=
    ⟨announce_marked marked .., fun _ => loops.tops_early (Nat.le_refl _) _⟩
  refine iterate_range (Passing loops values frontier) first (fun j u v _ high passing once => ?_) ran
  obtain ⟨counted, room, rest⟩ := ok_of_bind once
  cases rest
  have same := countStep_recorder room
  have passing : Passing loops values frontier j.toInt counted :=
    ⟨same ▸ passing.marked, same ▸ passing.tops⟩
  exact passing.visit quiet (by omega)

theorem finishPass_marked {stop : Int64}
    (passing : Passing loops values (stop.toInt + 1) (max loops.inner.start.toInt stop.toInt) s) :
    (s.finishPass loops stop).recorder.Marked values loops.Tops stop.toInt := by
  have unmarked := passing.marked.mono (show stop.toInt ≤ stop.toInt + 1 by omega)
  unfold finishPass
  split
  · rename_i marks
    simp only [Bool.and_eq_true, decide_eq_true_eq, Int64.le_iff_toInt_le] at marks
    have natural : 0 ≤ stop.toInt := marks.2
    rw [(s.markSorted_keeps _).1]
    rcases Nat.lt_or_ge stop.toInt.toNat values.length with inside | outside
    · have tops : loops.Tops stop.toInt.toNat s.recorder.array := by
        rcases Int.le_total loops.inner.start.toInt stop.toInt with reaches | early
        · have tops := passing.tops
          rw [Int.max_eq_right reaches] at tops
          exact tops inside
        · -- The pass starts behind its end and has seen nothing.
          exact loops.tops_early (by omega) _
      exact (passing.marked.mark (by omega) inside tops).mono (by omega)
    · rw [Recorder.sorted_outside (passing.marked.size_eq ▸ outside)]
      exact unmarked
  · exact unmarked

def frontierAt (values : List Int64) (i : Int) : Int := (Int64.ofNat values.length).toInt - i

theorem runMiddle_marked (shrinks : loops.innerStop = .shrinks) (quiet : ∀ a ∈ body, ∃ n, a = .tell n)
    {i : Int64} (marked : s.recorder.Marked values loops.Tops (frontierAt values i.toInt))
    (ran : s.runMiddle config loops body i = .ok t) :
    t.recorder.Marked values loops.Tops (frontierAt values (i.toInt + 1)) := by
  unfold runMiddle at ran
  rw [shrinks, marked.size_eq] at ran
  cases resolved : InnerStop.shrinks.value? (Int64.ofNat values.length) i with
  | none =>
    rw [resolved] at ran
    cases ran
    exact marked.mono (by unfold frontierAt; omega)
  | some stop =>
    rw [resolved] at ran
    obtain ⟨u, inner, rest⟩ := ok_of_bind ran
    cases rest
    have ends : stop.toInt = frontierAt values (i.toInt + 1) := shrinks_toInt resolved
    have starts : frontierAt values i.toInt = stop.toInt + 1 := by
      rw [ends, frontierAt, frontierAt]
      omega
    rw [starts] at marked
    rw [← ends]
    exact finishPass_marked (runInner_passing quiet marked (by omega) inner)

section

variable {around : Surroundings} (before : around.before = []) (after : around.after = [])
  (shrinks : loops.innerStop = .shrinks) (quiet : ∀ a ∈ body, ∃ n, a = .tell n)

include before after shrinks quiet

theorem runPass_marked {i : Int64} (marked : s.recorder.Marked values loops.Tops (frontierAt values i.toInt))
    (ran : s.runPass config loops around body i = .ok t) :
    t.recorder.Marked values loops.Tops (frontierAt values (i.toInt + 1)) := by
  rw [runPass_eq, before, after] at ran
  obtain ⟨counted, room, ran⟩ := ok_of_bind ran
  obtain ⟨u, middle, rest⟩ := ok_of_bind ran
  cases rest
  rw [← countStep_recorder room] at marked
  exact runMiddle_marked shrinks quiet marked middle

theorem runNested_marked
    (marked : s.recorder.Marked values loops.Tops (frontierAt values loops.outer.start.toInt))
    (ran : s.runNested config loops around body = .ok t) :
    ∃ frontier, t.recorder.Marked values loops.Tops frontier := by
  have first : ((s.tellAll around.notices).announce config "outer" loops.outer).recorder.Marked values
      loops.Tops (frontierAt values loops.outer.start.toInt) :=
    announce_marked ((s.tellAll_keeps around.notices).1 ▸ marked) ..
  exact ⟨_, iterate_range (fun i u => u.recorder.Marked values loops.Tops (frontierAt values i)) first
    (fun i u v _ _ marked once => runPass_marked before after shrinks quiet marked once) ran⟩

end

theorem run_marked {w : Watch} {p : Program} (start : s.recorder = .start values)
    (shrinks : loops.innerStop = .shrinks)
    (alone : loops.RunAlone w p) (ran : s.run config w p (.nested loops) = .ok t) :
    ∃ frontier, t.recorder.Marked values loops.Tops frontier := by
  obtain ⟨u, looping, rfl⟩ := run_split (by simp) ran
  obtain ⟨before, after⟩ := Watch.surroundings_none loops.outerLoop.body.genuine alone.around
  rw [Watch.surroundings_after_none p.genuine alone.behind]
  have opening := (s.tellAll (w.surroundings p.outline).notices).performAll_asks
    (w.surroundings p.outline).before
  rw [(s.tellAll_keeps _).1, start] at opening
  exact runNested_marked before after shrinks (Watch.bodyActions_tells alone.direct)
    (.of_asks opening) looping

end DryRun

/-- Every mark of two loops that run alone, with passes that get shorter under a condition, is on one
position, whose value stays. Among the values from the start of the passes up to there it is the largest
one or the smallest one, by the relation of the condition. -/
theorem synthesize_marks {config : Config} {text : String} {p : Program} {a : TrackedArray}
    {loops : NestedLoops} {op : Relation} {t : Trace} {step : Nat} {indices : List Nat}
    (read : Program.ofText text = .ok p) (tracked : TrackedArray.ofProgram p = .ok a)
    (planned : LoopPlan.ofProgram p ⟨a.name, config.indexPolicy⟩ a.values.length = .nested loops)
    (shrinks : loops.innerStop = .shrinks) (guard : loops.guard = .holding op)
    (alone : loops.RunAlone ⟨a.name, config.indexPolicy⟩ p)
    (done : (synthesize config text).result = .ok t)
    (here : t.events[step]? = some (.sorted indices)) :
    ∃ k array value, indices = [k] ∧ t.stateAt step = .ok array ∧ array[k]? = some value ∧
      t.KeepsFrom step k value ∧
      (op = .gt ∨ op = .ge → ∀ (q : Nat) (x : Int64), max loops.inner.start.toInt 0 ≤ q → q ≤ k →
        array[q]? = some x → x ≤ value) ∧
      (op = .lt ∨ op = .le → ∀ (q : Nat) (x : Int64), max loops.inner.start.toInt 0 ≤ q → q ≤ k →
        array[q]? = some x → value ≤ x) := by
  simp only [synthesize, read, tracked, traceOf] at done
  split at done
  · rename_i final ran
    cases done
    rw [planned] at ran
    obtain ⟨frontier, marked⟩ := DryRun.run_marked rfl shrinks alone ran
    obtain ⟨k, array, value, rfl, state, held, tops, keeps⟩ := marked.finish here
    have highest {rank : Int → Int} (ranks : Ranks rank op.holds) (q : Nat) (x : Int64)
        (low : max loops.inner.start.toInt 0 ≤ q) (high : q ≤ k) (there : array[q]? = some x) :
        rank x.toInt ≤ rank value.toInt := by
      rcases Nat.lt_or_eq_of_le high with below | rfl
      · have above := tops rank (guard ▸ ranks) q (by omega) below
        rwa [valueAt_of_getElem? array q x there, valueAt_of_getElem? array k value held] at above
      · rw [held] at there
        cases there
        exact Int.le_refl _
    refine ⟨k, array, value, rfl, state, held, keeps, ?_, ?_⟩
    · rintro upwards q x low high there
      have ascends : Ranks id op.holds := by
        rcases upwards with rfl | rfl
        · exact Relation.ascends_gt
        · exact Relation.ascends_ge
      exact Int64.le_iff_toInt_le.mpr (highest ascends q x low high there)
    · rintro downwards q x low high there
      have descends : Ranks Neg.neg op.holds := by
        rcases downwards with rfl | rfl
        · exact Relation.ascends_gt.mirror
        · exact Relation.ascends_ge.mirror
      exact Int64.le_iff_toInt_le.mpr (Int.neg_le_neg_iff.mp (highest descends q x low high there))
  · cases done

/-- The passes start in front of the array, and the first one ends behind it. -/
def widePassesText : String :=
  "let a=[2,3,1];for(let i=-1;i<3;i++)for(let j=-1;j<a.length-1-i;j++)" ++
  "if(a[j]>a[j+1])[a[j],a[j+1]]=[a[j+1],a[j]]"

theorem synthesize_marks_wide : ∃ p loops t, Program.ofText widePassesText = .ok p ∧
    TrackedArray.ofProgram p = .ok ⟨"a", [2, 3, 1]⟩ ∧
    LoopPlan.ofProgram p ⟨"a", .placeholder⟩ 3 = .nested loops ∧
    loops.innerStop = .shrinks ∧ loops.guard = .holding .gt ∧ loops.RunAlone ⟨"a", .placeholder⟩ p ∧
    (synthesize {} widePassesText).result = .ok t ∧ t.events[7]? = some (.sorted [2]) ∧
    t.stateAt 7 = .ok [1, 2, 3] ∧ t.KeepsFrom 7 2 3 ∧
    ∀ (q : Nat) (x : Int64), q ≤ 2 → ([1, 2, 3] : List Int64)[q]? = some x → x ≤ 3 := by
  have seen : ((Program.ofText widePassesText).toOption.bind fun p =>
      (TrackedArray.ofProgram p).toOption.bind fun a => (traceOf {} p a).result.toOption.bind fun t =>
        (LoopPlan.ofProgram p ⟨"a", .placeholder⟩ 3).nested?.map fun loops =>
          let w : Watch := ⟨"a", .placeholder⟩
          (a, decide (loops.innerStop = .shrinks ∧ loops.guard = .holding .gt ∧
            loops.inner.start = -1 ∧ loops.RunAlone w p), t.events[7]?, (t.stateAt 7).toOption)) =
      some (⟨"a", [2, 3, 1]⟩, true, some (.sorted [2]), some [1, 2, 3]) := by decide +kernel
  obtain ⟨p, found, seen⟩ := Option.bind_eq_some_iff.mp seen
  obtain ⟨a, named, seen⟩ := Option.bind_eq_some_iff.mp seen
  obtain ⟨t, traced, seen⟩ := Option.bind_eq_some_iff.mp seen
  obtain ⟨loops, nested, seen⟩ := Option.map_eq_some_iff.mp seen
  simp only [Prod.mk.injEq, decide_eq_true_eq] at seen
  obtain ⟨rfl, ⟨shrinks, guard, start, alone⟩, here, array⟩ := seen
  have read := ok_of_toOption found
  have tracked := ok_of_toOption named
  have planned := LoopPlan.eq_of_nested? nested
  have done : (synthesize {} widePassesText).result = .ok t := by
    simp only [synthesize, read, tracked]
    exact ok_of_toOption traced
  have state := ok_of_toOption array
  obtain ⟨k, _, value, same, reached, held, keeps, largest, -⟩ :=
    synthesize_marks read tracked planned shrinks guard alone done here
  cases same
  cases state.symm.trans reached
  cases held
  refine ⟨p, loops, t, read, tracked, planned, shrinks, guard, alone, done,
    here, state, keeps, fun q x high there => largest (.inl rfl) q x ?_ high there⟩
  rw [start]
  exact Int.natCast_nonneg q

end SortTrace.Synthesis
