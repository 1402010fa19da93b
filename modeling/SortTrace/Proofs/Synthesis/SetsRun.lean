import SortTrace.Proofs.Synthesis.Iteration
import SortTrace.Proofs.Synthesis.SetsAround
import SortTrace.Proofs.Trace.Requests
import SortTrace.Synthesis.Synthesize

/-!
The run of a script with loops: the sets before the first loop, the run of the loops, the sets after
it; and in each pass of two loops the sets before the inner one, what the inner one adds, the sets after
it.
-/

namespace SortTrace.Synthesis

open Script

namespace DryRun

variable {s t : DryRun}

theorem perform_asks (s : DryRun) (a : Action) :
    s.recorder.Asks (fun q => q.kind ≠ .sorted) (s.perform a).recorder := by
  have same (indices : List Nat) := s.tellOutside_recorder indices
  cases a with
  | tell n => exact .refl _
  | compare i j =>
    rw [← same [i, j]]
    exact .request (q := .compare i j) (by simp [Request.kind]) _
  | swap i j =>
    rw [← same [i, j]]
    exact .request (q := .swap i j) (by simp [Request.kind]) _
  | set i value =>
    rw [← same [i]]
    exact .request (q := .set i value) (by simp [Request.kind]) _

theorem performAll_asks (s : DryRun) (actions : List Action) :
    s.recorder.Asks (fun q => q.kind ≠ .sorted) (s.performAll actions).recorder := by
  induction actions generalizing s with
  | nil => exact .refl _
  | cons a rest ih => exact (s.perform_asks a).trans (ih (s.perform a))

theorem performAll_reaches (s : DryRun) (actions : List Action) :
    s.recorder.Reaches (s.performAll actions).recorder :=
  (s.performAll_asks actions).reaches

theorem markSorted_reaches (s : DryRun) (i : Nat) :
    s.recorder.Reaches (s.markSorted i).recorder := by
  rw [(s.markSorted_keeps i).1]
  exact .request _ (.sorted [i])

theorem finishPass_reaches (s : DryRun) (loops : NestedLoops) (stop : Int64) :
    s.recorder.Reaches (s.finishPass loops stop).recorder := by
  unfold finishPass
  split
  · exact s.markSorted_reaches _
  · exact .refl _

theorem visitPair_reaches (s : DryRun) (guard : Guard) (j : Int64) :
    s.recorder.Reaches (s.visitPair guard j).recorder := by
  unfold visitPair
  split
  · exact .refl _
  · dsimp only
    rw [← s.tellOutside_recorder [j.toInt.toNat, j.toInt.toNat + 1]]
    exact Recorder.reaches_exchangeIf ..

theorem announce_reaches (s : DryRun) (config : Config) (label : String) (range : LoopRange) :
    s.recorder.Reaches (s.announce config label range).recorder := by
  unfold announce
  split
  · exact .request _ (.comment _)
  · exact .refl _

theorem countStep_recorder {limit : Nat} (counted : s.countStep limit = .ok t) :
    t.recorder = s.recorder := by
  unfold countStep at counted
  dsimp only at counted
  split at counted
  · cases counted
  · cases counted
    rfl

theorem iterate_reaches {body : Int64 → DryRun → Except DryRun DryRun} {count : Nat} {i : Int64}
    (step : ∀ i s t, body i s = .ok t → s.recorder.Reaches t.recorder)
    (ran : iterate body count i s = .ok t) : s.recorder.Reaches t.recorder := by
  induction count generalizing i s with
  | zero =>
    cases ran
    exact .refl _
  | succ count ih =>
    rw [iterate] at ran
    split at ran
    · rename_i u once
      exact (step i s u once).trans (ih ran)
    · cases ran

theorem runSingle_reaches {config : Config} {range : LoopRange} {body : List Action}
    (ran : s.runSingle config range body = .ok t) : s.recorder.Reaches t.recorder := by
  refine (s.announce_reaches config "single" range).trans (iterate_reaches ?_ ran)
  intro i u v once
  obtain ⟨counted, room, rest⟩ := ok_of_bind once
  cases rest
  rw [← countStep_recorder room]
  exact (counted.tell (.singleIteration i)).performAll_reaches body

theorem runInner_reaches {config : Config} {loops : NestedLoops} {body : List Action}
    {i stop : Int64} (ran : s.runInner config loops body i stop = .ok t) :
    s.recorder.Reaches t.recorder := by
  refine (s.announce_reaches config "inner" { loops.inner with stop := stop }).trans
    (iterate_reaches ?_ ran)
  intro j u v once
  obtain ⟨counted, room, rest⟩ := ok_of_bind once
  cases rest
  rw [← countStep_recorder room]
  let told := counted.tell (.nestedIteration i j)
  exact (told.visitPair_reaches loops.guard j).trans
    ((told.visitPair loops.guard j).performAll_reaches body)

theorem performAll_sets (s : DryRun) (sets : List (Nat × Int64)) :
    (s.performAll (sets.map Watch.setAction)).recorder = s.recorder.setAll sets := by
  induction sets generalizing s with
  | nil => rfl
  | cons x rest ih =>
    have step : (s.perform (Watch.setAction x)).recorder = (s.recorder.set x.1 x.2).1 := by
      simp [Watch.setAction, perform]
    have further := ih (s.perform (Watch.setAction x))
    rw [step] at further
    exact further

theorem performAll_overwrites (s : DryRun) (sets : List (Nat × Int64)) :
    ∃ added, s.recorder.Overwrites sets added
      (s.performAll (sets.map Watch.setAction)).recorder := by
  rw [s.performAll_sets]
  exact ⟨_, s.recorder.overwrites_setAll sets⟩

section

variable (config : Config) (loops : NestedLoops) (body : List Action)

/-- What the inner loop adds in one pass: nothing if its end does not resolve. -/
inductive InnerPass (i : Int64) (s : DryRun) : List Event → DryRun → Prop
  | resolved {stop : Int64} {t : DryRun} {added : List Event} :
      loops.innerStop.value? (Int64.ofNat s.recorder.size) i = some stop →
      s.runInner config loops body i stop = .ok t →
      (t.finishPass loops stop).recorder.events = s.recorder.events ++ added →
      InnerPass i s added (t.finishPass loops stop)
  | unresolved : loops.innerStop.value? (Int64.ofNat s.recorder.size) i = none →
      InnerPass i s [] (s.tell (.skippedInnerLoop i))

/-- Passes for consecutive values from `i` on, with what they add. Every pass performs the sets before
the inner loop once, then what the inner loop asks for, then the sets after it once. -/
inductive Passes (before after : List (Nat × Int64)) :
    Int64 → Nat → DryRun → List Event → DryRun → Prop
  | done {i : Int64} {s : DryRun} : Passes before after i 0 s [] s
  | pass {i : Int64} {count : Nat} {s u v t t' : DryRun} {opening inner closing rest : List Event} :
      s.recorder.Overwrites before opening u.recorder → InnerPass config loops body i u inner v →
      v.recorder.Overwrites after closing t.recorder →
      Passes before after (i + 1) count t rest t' →
      Passes before after i (count + 1) s (opening ++ (inner ++ (closing ++ rest))) t'

variable {config loops body}

theorem InnerPass.grown {i : Int64} {added : List Event}
    (pass : InnerPass config loops body i s added t) :
    t.recorder.events = s.recorder.events ++ added ∧ t.recorder.size = s.recorder.size := by
  cases pass with
  | @resolved stop u _ _ ran events_eq =>
    obtain ⟨_, -, size_eq⟩ := ((runInner_reaches ran).trans (u.finishPass_reaches loops stop)).grown
    exact ⟨events_eq, size_eq⟩
  | unresolved => exact ⟨(List.append_nil _).symm, rfl⟩

theorem Passes.grown {before after : List (Nat × Int64)} {i : Int64} {count : Nat}
    {added : List Event} (passes : Passes config loops body before after i count s added t) :
    t.recorder.events = s.recorder.events ++ added ∧ t.recorder.size = s.recorder.size := by
  induction passes with
  | done => exact ⟨(List.append_nil _).symm, rfl⟩
  | pass opening inner closing _ ih =>
    obtain ⟨innerEvents, innerSize⟩ := inner.grown
    constructor
    · rw [ih.1, closing.events_eq, innerEvents, opening.events_eq]
      simp only [List.append_assoc]
    · rw [ih.2, closing.size_eq, innerSize, opening.size_eq]

theorem innerPass_of_run {around : Surroundings} {before after : List (Nat × Int64)} {i : Int64}
    (fromBefore : around.before = before.map Watch.setAction)
    (fromAfter : around.after = after.map Watch.setAction)
    (ran : s.runPass config loops around body i = .ok t) :
    ∃ u v opening inner closing, s.recorder.Overwrites before opening u.recorder ∧
      InnerPass config loops body i u inner v ∧ v.recorder.Overwrites after closing t.recorder := by
  obtain ⟨counted, room, ran⟩ := ok_of_bind ran
  obtain ⟨opening, first⟩ := counted.performAll_overwrites before
  rw [countStep_recorder room] at first
  rw [fromBefore, fromAfter] at ran
  dsimp only at ran
  cases resolved : loops.innerStop.value? (Int64.ofNat
      (counted.performAll (before.map Watch.setAction)).recorder.size) i with
  | none =>
    rw [resolved] at ran
    cases ran
    obtain ⟨closing, last⟩ := ((counted.performAll (before.map Watch.setAction)).tell
      (.skippedInnerLoop i)).performAll_overwrites after
    exact ⟨_, _, opening, [], closing, first, .unresolved resolved, last⟩
  | some stop =>
    rw [resolved] at ran
    obtain ⟨v, inner, ran⟩ := ok_of_bind ran
    cases ran
    obtain ⟨added, grown, -⟩ := ((runInner_reaches inner).trans (v.finishPass_reaches loops stop)).grown
    obtain ⟨closing, last⟩ := (v.finishPass loops stop).performAll_overwrites after
    exact ⟨_, _, opening, added, closing, first, .resolved resolved inner grown, last⟩

theorem passes_of_iterate {around : Surroundings} {before after : List (Nat × Int64)} {i : Int64}
    {count : Nat} (fromBefore : around.before = before.map Watch.setAction)
    (fromAfter : around.after = after.map Watch.setAction)
    (ran : iterate (fun i s => s.runPass config loops around body i) count i s = .ok t) :
    ∃ added, Passes config loops body before after i count s added t := by
  induction count generalizing i s with
  | zero =>
    cases ran
    exact ⟨[], .done⟩
  | succ count ih =>
    rw [iterate] at ran
    split at ran
    · rename_i next once
      obtain ⟨u, v, opening, inner, closing, first, second, third⟩ :=
        innerPass_of_run fromBefore fromAfter once
      obtain ⟨rest, further⟩ := ih ran
      exact ⟨_, .pass first second third further⟩
    · cases ran

end

def runLoops (s : DryRun) (config : Config) (w : Watch) : LoopPlan → Except DryRun DryRun
  | .none => .ok s
  | .single l range => s.runSingle config range (w.bodyActions l.body.statements)
  | .nested loops => s.runNested config loops (w.surroundings loops.outerLoop.body.outline)
      (w.bodyActions loops.innerLoop.body.statements)

inductive NestedReplay (config : Config) (w : Watch) (loops : NestedLoops) (s : DryRun) :
    List Event → DryRun → Prop
  | mk {u t : DryRun} {said passes : List Event} : (∀ e ∈ said, e.kind = .comment) →
      u.recorder.events = s.recorder.events ++ said →
      Passes config loops (w.bodyActions loops.innerLoop.body.statements)
        (w.setsBefore loops.innerLoop.span loops.outerLoop.body.outline)
        (w.setsAfter loops.innerLoop.span loops.outerLoop.body.outline)
        loops.outer.start (rangeCount loops.outer.start loops.outer.stop) u passes t →
      NestedReplay config w loops s (said ++ passes) t

variable {config : Config} {w : Watch} {p : Program} {plan : LoopPlan} {loops : NestedLoops}

theorem announce_said (s : DryRun) (config : Config) (label : String) (range : LoopRange) :
    ∃ said, (∀ e ∈ said, e.kind = .comment) ∧
      (s.announce config label range).recorder.events = s.recorder.events ++ said ∧
      (s.announce config label range).recorder.size = s.recorder.size := by
  unfold announce
  split
  · exact ⟨[_], List.forall_mem_singleton.mpr rfl, Array.toList_push, rfl⟩
  · exact ⟨[], by simp, (List.append_nil _).symm, rfl⟩

theorem nestedReplay_of_run (parts : loops.outerLoop.body.outline.Parts)
    (first : firstLoop? loops.outerLoop.body = some loops.innerLoop)
    (ran : s.runLoops config w (.nested loops) = .ok t) :
    ∃ replay, t.recorder.events = s.recorder.events ++ replay ∧
      t.recorder.size = s.recorder.size ∧ NestedReplay config w loops s replay t := by
  obtain ⟨-, before, after⟩ := @Watch.surroundings_split w _ _ loops.outerLoop.body.genuine parts first
  obtain ⟨said, comments, announced, size⟩ := (s.tellAll (w.surroundings
    loops.outerLoop.body.outline).notices).announce_said config "outer" loops.outer
  obtain ⟨passes, ran⟩ := passes_of_iterate before after ran
  obtain ⟨kept, -⟩ := s.tellAll_keeps (w.surroundings loops.outerLoop.body.outline).notices
  rw [kept] at announced size
  obtain ⟨events, sizes⟩ := ran.grown
  refine ⟨said ++ passes, ?_, sizes.trans size, .mk comments announced ran⟩
  rw [events, announced, List.append_assoc]

theorem runLoops_replay
    (nested : ∀ loops, plan = .nested loops → loops.outerLoop.body.outline.Parts ∧
      firstLoop? loops.outerLoop.body = some loops.innerLoop)
    (ran : s.runLoops config w plan = .ok t) :
    ∃ replay, t.recorder.events = s.recorder.events ++ replay ∧
      t.recorder.size = s.recorder.size ∧
      ∀ loops, plan = .nested loops → NestedReplay config w loops s replay t := by
  cases plan with
  | none =>
    cases ran
    exact ⟨[], (List.append_nil _).symm, rfl, fun loops same => by cases same⟩
  | single l range =>
    obtain ⟨added, events, size⟩ := (runSingle_reaches ran).grown
    exact ⟨added, events, size, fun loops same => by cases same⟩
  | nested loops =>
    obtain ⟨parts, first⟩ := nested loops rfl
    obtain ⟨replay, events, size, passes⟩ := nestedReplay_of_run parts first ran
    refine ⟨replay, events, size, fun others same => ?_⟩
    cases same
    exact passes

theorem run_split (looped : plan ≠ .none) (ran : s.run config w p plan = .ok t) :
    let sets := w.surroundings p.outline
    ∃ u, ((s.tellAll sets.notices).performAll sets.before).runLoops config w plan = .ok u ∧
      t = u.performAll sets.after := by
  intro sets
  cases plan with
  | none => exact absurd rfl looped
  | single l range =>
    obtain ⟨u, loops, rest⟩ := ok_of_bind ran
    cases rest
    exact ⟨u, loops, rfl⟩
  | nested loops =>
    obtain ⟨u, passes, rest⟩ := ok_of_bind ran
    cases rest
    exact ⟨u, passes, rfl⟩

theorem run_overwrites {before after : List (Nat × Int64)} (looped : plan ≠ .none)
    (fromBefore : (w.surroundings p.outline).before = before.map Watch.setAction)
    (fromAfter : (w.surroundings p.outline).after = after.map Watch.setAction)
    (nested : ∀ loops, plan = .nested loops → loops.outerLoop.body.outline.Parts ∧
      firstLoop? loops.outerLoop.body = some loops.innerLoop)
    (ran : s.run config w p plan = .ok t) :
    ∃ u v opening replay closing, s.recorder.Overwrites before opening u.recorder ∧
      u.runLoops config w plan = .ok v ∧ v.recorder.events = u.recorder.events ++ replay ∧
      v.recorder.size = s.recorder.size ∧ v.recorder.Overwrites after closing t.recorder ∧
      t.recorder.events = s.recorder.events ++ (opening ++ (replay ++ closing)) ∧
      ∀ loops, plan = .nested loops → NestedReplay config w loops u replay v := by
  obtain ⟨v, looping, rfl⟩ := run_split looped ran
  rw [fromBefore] at looping
  rw [fromAfter]
  obtain ⟨replay, grown, size, passes⟩ := runLoops_replay nested looping
  obtain ⟨opening, first⟩ :=
    (s.tellAll (w.surroundings p.outline).notices).performAll_overwrites before
  obtain ⟨closing, last⟩ := v.performAll_overwrites after
  rw [(s.tellAll_keeps _).1] at first
  refine ⟨_, v, opening, replay, closing, first, looping, grown, size.trans first.size_eq, last, ?_,
    passes⟩
  rw [last.events_eq, grown, first.events_eq]
  simp only [List.append_assoc]

end DryRun

theorem LoopPlan.ofProgram_looped {p : Program} {w : Watch} {length : Nat} {l : Loop}
    {others : List Loop} (looped : p.outline.loops = l :: others) :
    LoopPlan.ofProgram p w length ≠ .none ∧
      ∀ loops, LoopPlan.ofProgram p w length = .nested loops →
        loops.outerLoop = l ∧ firstLoop? l.body = some loops.innerLoop := by
  simp only [ofProgram, looped]
  cases inner : firstLoop? l.body with
  | none => exact ⟨fun same => (by cases same), fun loops same => by cases same⟩
  | some inside =>
    refine ⟨fun same => (by cases same), fun loops same => ?_⟩
    cases same
    exact ⟨rfl, rfl⟩

/-- The trace of a script with a loop: one event for each set in range before the first loop, what the
run of the loops adds, one event for each set in range after it. -/
theorem synthesize_sets {config : Config} {text : String} {p : Program} {a : TrackedArray}
    {l : Loop} {others : List Loop} {t : Trace} (read : Program.ofText text = .ok p)
    (tracked : TrackedArray.ofProgram p = .ok a) (looped : p.outline.loops = l :: others)
    (done : (synthesize config text).result = .ok t) :
    let w : Watch := ⟨a.name, config.indexPolicy⟩
    let plan := LoopPlan.ofProgram p w a.values.length
    w.SetsSplit p.outline l ∧
      (p.outline.nodes Node.isFunc).Pairwise (fun m n => m.span.start ≤ n.span.start) ∧
      ∃ (s s' : DryRun) (r : Recorder) (opening replay closing : List Event),
        (Recorder.start a.values).Overwrites (w.setsBefore l.span p.outline) opening s.recorder ∧
        s.runLoops config w plan = .ok s' ∧
        s'.recorder.events = s.recorder.events ++ replay ∧
        s'.recorder.size = a.values.length ∧
        s'.recorder.Overwrites (w.setsAfter l.span p.outline) closing r ∧
        t.events = .init a.values :: (opening ++ (replay ++ (closing ++ [.complete]))) ∧
        ∀ loops, plan = .nested loops → loops.outerLoop = l ∧
          firstLoop? l.body = some loops.innerLoop ∧
          w.SetsSplit l.body.outline loops.innerLoop ∧
          DryRun.NestedReplay config w loops s replay s' := by
  intro w plan
  obtain ⟨parts, below⟩ := Program.ofText_parts read
  obtain ⟨split, before, after⟩ := @Watch.surroundings_split w _ l p.genuine parts
    (by rw [looped, List.head?_cons])
  obtain ⟨planned, nested⟩ : plan ≠ .none ∧ ∀ loops, plan = .nested loops →
      loops.outerLoop = l ∧ firstLoop? l.body = some loops.innerLoop :=
    LoopPlan.ofProgram_looped looped
  have inside : l.body.outline.Parts := below l (by simp [looped])
  simp only [synthesize, read, tracked, traceOf] at done
  split at done
  · rename_i final ran
    cases done
    obtain ⟨s, s', opening, replay, closing, first, looping, grown, size, last, events, passes⟩ :=
      DryRun.run_overwrites planned before after (fun loops same => by
        obtain ⟨rfl, inner⟩ := nested loops same
        exact ⟨inside, inner⟩) ran
    refine ⟨split, Program.ofText_forward read _, s, s', _, opening, replay, closing, first, looping,
      grown, size, last, ?_, fun loops same => ?_⟩
    · have started : (Recorder.start a.values).events = [.init a.values] := rfl
      simp only [Recorder.finish, events, started, List.append_assoc, List.cons_append,
        List.nil_append]
    · obtain ⟨rfl, inner⟩ := nested loops same
      exact ⟨rfl, inner, (Watch.surroundings_split (Stmt.genuine _) inside inner).1,
        passes loops same⟩
  · cases done

def setsText : String :=
  "let a=[2,1];a[0]=3;for(;;)\x7ba[1]=4;for(;;);a[0]=5\x7da[7]=9;a[1]=6"

theorem synthesize_sets_nested : ∃ p a l others t,
    Program.ofText setsText = .ok p ∧ TrackedArray.ofProgram p = .ok a ∧
    p.outline.loops = l :: others ∧ (synthesize {} setsText).result = .ok t ∧
    ∃ opening replay closing,
      t.events = .init [2, 1] :: (opening ++ (replay ++ (closing ++ [.complete]))) ∧
      opening.map Event.set? = [some (0, 3)] ∧ closing.map Event.set? = [some (1, 6)] := by
  have seen : ((Program.ofText setsText).toOption.bind fun p =>
      (TrackedArray.ofProgram p).toOption.bind fun a =>
        (traceOf {} p a).result.toOption.bind fun _ => p.outline.loops.head?.map fun l =>
          let w : Watch := ⟨a.name, ({} : Config).indexPolicy⟩
          (a.values, w.setsBefore l.span p.outline, w.setsAfter l.span p.outline)) =
      some ([2, 1], [(0, 3)], [(7, 9), (1, 6)]) := by decide +kernel
  obtain ⟨p, found, seen⟩ := Option.bind_eq_some_iff.mp seen
  obtain ⟨a, named, seen⟩ := Option.bind_eq_some_iff.mp seen
  obtain ⟨t, traced, seen⟩ := Option.bind_eq_some_iff.mp seen
  obtain ⟨l, first, seen⟩ := Option.map_eq_some_iff.mp seen
  obtain ⟨others, looped⟩ := List.head?_eq_some_iff.mp first
  have read := ok_of_toOption found
  have tracked := ok_of_toOption named
  have done : (synthesize {} setsText).result = .ok t := by
    simp only [synthesize, read, tracked]
    exact ok_of_toOption traced
  simp only [Prod.mk.injEq] at seen
  obtain ⟨values, before, after⟩ := seen
  obtain ⟨-, -, s, s', r, opening, replay, closing, first, -, -, size, last, events, -⟩ :=
    synthesize_sets read tracked looped done
  have opened := first.inRange
  have closed := last.inRange
  rw [size] at closed
  rw [values] at events opened closed
  refine ⟨p, a, l, others, t, read, tracked, looped, done, opening, replay, closing, events, ?_, ?_⟩
  · rw [opened, before]
    rfl
  · rw [closed, after]
    rfl

end SortTrace.Synthesis
