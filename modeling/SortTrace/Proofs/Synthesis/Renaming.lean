import SortTrace.Proofs.Synthesis.BareRun
import SortTrace.Proofs.Synthesis.BubbleRun
import SortTrace.Proofs.Synthesis.IndexPolicies
import SortTrace.Proofs.Synthesis.Renamed

/-!
Synthesis does not depend on names. Without comments at loops, a script under other names gives the trace
of the script, or its error with the other name of the array in it.
-/

namespace SortTrace.Synthesis

open Script

section

variable (g : String → String)

theorem firstValue_renamed (init : ForInit) :
    firstValue (init.renamed g) = Prod.map (Option.map g) id (firstValue init) := by
  cases init with
  | none => rfl
  | varDecl d =>
    obtain ⟨kind, ds, _⟩ := d
    obtain _ | ⟨⟨name, init, _⟩, ds⟩ := ds
    · rfl
    cases init <;> simp [ForInit.renamed, VarDecl.renamed, Declarator.renameds,
      Declarator.renamed, Expr.renamedOption, firstValue]
  | expr e =>
    cases e with
    | assign op target value _ => simp [ForInit.renamed, Expr.renamed, firstValue]
    | _ => rfl

theorem stopValue_renamed (e : Expr) (length : Int64) :
    stopValue (e.renamed g) length = stopValue e length := by
  simp only [stopValue, Expr.number?_renamed]
  cases e.number? with
  | some x => rfl
  | none => cases e <;> rfl

theorem testSides?_renamed (l : Loop) :
    testSides? (l.renamed g) =
      (testSides? l).map (Prod.map (Expr.renamed g) (Expr.renamed g)) := by
  simp only [testSides?, Loop.test?_renamed]
  rcases l.test? with _ | e
  · rfl
  · cases e <;> rfl

def LoopRange.renamed (range : LoopRange) : LoopRange := { range with var := range.var.map g }

theorem LoopRange.ofLoop_renamed (l : Loop) (length : Int64) :
    LoopRange.ofLoop (l.renamed g) length = (LoopRange.ofLoop l length).renamed g := by
  have sides := testSides?_renamed g l
  cases l with
  | forEach decl binding iterable values body s => rfl
  | forLoop init test update body s =>
    simp only [Loop.renamed] at sides
    simp only [Loop.renamed, ofLoop, sides, firstValue_renamed]
    obtain ⟨var, start⟩ := firstValue init
    rcases testSides? (.forLoop init test update body s) with _ | ⟨lhs, rhs⟩
    · simp [renamed]
    · cases var <;> simp [renamed, stopValue_renamed]
  | whileLoop test body s =>
    simp only [Loop.renamed] at sides
    simp only [Loop.renamed, ofLoop, sides]
    rcases testSides? (.whileLoop test body s) with _ | ⟨lhs, rhs⟩
    · rfl
    · simp [renamed, stopValue_renamed]
  | doWhile body test s =>
    simp only [Loop.renamed] at sides
    simp only [Loop.renamed, ofLoop, sides]
    rcases testSides? (.doWhile body test s) with _ | ⟨lhs, rhs⟩
    · rfl
    · simp [renamed, stopValue_renamed]

theorem firstLoop?_renamed (s : Stmt) :
    firstLoop? (s.renamed g) = (firstLoop? s).map (Loop.renamed g) := by
  simp [firstLoop?]

def NestedLoops.renamed (loops : NestedLoops) : NestedLoops :=
  { loops with
    outerLoop := loops.outerLoop.renamed g
    innerLoop := loops.innerLoop.renamed g
    outer := loops.outer.renamed g
    inner := loops.inner.renamed g }

namespace LoopPlan

def renamed : LoopPlan → LoopPlan
  | none => none
  | single l range => single (l.renamed g) (range.renamed g)
  | nested loops => nested (loops.renamed g)

def loops : LoopPlan → List Loop
  | none => []
  | single l _ => [l]
  | nested loops => [loops.outerLoop, loops.innerLoop]

end LoopPlan

end

section

variable (ρ : Renaming)

theorem innerStopOf_renamed (outer : LoopRange) (inner : Loop) :
    innerStopOf (outer.renamed ρ.apply) (inner.renamed ρ.apply) = innerStopOf outer inner := by
  simp only [innerStopOf, testSides?_renamed, LoopRange.renamed]
  rcases testSides? inner with _ | ⟨lhs, rhs⟩
  · cases outer.var <;> rfl
  · cases outer.var <;> simp [Expr.mentions_renamed ρ.apply_injective]

theorem firstLoop?_renamable {s : Stmt} {l : Loop} (renamable : s.Renamable)
    (found : firstLoop? s = some l) : l.outline.Renamable :=
  renamable.loops s.genuine l (List.mem_of_mem_head? found)

namespace LoopPlan

theorem ofProgram_renamed {p : Program} (renamable : p.outline.Renamable) (w : Watch)
    (length : Nat) : ofProgram (p.renamed ρ.apply) (w.renamed ρ) length =
      (ofProgram p w length).renamed ρ.apply := by
  have loops := renamable.loops p.genuine
  simp only [ofProgram, Program.outline_renamed, Outline.loops_renamed]
  revert loops
  rcases p.outline.loops with _ | ⟨first, rest⟩ <;> intro loops
  · rfl
  have body := Loop.renamable_body (loops first List.mem_cons_self)
  simp only [List.map_cons, Loop.body_renamed, firstLoop?_renamed]
  cases found : firstLoop? first.body with
  | none => simp [renamed, LoopRange.ofLoop_renamed]
  | some inner =>
    have inside := Loop.renamable_body (firstLoop?_renamable body found)
    simp [renamed, NestedLoops.renamed, LoopRange.ofLoop_renamed, innerStopOf_renamed,
      w.guardOf_renamed ρ (Stmt.renamable_statements inside)]

theorem ofProgram_renamable {p : Program} (renamable : p.outline.Renamable) (w : Watch)
    (length : Nat) : ∀ l ∈ (ofProgram p w length).loops, l.outline.Renamable := by
  have loops := renamable.loops p.genuine
  unfold ofProgram
  revert loops
  rcases p.outline.loops with _ | ⟨first, rest⟩ <;> intro loops
  · simp [LoopPlan.loops]
  have first' := loops first List.mem_cons_self
  dsimp only
  cases found : firstLoop? first.body with
  | none => simpa [LoopPlan.loops] using first'
  | some inner =>
    have inner' := firstLoop?_renamable (Loop.renamable_body first') found
    simp [LoopPlan.loops, first', inner']

end LoopPlan

namespace Watch

variable {w : Watch}

theorem stopAlike_renamed {stop stop' : Node → Bool} {o : Outline} (renamable : o.Renamable)
    (exprs : ∀ e : Expr, e.isRenamable = true → stop' (.expr (e.renamed ρ.apply)) = stop (.expr e))
    (others : ∀ n : Node, n.expr? = none → stop' (n.renamed ρ.apply) = stop n) :
    Outline.StopAlike ρ.apply stop stop' o :=
  renamable.mono fun n fits => by
    cases n with
    | expr e => exact exprs e (fits e rfl)
    | _ => exact others _ rfl

theorem requests_allActions_renamed {p : Program} (renamable : p.outline.Renamable) :
    requests ((w.renamed ρ).allActions (p.renamed ρ.apply)) = requests (w.allActions p) := by
  have alike : Outline.StopAlike ρ.apply w.stopsAtPatterns (w.renamed ρ).stopsAtPatterns p.outline :=
    stopAlike_renamed ρ renamable
      (fun e fits => congrArg (fun x : Pattern => !x.isOpen) (w.pattern_renamed ρ fits))
      (fun n other => by cases n <;> first | rfl | cases other)
  rw [requests_allActions, requests_allActions, Program.outline_renamed,
    Outline.nodes_renamed alike, List.flatMap_map]
  refine List.flatMap_congr fun n member => ?_
  have fits := renamable.nodes n member
  cases n with
  | expr e => exact congrArg (fun x : Pattern => requests x.actions) (w.pattern_renamed ρ (fits e rfl))
  | _ => rfl

theorem requests_bodyActions_renamed {ss : List Stmt} (renamable : ∀ s ∈ ss, s.Renamable) :
    requests ((w.renamed ρ).bodyActions (ss.map (Stmt.renamed ρ.apply))) =
      requests (w.bodyActions ss) := by
  rw [bodyActions, bodyActions, requests_flatMap, requests_flatMap, List.flatMap_map]
  refine List.flatMap_congr fun s member => ?_
  cases s with
  | expr e _ =>
    have same := w.pattern_renamed ρ (Stmt.isRenamable_expr (renamable _ member))
    simp only [Stmt.renamed, requests_append, requests_tells, same]
  | _ => rfl

theorem overwritten_renamed {ns : List Node} (renamable : ∀ n ∈ ns, n.Renamable) :
    (w.renamed ρ).overwritten (ns.map (Node.renamed ρ.apply)) = w.overwritten ns := by
  rw [overwritten, overwritten, filterMap_commutes _ _ (Node.expr?_renamed ρ.apply),
    List.flatMap_map]
  refine List.flatMap_congr fun e member => ?_
  obtain ⟨n, inside, found⟩ := List.mem_filterMap.mp member
  rw [w.pattern_renamed ρ (renamable n inside e found)]

theorem sameAround_renamed {o : Outline} (renamable : o.Renamable) :
    SameAround (fun _ => True) (w.surroundings o)
      ((w.renamed ρ).surroundings (o.renamed ρ.apply)) := by
  have alike : Outline.StopAlike ρ.apply w.stopsAtSets (w.renamed ρ).stopsAtSets o :=
    stopAlike_renamed ρ renamable
      (fun e fits => congrArg Pattern.isSet (w.pattern_renamed ρ fits))
      (fun n other => by cases n <;> first | rfl | cases other)
  obtain ⟨before, after⟩ := @Outline.Every.around _ _ renamable w.stopsAtSets
  refine ⟨⟨?_, fun _ _ => trivial⟩, ⟨?_, fun _ _ => trivial⟩⟩
  · rw [surroundings_before, surroundings_before, Outline.aroundLoop_renamed alike,
      overwritten_renamed ρ before]
  · rw [surroundings_after, surroundings_after, Outline.aroundLoop_renamed alike,
      overwritten_renamed ρ after]

end Watch

namespace DryRun

variable {s s' : DryRun} {config : Config}

theorem runSingle_renamed (g : String → String) (quiet : config.loopComments = false)
    (range : LoopRange) (body : List Action) :
    s.runSingle config (range.renamed g) body = s.runSingle config range body := by
  simp only [runSingle, announce_quiet quiet]
  rfl

theorem runNested_renamed (g : String → String) (quiet : config.loopComments = false)
    (loops : NestedLoops) (around : Surroundings) (body : List Action) :
    s.runNested config (loops.renamed g) around body = s.runNested config loops around body := by
  simp only [runNested, runPass, runInner, announce_quiet quiet]
  rfl

theorem run_renamed (quiet : config.loopComments = false) (inStep : InStep Eq s s') {w : Watch}
    {p : Program} {plan : LoopPlan} (renamable : p.outline.Renamable)
    (loops : ∀ l ∈ plan.loops, l.outline.Renamable) :
    Alike (InStep Eq) (s.run config w p plan)
      (s'.run config (w.renamed ρ) (p.renamed ρ.apply) (plan.renamed ρ.apply)) := by
  have sim : Simulation config config (fun _ => True) Eq := simulation_eq rfl rfl
  have sets := Watch.sameAround_renamed ρ (w := w) renamable
  rw [← Program.outline_renamed] at sets
  have opened := (inStep.tellAll (w.surroundings p.outline).notices
    ((w.renamed ρ).surroundings (p.renamed ρ.apply).outline).notices).performAll sim sets.before
  have bodies {l : Loop} (fits : l.outline.Renamable) : SameRequests (fun _ => True)
      (w.bodyActions l.body.statements)
      ((w.renamed ρ).bodyActions (l.renamed ρ.apply).body.statements) := by
    rw [Loop.body_renamed, Stmt.statements_renamed]
    exact ⟨Watch.requests_bodyActions_renamed ρ
      (Stmt.renamable_statements (Loop.renamable_body fits)), fun _ _ => trivial⟩
  cases plan with
  | none =>
    exact .ok (inStep.performAll sim
      ⟨Watch.requests_allActions_renamed ρ renamable, fun _ _ => trivial⟩)
  | single l range =>
    rw [LoopPlan.renamed, run, run, runSingle_renamed ρ.apply quiet]
    refine (opened.runSingle sim range (bodies (loops l (by simp [LoopPlan.loops])))).bind
      fun t t' inStep => ?_
    exact .ok (inStep.performAll sim sets.after)
  | nested nest =>
    have outside := loops nest.outerLoop (by simp [LoopPlan.loops])
    have inside := loops nest.innerLoop (by simp [LoopPlan.loops])
    have around := Watch.sameAround_renamed ρ (w := w) (Loop.renamable_body outside)
    rw [← Stmt.outline_renamed, ← Loop.body_renamed] at around
    rw [LoopPlan.renamed, run, run, runNested_renamed ρ.apply quiet]
    refine (opened.runNested sim around (bodies inside)).bind fun t t' inStep => ?_
    exact .ok (inStep.performAll sim sets.after)

end DryRun

end

section

variable (g : String → String)

def TrackedArray.renamed (a : TrackedArray) : TrackedArray := { a with name := g a.name }

def NoArray.renamed : NoArray → NoArray
  | noLiteral => noLiteral
  | empty name => empty (g name)

/-- The same error. Of names, only that of an empty array is in an error. -/
def SynthesisError.renamed : SynthesisError → SynthesisError
  | syntaxError e => syntaxError e
  | noArray why => noArray (why.renamed g)
  | stepLimit limit => stepLimit limit

namespace TrackedArray

theorem elementValue_renamed (e : Expr) : elementValue (e.renamed g) = elementValue e := by
  simp only [elementValue, Expr.number?_renamed]

theorem ofDeclarator?_renamed (d : Declarator) :
    ofDeclarator? (d.renamed g) = (ofDeclarator? d).map (renamed g) := by
  simp only [ofDeclarator?, Declarator.init_renamed, Declarator.name_renamed]
  rcases d.init with _ | e
  · rfl
  simp only [Option.map_some, Option.bind_some, Expr.items?_renamed]
  cases e.items? with
  | none => rfl
  | some items => simp [renamed, elementValue_renamed]

theorem ofProgram_renamed (p : Program) : ofProgram (p.renamed g) =
    ((ofProgram p).map (renamed g)).mapError (NoArray.renamed g) := by
  have same : ofDeclarator? ∘ Declarator.renamed g = Option.map (renamed g) ∘ ofDeclarator? :=
    funext (ofDeclarator?_renamed g)
  simp only [ofProgram, Program.declarators_renamed, List.findSome?_map, same]
  rw [← List.map_findSome?]
  cases p.declarators.findSome? ofDeclarator? with
  | none => rfl
  | some a =>
    simp only [Option.map_some, renamed]
    split <;> rfl

end TrackedArray

end

def resultOf (config : Config) (p : Program) : Except SynthesisError Trace :=
  match TrackedArray.ofProgram p with
  | .error why => .error (.noArray why)
  | .ok a => (traceOf config p a).result

section

variable {config : Config} {p : Program}

theorem synthesize_eq_resultOf {text : String} (read : Program.ofText text = .ok p) :
    (synthesize config text).result = resultOf config p := by
  simp only [synthesize, read, resultOf]
  cases TrackedArray.ofProgram p <;> rfl

theorem resultOf_bare : resultOf config p.bare = resultOf config p := by
  simp only [resultOf, TrackedArray.ofProgram_bare, traceOf_bare]

variable (ρ : Renaming)

theorem dryRun_renamed (quiet : config.loopComments = false) (renamable : p.outline.Renamable)
    (a : TrackedArray) : Alike (DryRun.InStep Eq) (dryRun config p a)
      (dryRun config (p.renamed ρ.apply) (a.renamed ρ.apply)) := by
  let w : Watch := ⟨a.name, config.indexPolicy⟩
  have plans := LoopPlan.ofProgram_renamed ρ renamable w a.values.length
  have fits := LoopPlan.ofProgram_renamable renamable w a.values.length
  have watch : w.renamed ρ = ⟨ρ.apply a.name, config.indexPolicy⟩ := rfl
  rw [watch] at plans
  simp only [dryRun, TrackedArray.renamed, plans]
  refine @DryRun.run_renamed ρ _ _ _ quiet ?_ w _ _ renamable fits
  exact ⟨rfl, rfl⟩

theorem traceOf_result (a : TrackedArray) : (traceOf config p a).result =
    ((dryRun config p a).map fun s => s.recorder.finish).mapError
      fun _ => .stepLimit config.maxSteps := by
  simp only [traceOf, dryRun]
  split <;> rename_i ran <;> rw [ran] <;> rfl

theorem traceOf_renamed (quiet : config.loopComments = false) (renamable : p.outline.Renamable)
    (a : TrackedArray) : (traceOf config (p.renamed ρ.apply) (a.renamed ρ.apply)).result =
      (traceOf config p a).result.mapError (SynthesisError.renamed ρ.apply) := by
  have alike := dryRun_renamed ρ quiet renamable a
  rw [traceOf_result, traceOf_result]
  generalize dryRun config p a = ran at alike
  generalize dryRun config (p.renamed ρ.apply) (a.renamed ρ.apply) = ran' at alike
  cases alike with
  | ok inStep =>
    simp only [Except.map, inStep.recorder]
    rfl
  | error => rfl

theorem resultOf_renamed (quiet : config.loopComments = false)
    (all : ∀ e ∈ p.exprs, e.isRenamable = true) : resultOf config (p.renamed ρ.apply) =
      (resultOf config p).mapError (SynthesisError.renamed ρ.apply) := by
  simp only [resultOf, TrackedArray.ofProgram_renamed]
  cases TrackedArray.ofProgram p with
  | error why => rfl
  | ok a => exact traceOf_renamed ρ quiet (Program.renamable_of_exprs all) a

/-- The result for a script under other names, as it is and as it is read from any text, is that of
the script under its own, but for the name of an empty array. Comments at loops, which tell names,
are not recorded. -/
theorem synthesize_renamed (quiet : config.loopComments = false) {text : String}
    (read : Program.ofText text = .ok p) (regular : ∀ e ∈ p.exprs, e.isIrregular = false) :
    resultOf config (p.renamed ρ.apply) =
        (synthesize config text).result.mapError (SynthesisError.renamed ρ.apply) ∧
      ∀ text' q, Program.ofText text' = .ok q → q.bare = p.bare.renamed ρ.apply →
        (synthesize config text').result =
          (synthesize config text).result.mapError (SynthesisError.renamed ρ.apply) := by
  have all := Program.isRenamable_of_ofText read regular
  rw [synthesize_eq_resultOf read]
  refine ⟨resultOf_renamed ρ quiet all, fun text' q read' same => ?_⟩
  have bare : ∀ e ∈ p.bare.exprs, e.isRenamable = true := by
    rw [p.exprs_bare]
    intro _ member
    obtain ⟨e, inside, rfl⟩ := List.mem_map.mp member
    rw [isRenamable_bare, all e inside]
  rw [synthesize_eq_resultOf read', ← resultOf_bare, same, resultOf_renamed ρ quiet bare,
    resultOf_bare]

/-- The array has the name of the outer loop's variable, and the variable that of the array. -/
def threeValuesExchanged : BubbleScript :=
  { threeValues with array := threeValues.outer, outer := threeValues.array }

theorem synthesize_renamed_exchange : ∃ p, Program.ofText threeValues.text = .ok p ∧
    (∀ e ∈ p.exprs, e.isIrregular = false) ∧
    (synthesize {} threeValuesExchanged.text).result =
      (synthesize {} threeValues.text).result.mapError (SynthesisError.renamed
        (Renaming.exchange threeValues.array threeValues.outer).apply) := by
  obtain ⟨p, read, bare⟩ := Program.ofText_spelled threeValues.spells_text.spelling_eq
    threeValues.guarded.reads_tree threeValues.guarded.noArrow_text
  obtain ⟨q, read', bare'⟩ := Program.ofText_spelled threeValuesExchanged.spells_text.spelling_eq
    threeValuesExchanged.guarded.reads_tree threeValuesExchanged.guarded.noArrow_text
  have regular : ∀ e ∈ p.exprs, e.isIrregular = false := by
    have visited : ∀ e ∈ p.bare.exprs, e.isIrregular = false := by
      rw [bare]
      decide +kernel
    intro e member
    rw [← e.isIrregular_bare]
    exact visited e.bare (by rw [p.exprs_bare]; exact List.mem_map_of_mem member)
  have same : q.bare =
      p.bare.renamed (Renaming.exchange threeValues.array threeValues.outer).apply := by
    rw [bare, bare']
    rfl
  exact ⟨p, read, regular, (synthesize_renamed _ rfl read regular).2 _ q read' same⟩

end

end SortTrace.Synthesis
