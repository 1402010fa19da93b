import SortTrace.Proofs.Synthesis.IdleLoop
import SortTrace.Proofs.Synthesis.PatternCases
import SortTrace.Proofs.Synthesis.PolicyPatterns
import SortTrace.Proofs.Trace.Omission

/-!
Traces under the two index policies. With a loop they are the same. Without one, if comparisons hold
nothing that changes or compares elements, the strict trace is the other one less some comparisons.
-/

namespace SortTrace

namespace Script.Outline

theorem nodes_stopped {stop : Node → Bool} {n : Node} (below : List Outline) (halted : stop n = true) :
    (Outline.mk n below).nodes stop = [n] := by
  rw [nodes, walk, if_pos halted]
  rfl

theorem nodes_going {stop : Node → Bool} {n : Node} (below : List Outline) (going : stop n = false) :
    (Outline.mk n below).nodes stop = n :: (walkAll stop below).map node := by
  rw [nodes, walk, going]
  rfl

end Script.Outline

namespace Synthesis

open Script Script.Outline

namespace Watch

def asks (w : Watch) : Node → List Request
  | .expr e => requests (w.pattern e).actions
  | _ => []

theorem requests_allActions (w : Watch) (p : Program) :
    requests (w.allActions p) = (p.outline.nodes w.stopsAtPatterns).flatMap w.asks := by
  have stop : w.allActions p =
      ((p.outline.nodes w.stopsAtPatterns).filterMap Node.expr?).flatMap fun e =>
        (w.notices e).map .tell ++ (w.pattern e).actions := rfl
  rw [stop, requests_flatMap]
  generalize p.outline.nodes w.stopsAtPatterns = nodes
  induction nodes with
  | nil => rfl
  | cons n rest ih =>
    cases n with
    | expr e =>
      have here : (Node.expr e :: rest).filterMap Node.expr? = e :: rest.filterMap Node.expr? := rfl
      rw [here, List.flatMap_cons, List.flatMap_cons, ih, requests_append, requests_tells]
      rfl
    | _ => exact ih

def Idle (w : Watch) (n : Node) : Prop :=
  ∀ e ∈ n.expr?, w.comparesElements e = false ∧ (w.pattern e).changes = []

instance (w : Watch) (n : Node) : Decidable (w.Idle n) :=
  inferInstanceAs (Decidable (∀ e ∈ n.expr?, w.comparesElements e = false ∧ (w.pattern e).changes = []))

/-- The node is no comparison, or nothing in its operands, outside functions, compares or changes
elements. -/
def QuietAt (w : Watch) (n : Node) : Prop :=
  ∀ e ∈ n.expr?, w.comparesElements e = true →
    ∀ o ∈ walkAll Node.isFunc e.outline.children, w.Idle o.node

instance (w : Watch) (n : Node) : Decidable (w.QuietAt n) :=
  inferInstanceAs (Decidable (∀ e ∈ n.expr?, w.comparesElements e = true →
    ∀ o ∈ walkAll Node.isFunc e.outline.children, w.Idle o.node))

variable {name : String}

theorem actions_eq_changes {w : Watch} {e : Expr} (other : w.comparesElements e = false) :
    (w.pattern e).actions = (w.pattern e).changes := by
  cases found : w.pattern e with
  | comparison r i j =>
    rw [comparesElements_of_comparison found] at other
    cases other
  | _ => rfl

theorem Idle.asks {n : Node} (idle : (placed name).Idle n) : (strict name).asks n = [] := by
  cases n with
  | expr e =>
    obtain ⟨other, quiet⟩ := idle e rfl
    have strictly : (strict name).comparesElements e = false := other
    rw [Watch.asks, actions_eq_changes strictly, changes_policy, quiet]
    rfl
  | _ => rfl

theorem asks_operands {e : Expr} (quiet : (placed name).QuietAt (.expr e))
    (compares : (placed name).comparesElements e = true) :
    ((walkAll (strict name).stopsAtPatterns e.outline.children).map node).flatMap (strict name).asks =
      [] := by
  refine List.flatMap_eq_nil_iff.mpr fun n member => ?_
  obtain ⟨x, inside, rfl⟩ := List.mem_map.mp member
  have reached := (walkAll_sublist (earlier_stopsAt _) e.outline.children).subset inside
  exact (quiet e rfl compares x reached).asks

mutual

theorem walk_policies : ∀ o : Outline, o.Genuine →
    (∀ x ∈ o.walk Node.isFunc, (placed name).QuietAt x.node) →
    LeftOut (fun q : Request => q.kind = .compare)
      ((o.nodes (strict name).stopsAtPatterns).flatMap (strict name).asks)
      ((o.nodes (placed name).stopsAtPatterns).flatMap (placed name).asks)
  | .mk n below, genuine, quiet => by
    have visited (other : n.isFunc = false) : (placed name).QuietAt n ∧
        ∀ x ∈ walkAll Node.isFunc below, (placed name).QuietAt x.node := by
      rw [walk, other] at quiet
      exact List.forall_mem_cons.mp quiet
    cases n with
    | func f =>
      rw [nodes_stopped below rfl, nodes_stopped below rfl]
      exact .nil
    | expr e =>
      obtain ⟨here, further⟩ := visited rfl
      rcases pattern_policy name e with same | ⟨compares, known, unknown⟩
      · have asked : (strict name).asks (.expr e) = (placed name).asks (.expr e) := by
          rw [asks, asks, same]
        have halts : (strict name).stopsAtPatterns (.expr e) =
            (placed name).stopsAtPatterns (.expr e) :=
          congrArg (fun x : Pattern => !x.isOpen) same
        cases halted : (placed name).stopsAtPatterns (.expr e) with
        | true =>
          rw [nodes_stopped below halted, nodes_stopped below (halts.trans halted)]
          simp only [List.flatMap_cons, asked, List.flatMap_nil]
          exact .refl _
        | false =>
          rw [nodes_going below halted, nodes_going below (halts.trans halted)]
          simp only [List.flatMap_cons, asked]
          exact .append (.refl _) (walkAll_policies below genuine.children further)
      · -- Only the strict walk goes on here, and it finds nothing.
        have halted : (placed name).stopsAtPatterns (.expr e) = true :=
          congrArg (fun x : Pattern => !x.isOpen) known
        have going : (strict name).stopsAtPatterns (.expr e) = false :=
          congrArg (fun x : Pattern => !x.isOpen) unknown
        have shape : below = e.outline.children := by
          rw [show e.outline = .mk (.expr e) below from genuine]
          rfl
        have unasked : (strict name).asks (.expr e) = [] := by
          rw [asks, unknown]
          rfl
        rw [nodes_stopped below halted, nodes_going below going, List.flatMap_cons, unasked, shape,
          asks_operands here compares]
        refine .all fun q member => ?_
        simp [asks, known, requests, Pattern.actions, Action.request?] at member
        rw [member]
        rfl
    | _ =>
      rw [nodes_going below rfl, nodes_going below rfl]
      exact walkAll_policies below genuine.children (visited rfl).2

theorem walkAll_policies : ∀ os : List Outline, (∀ o ∈ os, o.Genuine) →
    (∀ x ∈ walkAll Node.isFunc os, (placed name).QuietAt x.node) →
    LeftOut (fun q : Request => q.kind = .compare)
      (((walkAll (strict name).stopsAtPatterns os).map node).flatMap (strict name).asks)
      (((walkAll (placed name).stopsAtPatterns os).map node).flatMap (placed name).asks)
  | [], _, _ => .nil
  | o :: rest, genuine, quiet => by
    rw [walkAll, List.forall_mem_append] at quiet
    have first := walk_policies o (genuine o (List.mem_cons_self ..)) quiet.1
    have others := walkAll_policies rest (fun x member => genuine x (List.mem_cons_of_mem o member))
      quiet.2
    rw [walkAll, walkAll, List.map_append, List.map_append, List.flatMap_append, List.flatMap_append]
    exact first.append others

end

/-- Nothing in the operands of a comparison, functions aside, compares or changes elements. -/
def QuietComparisons (w : Watch) (p : Program) : Prop :=
  ∀ n ∈ p.outline.nodes Node.isFunc, w.QuietAt n

instance (w : Watch) (p : Program) : Decidable (w.QuietComparisons p) :=
  inferInstanceAs (Decidable (∀ n ∈ p.outline.nodes Node.isFunc, w.QuietAt n))

theorem requests_policies {p : Program} (quiet : (placed name).QuietComparisons p) :
    LeftOut (fun q : Request => q.kind = .compare) (requests ((strict name).allActions p))
      (requests ((placed name).allActions p)) := by
  rw [requests_allActions, requests_allActions]
  exact walk_policies p.outline p.genuine fun x member => quiet x.node (List.mem_map_of_mem member)

end Watch

theorem plan_loopFree {p : Program} (loopFree : p.outline.loops = []) (w : Watch) (length : Nat) :
    LoopPlan.ofProgram p w length = .none := by
  simp only [LoopPlan.ofProgram, loopFree]

theorem dryRun_loopFree (config : Config) {p : Program} (loopFree : p.outline.loops = [])
    (a : TrackedArray) : ∃ s, dryRun config p a = .ok s ∧
      s.recorder = (Recorder.start a.values).run
        (requests ((⟨a.name, config.indexPolicy⟩ : Watch).allActions p)) := by
  unfold dryRun
  dsimp only
  rw [plan_loopFree loopFree]
  exact ⟨_, rfl, DryRun.performAll_recorder _ _⟩

theorem dryRun_fewer (config : Config) {p : Program} {a : TrackedArray}
    (loopFree : p.outline.loops = []) (quiet : (Watch.placed a.name).QuietComparisons p) :
    ∃ s s', dryRun { config with indexPolicy := .placeholder } p a = .ok s ∧
      dryRun { config with indexPolicy := .strict } p a = .ok s' ∧
      s'.recorder.array = s.recorder.array ∧ FewerCompares s'.recorder.events s.recorder.events := by
  obtain ⟨s, ran, ended⟩ := dryRun_loopFree { config with indexPolicy := .placeholder } loopFree a
  obtain ⟨s', ran', ended'⟩ := dryRun_loopFree { config with indexPolicy := .strict } loopFree a
  obtain ⟨array, added, added', events, events', fewer⟩ :=
    Recorder.run_leftOut (Watch.requests_policies quiet) (rfl : (Recorder.start a.values).array = _)
  have log : s.recorder.events = _ ++ added := (congrArg Recorder.events ended).trans events
  have log' : s'.recorder.events = _ ++ added' := (congrArg Recorder.events ended').trans events'
  refine ⟨s, s', ran, ran', ?_, ?_⟩
  · rw [ended, ended']
    exact array
  · rw [log, log']
    exact LeftOut.append (.refl _) fewer

theorem dryRun_fails (config : Config) (p : Program) (a : TrackedArray) :
    Alike (fun _ _ => True) (dryRun { config with indexPolicy := .placeholder } p a)
      (dryRun { config with indexPolicy := .strict } p a) := by
  by_cases loopFree : p.outline.loops = []
  · obtain ⟨s, ran, -⟩ := dryRun_loopFree { config with indexPolicy := .placeholder } loopFree a
    obtain ⟨s', ran', -⟩ := dryRun_loopFree { config with indexPolicy := .strict } loopFree a
    rw [ran, ran']
    exact .ok trivial
  · exact (dryRun_policies config loopFree).mono fun _ _ _ => trivial

/-- The index policy decides about comparisons only. The same errors come out under both policies. A
script with a loop gives the same trace. For a script without loops whose comparisons hold nothing that
compares or changes elements, the strict trace is the other one less some comparisons. -/
theorem synthesize_policies (config : Config) (text : String) :
    let placeholder : Config := { config with indexPolicy := .placeholder }
    let strict : Config := { config with indexPolicy := .strict }
    (∀ e, (synthesize placeholder text).result = .error e ↔ (synthesize strict text).result = .error e) ∧
    ∀ p, Program.ofText text = .ok p →
      (p.outline.loops ≠ [] → (synthesize strict text).result = (synthesize placeholder text).result) ∧
      (p.outline.loops = [] → ∀ a, TrackedArray.ofProgram p = .ok a →
        (Watch.placed a.name).QuietComparisons p → ∃ t t',
          (synthesize placeholder text).result = .ok t ∧ (synthesize strict text).result = .ok t' ∧
          FewerCompares t'.events t.events) := by
  intro placeholder strict
  have limit : strict.maxSteps = placeholder.maxSteps := rfl
  refine ⟨?_, fun p read => ⟨fun looped => ?_, fun loopFree a tracked quiet => ?_⟩⟩
  · rcases synthesize_alike text limit fun p a _ _ => dryRun_fails config p a with
      ⟨e, failed, failed'⟩ | ⟨p, a, s, s', both⟩
    · rw [failed, failed']
      exact fun _ => Iff.rfl
    · rw [both.made, both.made']
      exact fun _ => iff_of_false (by simp) (by simp)
  · have runs (p' : Program) (a : TrackedArray) (read' : Program.ofText text = .ok p') :
        Alike (DryRun.InStep Eq) (dryRun placeholder p' a) (dryRun strict p' a) := by
      cases read.symm.trans read'
      exact dryRun_policies config looped
    rcases synthesize_alike text limit fun p' a read' _ => runs p' a read' with
      ⟨e, failed, failed'⟩ | ⟨p', a, s, s', both⟩
    · rw [failed, failed']
    · rw [both.made, both.made', both.related.recorder]
  · obtain ⟨s, s', ran, ran', -, fewer⟩ := dryRun_fewer config loopFree quiet
    exact ⟨_, _, synthesize_ok read tracked ran, synthesize_ok read tracked ran',
      LeftOut.append fewer (.refl _)⟩

def openPositionsText : String := "let a=[3,1];a[i]>a[i+1];a[0]=5"

theorem synthesize_policies_openPositions : ∃ t t',
    (synthesize { indexPolicy := .placeholder } openPositionsText).result = .ok t ∧
    (synthesize { indexPolicy := .strict } openPositionsText).result = .ok t' ∧
    FewerCompares t'.events t.events ∧ t.count .compare = 1 ∧ t'.count .compare = 0 := by
  have seen : ((Program.ofText openPositionsText).toOption.bind fun p =>
      (TrackedArray.ofProgram p).toOption.map fun a =>
        (p.outline.loops.isEmpty, decide ((Watch.placed a.name).QuietComparisons p),
          (traceOf { indexPolicy := .placeholder } p a).result.toOption.map (·.count .compare),
          (traceOf { indexPolicy := .strict } p a).result.toOption.map (·.count .compare))) =
      some (true, true, some 1, some 0) := by decide +kernel
  obtain ⟨p, found, seen⟩ := Option.bind_eq_some_iff.mp seen
  obtain ⟨a, named, seen⟩ := Option.map_eq_some_iff.mp seen
  simp only [Prod.mk.injEq] at seen
  obtain ⟨empty, quiet, one, zero⟩ := seen
  obtain ⟨t, done, one⟩ := Option.map_eq_some_iff.mp one
  obtain ⟨t', done', zero⟩ := Option.map_eq_some_iff.mp zero
  have read := ok_of_toOption found
  have tracked := ok_of_toOption named
  obtain ⟨u, u', made, made', fewer⟩ := ((synthesize_policies {} openPositionsText).2 p read).2
    (List.isEmpty_iff.mp empty) a tracked (of_decide_eq_true quiet)
  have same := made
  have same' := made'
  rw [synthesize_eq_traceOf read tracked, ok_of_toOption done] at same
  rw [synthesize_eq_traceOf read tracked, ok_of_toOption done'] at same'
  cases same
  cases same'
  exact ⟨t, t', made, made', fewer, one, zero⟩

end Synthesis

end SortTrace
