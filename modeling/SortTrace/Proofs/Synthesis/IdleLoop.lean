import SortTrace.Proofs.Script.Earlier
import SortTrace.Proofs.Synthesis.BareRun
import SortTrace.Proofs.Synthesis.LoopSteps

/-!
A loop that runs zero times, behind a script without loops: instead of the scan for all patterns a search
for sets goes over the script, and the two do not stop at the same expressions.
-/

namespace SortTrace

def Trace.writes (t : Trace) : List (Nat × Int64) := t.events.filterMap Event.set?

namespace Recorder

def writes (r : Recorder) : List (Nat × Int64) := r.events.filterMap Event.set?

theorem writes_note (r : Recorder) (e : Event) : (r.note e).writes = r.writes ++ e.set?.toList := by
  simp only [writes, events, note, Array.toList_push, List.filterMap_append]
  cases e <;> rfl

theorem writes_compare (r : Recorder) (i j : Nat) : (r.compare i j).1.writes = r.writes := by
  unfold compare
  split
  · exact (r.writes_note _).trans (List.append_nil _)
  · rfl

theorem writes_swap (r : Recorder) (i j : Nat) : (r.swap i j).1.writes = r.writes := by
  unfold swap
  split
  · exact (r.writes_note (.swap i j _ _)).trans (List.append_nil _)
  · rfl

theorem writes_set (r : Recorder) (i : Nat) (value : Int64) :
    (r.set i value).1.writes = r.writes ++ [(i, value)].filter (·.1 < r.size) := by
  unfold set
  split
  · rename_i previous found
    have inside : i < r.size := (List.getElem?_eq_some_iff.mp found).1
    rw [show [(i, value)].filter (·.1 < r.size) = [(i, value)] by simp [inside]]
    exact r.writes_note (.set i value previous)
  · rename_i missing
    have outside : ¬ i < r.size := Nat.not_lt.mpr (List.getElem?_eq_none_iff.mp missing)
    rw [show [(i, value)].filter (·.1 < r.size) = [] by simp [outside]]
    exact (List.append_nil _).symm

theorem writes_comment (r : Recorder) (message : String) : (r.comment message).writes = r.writes :=
  (r.writes_note _).trans (List.append_nil _)

theorem writes_finish (r : Recorder) : r.finish.writes = r.writes := by
  rw [Trace.writes, finish, List.filterMap_append]
  exact List.append_nil _

end Recorder

namespace Script

def Program.followedBy (p : Program) (s : Stmt) : Program := { p with body := p.body ++ [s] }

theorem Stmt.outlines_append (first second : List Stmt) :
    Stmt.outlines (first ++ second) = Stmt.outlines first ++ Stmt.outlines second := by
  induction first with
  | nil => rfl
  | cons s rest ih => simp only [List.cons_append, Stmt.outlines, ih]

namespace Outline

theorem noLoop_of_loops {o : Outline} (loopFree : o.loops = []) :
    ∀ x ∈ o.walk Node.isFunc, x.node.NoLoop := by
  intro x member
  have none := List.filterMap_eq_nil_iff.mp loopFree x.node (List.mem_map_of_mem member)
  cases kind : x.node with
  | loop l =>
    rw [kind] at none
    cases none
  | _ => rfl

end Outline

open Outline

namespace Program

variable {stop : Node → Bool} (passes : ∀ p, stop (.program p) = false) (p : Program) (s : Stmt)

include passes

theorem walk_outline : p.outline.walk stop = p.outline :: walkAll stop (Stmt.outlines p.body) := by
  rw [outline, walk, passes, if_neg Bool.false_ne_true]

theorem walk_followedBy : (p.followedBy s).outline.walk stop =
    (p.followedBy s).outline :: (walkAll stop (Stmt.outlines p.body) ++ s.outline.walk stop) := by
  have last : walkAll stop (Stmt.outlines [s]) = s.outline.walk stop := List.append_nil _
  rw [walk_outline passes, followedBy, Stmt.outlines_append, walkAll_append, last]

theorem filterMap_followedBy {α : Type} {f : Node → Option α} (blind : ∀ p, f (.program p) = none) :
    ((p.followedBy s).outline.nodes stop).filterMap f =
      (p.outline.nodes stop).filterMap f ++ (s.outline.nodes stop).filterMap f := by
  have own (p : Program) (rest : List Node) : (p.outline.node :: rest).filterMap f = rest.filterMap f :=
    List.filterMap_cons_none (blind p)
  rw [nodes, nodes, nodes, walk_followedBy passes, walk_outline passes, List.map_cons, List.map_cons,
    List.map_append]
  refine (own _ _).trans ?_
  rw [List.filterMap_append, own]

end Program

end Script

namespace Synthesis

open Script Script.Outline

def Action.set? : Action → Option (Nat × Int64)
  | set i value => some (i, value)
  | _ => none

namespace DryRun

variable (s : DryRun)

theorem perform_writes (a : Action) : (s.perform a).recorder.writes =
    s.recorder.writes ++ a.set?.toList.filter (·.1 < s.recorder.size) := by
  cases a with
  | tell n => exact (List.append_nil _).symm
  | compare i j =>
    simp only [perform, tellOutside_recorder, Recorder.writes_compare]
    exact (List.append_nil _).symm
  | swap i j =>
    simp only [perform, tellOutside_recorder, Recorder.writes_swap]
    exact (List.append_nil _).symm
  | set i value =>
    simp only [perform, tellOutside_recorder, Recorder.writes_set]
    rfl

theorem performAll_writes (actions : List Action) : (s.performAll actions).recorder.writes =
    s.recorder.writes ++ (actions.filterMap Action.set?).filter (·.1 < s.recorder.size) := by
  induction actions generalizing s with
  | nil => exact (List.append_nil _).symm
  | cons a rest ih =>
    have size : (s.perform a).recorder.size = s.recorder.size := s.performAll_size [a]
    have step : s.performAll (a :: rest) = (s.perform a).performAll rest := rfl
    rw [step, ih, size, perform_writes, List.append_assoc, ← List.filter_append]
    cases found : a.set? <;> simp [found]

theorem announce_writes (config : Config) (label : String) (range : LoopRange) :
    (s.announce config label range).recorder.writes = s.recorder.writes := by
  unfold announce
  split
  · exact s.recorder.writes_comment _
  · rfl

end DryRun

/-- A pattern that the scan stops at, though it writes nothing itself. -/
def Pattern.hides : Pattern → Bool
  | comparison .. | swap .. => true
  | _ => false

namespace Watch

variable {w : Watch} {p : Program}

def stopsAtPatterns (w : Watch) : Node → Bool := stopsAt fun e => !(w.pattern e).isOpen

def scanned (w : Watch) (p : Program) : List Expr :=
  (p.outline.nodes w.stopsAtPatterns).filterMap Node.expr?

theorem allActions_set (p : Program) : (w.allActions p).filterMap Action.set? =
    (p.outline.nodes w.stopsAtPatterns).filterMap (w.setAt? anywhere) := by
  have shape : w.allActions p = ((p.outline.nodes w.stopsAtPatterns).filterMap Node.expr?).flatMap
      fun e => (w.notices e).map .tell ++ (w.pattern e).actions := rfl
  have told (notices : List Notice) : (notices.map Action.tell).filterMap Action.set? = [] := by
    simp [List.filterMap_map, Function.comp_def, Action.set?]
  rw [shape]
  induction p.outline.nodes w.stopsAtPatterns with
  | nil => rfl
  | cons n rest ih =>
    cases n with
    | expr e =>
      have here : (Node.expr e :: rest).filterMap Node.expr? = e :: rest.filterMap Node.expr? := rfl
      rw [here, List.flatMap_cons, List.filterMap_append, List.filterMap_append, told, ih,
        List.filterMap_cons]
      cases pattern : w.pattern e <;>
        simp [setAt?, anywhere, pattern, Pattern.set?, Pattern.actions, Action.set?]
    | _ => exact ih

end Watch

/-- `for (let k = 0; k < 0; k++) {}` -/
def idleLoop : Loop :=
  let k := Expr.ident "k" {}
  let zero := Expr.number .zero {}
  .forLoop (.varDecl (.mk .letKind [.mk "k" (some zero) {}] {})) (some (.binary k .lt zero {}))
    (some (.update .increment false k {})) (.block [] {}) {}

variable {p : Program} {w : Watch}

theorem loops_idle (loopFree : p.outline.loops = []) :
    (p.followedBy (.loop idleLoop {})).outline.loops = [idleLoop] := by
  refine (Program.filterMap_followedBy (fun _ => rfl) p _ fun _ => rfl).trans ?_
  rw [show (p.outline.nodes Node.isFunc).filterMap Node.loop? = [] from loopFree]
  rfl

theorem range_idle (length : Int64) : LoopRange.ofLoop idleLoop length = ⟨some "k", 0, 0⟩ := by
  have zero : Numeral.Signed.toInt64 ⟨false, .zero⟩ = 0 := by decide +kernel
  simp [LoopRange.ofLoop, idleLoop, firstValue, stopValue, testSides?, Loop.test?, Expr.number?,
    Expr.name?, zero]

theorem plan_idle (loopFree : p.outline.loops = []) (w : Watch) (length : Nat) :
    LoopPlan.ofProgram (p.followedBy (.loop idleLoop {})) w length =
      .single idleLoop ⟨some "k", 0, 0⟩ := by
  have alone : firstLoop? idleLoop.body = none := rfl
  simp only [LoopPlan.ofProgram, loops_idle loopFree, alone, range_idle]

theorem tracked_idle {a : TrackedArray} (tracked : TrackedArray.ofProgram p = .ok a) :
    TrackedArray.ofProgram (p.followedBy (.loop idleLoop {})) = .ok a := by
  have further : (p.followedBy (.loop idleLoop {})).declarators = p.declarators ++
      ((Stmt.loop idleLoop {}).outline.nodes fun _ => false).filterMap Node.declarator? :=
    Program.filterMap_followedBy (fun _ => rfl) p _ fun _ => rfl
  unfold TrackedArray.ofProgram at tracked ⊢
  rw [further, List.findSome?_append]
  cases found : p.declarators.findSome? TrackedArray.ofDeclarator? with
  | none =>
    rw [found] at tracked
    cases tracked
  | some b =>
    rw [found] at tracked
    exact tracked

theorem surroundings_idle (loopFree : p.outline.loops = []) :
    (w.surroundings (p.followedBy (.loop idleLoop {})).outline).before =
        (w.sets p.outline).map Watch.setAction ∧
      (w.surroundings (p.followedBy (.loop idleLoop {})).outline).after = [] := by
  have passes : ∀ q : Program, w.stopsAtSets (.program q) = false := fun _ => rfl
  have sets : ((p.outline.walk w.stopsAtSets).map node).filterMap (w.setAt? Watch.anywhere) =
      w.sets p.outline := Watch.walk_stopsAtSets (fun _ inert => inert.setAt? _) p.outline p.genuine
  have earlier : Earlier Node.isFunc w.stopsAtSets := earlier_stopsAt _
  have quiet : ∀ x ∈ p.outline.walk w.stopsAtSets, x.node.NoLoop := fun x member =>
    noLoop_of_loops loopFree x ((walk_sublist earlier p.outline).subset member)
  rw [Program.walk_outline passes] at sets quiet
  let before := (p.followedBy (.loop idleLoop {})).outline ::
    (walkAll w.stopsAtSets (Stmt.outlines p.body) ++ [(Stmt.loop idleLoop {}).outline])
  have walk : (p.followedBy (.loop idleLoop {})).outline.walk w.stopsAtSets =
      before ++ idleLoop.outline.walk w.stopsAtSets := by
    have own : (Stmt.loop idleLoop {}).outline.walk w.stopsAtSets =
        (Stmt.loop idleLoop {}).outline :: (idleLoop.outline.walk w.stopsAtSets ++ []) := rfl
    rw [Program.walk_followedBy passes, own, List.append_nil, List.cons_append, List.append_assoc]
    rfl
  have silent : ∀ x ∈ before, x.node.NoLoop :=
    List.forall_mem_cons.mpr ⟨rfl, List.forall_mem_append.mpr
      ⟨(List.forall_mem_cons.mp quiet).2, List.forall_mem_singleton.mpr rfl⟩⟩
  have around := aroundLoop_first walk silent
  rw [Watch.surroundings_before, Watch.surroundings_after, around, Watch.overwritten_eq, ← sets]
  refine ⟨congrArg (List.map Watch.setAction) ?_, rfl⟩
  -- The program and the statement around the loop are no expressions, so no sets either.
  rw [List.map_cons, List.map_cons, List.map_append, List.filterMap_cons_none rfl,
    List.filterMap_cons_none rfl, List.filterMap_append]
  exact List.append_nil _

theorem traceOf_scan (config : Config) (loopFree : p.outline.loops = []) (a : TrackedArray) :
    let w : Watch := ⟨a.name, config.indexPolicy⟩
    ∃ t, (traceOf config p a).result = .ok t ∧ t.writes =
      ((p.outline.nodes w.stopsAtPatterns).filterMap (w.setAt? Watch.anywhere)).filter
        (·.1 < a.values.length) := by
  intro w
  have plan : LoopPlan.ofProgram p w a.values.length = .none := by
    simp only [LoopPlan.ofProgram, loopFree]
  let start : DryRun :=
    { recorder := .start a.values
      notices := #[.discoveredArray a.name a.values.length, .classifiedLoops "none"] }
  refine ⟨(start.performAll (w.allActions p)).recorder.finish, ?_, ?_⟩
  · simp only [traceOf, w, plan]
    rfl
  · rw [Recorder.writes_finish, DryRun.performAll_writes, Watch.allActions_set]
    rfl

theorem traceOf_idle (config : Config) (loopFree : p.outline.loops = []) (a : TrackedArray) :
    let w : Watch := ⟨a.name, config.indexPolicy⟩
    ∃ t, (traceOf config (p.followedBy (.loop idleLoop {})) a).result = .ok t ∧
      t.writes = (w.sets p.outline).filter (·.1 < a.values.length) := by
  intro w
  have plan := plan_idle loopFree w a.values.length
  obtain ⟨before, after⟩ := @surroundings_idle p w loopFree
  let start : DryRun :=
    { recorder := .start a.values
      notices := #[.discoveredArray a.name a.values.length, .classifiedLoops "single"] }
  let told := start.tellAll (w.surroundings (p.followedBy (.loop idleLoop {})).outline).notices
  let ran := (told.performAll ((w.sets p.outline).map Watch.setAction)).announce config "single"
    ⟨some "k", 0, 0⟩
  have run : start.run config w (p.followedBy (.loop idleLoop {})) (.single idleLoop ⟨some "k", 0, 0⟩) =
      .ok ran := by
    simp only [DryRun.run, before, after]
    rfl
  refine ⟨ran.recorder.finish, ?_, ?_⟩
  · simp only [traceOf, w, plan]
    simp only [start, w] at run
    simp only [LoopPlan.name, run]
  · have sets : ((w.sets p.outline).map Watch.setAction).filterMap Action.set? = w.sets p.outline := by
      rw [List.filterMap_map]
      exact List.filterMap_some
    have told_eq : told.recorder = .start a.values := (start.tellAll_keeps _).1
    rw [Recorder.writes_finish, DryRun.announce_writes, DryRun.performAll_writes, sets, told_eq]
    rfl

namespace Watch

variable {w : Watch} {length : Nat}

theorem sets_outline (e : Expr) : w.sets e.outline = (w.pattern e).set?.toList ++
    ((walkAll Node.isFunc e.outline.children).map node).filterMap (w.setAt? anywhere) := by
  have shape : e.outline = .mk (.expr e) e.outline.children := by cases e <;> rfl
  have own : w.setAt? anywhere (.expr e) = (w.pattern e).set? := rfl
  rw [sets, nodes, shape, walk, List.map_cons, List.filterMap_cons, node, own]
  cases (w.pattern e).set? <;> rfl

theorem hidden_iff {e : Expr} (closed : (w.pattern e).isOpen = false) :
    ((walkAll Node.isFunc e.outline.children).map node).filterMap
        (fun n => (w.setAt? anywhere n).filter (·.1 < length)) = [] ↔
      ((w.pattern e).hides = true → ∀ s ∈ w.sets e.outline, length ≤ s.1) := by
  rw [← List.filter_filterMap, sets_outline]
  cases pattern : w.pattern e with
  | set i value =>
    have nothing : ((walkAll Node.isFunc e.outline.children).map node).filterMap
        (w.setAt? anywhere) = [] := by
      refine List.filterMap_eq_nil_iff.mpr fun n member => ?_
      obtain ⟨o, inside, rfl⟩ := List.mem_map.mp member
      exact (below_set (by rw [pattern]; rfl) o inside).setAt? anywhere
    rw [nothing]
    exact ⟨fun _ hides => (by cases hides), fun _ => rfl⟩
  | comparison r i j => simp [Pattern.hides, Pattern.set?]
  | swap i j => simp [Pattern.hides, Pattern.set?]
  | _ =>
    rw [pattern] at closed
    cases closed

theorem scan_misses_iff (p : Program) :
    ((p.outline.nodes w.stopsAtPatterns).filterMap (w.setAt? anywhere)).filter (·.1 < length) =
        (w.sets p.outline).filter (·.1 < length) ↔
      ∀ e ∈ w.scanned p, (w.pattern e).hides = true → ∀ s ∈ w.sets e.outline, length ≤ s.1 := by
  have earlier : Earlier Node.isFunc w.stopsAtPatterns := earlier_stopsAt _
  have whole {x : Outline} (member : x ∈ p.outline.walk w.stopsAtPatterns) {e : Expr}
      (kind : x.node = .expr e) : e.outline = x := by
    have own := p.genuine.walk x member
    rw [Genuine, kind] at own
    exact own
  rw [sets, List.filter_filterMap, List.filter_filterMap]
  refine (walk_misses_iff earlier p.outline).trans ⟨fun none e member hides => ?_, fun none => ?_⟩
  · obtain ⟨n, visited, found⟩ := List.mem_filterMap.mp member
    obtain ⟨x, walked, rfl⟩ := List.mem_map.mp visited
    have kind : x.node = .expr e := by
      cases shape : x.node <;> rw [shape] at found <;> cases found
      rfl
    have closed : (w.pattern e).isOpen = false := by
      cases pattern : w.pattern e <;> rw [pattern] at hides <;> cases hides <;> rfl
    refine (hidden_iff closed).mp ?_ hides
    rw [whole walked kind]
    refine none x walked ?_ ?_
    · rw [kind]
      exact congrArg Bool.not closed
    · rw [kind]
      rfl
  · intro x walked halted other
    obtain ⟨e, kind⟩ := earlier.expr _ halted other
    rw [kind] at halted
    have closed : (w.pattern e).isOpen = false := Bool.not_eq_true' _ |>.mp halted
    rw [← whole walked kind]
    refine (hidden_iff closed).mpr (none e (List.mem_filterMap.mpr ⟨x.node, ?_, ?_⟩))
    · exact List.mem_map_of_mem walked
    · rw [kind]
      rfl

end Watch

/-- Behind a script without loops, a loop that runs zero times leaves the sets of the trace as they are
exactly if no set in range lies inside a comparison or a swap that the scan comes by. -/
theorem writes_idleLoop_iff {p q : Program} {a : TrackedArray} (config : Config)
    (loopFree : p.outline.loops = []) (tracked : TrackedArray.ofProgram p = .ok a)
    (looped : q.bare = (p.followedBy (.loop idleLoop {})).bare) :
    let w : Watch := ⟨a.name, config.indexPolicy⟩
    ∃ t t', (traceOf config p a).result = .ok t ∧
      (∀ text, Program.ofText text = .ok p → (synthesize config text).result = .ok t) ∧
      TrackedArray.ofProgram q = .ok a ∧ (traceOf config q a).result = .ok t' ∧
      (∀ text, Program.ofText text = .ok q → (synthesize config text).result = .ok t') ∧
      (t'.writes = t.writes ↔ ∀ e ∈ w.scanned p, (w.pattern e).hides = true →
        ∀ s ∈ w.sets e.outline, a.values.length ≤ s.1) := by
  intro w
  obtain ⟨t, scanned, writes⟩ := traceOf_scan config loopFree a
  obtain ⟨t', searched, writes'⟩ := traceOf_idle config loopFree a
  have same : TrackedArray.ofProgram q = .ok a := by
    rw [← TrackedArray.ofProgram_bare, looped, TrackedArray.ofProgram_bare]
    exact tracked_idle tracked
  rw [← traceOf_bare, ← looped, traceOf_bare] at searched
  refine ⟨t, t', scanned, fun text read => ?_, same, searched, fun text read => ?_, ?_⟩
  · simp only [synthesize, read, tracked, scanned]
  · simp only [synthesize, read, same, searched]
  · rw [writes, writes', eq_comm]
    exact Watch.scan_misses_iff p

def farSetText : String := "let a=[2,1];a[1]=3;a[0]>(a[7]=4)"

theorem writes_idleLoop_far : ∃ p t t', Program.ofText farSetText = .ok p ∧
    (synthesize {} farSetText).result = .ok t ∧ t.writes = [(1, 3)] ∧
    (traceOf {} (p.followedBy (.loop idleLoop {})) ⟨"a", [2, 1]⟩).result = .ok t' ∧
    t'.writes = t.writes := by
  let w : Watch := ⟨"a", .placeholder⟩
  have seen : ((Program.ofText farSetText).toOption.bind fun p =>
      (TrackedArray.ofProgram p).toOption.bind fun a => (traceOf {} p a).result.toOption.map fun t =>
        (a, p.outline.loops.length, t.writes,
          decide (∀ e ∈ w.scanned p, (w.pattern e).hides = true → ∀ s ∈ w.sets e.outline, 2 ≤ s.1))) =
      some (⟨"a", [2, 1]⟩, 0, [(1, 3)], true) := by decide +kernel
  obtain ⟨p, found, seen⟩ := Option.bind_eq_some_iff.mp seen
  obtain ⟨a, named, seen⟩ := Option.bind_eq_some_iff.mp seen
  obtain ⟨u, traced, seen⟩ := Option.map_eq_some_iff.mp seen
  simp only [Prod.mk.injEq, List.length_eq_zero_iff, decide_eq_true_eq] at seen
  obtain ⟨rfl, loopFree, written, outside⟩ := seen
  have read := ok_of_toOption found
  have tracked := ok_of_toOption named
  obtain ⟨t, t', scanned, result, -, searched, -, same⟩ := writes_idleLoop_iff {} loopFree tracked rfl
  obtain rfl : u = t := Except.ok.inj ((ok_of_toOption traced).symm.trans scanned)
  exact ⟨p, u, t', read, result _ read, written, searched, same.mpr outside⟩

def innerSetText : String := "let arr = [1, 2]; if (arr[0] > (arr[1] = 5)) \x7b\x7d"

/-- Only behind a loop that runs zero times does the set appear in the trace. -/
theorem writes_innerSet : ∃ p t t', Program.ofText innerSetText = .ok p ∧ p.outline.loops = [] ∧
    (synthesize {} innerSetText).result = .ok t ∧ t.writes = [] ∧
    (traceOf {} (p.followedBy (.loop idleLoop {})) ⟨"arr", [1, 2]⟩).result = .ok t' ∧
    t'.writes = [(1, 5)] ∧
    (synthesize {} (innerSetText ++ " for (let k = 0; k < 0; k++) \x7b\x7d")).result = .ok t' := by
  have seen : ((Program.ofText innerSetText).toOption.bind fun p =>
      (synthesize {} innerSetText).result.toOption.bind fun t =>
      (traceOf {} (p.followedBy (.loop idleLoop {})) ⟨"arr", [1, 2]⟩).result.toOption.map fun t' =>
        (p.outline.loops.length, t.writes, t'.writes, decide ((synthesize {} (innerSetText ++
          " for (let k = 0; k < 0; k++) \x7b\x7d")).result.toOption = some t'))) =
      some (0, [], [(1, 5)], true) := by decide +kernel
  obtain ⟨p, found, seen⟩ := Option.bind_eq_some_iff.mp seen
  obtain ⟨t, result, seen⟩ := Option.bind_eq_some_iff.mp seen
  obtain ⟨t', searched, seen⟩ := Option.map_eq_some_iff.mp seen
  simp only [Prod.mk.injEq, List.length_eq_zero_iff, decide_eq_true_eq] at seen
  obtain ⟨loopFree, none, written, same⟩ := seen
  exact ⟨p, t, t', ok_of_toOption found, loopFree, ok_of_toOption result, none,
    ok_of_toOption searched, written, ok_of_toOption same⟩

end Synthesis

end SortTrace
