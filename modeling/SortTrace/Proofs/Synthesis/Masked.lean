import SortTrace.Proofs.Script.MaskedOutline
import SortTrace.Proofs.Synthesis.Schedule
import SortTrace.Proofs.Synthesis.SetsAround
import SortTrace.Proofs.Synthesis.ShellRun

/-!
Masked scripts: what is planned and what is asked for does not depend on the numbers in the lists that
variables start with, but for the starting values of the array.
-/

namespace SortTrace.Synthesis

open Script

theorem sameText_masked (a b : Expr) : sameText a.masked b.masked = sameText a b := by
  rw [← sameText_shell, Expr.shell_masked, Expr.shell_masked, sameText_shell]

theorem assigned?_masked (s : Stmt) :
    assigned? s.masked = (assigned? s).map (Prod.map Expr.masked Expr.masked) := by
  cases s with
  | expr e _ =>
    cases e with
    | assign op target value _ => cases op <;> rfl
    | _ => rfl
  | _ => rfl

theorem saved?_masked (s : Stmt) :
    saved? s.masked = (saved? s).map (Prod.map id Expr.masked) ∨
      ∃ name items items' s' s'', saved? s = some (name, .array items s') ∧
        saved? s.masked = some (name, .array items' s'') := by
  cases s with
  | varDecl d _ =>
    obtain ⟨kind, ds, _⟩ := d
    obtain _ | ⟨⟨name, _ | init, _⟩, _ | ⟨d₂, ds⟩⟩ := ds <;> try exact .inl rfl
    cases init with
    | array items s' => exact .inr ⟨_, _, _, _, _, rfl, rfl⟩
    | _ => exact .inl rfl
  | expr e _ =>
    cases e with
    | assign op target value _ =>
      cases op with
      | assign => cases target <;> exact .inl rfl
      | _ => exact .inl rfl
    | _ => exact .inl rfl
  | _ => exact .inl rfl

namespace Watch

variable (w : Watch)

theorem isElement_masked (e : Expr) : w.isElement e.masked = w.isElement e := by
  rw [← isElement_shell, Expr.shell_masked, isElement_shell]

theorem exchangesElements_masked (e : Expr) :
    w.exchangesElements e.masked = w.exchangesElements e := by
  rw [← exchangesElements_shell, Expr.shell_masked, exchangesElements_shell]

theorem pattern_masked (e : Expr) : w.pattern e.masked = w.pattern e := by
  rw [← pattern_shell, Expr.shell_masked, pattern_shell]

theorem pattern_inert {e : Expr} (inert : e.Inert) : w.pattern e = .unrecognized := by
  cases e <;> first | rfl | exact inert.elim

theorem exchangesThrough_masked (save shift restore : Stmt) :
    w.exchangesThrough save.masked shift.masked restore.masked =
      w.exchangesThrough save shift restore := by
  rcases saved?_masked save with saved | ⟨name, items, items', s, s', saved, saved'⟩
  · simp only [exchangesThrough, saved, assigned?_masked]
    rcases saved? save with _ | ⟨t, x⟩
    · rfl
    rcases assigned? shift with _ | ⟨x', y⟩
    · rfl
    rcases assigned? restore with _ | ⟨y', t'⟩
    · rfl
    simp only [Option.map_some, Prod.map_apply, isElement_masked, sameText_masked,
      Expr.name?_masked, id_eq]
  · -- A list is no element of the array, before and after.
    simp only [exchangesThrough, saved, saved', assigned?_masked]
    rcases assigned? shift with _ | ⟨x', y⟩
    · rfl
    cases assigned? restore <;> rfl

theorem startsWithSwap_masked (ss : List Stmt) :
    w.startsWithSwap (ss.map Stmt.masked) = w.startsWithSwap ss := by
  obtain _ | ⟨s, rest⟩ := ss
  · rfl
  obtain _ | ⟨shift, _ | ⟨restore, rest⟩⟩ := rest
  · cases s <;> simp [Stmt.masked, startsWithSwap, exchangesElements_masked]
  · cases s <;> simp [Stmt.masked, startsWithSwap, exchangesElements_masked]
  · have together := w.exchangesThrough_masked s shift restore
    simp only [List.map_cons, startsWithSwap, together]
    cases s <;> simp [Stmt.masked, exchangesElements_masked]

theorem holdsSwap_masked (ss : List Stmt) : w.holdsSwap (ss.map Stmt.masked) = w.holdsSwap ss := by
  induction ss with
  | nil => rfl
  | cons s rest ih =>
    have first := w.startsWithSwap_masked (s :: rest)
    simp only [List.map_cons] at first
    simp only [List.map_cons, holdsSwap, first, ih]

theorem testRelation?_masked (test : Expr) :
    w.testRelation? test.masked = w.testRelation? test := by
  rw [← testRelation?_shell, Expr.shell_masked, testRelation?_shell]

theorem aloneGuard?_masked (s : Stmt) (inside : Option Guard) :
    w.aloneGuard? s.masked inside = w.aloneGuard? s inside := by
  have alone := w.startsWithSwap_masked [s]
  simp only [List.map_cons, List.map_nil] at alone
  simp only [aloneGuard?, alone]

mutual

theorem firstGuard?_masked : ∀ ss : List Stmt, w.firstGuard? (Stmt.maskeds ss) = w.firstGuard? ss
  | [] => rfl
  | s :: rest => by
    have first := w.startsWithSwap_masked (s :: rest)
    rw [← Stmt.maskeds_eq_map] at first
    simp only [Stmt.maskeds] at first
    simp only [Stmt.maskeds, firstGuard?, first, guardInside?_masked s, firstGuard?_masked rest]

theorem guardInside?_masked : ∀ s : Stmt, w.guardInside? s.masked = w.guardInside? s
  | .ifElse test consequent none _ => by
    simp only [Stmt.masked, Stmt.maskedOption, guardInside?, aloneGuard?_masked,
      guardInside?_masked consequent, testRelation?_masked, Stmt.statements_masked,
      holdsSwap_masked]
  | .ifElse test consequent (some a) _ => by
    simp only [Stmt.masked, Stmt.maskedOption, guardInside?, aloneGuard?_masked,
      guardInside?_masked consequent, guardInside?_masked a, testRelation?_masked,
      Stmt.statements_masked, holdsSwap_masked]
  | .block body _ => by simp only [Stmt.masked, guardInside?, firstGuard?_masked body]
  | .loop (.forLoop _ _ _ body _) _ | .loop (.forEach _ _ _ _ body _) _
  | .loop (.whileLoop _ body _) _ | .loop (.doWhile body _ _) _ => by
    simp only [Stmt.masked, Loop.masked, guardInside?, aloneGuard?_masked,
      guardInside?_masked body]
  | .varDecl .. | .func .. | .ret .. | .brk _ | .cont _ | .empty _ | .expr .. => rfl

end

theorem guardOf_masked (ss : List Stmt) : w.guardOf (ss.map Stmt.masked) = w.guardOf ss := by
  rw [guardOf, ← Stmt.maskeds_eq_map, firstGuard?_masked, guardOf]

theorem requests_bodyActions_masked (ss : List Stmt) :
    requests (w.bodyActions (ss.map Stmt.masked)) = requests (w.bodyActions ss) := by
  rw [bodyActions, bodyActions, List.flatMap_map, requests_flatMap, requests_flatMap]
  congr 1
  funext s
  cases s with
  | expr e _ =>
    simp only [Stmt.masked, requests_append, requests_tells, List.nil_append, pattern_masked]
  | _ => rfl

theorem overwritten_masked {ns ns' : List Node} (masked : List.Forall₂ Node.Masks ns ns') :
    w.overwritten ns' = w.overwritten ns := by
  simp only [overwritten]
  induction masked with
  | nil => rfl
  | cons here _ ih =>
    cases here with
    | expr e =>
      simp only [List.filterMap_cons, Node.expr?, List.flatMap_cons, w.pattern_masked, ih]
    | inert first second =>
      simp only [List.filterMap_cons, Node.expr?, List.flatMap_cons, w.pattern_inert first,
        w.pattern_inert second, ih]
    | _ => exact ih

theorem stopsAtSets_masked : Outline.Respects Node.Masks w.stopsAtSets := by
  rintro _ _ (_ | _ | _ | _ | _ | _ | e | ⟨first, second⟩) <;> try rfl
  · simp only [stopsAtSets, w.pattern_masked]
  · simp only [stopsAtSets, w.pattern_inert first, w.pattern_inert second]

theorem surroundings_masked {o o' : Outline} (masks : o.Masks o') :
    (w.surroundings o').before = (w.surroundings o).before ∧
      (w.surroundings o').after = (w.surroundings o).after := by
  obtain ⟨before, after⟩ := masks.aroundLoop w.stopsAtSets_masked Node.Masks.isLoop_eq
  rw [surroundings_before, surroundings_before, surroundings_after, surroundings_after]
  exact ⟨w.overwritten_masked before, w.overwritten_masked after⟩

end Watch

theorem firstValue_masked (init : ForInit) : firstValue init.masked = firstValue init := by
  cases init with
  | none => rfl
  | varDecl d =>
    obtain ⟨kind, ds, _⟩ := d
    obtain _ | ⟨⟨name, init, _⟩, ds⟩ := ds
    · rfl
    cases init with
    | none => rfl
    | some e =>
      simp only [ForInit.masked, VarDecl.masked, Declarator.maskeds, Declarator.masked,
        Expr.maskedOption, Option.map_some, firstValue, Option.bind_some, Expr.number?_zeroedItems,
        Expr.number?_masked]
  | expr e =>
    cases e with
    | assign op target value _ =>
      cases op <;> simp [ForInit.masked, Expr.masked, firstValue, Expr.name?_masked,
        Expr.number?_masked]
    | _ => rfl

theorem stopValue_masked (e : Expr) (length : Int64) :
    stopValue e.masked length = stopValue e length := by
  rw [← stopValue_shell, Expr.shell_masked, stopValue_shell]

theorem testSides?_masked (l : Loop) :
    testSides? l.masked = (testSides? l).map (Prod.map Expr.masked Expr.masked) := by
  simp only [testSides?, Loop.test?_masked]
  rcases l.test? with _ | e
  · rfl
  · cases e <;> rfl

theorem LoopRange.ofLoop_masked (l : Loop) (length : Int64) :
    LoopRange.ofLoop l.masked length = LoopRange.ofLoop l length := by
  have sides := testSides?_masked l
  cases l with
  | forEach decl binding iterable values body s => rfl
  | forLoop init test update body s =>
    simp only [Loop.masked] at sides
    simp only [Loop.masked, ofLoop, sides, firstValue_masked]
    rcases testSides? (.forLoop init test update body s) with _ | ⟨lhs, rhs⟩
    · rfl
    · simp [stopValue_masked, Expr.name?_masked]
  | whileLoop test body s =>
    simp only [Loop.masked] at sides
    simp only [Loop.masked, ofLoop, sides]
    rcases testSides? (.whileLoop test body s) with _ | ⟨lhs, rhs⟩
    · rfl
    · simp [stopValue_masked, Expr.name?_masked]
  | doWhile body test s =>
    simp only [Loop.masked] at sides
    simp only [Loop.masked, ofLoop, sides]
    rcases testSides? (.doWhile body test s) with _ | ⟨lhs, rhs⟩
    · rfl
    · simp [stopValue_masked, Expr.name?_masked]

theorem innerStopOf_masked (outer : LoopRange) (inner : Loop) :
    innerStopOf outer inner.masked = innerStopOf outer inner := by
  simp only [innerStopOf, testSides?_masked]
  rcases testSides? inner with _ | ⟨lhs, rhs⟩
  · rfl
  · cases outer.var <;> simp [Expr.mentions_masked]

theorem firstLoop?_masked (s : Stmt) : firstLoop? s.masked = (firstLoop? s).map Loop.masked := by
  simp [firstLoop?, s.outline_masked.loops_eq]

def NestedLoops.masked (loops : NestedLoops) : NestedLoops :=
  { loops with outerLoop := loops.outerLoop.masked, innerLoop := loops.innerLoop.masked }

namespace LoopPlan

def masked : LoopPlan → LoopPlan
  | none => none
  | single l range => single l.masked range
  | nested loops => nested loops.masked

theorem ofProgram_masked (p : Program) (w : Watch) (length : Nat) :
    ofProgram p.masked w length = (ofProgram p w length).masked := by
  simp only [ofProgram, p.outline_masked.loops_eq]
  rcases p.outline.loops with _ | ⟨first, rest⟩
  · rfl
  simp only [List.map_cons, Loop.body_masked, firstLoop?_masked]
  rcases firstLoop? first.body with _ | inner
  · simp [masked, LoopRange.ofLoop_masked]
  · simp [masked, NestedLoops.masked, LoopRange.ofLoop_masked, innerStopOf_masked,
      Watch.guardOf_masked]

end LoopPlan

/-- What a run of loops depends on before it looks at values: the name and the length of the array. -/
def TrackedArray.frame (a : TrackedArray) : String × Nat := (a.name, a.values.length)

namespace TrackedArray

theorem ofDeclarator?_masked (d : Declarator) :
    (ofDeclarator? d.masked).map frame = (ofDeclarator? d).map frame := by
  simp only [ofDeclarator?, Declarator.init_masked, Declarator.name_masked]
  rcases d.init with _ | e
  · rfl
  simp only [Option.map_some, Option.bind_some, Expr.items?_zeroedItems, Expr.items?_masked]
  cases e.items? with
  | none => rfl
  | some items => simp [frame]

theorem ofProgram_masked (p : Program) :
    (ofProgram p.masked).map frame = (ofProgram p).map frame := by
  have found : (p.masked.declarators.findSome? ofDeclarator?).map frame =
      (p.declarators.findSome? ofDeclarator?).map frame := by
    rw [p.declarators_masked, List.findSome?_map, List.map_findSome?, List.map_findSome?]
    exact congrArg (List.findSome? · p.declarators) (funext ofDeclarator?_masked)
  unfold ofProgram
  generalize p.masked.declarators.findSome? ofDeclarator? = x at found
  generalize p.declarators.findSome? ofDeclarator? = y at found
  rcases x with _ | a <;> rcases y with _ | b
  · rfl
  · cases found
  · cases found
  · obtain ⟨name, length⟩ := Prod.mk.inj (Option.some.inj found)
    have empty : a.values.isEmpty = b.values.isEmpty := by
      rw [Bool.eq_iff_iff, List.isEmpty_iff_length_eq_zero, List.isEmpty_iff_length_eq_zero, length]
    dsimp only
    rw [empty, name]
    split
    · rfl
    · exact congrArg Except.ok (Prod.ext name length)

end TrackedArray

theorem nestedSchedule_masked (config : Config) (w : Watch) (p : Program) (loops : NestedLoops)
    (length : Nat) : nestedSchedule config w p.masked loops.masked length =
      nestedSchedule config w p loops length := by
  obtain ⟨before, after⟩ := w.surroundings_masked p.outline_masked
  obtain ⟨innerBefore, innerAfter⟩ :=
    w.surroundings_masked loops.outerLoop.body.outline_masked
  have body := w.requests_bodyActions_masked loops.innerLoop.body.statements
  have headings := loops.headings_congr config length (congrArg requests innerBefore)
    (congrArg requests innerAfter) body
  have outerLoop : loops.masked.outerLoop = loops.outerLoop.masked := rfl
  have innerLoop : loops.masked.innerLoop = loops.innerLoop.masked := rfl
  have others (around : Surroundings) (body : List Action) :
      loops.masked.headings config length around body = loops.headings config length around body :=
    rfl
  simp only [nestedSchedule, before, after, outerLoop, innerLoop, others, Loop.body_masked,
    Stmt.statements_masked, headings]

end SortTrace.Synthesis
