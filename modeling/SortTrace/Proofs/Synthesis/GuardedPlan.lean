import SortTrace.Proofs.Numeral.Whole
import SortTrace.Proofs.Script.Walk
import SortTrace.Proofs.Synthesis.GuardedScript
import SortTrace.Proofs.Synthesis.SetsAround
import SortTrace.Synthesis.Synthesize

/-!
The plan of a script that sorts neighbours: its array, its two loops and their ranges, the guard
between them, and nothing around them that changes the array.
-/

namespace SortTrace.Synthesis

open Script Numeral

namespace Watch

variable (w : Watch)

def Leaves (n : Node) : Prop := ∀ e, n.expr? = some e → (w.pattern e).overwrites = []

theorem overwritten_none {before : List Outline} (leaves : ∀ o ∈ before, w.Leaves o.node) :
    w.overwritten (before.map Outline.node) = [] := by
  rw [overwritten, List.flatMap_eq_nil_iff]
  intro e member
  obtain ⟨n, inside, found⟩ := List.mem_filterMap.mp member
  obtain ⟨o, walked, rfl⟩ := List.mem_map.mp inside
  exact leaves o walked e found

theorem surroundings_first {o : Outline} {l : Loop} {front : (Node → Bool) → List Outline}
    (walk : ∀ stop, GoesOn stop → o.walk stop = front stop ++ l.outline.walk stop)
    (quiet : ∀ stop, StaysOut stop → ∀ x ∈ front stop, x.node.NoLoop)
    (leaves : ∀ stop, ∀ x ∈ front stop, w.Leaves x.node) :
    (w.surroundings o).before = [] ∧ (w.surroundings o).after = [] := by
  have goesOn : GoesOn w.stopsAtSets :=
    ⟨fun _ => rfl, fun _ => rfl, fun _ => rfl, fun _ => rfl⟩
  have outside : StaysOut w.stopsAtSets := fun _ => rfl
  have around := Outline.aroundLoop_first (walk _ goesOn) (quiet _ outside)
  constructor
  · rw [surroundings_before, around]
    exact w.overwritten_none (leaves _)
  · rw [surroundings_after, around]
    rfl

end Watch

namespace GuardedScript

variable (b : GuardedScript)

theorem tracked (nonempty : b.literals ≠ []) :
    TrackedArray.ofProgram b.tree = .ok ⟨b.array.name, b.values⟩ := by
  have first : ∃ rest, b.tree.declarators =
      .mk b.array.name (some (.array b.literals {})) {} :: rest := ⟨_, rfl⟩
  obtain ⟨rest, first⟩ := first
  have found : TrackedArray.ofDeclarator?
      (.mk b.array.name (some (.array b.literals {})) {}) = some ⟨b.array.name, b.values⟩ := rfl
  simp [TrackedArray.ofProgram, first, found, values, nonempty]

section

variable {stop : Node → Bool} (goesOn : GoesOn stop) (outside : StaysOut stop)

def declaration : VarDecl := declaring b.arrayWord b.array.name (.array b.literals {})

def inFront (stop : Node → Bool) : List Outline :=
  b.tree.outline :: (Stmt.varDecl b.declaration {}).outline :: b.declaration.outline ::
    (Declarator.mk b.array.name (some (.array b.literals {})) {}).outline ::
      ((Expr.array b.literals {}).outline.walk stop ++ [(Stmt.loop b.outerLoop {}).outline])

include goesOn in
theorem walk_tree :
    b.tree.outline.walk stop = b.inFront stop ++ b.outerLoop.outline.walk stop := by
  simp [inFront, tree, declaration, declaring, Program.outline, Stmt.outline, Stmt.outlines,
    VarDecl.outline, Declarator.outline, Declarator.outlines, Outline.walk, Outline.walkAll,
    goesOn.program, goesOn.stmt, goesOn.varDecl, goesOn.declarator]

include outside in
theorem inFront_noLoop : ∀ o ∈ b.inFront stop, o.node.NoLoop := by
  have list := (Expr.array b.literals {}).walk_noLoop outside
  intro o member
  simp only [inFront, List.mem_cons, List.mem_append, List.not_mem_nil, or_false] at member
  rcases member with rfl | rfl | rfl | rfl | member | rfl
  · rfl
  · rfl
  · rfl
  · rfl
  · exact list o member
  · rfl

include goesOn in
theorem walk_block (l : Loop) (s s' : Span) :
    (Stmt.block [.loop l s] s').outline.walk stop =
      [(Stmt.block [.loop l s] s').outline, (Stmt.loop l s).outline] ++ l.outline.walk stop := by
  simp [Stmt.outline, Stmt.outlines, Outline.walk, Outline.walkAll, goesOn.stmt]

end

theorem isFunc_goesOn : GoesOn Node.isFunc :=
  ⟨fun _ => rfl, fun _ => rfl, fun _ => rfl, fun _ => rfl⟩

theorem isFunc_staysOut : StaysOut Node.isFunc := fun _ => rfl

theorem loops_tree : ∃ rest, b.tree.outline.loops = b.outerLoop :: rest := by
  have walk := b.walk_tree isFunc_goesOn
  rw [← List.append_nil (b.outerLoop.outline.walk _)] at walk
  exact Outline.loops_first walk (b.inFront_noLoop isFunc_staysOut)

theorem block_noLoop (l : Loop) (s s' : Span) :
    ∀ o ∈ [(Stmt.block [.loop l s] s').outline, (Stmt.loop l s).outline], o.node.NoLoop := by
  intro o member
  simp only [List.mem_cons, List.not_mem_nil, or_false] at member
  rcases member with rfl | rfl <;> rfl

theorem firstLoop_outer : firstLoop? b.outerLoop.body = some b.innerLoop := by
  have walk := walk_block isFunc_goesOn b.innerLoop {} {}
  rw [← List.append_nil (b.innerLoop.outline.walk _)] at walk
  obtain ⟨rest, loops⟩ := Outline.loops_first walk (block_noLoop b.innerLoop {} {})
  have body : b.outerLoop.body = .block [.loop b.innerLoop {}] {} := rfl
  rw [firstLoop?, body, loops]
  rfl

variable (policy : IndexPolicy)

def watch : Watch := ⟨b.array.name, policy⟩

theorem isElement_here : (b.watch policy).isElement b.here = true := by
  simp [Watch.isElement, Watch.elementIndex?, here, Expr.indexed?, Expr.name?, watch]

theorem isElement_next : (b.watch policy).isElement b.next = true := by
  simp [Watch.isElement, Watch.elementIndex?, next, Expr.indexed?, Expr.name?, watch]

theorem holdsSwap_exchanging : (b.watch policy).holdsSwap b.exchanging = true := by
  have here := b.isElement_here policy
  have next := b.isElement_next policy
  unfold exchanging
  rcases b.exchange with _ | ⟨_ | kind, t⟩
  · simp [Watch.holdsSwap, Watch.startsWithSwap, assigning, Watch.exchangesElements, here, next,
      sameText]
  · simp [Watch.holdsSwap, Watch.startsWithSwap, assigning, Watch.exchangesThrough, saved?,
      assigned?, Expr.name?, here, next, sameText]
  · simp [Watch.holdsSwap, Watch.startsWithSwap, assigning, declaring, Watch.exchangesThrough,
      saved?, assigned?, Expr.name?, here, next, sameText]

def relation : Relation := (Relation.ofSymbol? b.op.text).getD .eq

theorem ofSymbol?_op : Relation.ofSymbol? b.op.text = some b.relation := by
  have comparison := b.comparison
  unfold relation
  cases found : b.op <;> first | rfl | (rw [found] at comparison; cases comparison)

/-- Which neighbour stands on which side of the condition makes no difference. -/
theorem testRelation?_guard : (b.watch policy).testRelation? b.guard = some b.relation := by
  unfold guard
  split <;> simp [Watch.testRelation?, Watch.comparesElements, b.isElement_here policy,
    b.isElement_next policy, b.comparison, b.ofSymbol?_op]

theorem guardOf_inner :
    (b.watch policy).guardOf b.innerLoop.body.statements = .holding b.relation := by
  have body : b.innerLoop.body.statements =
      [.ifElse b.guard (.block b.exchanging {}) none {}] := rfl
  rw [body, Watch.guardOf, Watch.firstGuard?]
  simp [Watch.startsWithSwap, Watch.guardInside?, b.testRelation?_guard policy, Stmt.statements,
    b.holdsSwap_exchanging policy]

theorem range_counting (kind : DeclKind) (name : String) (l : Expr) (op : BinOp) (r : Expr)
    (s : Span) (body : List Stmt) (length : Int64) :
    LoopRange.ofLoop (counting kind name (.binary l op r s) body) length =
      ⟨some name, 0, length - 1⟩ := by
  have zero : (⟨false, .ofWhole 0⟩ : Signed).toInt64 = 0 :=
    Signed.toInt64_ofWhole false (Nat.zero_le _)
  have start : firstValue (.varDecl (declaring kind name (.whole 0))) = (some name, some 0) := by
    rw [← zero]
    rfl
  simp [LoopRange.ofLoop, counting, start, testSides?, Loop.test?, stopValue, Expr.number?]

def loops (length : Int64) : NestedLoops where
  outerLoop := b.outerLoop
  innerLoop := b.innerLoop
  outer := ⟨some b.outer.name, 0, length - 1⟩
  inner := ⟨some b.inner.name, 0, length - 1⟩
  innerStop := .shrinks
  guard := .holding b.relation

theorem innerStopOf_inner (start stop : Int64) :
    innerStopOf ⟨some b.outer.name, start, stop⟩ b.innerLoop = .shrinks := by
  have sides : testSides? b.innerLoop = some (.ident b.inner.name {}, b.innerStop) := rfl
  have mentioned : b.innerStop.mentions b.outer.name = true := by
    simp [innerStop, Expr.mentions]
  simp [innerStopOf, sides, mentioned]

theorem plan_tree (length : Nat) :
    LoopPlan.ofProgram b.tree (b.watch policy) length = .nested (b.loops (Int64.ofNat length)) := by
  obtain ⟨rest, found⟩ := b.loops_tree
  have outer : LoopRange.ofLoop b.outerLoop (Int64.ofNat length) =
      ⟨some b.outer.name, 0, Int64.ofNat length - 1⟩ := range_counting ..
  have inner : LoopRange.ofLoop b.innerLoop (Int64.ofNat length) =
      ⟨some b.inner.name, 0, Int64.ofNat length - 1⟩ := range_counting ..
  simp only [LoopPlan.ofProgram, found, b.firstLoop_outer, outer, inner, b.innerStopOf_inner,
    b.guardOf_inner, loops]

theorem leaves_literal (w : Watch) (stop : Node → Bool) {e : Expr}
    (numeric : e.number?.isSome = true) : ∀ o ∈ e.outline.walk stop, w.Leaves o.node := by
  have here {e : Expr} (none : w.pattern e = .unrecognized) : w.Leaves (.expr e) := by
    rintro e' ⟨⟩
    rw [none]
    rfl
  have digits (v : Magnitude) (s : Span) :
      ∀ o ∈ (Expr.number v s).outline.walk stop, w.Leaves o.node :=
    have plain : w.Leaves (.expr (.number v s)) := here rfl
    Outline.forall_walk plain fun _ => Outline.forall_walkAll_nil
  unfold Expr.number? at numeric
  split at numeric
  · exact digits _ _
  · exact Outline.forall_walk (here rfl) fun _ =>
      Outline.forall_walkAll_cons (digits _ _) Outline.forall_walkAll_nil
  · exact Outline.forall_walk (here rfl) fun _ =>
      Outline.forall_walkAll_cons (digits _ _) Outline.forall_walkAll_nil
  · cases numeric

theorem leaves_list (w : Watch) (stop : Node → Bool) :
    ∀ o ∈ (Expr.array b.literals {}).outline.walk stop, w.Leaves o.node := by
  have list : w.Leaves (.expr (.array b.literals {})) := by
    rintro e ⟨⟩
    rfl
  have elements : ∀ o ∈ Outline.walkAll stop (Expr.outlines b.literals), w.Leaves o.node := by
    have numeric := b.numeric
    generalize b.literals = literals at numeric ⊢
    induction literals with
    | nil => exact Outline.forall_walkAll_nil
    | cons e literals ih =>
      exact Outline.forall_walkAll_cons (leaves_literal w stop (numeric e (by simp)))
        (ih fun e member => numeric e (by simp [member]))
  exact Outline.forall_walk list fun _ => elements

theorem leaves_inFront (w : Watch) (stop : Node → Bool) :
    ∀ o ∈ b.inFront stop, w.Leaves o.node := by
  have list := b.leaves_list w stop
  intro o member
  simp only [inFront, List.mem_cons, List.mem_append, List.not_mem_nil, or_false] at member
  rcases member with rfl | rfl | rfl | rfl | member | rfl
  · exact nofun
  · exact nofun
  · exact nofun
  · exact nofun
  · exact list o member
  · exact nofun

theorem surroundings_tree (w : Watch) :
    (w.surroundings b.tree.outline).before = [] ∧ (w.surroundings b.tree.outline).after = [] :=
  w.surroundings_first (fun _ goesOn => b.walk_tree goesOn)
    (fun _ outside => b.inFront_noLoop outside) (b.leaves_inFront w)

theorem surroundings_outer (w : Watch) :
    (w.surroundings b.outerLoop.body.outline).before = [] ∧
      (w.surroundings b.outerLoop.body.outline).after = [] := by
  apply w.surroundings_first (fun _ goesOn => walk_block goesOn b.innerLoop {} {})
    (fun _ _ => block_noLoop b.innerLoop {} {})
  intro stop o member
  simp only [List.mem_cons, List.not_mem_nil, or_false] at member
  rcases member with rfl | rfl <;> exact nofun

theorem bodyActions_inner (w : Watch) : w.bodyActions b.innerLoop.body.statements = [] := rfl

end GuardedScript

end SortTrace.Synthesis
