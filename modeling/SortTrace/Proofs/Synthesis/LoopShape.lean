import Mathlib.Data.List.Basic
import SortTrace.Proofs.Results
import SortTrace.Proofs.Script.Contained
import SortTrace.Synthesis.LoopPlan

/-!
The shape of a plan, by the loops of a script: no loop, two loops one inside the other, or a single one.
-/

namespace SortTrace.Script

namespace Outline

theorem loops_walkAll (os : List Outline) :
    ((walkAll Node.isFunc os).map node).filterMap Node.loop? = os.flatMap loops := by
  induction os with
  | nil => rfl
  | cons o rest ih =>
    rw [walkAll, List.map_append, List.filterMap_append, ih, List.flatMap_cons]
    rfl

theorem loops_mk {n : Node} {below : List Outline} (outside : n.isFunc = false) :
    (mk n below).loops = n.loop?.toList ++ below.flatMap loops := by
  rw [loops, nodes, walk, outside, List.map_cons, ← loops_walkAll]
  cases n <;> rfl

end Outline

open Outline

theorem Expr.loops_outline (e : Expr) : e.outline.loops = [] :=
  loops_quiet (e.walk_noLoop fun _ => rfl)

theorem Declarator.loops_outline (d : Declarator) : d.outline.loops = [] := by
  rcases d with ⟨name, _ | e, s⟩
  · rfl
  · rw [Declarator.outline, loops_mk rfl]
    simp [Node.loop?, e.loops_outline]

theorem VarDecl.loops_outline (d : VarDecl) : d.outline.loops = [] := by
  obtain ⟨kind, ds, s⟩ := d
  have none : (Declarator.outlines ds).flatMap loops = [] := by
    induction ds with
    | nil => rfl
    | cons d rest ih => simp [Declarator.outlines, d.loops_outline, ih]
  rw [VarDecl.outline, loops_mk rfl, none]
  rfl

theorem Loop.loops_outline (l : Loop) : l.outline.loops = l :: l.body.outline.loops := by
  have own {below : List Outline} (parts : below.flatMap loops = l.body.outline.loops) :
      (Outline.mk (.loop l) below).loops = l :: l.body.outline.loops := by
    rw [loops_mk rfl, parts]
    rfl
  cases l with
  | forLoop init test update body s =>
    have header : init.outlines.flatMap loops = [] := by
      cases init <;> simp [ForInit.outlines, VarDecl.loops_outline, Expr.loops_outline]
    have option (e : Option Expr) : (Expr.optionOutlines e).flatMap loops = [] := by
      cases e <;> simp [Expr.optionOutlines, Expr.loops_outline]
    exact own (by simp only [List.flatMap_append, header, option]; simp [Loop.body])
  | _ => exact own (by simp [Expr.loops_outline, Loop.body])

theorem Outline.Genuine.loops_split {o : Outline} (genuine : o.Genuine) (parts : o.Parts) {l : Loop}
    {rest : List Loop} (listed : o.loops = l :: rest) :
    ∃ later, rest = l.body.outline.loops ++ later := by
  have walked : l.outline ∈ o.walk Node.isFunc := genuine.outline_mem (by simp [listed])
  have isLoop : l.outline.node.isLoop = true := by rw [l.node_outline]; rfl
  obtain ⟨before, x, after, parted⟩ := parts Node.isFunc (fun _ => rfl) ⟨_, walked, isLoop⟩
  have inside : x ∈ o.walk Node.isFunc := by
    rw [parted.visited_eq]
    simp [mem_walk_self]
  have own := genuine.walk x inside
  obtain ⟨m, shape⟩ : ∃ m, x.node = .loop m := by
    have isLoop := parted.isLoop
    cases kind : x.node with
    | loop m => exact ⟨m, rfl⟩
    | _ => simp [kind, Node.isLoop] at isLoop
  rw [Genuine, shape] at own
  -- In front of its first loop a walk lists none.
  have split : o.loops = m.outline.loops ++ (after.map node).filterMap Node.loop? := by
    rw [loops, nodes, parted.visited_eq, List.map_append, List.filterMap_append,
      loops_quiet parted.quiet, List.nil_append, List.map_append, List.filterMap_append, ← own]
    rfl
  rw [listed, m.loops_outline, List.cons_append, List.cons.injEq] at split
  obtain ⟨rfl, split⟩ := split
  exact ⟨_, split⟩

end SortTrace.Script

namespace SortTrace.Synthesis

open Script

theorem firstLoop?_eq_none {s : Stmt} (none : firstLoop? s = none) (l : Loop) :
    ¬ (Node.stmt s).Contains Node.isFunc (.loop l) := by
  intro contains
  have member : l ∈ s.outline.loops := Node.mem_loops_iff.mpr contains
  rw [List.head?_eq_none_iff.mp none] at member
  cases member

namespace LoopPlan

variable {text : String} {p : Program} {w : Watch} {length : Nat}

theorem second_loop (read : Program.ofText text = .ok p) {l inner : Loop} {rest : List Loop}
    (listed : p.outline.loops = l :: rest) (first : firstLoop? l.body = some inner) :
    (∃ later, rest = inner :: later) ∧ (Node.stmt l.body).Contains Node.isFunc (.loop inner) := by
  obtain ⟨parts, -⟩ := Program.ofText_parts read
  obtain ⟨later, split⟩ := p.genuine.loops_split parts listed
  obtain ⟨more, body⟩ := List.head?_eq_some_iff.mp first
  refine ⟨⟨more ++ later, by rw [split, body, List.cons_append]⟩, ?_⟩
  have member : inner ∈ l.body.outline.loops := by simp [body]
  exact Node.mem_loops_iff.mp member

inductive ShapedBy (loops : List Loop) : LoopPlan → Prop
  | none : loops = [] → ShapedBy loops .none
  | single {l : Loop} {rest : List Loop} {range : LoopRange} : loops = l :: rest →
      (∀ m, ¬ (Node.stmt l.body).Contains Node.isFunc (.loop m)) → ShapedBy loops (.single l range)
  | nested {nest : NestedLoops} {rest : List Loop} :
      loops = nest.outerLoop :: nest.innerLoop :: rest →
      (Node.stmt nest.outerLoop.body).Contains Node.isFunc (.loop nest.innerLoop) →
      ShapedBy loops (.nested nest)

theorem ofProgram_shapedBy (read : Program.ofText text = .ok p) (w : Watch) (length : Nat) :
    ShapedBy p.outline.loops (ofProgram p w length) := by
  unfold ofProgram
  cases listed : p.outline.loops with
  | nil => exact .none rfl
  | cons l rest =>
    cases first : firstLoop? l.body with
    | none =>
      simp only [first]
      exact .single rfl (firstLoop?_eq_none first)
    | some inner =>
      simp only [first]
      obtain ⟨⟨later, rfl⟩, inside⟩ := second_loop read listed first
      exact .nested rfl inside

/-- The loops outside functions are listed once each, by where they start. A plan has none of them, or
the first two if the second stands in the body of the first, or else the first alone. -/
theorem ofProgram_shape (read : Program.ofText text = .ok p) (w : Watch) (length : Nat) :
    (∀ l, l ∈ p.outline.loops ↔ (Node.program p).Contains Node.isFunc (.loop l)) ∧
    p.outline.loops.Pairwise (fun l m => l.span.start < m.span.start) ∧
    (ofProgram p w length = none ↔ p.outline.loops = []) ∧
    (∀ l m, (∃ nest, ofProgram p w length = nested nest ∧ nest.outerLoop = l ∧ nest.innerLoop = m) ↔
      ∃ rest, p.outline.loops = l :: m :: rest ∧
        (Node.stmt l.body).Contains Node.isFunc (.loop m)) ∧
    ∀ l, (∃ range, ofProgram p w length = single l range) ↔
      ∃ rest, p.outline.loops = l :: rest ∧
        ∀ m, rest.head? = some m → ¬ (Node.stmt l.body).Contains Node.isFunc (.loop m) := by
  refine ⟨fun l => @Node.mem_loops_iff (.program p) l, Program.ofText_loops_apart read, ?_⟩
  have shaped := ofProgram_shapedBy read w length
  revert shaped
  generalize ofProgram p w length = plan, p.outline.loops = loops
  rintro (listed | ⟨listed, outside⟩ | ⟨listed, inside⟩)
  · subst listed
    simp
  · subst listed
    refine ⟨by simp, fun l m => ?_, fun l => ?_⟩
    · constructor
      · rintro ⟨nest, same, -⟩
        cases same
      · rintro ⟨rest, same, inside⟩
        cases same
        exact absurd inside (outside m)
    · constructor
      · rintro ⟨range, same⟩
        cases same
        exact ⟨_, rfl, fun m _ => outside m⟩
      · rintro ⟨rest, same, -⟩
        cases same
        exact ⟨_, rfl⟩
  · subst listed
    refine ⟨by simp, fun l m => ?_, fun l => ?_⟩
    · constructor
      · rintro ⟨nest, same, rfl, rfl⟩
        cases same
        exact ⟨_, rfl, inside⟩
      · rintro ⟨rest, same, -⟩
        cases same
        exact ⟨_, rfl, rfl, rfl⟩
    · constructor
      · rintro ⟨range, same⟩
        cases same
      · rintro ⟨rest, same, alone⟩
        cases same
        exact absurd inside (alone _ rfl)

def threeLoopsText : String := "for(;f(()=>\x7bfor(;;);\x7d);)\x7bfor(;;);\x7dfor(;;);"

theorem ofProgram_threeLoops : ∃ p l m n nest, Program.ofText threeLoopsText = .ok p ∧
    p.outline.loops = [l, m, n] ∧ l.span.start < m.span.start ∧ m.span.start < n.span.start ∧
    ofProgram p ⟨"a", .placeholder⟩ 3 = nested nest ∧ nest.outerLoop = l ∧ nest.innerLoop = m := by
  have seen : ((Program.ofText threeLoopsText).toOption.map fun p =>
      (p.outline.loops.length, (ofProgram p ⟨"a", .placeholder⟩ 3).name)) =
      some (3, "nested") := by decide +kernel
  obtain ⟨p, found, seen⟩ := Option.map_eq_some_iff.mp seen
  simp only [Prod.mk.injEq, List.length_eq_three] at seen
  obtain ⟨⟨l, m, n, listed⟩, named⟩ := seen
  have read := ok_of_toOption found
  obtain ⟨-, apart, -, shape, -⟩ := ofProgram_shape read ⟨"a", .placeholder⟩ 3
  cases plan : ofProgram p ⟨"a", .placeholder⟩ 3 with
  | nested nest =>
    obtain ⟨rest, first, -⟩ := (shape _ _).mp ⟨nest, plan, rfl, rfl⟩
    rw [listed] at apart first
    cases first
    simp only [List.pairwise_cons, List.mem_cons, forall_eq_or_imp] at apart
    exact ⟨p, _, _, n, nest, read, listed, apart.1.1, apart.2.1.1, plan, rfl, rfl⟩
  | _ => simp [plan, name] at named

end LoopPlan

end SortTrace.Synthesis
